import BraceParams.Proofs.Json.RoundTrip

namespace BraceParams.Json

theorem Scans.compactMember {a : List Char} {ts : List Token} (key : List Char) (ha : Scans a ts) :
    Scans (Json.quote key ++ ':' :: a) (.string key :: .colon :: ts) :=
  (quote key).append (.mark rfl ha)

mutual

theorem scans_compact (value : Json) : Scans value.compact value.tokens := by
  cases value with
  | string s =>
    rw [compact, tokens]
    exact .quote s
  | true =>
    rw [compact, tokens]
    exact .word
  | array items =>
    rw [compact, tokens]
    exact (Scans.mark rfl (scans_compactItems items)).append (.mark rfl .nil)
  | object members =>
    rw [compact, tokens]
    exact (Scans.mark rfl (scans_compactMembers members)).append (.mark rfl .nil)

theorem scans_compactItems (items : List Json) : Scans (compactItems items) (itemTokens items) := by
  match items with
  | [] => exact .nil
  | [item] =>
    rw [compactItems, itemTokens]
    exact scans_compact item
  | item :: next :: rest =>
    rw [compactItems, itemTokens]
    · exact (scans_compact item).append (.mark rfl (scans_compactItems (next :: rest)))
    all_goals exact List.cons_ne_nil next rest

theorem scans_compactMembers (members : List (List Char × Json)) :
    Scans (compactMembers members) (memberTokens members) := by
  match members with
  | [] => exact .nil
  | [(key, value)] =>
    rw [compactMembers, memberTokens]
    exact .compactMember key (scans_compact value)
  | (key, value) :: next :: rest =>
    rw [compactMembers, memberTokens]
    · exact (Scans.compactMember key (scans_compact value)).append (.mark rfl (scans_compactMembers (next :: rest)))
    all_goals exact List.cons_ne_nil next rest

end

theorem read?_compact (value : Json) : read? value.compact = some value :=
  read?_of_scans (scans_compact value)

theorem read?_pretty (value : Json) : read? (value.pretty 0) = some value :=
  read?_of_scans (scans_pretty 0 value)

end BraceParams.Json
