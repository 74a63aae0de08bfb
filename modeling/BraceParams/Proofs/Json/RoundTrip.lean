import Mathlib.Tactic.SplitIfs
import BraceParams.Proofs.Json.Read

namespace BraceParams.Json

open Text (hexDigit hexValue?_hexDigit charOfCode?_toNat)

mutual

def tokens : Json → List Token
  | string s => [.string s]
  | true => [.word]
  | array items => .openArray :: itemTokens items ++ [.closeArray]
  | object members => .openObject :: memberTokens members ++ [.closeObject]

def itemTokens : List Json → List Token
  | [] => []
  | [item] => item.tokens
  | item :: rest => item.tokens ++ .comma :: itemTokens rest

def memberTokens : List (List Char × Json) → List Token
  | [] => []
  | [(key, value)] => .string key :: .colon :: value.tokens
  | (key, value) :: rest => .string key :: .colon :: value.tokens ++ .comma :: memberTokens rest

end

/-- The text is scanned as these tokens, whatever follows it. -/
def Scans (text : List Char) (ts : List Token) : Prop :=
  ∀ r, scan .between (text ++ r) = (scan .between r).map (ts ++ ·)

namespace Scans

variable {a b : List Char} {ts us : List Token}

theorem nil : Scans [] [] := by
  intro r
  simp

theorem append (ha : Scans a ts) (hb : Scans b us) : Scans (a ++ b) (ts ++ us) := by
  intro r
  rw [List.append_assoc, ha, hb, Option.map_map]
  congr 1
  funext vs
  rw [Function.comp_apply, List.append_assoc]

theorem space {c : Char} (hc : isSpace c) (ha : Scans a ts) : Scans (c :: a) ts := by
  intro r
  rw [List.cons_append, scan, if_pos hc, ha]

theorem indentation (depth : Nat) (ha : Scans a ts) : Scans (indentation depth ++ a) ts := by
  apply space rfl
  induction 2 * depth with
  | zero => exact ha
  | succ n ih => exact space rfl ih

end Scans

theorem scan_code {c : Char} (h : c.toNat < 0x20) (read r : List Char) :
    scan (.text read)
        ('\\' :: 'u' :: '0' :: '0' :: hexDigit 'a' (c.toNat / 16) :: hexDigit 'a' (c.toNat % 16) :: r) =
      scan (.text (c :: read)) r := by
  have hcode : 16 * (16 * 0 + c.toNat / 16) + c.toNat % 16 = c.toNat := by omega
  change scan (.code 1 0 read) _ = _
  rw [scan, hexValue?_hexDigit (.inr rfl) _ (by omega), Option.bind_some]
  dsimp only
  rw [scan, hexValue?_hexDigit (.inr rfl) _ (by omega), Option.bind_some, hcode]
  dsimp only
  rw [charOfCode?_toNat, Option.bind_some]

theorem scan_escapeChar (c : Char) (read r : List Char) :
    scan (.text read) (escapeChar c ++ r) = scan (.text (c :: read)) r := by
  rw [escapeChar]
  split_ifs with h₁ h₂ h₃ h₄ h₅ h₆ h₇ h₈
  · rw [h₁]; rfl
  · rw [h₂]; rfl
  · rw [h₃]; rfl
  · rw [h₄]; rfl
  · rw [h₅]; rfl
  · rw [h₆]; rfl
  · rw [h₇]; rfl
  · exact scan_code h₈ read r
  · rw [List.singleton_append, scan, if_neg h₁, if_neg h₂, if_neg h₈]

theorem scan_flatMap (s read r : List Char) :
    scan (.text read) (s.flatMap escapeChar ++ r) = scan (.text (s.reverse ++ read)) r := by
  induction s generalizing read with
  | nil => rfl
  | cons c s ih =>
    rw [List.flatMap_cons, List.append_assoc, scan_escapeChar, ih, List.reverse_cons, List.append_assoc]
    rfl

namespace Scans

theorem quote (s : List Char) : Scans (quote s) [.string s] := by
  intro r
  change scan (.text []) (s.flatMap escapeChar ++ ['"'] ++ r) = _
  rw [List.append_assoc, scan_flatMap, List.append_nil]
  change (scan .between r).map (Token.string s.reverse.reverse :: ·) = _
  rw [List.reverse_reverse]
  rfl

theorem mark {c : Char} {token : Token} {a : List Char} {ts : List Token} (h : mark? c = some token)
    (ha : Scans a ts) : Scans (c :: a) (token :: ts) := by
  intro r
  have hspace : ¬isSpace c := by
    intro hc
    rw [isSpace, Bool.or_eq_true, Bool.or_eq_true, Bool.or_eq_true] at hc
    simp only [decide_eq_true_eq] at hc
    rcases hc with ((rfl | rfl) | rfl) | rfl <;> cases h
  have hquote : c ≠ '"' := by
    rintro rfl
    cases h
  have hword : c ≠ 't' := by
    rintro rfl
    cases h
  rw [List.cons_append, scan, if_neg hspace, if_neg hquote, if_neg hword, h, Option.bind_some, ha, Option.map_map]
  rfl

theorem word : Scans "true".toList [.word] :=
  fun _ => rfl

theorem prettyMember {a : List Char} {ts : List Token} (depth : Nat) (key : List Char) (ha : Scans a ts) :
    Scans (Json.indentation depth ++ Json.quote key ++ ": ".toList ++ a) (.string key :: .colon :: ts) := by
  rw [List.append_assoc, List.append_assoc]
  exact .indentation depth ((quote key).append (.mark rfl (.space rfl ha)))

end Scans

mutual

theorem scans_pretty (depth : Nat) (value : Json) : Scans (value.pretty depth) value.tokens := by
  cases value with
  | string s =>
    rw [pretty, tokens]
    exact .quote s
  | true =>
    rw [pretty, tokens]
    exact .word
  | array items =>
    rw [tokens]
    cases items with
    | nil => exact .mark rfl (.mark rfl .nil)
    | cons item items =>
      rw [pretty, List.append_assoc]
      · exact (Scans.mark rfl (scans_prettyItems (depth + 1) (item :: items))).append (.indentation depth (.mark rfl .nil))
      · exact List.cons_ne_nil item items
  | object members =>
    rw [tokens]
    cases members with
    | nil => exact .mark rfl (.mark rfl .nil)
    | cons m members =>
      rw [pretty, List.append_assoc]
      · exact (Scans.mark rfl (scans_prettyMembers (depth + 1) (m :: members))).append
          (.indentation depth (.mark rfl .nil))
      · exact List.cons_ne_nil m members

theorem scans_prettyItems (depth : Nat) (items : List Json) : Scans (prettyItems depth items) (itemTokens items) := by
  match items with
  | [] => exact .nil
  | [item] =>
    rw [prettyItems, itemTokens]
    exact .indentation depth (scans_pretty depth item)
  | item :: next :: rest =>
    rw [prettyItems, itemTokens]
    · exact (Scans.indentation depth (scans_pretty depth item)).append (.mark rfl (scans_prettyItems depth (next :: rest)))
    all_goals exact List.cons_ne_nil next rest

theorem scans_prettyMembers (depth : Nat) (members : List (List Char × Json)) :
    Scans (prettyMembers depth members) (memberTokens members) := by
  match members with
  | [] => exact .nil
  | [(key, value)] =>
    rw [prettyMembers, memberTokens]
    exact .prettyMember depth key (scans_pretty depth value)
  | (key, value) :: next :: rest =>
    rw [prettyMembers, memberTokens]
    · exact (Scans.prettyMember depth key (scans_pretty depth value)).append
        (.mark rfl (scans_prettyMembers depth (next :: rest)))
    all_goals exact List.cons_ne_nil next rest

end

theorem tokens_eq_cons (value : Json) : ∃ token rest, value.tokens = token :: rest ∧ token ≠ .closeArray := by
  cases value <;> exact ⟨_, _, rfl, Token.noConfusion⟩

theorem itemTokens_ne (item : Json) (items : List Json) (a b : List Token) :
    itemTokens (item :: items) ++ a ≠ .closeArray :: b := by
  obtain ⟨token, rest, ht, hne⟩ := item.tokens_eq_cons
  cases items with
  | nil =>
    rw [itemTokens, ht]
    exact fun h => hne (List.cons.inj h).1
  | cons next items =>
    rw [itemTokens, ht]
    · exact fun h => hne (List.cons.inj h).1
    · exact List.cons_ne_nil next items

theorem memberTokens_ne (m : List Char × Json) (members : List (List Char × Json)) (a b : List Token) :
    memberTokens (m :: members) ++ a ≠ .closeObject :: b := by
  cases members <;> exact fun h => Token.noConfusion (List.cons.inj h).1

structure Reads (fuel : Nat) : Prop where
  value : ∀ value r, value.tokens.length ≤ fuel → value? fuel (value.tokens ++ r) = some (value, r)
  items : ∀ item items r, (itemTokens (item :: items)).length < fuel →
    items? fuel (itemTokens (item :: items) ++ .closeArray :: r) = some (item :: items, r)
  members : ∀ m members r, (memberTokens (m :: members)).length < fuel →
    members? fuel (memberTokens (m :: members) ++ .closeObject :: r) = some (m :: members, r)

namespace Reads

variable {fuel : Nat}

theorem value_succ (hf : Reads fuel) (value : Json) (r : List Token) (h : value.tokens.length ≤ fuel + 1) :
    value? (fuel + 1) (value.tokens ++ r) = some (value, r) := by
  cases value with
  | string s => rfl
  | true => rfl
  | array items =>
    cases items with
    | nil => rfl
    | cons item items =>
      rw [tokens, List.length_append, List.length_cons, List.length_singleton] at h
      have hi := hf.items item items r (by omega)
      rw [tokens, List.cons_append, List.cons_append, List.append_assoc, List.singleton_append, value?, hi]
      · rfl
      · exact fun b => itemTokens_ne item items _ b
  | object members =>
    cases members with
    | nil => rfl
    | cons m members =>
      rw [tokens, List.length_append, List.length_cons, List.length_singleton] at h
      have hm := hf.members m members r (by omega)
      rw [tokens, List.cons_append, List.cons_append, List.append_assoc, List.singleton_append, value?, hm]
      · rfl
      · exact fun b => memberTokens_ne m members _ b

theorem items_succ (hf : Reads fuel) (item : Json) (items : List Json) (r : List Token)
    (h : (itemTokens (item :: items)).length < fuel + 1) :
    items? (fuel + 1) (itemTokens (item :: items) ++ .closeArray :: r) = some (item :: items, r) := by
  cases items with
  | nil => rw [itemTokens, items?, hf.value item _ (Nat.le_of_lt_succ h)]
  | cons next items =>
    have ht : itemTokens (item :: next :: items) = item.tokens ++ .comma :: itemTokens (next :: items) := rfl
    rw [ht, List.length_append, List.length_cons] at h
    have hi := hf.items next items r (by omega)
    rw [ht, List.append_assoc, List.cons_append, items?, hf.value item _ (by omega)]
    dsimp only
    rw [hi]
    rfl

theorem members_succ (hf : Reads fuel) (m : List Char × Json) (members : List (List Char × Json)) (r : List Token)
    (h : (memberTokens (m :: members)).length < fuel + 1) :
    members? (fuel + 1) (memberTokens (m :: members) ++ .closeObject :: r) = some (m :: members, r) := by
  obtain ⟨key, value⟩ := m
  cases members with
  | nil =>
    have ht : memberTokens [(key, value)] = .string key :: .colon :: value.tokens := rfl
    rw [ht, List.length_cons, List.length_cons] at h
    rw [ht, List.cons_append, List.cons_append, members?, hf.value value _ (by omega)]
  | cons next members =>
    have ht : memberTokens ((key, value) :: next :: members) =
      .string key :: .colon :: value.tokens ++ .comma :: memberTokens (next :: members) := rfl
    rw [ht, List.length_append, List.length_cons, List.length_cons, List.length_cons] at h
    have hm := hf.members next members r (by omega)
    rw [ht, List.append_assoc, List.cons_append, List.cons_append, List.cons_append, members?,
      hf.value value _ (by omega)]
    dsimp only
    rw [hm]
    rfl

end Reads

theorem reads (fuel : Nat) : Reads fuel := by
  induction fuel with
  | zero =>
    refine ⟨fun value r h => ?_, fun item items r h => absurd h (Nat.not_lt_zero _),
      fun m members r h => absurd h (Nat.not_lt_zero _)⟩
    obtain ⟨token, rest, ht, -⟩ := value.tokens_eq_cons
    rw [ht] at h
    cases h
  | succ fuel ih => exact ⟨ih.value_succ, ih.items_succ, ih.members_succ⟩

theorem read?_of_scans {text : List Char} {value : Json} (h : Scans text value.tokens) : read? text = some value := by
  have hs := h []
  rw [List.append_nil] at hs
  have hv := (reads (value.tokens.length + 1)).value value [] (Nat.le_succ _)
  rw [List.append_nil] at hv
  rw [read?, hs]
  simp [scan, hv]

theorem read?_prettyLine (value : Json) : read? (value.pretty 0 ++ ['\n']) = some value := by
  apply read?_of_scans
  rw [← List.append_nil value.tokens]
  exact (scans_pretty 0 value).append (.space rfl .nil)

end BraceParams.Json
