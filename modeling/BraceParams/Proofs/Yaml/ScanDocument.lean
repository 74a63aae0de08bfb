import BraceParams.Proofs.Yaml.Parts
import BraceParams.Proofs.Yaml.ScanBlock

namespace BraceParams.Yaml

open Write

namespace Scanner

variable {bs : List Nat} {key s rest : List Char} {later : List Token.Kind}

theorem isKey {key : String} (h : key ∈ ["params", "name", "value", "values", "expand"]) : IsKey key.toList := by
  simp only [List.mem_cons, List.not_mem_nil, or_false] at h
  rcases h with rfl | rfl | rfl | rfl | rfl <;> exact ⟨by decide, by decide, by simp [isSpace], by decide⟩

theorem LineServes.text (hk : IsKey key) (value : String) (h : LineServes 2 bs rest later) :
    LineServes 2 bs (spaces 2 ++ (key ++ ':' :: ' ' :: (scalarLine scalarIndent value.toList ++ rest)))
      (memberKinds (key, Part.text value) ++ later) :=
  .inlineKey hk (startsToken_scalarLine scalarIndent _ rest) (serves_scalar (by omega) h)

theorem LineServes.items (values : List String) (h : LineServes 2 bs rest later) :
    LineServes 2 bs ((values.flatMap fun value => "  - ".toList ++ scalarLine scalarIndent value.toList) ++ rest)
      (itemKinds (values.map Part.text) ++ later) := by
  induction values with
  | nil => exact h
  | cons value values ih =>
    rw [List.flatMap_cons, List.append_assoc, List.append_assoc]
    refine .ofEntry rfl (.space (by omega) (startsToken_scalarLine 4 _ _) ?_)
    exact serves_scalar (by omega) ih

theorem fieldLine_value (value : String) : fieldLine "  value" value =
    spaces 2 ++ ("value".toList ++ ':' :: ' ' :: scalarLine scalarIndent value.toList) :=
  rfl

theorem LineServes.ofValue (value : Option String) (h : LineServes 2 bs rest later) :
    LineServes 2 bs
      ((match value with
        | some value => fieldLine "  value" value
        | none => []) ++ rest)
      ((Part.ofValue value).flatMap memberKinds ++ later) := by
  have hk : IsKey "value".toList := isKey (by simp)
  cases value with
  | none => exact h
  | some value =>
    rw [Part.ofValue, List.flatMap_singleton]
    dsimp only
    rw [fieldLine_value, List.append_assoc, List.append_assoc]
    exact .text hk value h

theorem valuesLines_nil : valuesLines [] = spaces 2 ++ ("values".toList ++ [':', ' ', '[', ']', '\n']) :=
  rfl

theorem valuesLines_cons (value : String) (values : List String) :
    valuesLines (value :: values) = spaces 2 ++ ("values".toList ++ ':' :: '\n' ::
      (value :: values).flatMap fun value => "  - ".toList ++ scalarLine scalarIndent value.toList) :=
  rfl

theorem LineServes.ofValues (values : Option (List String)) (h : LineServes 2 bs rest later) :
    LineServes 2 bs
      ((match values with
        | some values => valuesLines values
        | none => []) ++ rest)
      ((Part.ofValues values).flatMap memberKinds ++ later) := by
  have hk : IsKey "values".toList := isKey (by simp)
  match values with
  | none => exact h
  | some [] =>
    rw [Part.ofValues, List.flatMap_singleton]
    dsimp only
    rw [valuesLines_nil, List.append_assoc, List.append_assoc]
    exact .emptyKey hk h
  | some (value :: values) =>
    rw [Part.ofValues, List.flatMap_singleton]
    dsimp only
    rw [valuesLines_cons, List.append_assoc, List.append_assoc]
    exact .lineKey hk (.items (value :: values) h)

theorem expand_line : "  expand: true\n".toList = spaces 2 ++ ("expand".toList ++ ':' :: ' ' :: ("true".toList ++ ['\n'])) :=
  rfl

theorem LineServes.ofExpand (expand : Bool) (h : LineServes 2 bs rest later) :
    LineServes 2 bs ((if expand then "  expand: true\n".toList else []) ++ rest)
      ((Part.ofExpand expand).flatMap memberKinds ++ later) := by
  have hk : IsKey "expand".toList := isKey (by simp)
  have ha : allowsPlain "true".toList := by decide
  have hs : startsToken ("true".toList ++ '\n' :: rest) := startsToken_of_allowsPlain ha (by decide)
  cases expand with
  | false => exact h
  | true =>
    rw [if_pos rfl, Part.ofExpand, if_pos rfl, List.flatMap_singleton, expand_line, List.append_assoc, List.append_assoc,
      List.cons_append, List.cons_append, List.append_assoc]
    exact .inlineKey hk hs (serves_plain ha (by decide) (by omega) h)

theorem fieldLine_name (name : String) :
    fieldLine "- name" name = '-' :: ' ' :: ("name".toList ++ ':' :: ' ' :: scalarLine scalarIndent name.toList) :=
  rfl

theorem recordKinds_fields (e : Entry) (later : List Token.Kind) : recordKinds (Part.fields e) ++ later =
    .blockMappingStart :: (memberKinds ("name".toList, Part.text e.name) ++
      ((Part.ofValue e.value).flatMap memberKinds ++ ((Part.ofValues e.values).flatMap memberKinds ++
        ((Part.ofExpand e.expand).flatMap memberKinds ++ .blockEnd :: later)))) := by
  simp only [recordKinds, Part.fields, List.flatMap_cons, List.flatMap_append, List.cons_append, List.append_assoc,
    List.nil_append]

theorem LineServes.entry (e : Entry) (h : LineServes 0 [] rest later) :
    LineServes 0 [] (entryLines e ++ rest) (.blockEntry :: recordKinds (Part.fields e) ++ later) := by
  have hb : LineServes 2 [0] rest (.blockEnd :: later) := h.deeper (by omega)
  have ho := ((hb.ofExpand e.expand).ofValues e.values).ofValue e.value
  have hk : IsKey "name".toList := isKey (by simp)
  have hname : Spot.Serves ⟨[2, 0], false, 2 + "name".toList.length + 2, _⟩ _ :=
    serves_scalar (s := e.name.toList) (by omega) ho
  have hkey := serves_key hk (.deeper [] (by omega)) rfl (.space (by omega) (startsToken_scalarLine _ _ _) hname)
  have hs : ∀ tail, startsToken ("name".toList ++ tail) :=
    fun _ => startsToken_of_allowsPlain hk.allowed hk.nonempty
  rw [entryLines, List.append_assoc, List.append_assoc, List.append_assoc, fieldLine_name, List.cons_append,
    List.cons_append, List.append_assoc, List.cons_append, List.cons_append, List.cons_append, recordKinds_fields]
  exact .ofEntry rfl (.space (by omega) (hs _) hkey)

theorem LineServes.entries (params : List Param) :
    LineServes 0 [] (params.flatMap fun p => entryLines p.toEntry)
      (itemKinds (params.map fun p => Part.record (Part.fields p.toEntry)) ++ [.blockEnd, .streamEnd]) := by
  induction params with
  | nil => exact .of_spot rfl serves_end
  | cons p params ih =>
    rw [List.flatMap_cons, List.map_cons, itemKinds, List.flatMap_cons, ← itemKinds, List.append_assoc]
    exact ih.entry p.toEntry

theorem serves_document (d : Document) :
    Spot.Serves ⟨[], true, 0, Write.document d⟩ (recordKinds (Part.document d) ++ [.streamEnd]) := by
  have hk : IsKey "params".toList := isKey (by simp)
  obtain ⟨params⟩ := d
  rw [Write.document]
  cases params with
  | nil =>
    have hl : LineServes 0 [] [] [.blockEnd, .streamEnd] := .of_spot rfl serves_end
    have hflow := serves_emptyFlow (k := 0 + "params".toList.length + 2) (.newLine hl)
    exact serves_key hk .first rfl (.space (by omega) rfl hflow)
  | cons p params =>
    have ht : "params:\n".toList = "params".toList ++ [':', '\n'] := rfl
    rw [if_neg (by simp), ht, List.append_assoc]
    have hkey := serves_key hk .first rfl (.newLine (LineServes.entries (p :: params)))
    have hkinds : recordKinds (Part.document ⟨p :: params⟩) ++ [.streamEnd] =
        .blockMappingStart :: .key :: .scalar "params".toList .plain :: .value ::
          (itemKinds ((p :: params).map fun p => Part.record (Part.fields p.toEntry)) ++ [.blockEnd, .streamEnd]) := by
      rw [recordKinds, Part.document, List.flatMap_singleton, List.cons_append, List.append_assoc]
      rfl
    rw [hkinds]
    exact hkey

end Scanner

theorem document_eq (d : Document) : ∃ r, Write.document d = 'p' :: r := by
  rw [Write.document]
  split
  · exact ⟨_, rfl⟩
  · exact ⟨_, rfl⟩

theorem tokens_document (d : Document) :
    ∃ l, Tokens.ofText (Write.document d) = ⟨l, none⟩ ∧ l.map Token.kind = recordKinds (Part.document d) ++ [.streamEnd] := by
  obtain ⟨r, hr⟩ := document_eq d
  let s : Scanner := { cursor := .ofText (Write.document d) }
  have hs : s.settle = .ok s := by
    refine (Scanner.settle_of_fresh rfl ?_ (by rintro _ ⟨⟩) rfl).2
    change startsToken (Write.document d)
    rw [hr]
    rfl
  rw [tokens_ofText (plain_document d)]
  exact Scanner.serves_document d .start [] 0 rfl s _ hs (Nat.lt_succ_self _)

end BraceParams.Yaml
