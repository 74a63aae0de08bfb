import BraceParams.Proofs.Parse.Entries
import BraceParams.Proofs.Report.NameLine
import BraceParams.Proofs.Schema.Elements

/-!
Where the report on a first entry that stands for no parameter points: at a line found by its text, which need
not be that of the entry.
-/

namespace BraceParams

open Report Schema Yaml

/-- Line and column of the key `name` of element `k`, both counted from one. -/
def ownPlace? (source : List Char) (k : Nat) : Option (Nat × Nat) := do
  let t := treeOf source
  let element ← (elements t)[k]?
  let (key, _) ← memberOf? t "name" element
  let mark := nodeMark key
  some (mark.line + 1, mark.column + 1)

def ReportedAtOwnPlace (source : String) : Prop :=
  ∀ entries k entry e, read source.toList readEntries = .ok entries →
    FirstFailure Entry.toParam entries k entry e → ∃ d, Document.parse source = .error d ∧
      d.kind = .invalidValue ∧ d.message = e.message ∧
      (ownPlace? source.toList k = some (d.line, d.column) ∨ d.line = 0 ∧ d.column = 0 ∧ d.context = "")

theorem exists_ownPlace {source : String} {entries : List Entry} {k : Nat}
    (h : read source.toList readEntries = .ok entries) (hk : k < entries.length) :
    ∃ l c, ownPlace? source.toList k = some (l + 1, c + 1) := by
  obtain ⟨⟨jumps, hr⟩, -⟩ := read_eq_ok.mp h
  have hg : (treeOf source.toList).anchors.Grounded := Tree.grounded_ofEvents _
  have hnamed := named_elements hg hr
  have hlt : k < (elements (treeOf source.toList)).length := by rwa [hnamed.length_eq]
  obtain ⟨key, value, hm, -⟩ := hnamed.get hlt hk
  rw [List.get_eq_getElem] at hm
  refine ⟨(nodeMark key).line, (nodeMark key).column, ?_⟩
  rw [ownPlace?]
  dsimp only
  rw [List.getElem?_eq_getElem hlt, Option.bind_eq_bind, Option.bind_some, hm]
  rfl

/-- The report is at the entry's own place exactly if its name is given there, behind as many lines of that name as there
are earlier entries of it. -/
theorem parse_firstFailure_place {source : String} {entries : List Entry} {k : Nat} {entry : Entry} {e : EntryError}
    (h : read source.toList readEntries = .ok entries) (hf : FirstFailure Entry.toParam entries k entry e) :
    ∃ l c, ownPlace? source.toList k = some (l + 1, c + 1) ∧
      ∃ d, Document.parse source = .error d ∧ d.kind = .invalidValue ∧ d.message = e.message ∧
        ((∃ i text offset, (Text.lines source.toList)[i]? = some text ∧
            nameOfLine? text = some (entry.name.toList, offset) ∧
            ((Text.lines source.toList).take i).countP (gives entry.name.toList) =
              ((entries.take k).map Entry.name).count entry.name ∧
            d.line = i + 1 ∧ d.column = offset + 1) ∨
          (Text.lines source.toList).countP (gives entry.name.toList) ≤
              ((entries.take k).map Entry.name).count entry.name ∧
            d.line = 0 ∧ d.column = 0 ∧ d.context = "") ∧
        ((d.line, d.column) = (l + 1, c + 1) ↔
          ∃ text, (Text.lines source.toList)[l]? = some text ∧
            nameOfLine? text = some (entry.name.toList, c) ∧
            ((Text.lines source.toList).take l).countP (gives entry.name.toList) =
              ((entries.take k).map Entry.name).count entry.name) := by
  have hk := (List.getElem?_eq_some_iff.mp hf.element).1
  obtain ⟨l, c, hown⟩ := exists_ownPlace h hk
  obtain ⟨line, column, hparse, hplace⟩ := parse_of_firstFailure h hf
  refine ⟨l, c, hown, _, hparse, Diagnostic.kind_ofEntryError .., Diagnostic.message_ofEntryError .., ?_⟩
  rw [Diagnostic.line_ofEntryError, Diagnostic.column_ofEntryError]
  refine ⟨?_, by rw [← hplace, nameLine?_getD_eq_iff]⟩
  cases hn : nameLine? source.toList entry.name.toList (((entries.take k).map Entry.name).count entry.name) with
  | none =>
    rw [hn] at hplace
    cases hplace
    exact .inr ⟨nameLine?_eq_none_iff.mp hn, rfl, rfl, Diagnostic.context_ofEntryError_zero ..⟩
  | some place =>
    rw [hn] at hplace
    cases hplace
    obtain ⟨i, text, offset, hi, ht, hc, hl, hcol⟩ := nameLine?_eq_some_iff.mp hn
    exact .inl ⟨i, text, offset, hi, ht, hc, hl, hcol⟩

theorem parse_firstFailure_place_scalar :
    read "params:\n- name: a\n  value: |\n    x\n    name: b\n- name: b\n".toList readEntries =
        .ok [⟨"a", some "x\nname: b\n", none, false⟩, ⟨"b", none, none, false⟩] ∧
      FirstFailure Entry.toParam [⟨"a", some "x\nname: b\n", none, false⟩, ⟨"b", none, none, false⟩] 1
        ⟨"b", none, none, false⟩ (.missingValue "b") ∧
      ∃ d, Document.parse "params:\n- name: a\n  value: |\n    x\n    name: b\n- name: b\n" = .error d ∧
        d.kind = .invalidValue ∧ d.line = 5 ∧ d.column = 5 := by
  have h : read "params:\n- name: a\n  value: |\n    x\n    name: b\n- name: b\n".toList readEntries =
      .ok [⟨"a", some "x\nname: b\n", none, false⟩, ⟨"b", none, none, false⟩] :=
    eq_ok_of_toOption (by decide +kernel)
  have hf : FirstFailure Entry.toParam [⟨"a", some "x\nname: b\n", none, false⟩, ⟨"b", none, none, false⟩] 1
      ⟨"b", none, none, false⟩ (.missingValue "b") := .succ rfl (.zero rfl)
  have hl : nameLine? "params:\n- name: a\n  value: |\n    x\n    name: b\n- name: b\n".toList "b".toList 0 =
      some (5, 5) := by decide +kernel
  obtain ⟨-, -, -, d, hd, hk, -, hplace, -⟩ := parse_firstFailure_place h hf
  refine ⟨h, hf, d, hd, hk, ?_⟩
  rcases hplace with ⟨i, text, offset, hi, ht, hc, hline, hcolumn⟩ | ⟨hc, -⟩
  · have hl' := hl.symm.trans (nameLine?_eq_some_iff.mpr ⟨i, text, offset, hi, ht, hc, hline, hcolumn⟩)
    rw [Option.some.injEq, Prod.mk.injEq] at hl'
    exact ⟨hl'.1.symm, hl'.2.symm⟩
  · cases hl.symm.trans (nameLine?_eq_none_iff.mpr hc)

theorem not_reportedAtOwnPlace : ¬ReportedAtOwnPlace "params:\n- {name: a}\n- name: a\n  value: x\n" := by
  intro h
  have hread : read "params:\n- {name: a}\n- name: a\n  value: x\n".toList readEntries =
      .ok [⟨"a", none, none, false⟩, ⟨"a", some "x", none, false⟩] := eq_ok_of_toOption (by decide +kernel)
  have hown : ownPlace? "params:\n- {name: a}\n- name: a\n  value: x\n".toList 0 = some (2, 4) := by decide +kernel
  have hplace : (error? (Document.parse "params:\n- {name: a}\n- name: a\n  value: x\n")).map
      (fun d => (d.line, d.column)) = some (3, 3) := by decide +kernel
  obtain ⟨d, hd, -, -, hp⟩ := h _ 0 _ _ hread (.zero rfl)
  rw [hd] at hplace
  have hd' : (d.line, d.column) = (3, 3) := Option.some.inj hplace
  rcases hp with hp | ⟨hline, -⟩
  · rw [hown, hd'] at hp
    cases hp
  · rw [hline] at hd'
    cases hd'

end BraceParams
