import Mathlib.Data.List.Count
import BraceParams.Proofs.Parse.Entries
import BraceParams.Proofs.Report.Excerpt
import BraceParams.Proofs.Report.NameLine

namespace BraceParams

open Report Schema Text

theorem context_ofEntryError (e : EntryError) (line column : Nat) (source : String) :
    (Diagnostic.ofEntryError e (line + 1) column source).context.toList =
      excerpt source.toList (line + 1) column Diagnostic.contextLines := by
  rw [Diagnostic.ofEntryError, if_pos (Nat.succ_pos line), Diagnostic.withContext, String.toList_ofList]

theorem parse_firstFailure_line {source : String} {entries : List Entry} {k : Nat} {entry : Entry} {e : EntryError}
    (h : read source.toList readEntries = .ok entries)
    (hn : List.Forall₂ (fun line entry => ∃ lead, NameLine line lead entry.name.toList)
      ((lines source.toList).filter (IsNameLine ·)) entries)
    (hf : FirstFailure Entry.toParam entries k entry e) :
    ∃ i line lead, (lines source.toList)[i]? = some line ∧ NameLine line lead entry.name.toList ∧
      ((lines source.toList).take i).countP (IsNameLine ·) = k ∧
      ∃ d, Document.parse source = .error d ∧ d.kind = .invalidValue ∧ d.message = e.message ∧
        d.line = i + 1 ∧ d.column = (encode lead).length + 1 ∧
        markedRows d.context.toList = [markedRow (i + 1) line] := by
  have hk : (entries.map (·.name.toList))[k]? = some entry.name.toList := by
    rw [List.getElem?_map, hf.element]
    rfl
  obtain ⟨i, line, lead, hi, hlead, hc, hplace⟩ := nameLine?_of_names (List.forall₂_map_right_iff.mpr hn) hk
  have hcount : ((entries.map (·.name.toList)).take k).count entry.name.toList =
      ((entries.take k).map Entry.name).count entry.name := by
    rw [← List.count_map_of_injective _ String.toList fun _ _ => String.toList_injective, List.map_map, List.map_take]
    rfl
  obtain ⟨row, column, hparse, hrow⟩ := parse_of_firstFailure h hf
  rw [← hcount, hplace] at hrow
  cases hrow
  refine ⟨i, line, lead, hi, hlead, hc, _, hparse, Diagnostic.kind_ofEntryError .., Diagnostic.message_ofEntryError ..,
    Diagnostic.line_ofEntryError .., Diagnostic.column_ofEntryError .., ?_⟩
  rw [context_ofEntryError, markedRows_excerpt hi]

theorem parse_firstFailure_line_repeated :
    ∃ d, Document.parse
        "params:\n- name: a\n  value: x\n- value: y\n  name: b\n- name: 'a' # again\n  expand: true\n" = .error d ∧
      d.line = 6 ∧ d.column = 3 ∧ markedRows d.context.toList = [">    6 | - name: 'a' # again".toList] := by
  generalize hs : "params:\n- name: a\n  value: x\n- value: y\n  name: b\n- name: 'a' # again\n  expand: true\n" =
    source
  have hread : read source.toList readEntries =
      .ok [⟨"a", some "x", none, false⟩, ⟨"b", some "y", none, false⟩, ⟨"a", none, none, true⟩] := by
    subst hs
    exact eq_ok_of_toOption (by decide +kernel)
  have hf : FirstFailure Entry.toParam
      [⟨"a", some "x", none, false⟩, ⟨"b", some "y", none, false⟩, ⟨"a", none, none, true⟩] 2
      ⟨"a", none, none, true⟩ (.missingPattern "a") := .succ rfl (.succ rfl (.zero rfl))
  have hnames : ((lines source.toList).filterMap nameOfLine?).map Prod.fst = [['a'], ['b'], ['a']] := by
    subst hs
    decide +kernel
  have hplaces : ∀ i < (lines source.toList).length, ((lines source.toList).take i).countP (IsNameLine ·) = 2 →
      IsNameLine ((lines source.toList)[i]?.getD []) → i = 5 := by
    subst hs
    decide +kernel
  have hline : (lines source.toList)[5]? = some "- name: 'a' # again".toList := by
    subst hs
    decide +kernel
  obtain ⟨i, line, lead, hi, hlead, hc, d, hd, -, -, hl, hcolumn, hrow⟩ :=
    parse_firstFailure_line hread (List.forall₂_map_right_iff.mp (names_eq_iff.mp hnames)) hf
  obtain rfl : i = 5 := by
    apply hplaces i (List.getElem?_eq_some_iff.mp hi).1 hc
    rw [hi]
    exact ⟨lead, _, hlead⟩
  obtain rfl : line = "- name: 'a' # again".toList := Option.some.inj (hi.symm.trans hline)
  have hname : nameOfLine? "- name: 'a' # again".toList = some (['a'], 2) := by decide +kernel
  have he := (nameOfLine?_eq_some_iff.mpr ⟨lead, hlead, rfl⟩).symm.trans hname
  have hlength : (encode lead).length = 2 := congrArg Prod.snd (Option.some.inj he)
  refine ⟨d, hd, hl, ?_, hrow.trans (by decide +kernel)⟩
  rw [hcolumn, hlength]

end BraceParams
