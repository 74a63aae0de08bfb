import BraceParams.Proofs.Number.Text
import BraceParams.Proofs.Text.Quoted
import BraceParams.Report.Message
import BraceParams.Schema.Fault

namespace BraceParams

open Schema Text Yaml

def Schema.Path.keys : Path → List (List Char)
  | .root => []
  | .item parent _ => parent.keys
  | .field parent key => parent.keys ++ [key]
  | .unknown parent => parent.keys

def Schema.Found.texts : Found → List (List Char)
  | .scalar .text text => [text]
  | _ => []

namespace Report

def marks : List String :=
  ["unknown field", "must be specified", "missing field"] ++ shapes.map Prod.fst

def joints : List String :=
  [": ", "invalid type: ", ", expected ", "integer `", "`", "` as u128", "` as i128", "floating point `", "string ",
   " at ", "line ", " column "]

theorem mem_marks_of_shape {shape : String × String} (h : shape ∈ shapes) : shape.1 ∈ marks :=
  List.mem_append_right _ (List.mem_map_of_mem h)

theorem separates_joint (joint : String) {words : String} (hw : words ∈ marks) (hj : joint ∈ joints) :
    Separates joint.toList words.toList := by
  have h : ∀ joint ∈ joints, ∀ words ∈ marks,
      runsInto joint.toList words.toList = false ∧ runsInto words.toList joint.toList = false := by decide
  exact separates_of_runsInto (h joint hj words hw).1 (h joint hj words hw).2

theorem kept_of_mem {words : String} (hw : words ∈ marks) : Kept words.toList := by
  have h : ∀ words ∈ marks, isShown words.toList ∧ startsOutside words.toList := by decide
  exact ⟨(h words hw).1, (h words hw).2⟩

section

variable {words : String} (hw : words ∈ marks)

include hw

theorem contains_spaceless {s : List Char} (h : ' ' ∉ s) : contains words.toList s = false := by
  have hs : ∀ words ∈ marks, ' ' ∈ words.toList := by decide
  exact contains_eq_false_of_mem (hs words hw) h

theorem contains_append_atText (s : List Char) (mark : Mark) :
    contains words.toList (s ++ atText mark) = contains words.toList s := by
  have hline : contains words.toList (lineColumnText mark) = false := by
    have hc := separates_joint " column " hw (by simp [joints])
    have hl := separates_joint "line " hw (by simp [joints])
    apply hc.contains.trans
    rw [Bool.or_eq_false_iff]
    exact ⟨hl.contains_behind.trans (contains_spaceless hw (Number.not_mem_digitsText (by decide) _)),
      contains_spaceless hw (Number.not_mem_digitsText (by decide) _)⟩
  have ha := separates_joint " at " hw (by simp [joints])
  rw [atText]
  split
  · rw [List.append_nil]
  · rw [← List.append_assoc, ha.contains, hline, Bool.or_false]

theorem contains_path (path : Path) : contains words.toList path.text = path.keys.any (contains words.toList) := by
  have hn := (kept_of_mem hw).ne_nil
  have hs : ∀ words ∈ marks, '.' ∉ words.toList ∧ '[' ∉ words.toList ∧ ']' ∉ words.toList := by decide
  obtain ⟨hdot, hopen, hclose⟩ := hs words hw
  have hd := separates_singleton hn hdot
  have hroot : contains words.toList Path.root.text = false := contains_spaceless hw (by decide)
  have hlead (parent : Path) (key : List Char) :
      contains words.toList (parent.lead parent.text ++ key) =
        (contains words.toList parent.text || contains words.toList key) := by
    cases parent with
    | root => rw [hroot, Bool.false_or, Path.lead, List.nil_append]
    | item => exact hd.contains
    | field => exact hd.contains
    | unknown => exact hd.contains
  induction path with
  | root => exact hroot
  | item parent index ih =>
    have hindex := contains_spaceless hw (Number.not_mem_digitsText (by decide) index)
    rw [Path.text, (separates_singleton hn hclose).contains_before, List.append_cons,
      (separates_singleton hn hopen).contains, hindex, Bool.or_false, ih, Path.keys]
  | field parent key ih =>
    rw [Path.text, hlead, ih, Path.keys, List.any_append, List.any_cons, List.any_nil, Bool.or_false]
  | unknown parent ih =>
    rw [Path.text, hlead, ih, contains_spaceless hw (by decide), Bool.or_false, Path.keys]

theorem contains_scalar (s : Scalar) (text : List Char) :
    contains words.toList (Found.scalarText text s) = (Found.scalar s text).texts.any (contains words.toList) := by
  have hfixed : ∀ found ∈ ["unit value", "boolean `true`", "boolean `false`"], ∀ words ∈ marks,
      contains words.toList found.toList = false := by decide
  have hi := separates_joint "integer `" hw (by simp [joints])
  have hq : Separates ['`'] words.toList := separates_joint "`" hw (by simp [joints])
  cases s with
  | null => exact hfixed _ (by simp) words hw
  | boolean b => cases b <;> exact hfixed _ (by simp) words hw
  | integer n =>
    exact (hi.contains_enclosed hq _).trans (contains_spaceless hw (Number.not_mem_integerText (by decide) n))
  | wideUnsigned n =>
    exact (hi.contains_enclosed (separates_joint "` as u128" hw (by simp [joints])) _).trans
      (contains_spaceless hw (Number.not_mem_digitsText (by decide) n))
  | wideSigned n =>
    exact (hi.contains_enclosed (separates_joint "` as i128" hw (by simp [joints])) _).trans
      (contains_spaceless hw (Number.not_mem_integerText (by decide) n))
  | float x =>
    exact ((separates_joint "floating point `" hw (by simp [joints])).contains_enclosed hq _).trans
      (contains_spaceless hw (Number.not_mem_message (by decide) x))
  | text =>
    have hs := separates_joint "string " hw (by simp [joints])
    have hd : ∀ words ∈ marks, '"' ∉ words.toList := by decide
    apply hs.contains_behind.trans
    rw [(kept_of_mem hw).contains_quoted (hd words hw), Found.texts, List.any_cons, List.any_nil, Bool.or_false]

theorem contains_found (found : Found) :
    contains words.toList found.text = found.texts.any (contains words.toList) := by
  cases found with
  | scalar s text => exact contains_scalar hw s text
  | sequence => exact contains_spaceless hw (by decide)
  | map => exact contains_spaceless hw (by decide)
  | null => exact contains_spaceless hw (by decide)
  | tagged =>
    have h : ∀ words ∈ marks, contains words.toList "tagged value".toList = false := by decide
    exact h words hw

end

end Report

end BraceParams
