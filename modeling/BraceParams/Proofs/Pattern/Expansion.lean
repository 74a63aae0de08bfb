import Mathlib.Data.List.Basic
import BraceParams.Pattern.Expand
import BraceParams.Proofs.Pattern.FirstGroup

namespace BraceParams.Pattern

def cross (xs ys : List (List Char)) : List (List Char) :=
  xs.flatMap fun x => ys.map (x ++ ·)

theorem cross_nil_left (ys : List (List Char)) : cross [[]] ys = ys := by
  simp [cross]

theorem cross_nil_right (xs : List (List Char)) : cross xs [[]] = xs := by
  simp [cross]

theorem cross_singleton (x y : List Char) : cross [x] [y] = [x ++ y] := rfl

theorem cross_assoc (xs ys zs : List (List Char)) : cross (cross xs ys) zs = cross xs (cross ys zs) := by
  simp [cross, List.flatMap_assoc, List.flatMap_map, List.map_flatMap, Function.comp_def]

theorem cross_flatMap {α : Type} (l : List α) (f : α → List (List Char)) (ys : List (List Char)) :
    cross (l.flatMap f) ys = l.flatMap fun a => cross (f a) ys := by
  simp only [cross, List.flatMap_assoc]

theorem flatMap_cross {α : Type} (x : List Char) (l : List α) (f : α → List (List Char)) :
    cross [x] (l.flatMap f) = l.flatMap fun a => cross [x] (f a) := by
  simp [cross, List.map_flatMap]

theorem cross_three (x : List Char) (ys zs : List (List Char)) :
    cross [x] (cross ys zs) = ys.flatMap fun y => zs.map fun z => x ++ y ++ z := by
  simp [cross, List.map_flatMap, Function.comp_def]

theorem findGroup_cases (p : List Char) :
    findGroup p = none ∨ ∃ head alternatives tail, FirstGroup p head alternatives tail := by
  cases h : findGroup p with
  | none => exact .inl rfl
  | some g => exact .inr ⟨_, _, _, .of_findGroup h⟩

theorem FirstGroup.count_lt {p head tail a : List Char} {alternatives : List (List Char)}
    (h : FirstGroup p head alternatives tail) (ha : a ∈ alternatives) :
    (a ++ tail).count '{' < p.count '{' := by
  obtain ⟨g, hg, -, rfl, rfl⟩ := h.findGroup
  rw [List.count_append]
  exact count_alternative_add_count_tail hg ha

theorem group_induction {motive : List Char → Prop}
    (none : ∀ p, findGroup p = none → motive p)
    (some : ∀ p head alternatives tail, FirstGroup p head alternatives tail →
      (∀ a ∈ alternatives, motive (a ++ tail)) → motive p) (p : List Char) : motive p := by
  rcases findGroup_cases p with h | ⟨head, alternatives, tail, h⟩
  · exact none p h
  · exact some p head alternatives tail h fun a ha => group_induction none some (a ++ tail)
termination_by p.count '{'
decreasing_by exact h.count_lt ha

theorem expandInto_nil {p : List Char} (done : List Char) (h : findGroup p = none) :
    expandInto done p [] = [unescape (done ++ p)] := by
  rw [expandInto]
  split
  · next hg => simp [h] at hg
  · rfl

theorem expandInto_rest {p : List Char} (done rest : List Char) (h : findGroup p = none) :
    expandInto done p rest = expandInto (done ++ p) rest [] := by
  cases rest with
  | nil => rw [expandInto_nil done h, expandInto_nil _ rfl, List.append_nil]
  | cons c rest =>
    rw [expandInto]
    split
    · next hg => simp [h] at hg
    · rfl

theorem expandInto_firstGroup {p head tail : List Char} {alternatives : List (List Char)}
    (done rest : List Char) (h : FirstGroup p head alternatives tail) :
    expandInto done p rest =
      alternatives.flatMap fun a => expandInto (done ++ head) a (tail ++ rest) := by
  obtain ⟨g, hg, rfl, rfl, rfl⟩ := h.findGroup
  rw [expandInto]
  split
  · next g' hg' =>
    obtain rfl : g' = g := Option.some.inj (hg'.symm.trans hg)
    simp
  · next hg' => simp [hg] at hg'

theorem expandInto_append {p q : List Char} (done : List Char) (hp : Settled p)
    (hq : Apart (signs p) (signs q)) : expandInto done (p ++ q) [] = expandInto done p q := by
  rcases findGroup_cases p with h | ⟨head, alternatives, tail, h⟩
  · have hb := barren_of_findGroup h hq
    rw [expandInto_rest done q h]
    rcases findGroup_cases q with h' | ⟨head, alternatives, tail, h'⟩
    · rw [expandInto_nil _ (findGroup_append_eq_none hp hb h'), expandInto_nil _ h', List.append_assoc]
    · rw [expandInto_firstGroup _ _ (h'.prepend hp hb), expandInto_firstGroup _ _ h', List.append_assoc]
  · -- the group is the same one, and both sides carry `tail ++ q`
    rw [expandInto_firstGroup _ _ (h.append hp hq), expandInto_firstGroup _ _ h, List.append_nil]

theorem expandInto_alternatives {p head tail : List Char} {alternatives : List (List Char)}
    (done : List Char) (h : FirstGroup p head alternatives tail) :
    expandInto done p [] =
      alternatives.flatMap fun a => expandInto (done ++ head) (a ++ tail) [] := by
  rw [expandInto_firstGroup done [] h, List.append_nil]
  refine List.flatMap_congr fun a ha => ?_
  have hi := h.alternative a ha
  exact (expandInto_append (done ++ head) hi.settled (hi.apart _)).symm

theorem expandInto_done (done p : List Char) (hd : Settled done) :
    expandInto done p [] = cross [unescape done] (expand p) := by
  induction p using group_induction generalizing done with
  | none p h => rw [expand, expandInto_nil done h, expandInto_nil [] h, unescape_append p hd]; rfl
  | some p head alternatives tail h ih =>
    have hh := h.settled
    rw [expand, expandInto_alternatives done h, expandInto_alternatives [] h, flatMap_cross]
    refine List.flatMap_congr fun a ha => ?_
    rw [ih a ha _ ((settled_append hd).mpr hh), List.nil_append, ih a ha head hh, ← cross_assoc,
      cross_singleton, unescape_append head hd]

theorem expand_of_findGroup {p : List Char} (h : findGroup p = none) : expand p = [unescape p] :=
  expandInto_nil [] h

theorem expand_firstGroup {p head tail : List Char} {alternatives : List (List Char)}
    (h : FirstGroup p head alternatives tail) :
    expand p = cross [unescape head] (alternatives.flatMap fun a => expand (a ++ tail)) := by
  rw [expand, expandInto_alternatives [] h, flatMap_cross]
  exact List.flatMap_congr fun a ha => expandInto_done head (a ++ tail) h.settled

theorem expand_append_of_apart {p q : List Char} (hp : Settled p) (hq : Apart (signs p) (signs q)) :
    expand (p ++ q) = cross (expand p) (expand q) := by
  induction p using group_induction with
  | none p h =>
    have hb := barren_of_findGroup h hq
    rw [expand, expandInto_append [] hp hq, expandInto_rest [] q h, List.nil_append,
      expandInto_done p q hp, expand_of_findGroup h]
  | some p head alternatives tail h ih =>
    rw [expand_firstGroup (h.append hp hq), expand_firstGroup h, cross_assoc, cross_flatMap]
    congr 1
    refine List.flatMap_congr fun a ha => ?_
    have hi := h.alternative a ha
    rw [← List.append_assoc]
    apply ih a ha
    · exact (settled_append hi.settled).mpr (h.settled_tail.mp hp)
    · rw [signs_append tail hi.settled]
      exact (hi.apart _).append (h.apart_tail hq)

theorem expand_append_of_barren {p q : List Char} (hp : Settled p) (hq : Barren (signs p) (signs q)) :
    expand (p ++ q) = cross [unescape p] (expand q) := by
  rw [expand_append_of_apart hp hq.apart, expand_of_findGroup (findGroup_eq_none_iff.mpr hq.alone)]

theorem expand_append_of_alternative {a : List Char} (h : Alternative a) (b : List Char) :
    expand (a ++ b) = cross (expand a) (expand b) :=
  expand_append_of_apart h.settled (h.apart _)

theorem expand_nil : expand [] = [[]] :=
  expand_of_findGroup rfl

end BraceParams.Pattern
