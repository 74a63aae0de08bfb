import Mathlib.Algebra.GroupWithZero.Nat
import BraceParams.Proofs.Pattern.Composition
import BraceParams.Proofs.Pattern.Substitution

namespace BraceParams.Pattern

theorem two_le_length_expand {p : List Char} {g : Group} (h : findGroup p = some g) : 2 ≤ (expand p).length := by
  have hl := length_le_flatMap_expand (g.substitutions p)
  rw [expand_substitutions h, Group.substitutions, List.length_map] at hl
  exact Nat.le_trans (FirstGroup.of_findGroup h).two_le hl

theorem length_expand_eq_one_iff {p : List Char} : (expand p).length = 1 ↔ hasGroups p = false := by
  rw [hasGroups, Option.isSome_eq_false_iff, Option.isNone_iff_eq_none]
  constructor
  · intro hl
    by_contra hn
    obtain ⟨g, hg⟩ := Option.ne_none_iff_exists'.mp hn
    have := two_le_length_expand hg
    omega
  · intro hn
    rw [expand_of_findGroup hn, List.length_singleton]

theorem length_cross (xs ys : List (List Char)) : (cross xs ys).length = xs.length * ys.length := by
  induction xs with
  | nil => rw [List.length_nil, Nat.zero_mul, cross, List.flatMap_nil, List.length_nil]
  | cons x xs ih =>
    rw [cross] at ih ⊢
    rw [List.flatMap_cons, List.length_append, List.length_map, ih, List.length_cons, Nat.succ_mul, Nat.add_comm]

theorem length_expand_group {p head tail : List Char} {alternatives : List (List Char)}
    (h : FirstGroup p head alternatives tail) :
    (expand p).length = (alternatives.map fun a => (expand a).length).sum * (expand tail).length := by
  rw [expand_group h, length_cross, length_cross, List.length_singleton, Nat.one_mul, List.length_flatMap]

theorem expand_eq_singleton_iff {p : List Char} : expand p = [unescape p] ↔ hasGroups p = false := by
  constructor
  · intro h
    rw [← length_expand_eq_one_iff, h, List.length_singleton]
  · intro h
    rw [hasGroups, Option.isSome_eq_false_iff, Option.isNone_iff_eq_none] at h
    exact expand_of_findGroup h

theorem expand_count (p : List Char) :
    expand p ≠ [] ∧
      (hasGroups p = false ↔ (expand p).length = 1) ∧
      (hasGroups p = false ↔ expand p = [unescape p]) ∧
      (hasGroups p = true ↔ 2 ≤ (expand p).length) ∧
      (expand p).length = match findGroup p with
        | none => 1
        | some g => ((g.alternatives p).map fun a => (expand a).length).sum * (expand (g.tail p)).length := by
  refine ⟨expand_ne_nil p, length_expand_eq_one_iff.symm, expand_eq_singleton_iff.symm, ?_, ?_⟩
  · constructor
    · intro h
      obtain ⟨g, hg⟩ := Option.isSome_iff_exists.mp h
      exact two_le_length_expand hg
    · intro h
      by_contra hn
      have := length_expand_eq_one_iff.mpr ((Bool.not_eq_true _).mp hn)
      omega
  · cases h : findGroup p with
    | none => rw [expand_of_findGroup h, List.length_singleton]
    | some g => exact length_expand_group (.of_findGroup h)

example : (expand "{a,{b,c}{d,e}}{x,y}".toList).length = 10 := by cbv

end BraceParams.Pattern
