import Mathlib.Logic.Relation
import BraceParams.Proofs.Pattern.Composition

/-!
Expansion by textual substitution. A list of patterns is rewritten by putting the alternatives of a
group in its place, one pattern at a time and in any order, until no pattern has a group.
-/

namespace BraceParams.Pattern

open Relation

def Group.substitutions (g : Group) (p : List Char) : List (List Char) :=
  (g.alternatives p).map fun a => g.head p ++ a ++ g.tail p

inductive Replaces : List (List Char) → List (List Char) → Prop
  | group {p : List Char} {g : Group} (before after : List (List Char)) (h : findGroup p = some g) :
      Replaces (before ++ p :: after) (before ++ g.substitutions p ++ after)

theorem expand_substitutions {p : List Char} {g : Group} (h : findGroup p = some g) :
    (g.substitutions p).flatMap expand = expand p := by
  have hf := FirstGroup.of_findGroup h
  rw [Group.substitutions, List.flatMap_map, expand, expandInto_firstGroup [] [] hf]
  refine List.flatMap_congr fun a ha => ?_
  rw [List.nil_append, List.append_nil, (hf.carried ha).expand_eq]

theorem expand_ne_nil (p : List Char) : expand p ≠ [] := by
  induction p using group_induction with
  | none p h =>
    rw [expand_of_findGroup h]
    exact List.cons_ne_nil _ _
  | some p head alternatives tail h ih =>
    obtain ⟨a, as, rfl⟩ := List.exists_cons_of_length_pos (Nat.lt_of_lt_of_le Nat.two_pos h.two_le)
    have ha := ih a List.mem_cons_self
    rw [expand_firstGroup h, List.flatMap_cons]
    simp [cross, ha]

theorem length_le_flatMap_expand (ws : List (List Char)) : ws.length ≤ (ws.flatMap expand).length := by
  induction ws with
  | nil => exact Nat.zero_le _
  | cons w ws ih =>
    have := List.length_pos_iff.mpr (expand_ne_nil w)
    rw [List.length_cons, List.flatMap_cons, List.length_append]
    omega

namespace Replaces

variable {ws ws' : List (List Char)}

theorem flatMap_expand (h : Replaces ws ws') : ws'.flatMap expand = ws.flatMap expand := by
  obtain ⟨before, after, h⟩ := h
  simp only [List.flatMap_append, List.flatMap_cons, expand_substitutions h, List.append_assoc]

theorem length_lt (h : Replaces ws ws') : ws.length < ws'.length := by
  obtain ⟨before, after, h⟩ := h
  have hl := (FirstGroup.of_findGroup h).two_le
  simp only [List.length_append, List.length_cons, Group.substitutions, List.length_map]
  omega

theorem wellFounded : WellFounded (flip Replaces) := by
  apply Subrelation.wf (r := (measure fun ws => (ws.flatMap expand).length - ws.length).rel)
  · intro ws' ws h
    have hl := length_le_flatMap_expand ws'
    rw [h.flatMap_expand] at hl
    have := h.length_lt
    change (ws'.flatMap expand).length - ws'.length < (ws.flatMap expand).length - ws.length
    rw [h.flatMap_expand]
    omega
  · exact (measure _).wf

theorem run_flatMap_expand (h : ReflTransGen Replaces ws ws') : ws'.flatMap expand = ws.flatMap expand := by
  induction h with
  | refl => rfl
  | tail _ h ih => rw [h.flatMap_expand, ih]

theorem exists_run (ws : List (List Char)) :
    ∃ ws', ReflTransGen Replaces ws ws' ∧ ∀ w ∈ ws', findGroup w = none := by
  induction ws using wellFounded.induction with
  | _ ws ih =>
    by_cases hn : ∀ w ∈ ws, findGroup w = none
    · exact ⟨ws, .refl, hn⟩
    · simp only [not_forall] at hn
      obtain ⟨w, hw, hg⟩ := hn
      obtain ⟨g, hg⟩ := Option.ne_none_iff_exists'.mp hg
      obtain ⟨before, after, rfl⟩ := List.append_of_mem hw
      have hs := Replaces.group before after hg
      obtain ⟨ws', hr, hn⟩ := ih _ hs
      exact ⟨ws', .head hs hr, hn⟩

end Replaces

theorem flatMap_expand_eq_map {ws : List (List Char)} (h : ∀ w ∈ ws, findGroup w = none) :
    ws.flatMap expand = ws.map unescape := by
  rw [List.map_eq_flatMap]
  exact List.flatMap_congr fun w hw => expand_of_findGroup (h w hw)

theorem expand_substitution (p : List Char) :
    (∀ g, findGroup p = some g →
      (expand p = (g.alternatives p).flatMap fun a => expand (g.head p ++ a ++ g.tail p)) ∧
      ∀ a ∈ g.alternatives p, ∀ i, GroupAt (signs (g.head p ++ a ++ g.tail p)) i ↔
        (∃ j, i = (g.head p).length + j ∧ GroupAt (signs a) j) ∨
          ∃ j, i = (g.head p).length + a.length + j ∧ GroupAt (signs (g.tail p)) j) ∧
    Acc (flip Replaces) [p] ∧
    (∃ ws, ReflTransGen Replaces [p] ws ∧ ∀ w ∈ ws, findGroup w = none) ∧
    ∀ ws, ReflTransGen Replaces [p] ws → (∀ w ∈ ws, findGroup w = none) → expand p = ws.map unescape := by
  refine ⟨?_, Replaces.wellFounded.apply [p], Replaces.exists_run [p], ?_⟩
  · intro g h
    have hf := FirstGroup.of_findGroup h
    refine ⟨?_, fun a ha => (hf.carried ha).groupAt_iff⟩
    rw [← expand_substitutions h, Group.substitutions, List.flatMap_map]
  · intro ws hr hn
    rw [← flatMap_expand_eq_map hn, Replaces.run_flatMap_expand hr, List.flatMap_singleton]

end BraceParams.Pattern
