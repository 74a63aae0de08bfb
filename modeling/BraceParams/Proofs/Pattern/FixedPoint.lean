import BraceParams.Proofs.Pattern.Substitution

namespace BraceParams.Pattern

open Relation

theorem unescape_of_not_mem {p : List Char} (h : '\\' ∉ p) : unescape p = p := by
  induction p with
  | nil => rfl
  | cons c p ih =>
    rw [List.mem_cons, not_or] at h
    rw [unescape_cons_of_ne p (Ne.symm h.1), ih h.2]

theorem Group.mem_of_mem_substitutions {p w : List Char} {g : Group} {c : Char}
    (h : findGroup p = some g) (hw : w ∈ g.substitutions p) (hc : c ∈ w) : c ∈ p := by
  obtain ⟨-, -, hsplits, hp⟩ := findGroup_bounds h
  obtain ⟨a, ha, rfl⟩ := List.mem_map.mp hw
  rcases List.mem_append.mp hc with hc | hc
  · rcases List.mem_append.mp hc with hc | hc
    · exact List.mem_of_mem_take hc
    · have hs := (sublist_of_mem_cutAt ha hsplits hp).mem hc
      exact List.mem_of_mem_drop (List.mem_of_mem_take hs)
  · exact List.mem_of_mem_drop hc

theorem Replaces.mem_of_mem {ws ws' : List (List Char)} (h : Replaces ws ws') {w : List Char} {c : Char}
    (hw : w ∈ ws') (hc : c ∈ w) : ∃ v ∈ ws, c ∈ v := by
  obtain ⟨before, after, hg⟩ := h
  rw [List.append_assoc, List.mem_append, List.mem_append] at hw
  rcases hw with hw | hw | hw
  · exact ⟨w, List.mem_append_left _ hw, hc⟩
  · exact ⟨_, List.mem_append_right _ List.mem_cons_self, Group.mem_of_mem_substitutions hg hw hc⟩
  · exact ⟨w, List.mem_append_right _ (List.mem_cons_of_mem _ hw), hc⟩

theorem Replaces.run_mem_of_mem {ws ws' : List (List Char)} (h : ReflTransGen Replaces ws ws') {w : List Char}
    {c : Char} (hw : w ∈ ws') (hc : c ∈ w) : ∃ v ∈ ws, c ∈ v := by
  induction h generalizing w with
  | refl => exact ⟨w, hw, hc⟩
  | tail _ h ih =>
    obtain ⟨v, hv, hc⟩ := h.mem_of_mem hw hc
    exact ih hv hc

theorem fixed_of_mem_expand (p : List Char) (h : '\\' ∉ p) :
    ∀ v ∈ expand p, hasGroups v = false ∧ expand v = [v] := by
  obtain ⟨ws, hr, hn⟩ := Replaces.exists_run [p]
  have hws : ∀ w ∈ ws, '\\' ∉ w := by
    intro w hw hc
    obtain ⟨v, hv, hc⟩ := Replaces.run_mem_of_mem hr hw hc
    rw [List.mem_singleton] at hv
    exact h (hv ▸ hc)
  have he : expand p = ws := by
    have hm := Replaces.run_flatMap_expand hr
    rw [flatMap_expand_eq_map hn, List.flatMap_singleton] at hm
    rw [← hm]
    calc ws.map unescape = ws.map id := List.map_congr_left fun w hw => unescape_of_not_mem (hws w hw)
      _ = ws := List.map_id ws
  intro v hv
  rw [he] at hv
  have hg := hn v hv
  refine ⟨by rw [hasGroups, hg]; rfl, ?_⟩
  rw [expand_of_findGroup hg, unescape_of_not_mem (hws v hv)]

theorem fixed_of_mem_expand_stray :
    '\\' ∉ ['}', '{', ',', '{', 'a', '{', 'b', '}', ',', ',', '{', 'c', ',', 'd', '}', '}'] ∧
      ['}', '{', ',', 'a', '{', 'b', '}'] ∈
        expand ['}', '{', ',', '{', 'a', '{', 'b', '}', ',', ',', '{', 'c', ',', 'd', '}', '}'] ∧
      hasGroups ['}', '{', ',', 'a', '{', 'b', '}'] = false ∧
      expand ['}', '{', ',', 'a', '{', 'b', '}'] = [['}', '{', ',', 'a', '{', 'b', '}']] := by
  have h : '\\' ∉ ['}', '{', ',', '{', 'a', '{', 'b', '}', ',', ',', '{', 'c', ',', 'd', '}', '}'] := by decide
  have hv : ['}', '{', ',', 'a', '{', 'b', '}'] ∈
      expand ['}', '{', ',', '{', 'a', '{', 'b', '}', ',', ',', '{', 'c', ',', 'd', '}', '}'] := by
    have he : expand ['}', '{', ',', '{', 'a', '{', 'b', '}', ',', ',', '{', 'c', ',', 'd', '}', '}'] =
        [['}', '{', ',', 'a', '{', 'b', '}'], ['}', '{', ','], ['}', '{', ',', 'c'], ['}', '{', ',', 'd']] := by
      cbv
    rw [he]
    exact List.mem_cons_self
  exact ⟨h, hv, fixed_of_mem_expand _ h _ hv⟩

end BraceParams.Pattern
