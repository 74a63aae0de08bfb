import BraceParams.Proofs.Pattern.Expansion

namespace BraceParams.Pattern

inductive Reached (p : List Char) : (done pattern rest : List Char) → Prop
  | start : Reached p [] p []
  | alternative {done q rest a : List Char} {g : Group} (h : Reached p done q rest)
      (hg : findGroup q = some g) (ha : a ∈ g.alternatives q) :
      Reached p (done ++ g.head q) a (g.tail q ++ rest)
  | rest {done q rest : List Char} (h : Reached p done q rest) (hg : findGroup q = none)
      (hr : rest ≠ []) : Reached p (done ++ q) rest []

structure Carried (done q rest : List Char) : Prop where
  settled : Settled done
  barren : Barren (signs done) (signs (q ++ rest))
  joined : rest = [] ∨ Settled q ∧ Apart (signs q) (signs rest)

theorem FirstGroup.carried {p head tail a : List Char} {alternatives : List (List Char)}
    (h : FirstGroup p head alternatives tail) (ha : a ∈ alternatives) : Carried head a tail :=
  have hi := h.alternative a ha
  ⟨h.settled, h.barren_alternative ha, .inr ⟨hi.settled, hi.apart _⟩⟩

namespace Carried

variable {done q rest : List Char}

theorem alternative {head tail a : List Char} {alternatives : List (List Char)}
    (h : Carried done q rest) (hq : FirstGroup q head alternatives tail) (ha : a ∈ alternatives) :
    Carried (done ++ head) a (tail ++ rest) := by
  have hw : FirstGroup (q ++ rest) head alternatives (tail ++ rest) := by
    rcases h.joined with rfl | ⟨hs, hr⟩
    · simpa using hq
    · exact hq.append hs hr
  exact (hw.prepend h.settled h.barren).carried ha

theorem next (h : Carried done q rest) (hq : findGroup q = none) (hr : rest ≠ []) :
    Carried (done ++ q) rest [] := by
  obtain ⟨hs, ha⟩ := h.joined.resolve_left hr
  refine ⟨(settled_append h.settled).mpr hs, ?_, .inl rfl⟩
  rw [List.append_nil, signs_append q h.settled, barren_append, ← signs_append rest hs]
  exact ⟨h.barren, barren_of_findGroup hq ha⟩

theorem expand_joined (h : Carried done q rest) : expand (q ++ rest) = cross (expand q) (expand rest) := by
  rcases h.joined with rfl | ⟨hs, ha⟩
  · rw [List.append_nil, expand_nil, cross_nil_right]
  · exact expand_append_of_apart hs ha

theorem expandInto_eq (h : Carried done q rest) :
    expandInto done q rest = cross [unescape done] (expand (q ++ rest)) := by
  rcases h.joined with rfl | ⟨hs, ha⟩
  · rw [expandInto_done done q h.settled, List.append_nil]
  · rw [← expandInto_append done hs ha, expandInto_done done _ h.settled]

theorem expand_eq (h : Carried done q rest) :
    expandInto done q rest = expand (done ++ q ++ rest) := by
  rw [h.expandInto_eq, List.append_assoc, expand_append_of_barren h.settled h.barren]

theorem live_eq (h : Carried done q rest) :
    live (done ++ q ++ rest) = live done ++ live q ++ live rest := by
  rw [List.append_assoc, live_append _ h.settled, List.append_assoc]
  rcases h.joined with rfl | ⟨hs, -⟩
  · simp [live]
  · rw [live_append rest hs]

theorem groupAt_iff (h : Carried done q rest) (i : Nat) :
    GroupAt (signs (done ++ q ++ rest)) i ↔
      (∃ j, i = done.length + j ∧ GroupAt (signs q) j) ∨
        ∃ j, i = done.length + q.length + j ∧ GroupAt (signs rest) j := by
  have hw (j : Nat) : GroupAt (signs (q ++ rest)) j ↔
      GroupAt (signs q) j ∨ ∃ k, j = q.length + k ∧ GroupAt (signs rest) k := by
    rcases h.joined with rfl | ⟨hs, ha⟩
    · simp [GroupAt]
    · rw [signs_append rest hs, groupAt_append ha, length_signs]
  rw [List.append_assoc, signs_append _ h.settled, h.barren.groupAt_append, length_signs]
  simp only [hw]
  constructor
  · rintro ⟨j, rfl, hj | ⟨k, rfl, hk⟩⟩
    · exact .inl ⟨j, rfl, hj⟩
    · exact .inr ⟨k, by rw [Nat.add_assoc], hk⟩
  · rintro (⟨j, rfl, hj⟩ | ⟨k, rfl, hk⟩)
    · exact ⟨j, rfl, .inl hj⟩
    · exact ⟨q.length + k, by rw [Nat.add_assoc], .inr ⟨k, rfl, hk⟩⟩

end Carried

theorem Reached.carried {p done q rest : List Char} (h : Reached p done q rest) : Carried done q rest := by
  induction h with
  | start => exact ⟨settled_nil, barren_nil _, .inl rfl⟩
  | alternative _ hg ha ih => exact ih.alternative (.of_findGroup hg) ha
  | rest _ hg hr ih => exact ih.next hg hr

theorem expand_group {p head tail : List Char} {alternatives : List (List Char)}
    (h : FirstGroup p head alternatives tail) :
    expand p = cross [unescape head] (cross (alternatives.flatMap expand) (expand tail)) := by
  rw [expand_firstGroup h, cross_flatMap]
  congr 1
  refine List.flatMap_congr fun a ha => ?_
  exact expand_append_of_alternative (h.alternative a ha) tail

theorem expand_compositional (p : List Char) :
    (expand p = match findGroup p with
      | none => [unescape p]
      | some g => (g.alternatives p).flatMap fun alternative => (expand alternative).flatMap fun a =>
          (expand (g.tail p)).map fun t => unescape (g.head p) ++ a ++ t) ∧
    ∀ done q rest, Reached p done q rest →
      (expandInto done q rest =
        (expand q).flatMap fun a => (expand rest).map fun t => unescape done ++ a ++ t) ∧
      expandInto done q rest = expand (done ++ q ++ rest) ∧
      live (done ++ q ++ rest) = live done ++ live q ++ live rest ∧
      ∀ i, GroupAt (signs (done ++ q ++ rest)) i ↔
        (∃ j, i = done.length + j ∧ GroupAt (signs q) j) ∨
          ∃ j, i = done.length + q.length + j ∧ GroupAt (signs rest) j := by
  constructor
  · cases h : findGroup p with
    | none => exact expand_of_findGroup h
    | some g =>
      rw [expand_group (.of_findGroup h), cross_flatMap, flatMap_cross]
      simp only [cross_three]
  · intro done q rest h
    have hc := h.carried
    refine ⟨?_, hc.expand_eq, hc.live_eq, hc.groupAt_iff⟩
    rw [hc.expandInto_eq, hc.expand_joined, cross_three]

end BraceParams.Pattern
