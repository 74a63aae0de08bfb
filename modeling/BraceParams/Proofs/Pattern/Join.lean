import BraceParams.Pattern.Group

namespace BraceParams.Pattern

def Settled (s : List Char) : Prop :=
  (live s).getLast? ≠ some (some '\\')

instance (s : List Char) : Decidable (Settled s) := inferInstanceAs (Decidable (_ ≠ _))

theorem live_cons_of_ne {c : Char} (s : List Char) (h : c ≠ '\\') : live (c :: s) = some c :: live s := by
  cases s <;> simp [live, h]

theorem unescape_cons_of_ne {c : Char} (s : List Char) (h : c ≠ '\\') :
    unescape (c :: s) = c :: unescape s := by
  cases s <;> simp [unescape, h]

theorem settled_nil : Settled [] := by decide

theorem settled_singleton {c : Char} : Settled [c] ↔ c ≠ '\\' := by
  simp [Settled, live]

theorem settled_pair {c d : Char} {r : List Char} (h : c = '\\' ∧ isEscapable d) :
    Settled (c :: d :: r) ↔ Settled r := by
  simp only [Settled, live, if_pos h, List.getLast?_cons_cons]
  cases live r <;> simp

theorem settled_cons {c d : Char} {r : List Char} (h : ¬(c = '\\' ∧ isEscapable d)) :
    Settled (c :: d :: r) ↔ Settled (d :: r) := by
  have hne : live (d :: r) ≠ [] := by
    intro he
    have hl := length_live (d :: r)
    simp [he] at hl
  obtain ⟨x, y, hxy⟩ := List.exists_cons_of_ne_nil hne
  simp only [Settled, live, if_neg h, hxy, List.getLast?_cons_cons]

theorem live_append {a : List Char} (b : List Char) (h : Settled a) :
    live (a ++ b) = live a ++ live b := by
  fun_induction live a with
  | case1 => rfl
  | case2 c => exact live_cons_of_ne b (settled_singleton.mp h)
  | case3 c d r hp ih =>
    have hr := ih ((settled_pair hp).mp h)
    simp only [List.cons_append, live, if_pos hp, hr]
  | case4 c d r hp ih =>
    have hr := ih ((settled_cons hp).mp h)
    simp only [List.cons_append] at hr
    simp only [List.cons_append, live, if_neg hp, hr]

theorem unescape_append {a : List Char} (b : List Char) (h : Settled a) :
    unescape (a ++ b) = unescape a ++ unescape b := by
  fun_induction unescape a with
  | case1 => rfl
  | case2 c => exact unescape_cons_of_ne b (settled_singleton.mp h)
  | case3 c d r hp ih =>
    have hr := ih ((settled_pair hp).mp h)
    simp only [List.cons_append, unescape, if_pos hp, hr]
  | case4 c d r hp ih =>
    have hr := ih ((settled_cons hp).mp h)
    simp only [List.cons_append] at hr
    simp only [List.cons_append, unescape, if_neg hp, hr]

theorem settled_append {a b : List Char} (ha : Settled a) : Settled (a ++ b) ↔ Settled b := by
  simp only [Settled, live_append b ha, List.getLast?_append]
  cases hb : (live b).getLast? with
  | none => simpa [Settled] using ha
  | some x => simp

theorem live_cut {s : List Char} {c : Char} {x y : List (Option Char)} (hc : isEscapable c)
    (h : live s = x ++ some c :: y) :
    ∃ a b, s = a ++ c :: b ∧ Settled a ∧ live a = x ∧ live (c :: b) = some c :: y := by
  fun_induction live s generalizing x with
  | case1 => simp at h
  | case2 d =>
    cases x with
    | nil =>
      simp only [List.nil_append, List.cons.injEq, Option.some.injEq] at h
      obtain ⟨rfl, rfl⟩ := h
      exact ⟨[], [], rfl, settled_nil, rfl, rfl⟩
    | cons u x => simp at h
  | case3 d e r hp ih =>
    rcases x with _ | ⟨u, _ | ⟨v, x⟩⟩
    · simp at h
    · simp at h
    · simp only [List.cons_append, List.cons.injEq] at h
      obtain ⟨rfl, rfl, hr⟩ := h
      obtain ⟨a, b, rfl, ha, rfl, hb⟩ := ih hr
      refine ⟨d :: e :: a, b, rfl, (settled_pair hp).mpr ha, ?_, hb⟩
      simp only [live, if_pos hp]
  | case4 d e r hp ih =>
    cases x with
    | nil =>
      simp only [List.nil_append, List.cons.injEq, Option.some.injEq] at h
      obtain ⟨rfl, rfl⟩ := h
      exact ⟨[], e :: r, rfl, settled_nil, rfl, by simp only [live, if_neg hp]⟩
    | cons u x =>
      simp only [List.cons_append, List.cons.injEq] at h
      obtain ⟨rfl, hr⟩ := h
      obtain ⟨a, b, he, ha, rfl, hb⟩ := ih hr
      refine ⟨d :: a, b, by rw [he]; rfl, ?_, ?_, hb⟩
      · cases a with
        | nil =>
          simp only [List.nil_append, List.cons.injEq] at he
          exact settled_singleton.mpr fun hd => hp ⟨hd, he.1 ▸ hc⟩
        | cons f a =>
          simp only [List.cons_append, List.cons.injEq] at he
          exact (settled_cons (he.1 ▸ hp)).mpr ha
      · cases a with
        | nil => rfl
        | cons f a =>
          simp only [List.cons_append, List.cons.injEq] at he
          simp only [live, if_neg (he.1 ▸ hp)]

theorem signs_append {a : List Char} (b : List Char) (h : Settled a) :
    signs (a ++ b) = signs a ++ signs b := by
  simp only [signs, live_append b h, List.map_append]

@[simp]
theorem length_signs (s : List Char) : (signs s).length = s.length := by
  simp [signs]

@[simp]
theorem signs_nil : signs [] = [] := rfl

@[simp]
theorem signs_opening (s : List Char) : signs ('{' :: s) = .opening :: signs s := by
  simp [signs, live_cons_of_ne, Sign.ofLive]

@[simp]
theorem signs_closing (s : List Char) : signs ('}' :: s) = .closing :: signs s := by
  simp [signs, live_cons_of_ne, Sign.ofLive]

@[simp]
theorem signs_comma (s : List Char) : signs (',' :: s) = .comma :: signs s := by
  simp [signs, live_cons_of_ne, Sign.ofLive]

theorem signs_cut {s : List Char} {c : Char} {σ : Sign} {x y : List Sign}
    (hσ : ∀ o, Sign.ofLive o = σ ↔ o = some c) (hc : isEscapable c) (hne : c ≠ '\\')
    (h : signs s = x ++ σ :: y) :
    ∃ a b, s = a ++ c :: b ∧ Settled a ∧ signs a = x ∧ signs b = y := by
  obtain ⟨u, v, hl, rfl, hv⟩ := List.map_eq_append_iff.mp h
  obtain ⟨o, w, rfl, ho, rfl⟩ := List.map_eq_cons_iff.mp hv
  rw [(hσ o).mp ho] at hl
  obtain ⟨a, b, rfl, ha, rfl, hb⟩ := live_cut hc hl
  rw [live_cons_of_ne b hne, List.cons.injEq] at hb
  exact ⟨a, b, rfl, ha, rfl, by rw [← hb.2, signs]⟩

theorem signs_cut_opening {s : List Char} {x y : List Sign} (h : signs s = x ++ .opening :: y) :
    ∃ a b, s = a ++ '{' :: b ∧ Settled a ∧ signs a = x ∧ signs b = y :=
  signs_cut (fun _ => Sign.ofLive_eq_opening) (by decide) (by decide) h

theorem signs_cut_closing {s : List Char} {x y : List Sign} (h : signs s = x ++ .closing :: y) :
    ∃ a b, s = a ++ '}' :: b ∧ Settled a ∧ signs a = x ∧ signs b = y :=
  signs_cut (fun _ => Sign.ofLive_eq_closing) (by decide) (by decide) h

theorem signs_cut_comma {s : List Char} {x y : List Sign} (h : signs s = x ++ .comma :: y) :
    ∃ a b, s = a ++ ',' :: b ∧ Settled a ∧ signs a = x ∧ signs b = y :=
  signs_cut (fun _ => Sign.ofLive_eq_comma) (by decide) (by decide) h

end BraceParams.Pattern
