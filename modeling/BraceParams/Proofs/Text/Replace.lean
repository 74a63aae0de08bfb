import BraceParams.Proofs.Text.Occurrence

namespace BraceParams.Text

section

variable {w d s t a b : List Char} {k : Nat}

theorem Clear.replace (h : Clear w a b) : replace w d (a ++ b) = a ++ replace w d b := by
  rw [Text.replace, Text.replace]
  induction a with
  | nil => rfl
  | cons c a ih =>
    have hn : ¬w.isPrefixOf (c :: (a ++ b)) := by
      rw [List.isPrefixOf_iff_prefix]
      exact h (c :: a) List.suffix_rfl (List.cons_ne_nil c a)
    rw [List.cons_append, replaceFrom, if_neg hn, ih h.tail, List.cons_append]

theorem replaceFrom_length (s : List Char) : replaceFrom w d a.length (a ++ s) = replace w d s := by
  induction a with
  | nil => rfl
  | cons c a ih => exact ih

theorem replace_append_self (hw : w ≠ []) (s : List Char) : replace w d (w ++ s) = d ++ replace w d s := by
  obtain ⟨c, w, rfl⟩ := List.exists_cons_of_ne_nil hw
  have hp : (c :: w).isPrefixOf (c :: (w ++ s)) := List.isPrefixOf_iff_prefix.mpr (List.prefix_append (c :: w) s)
  rw [List.cons_append, replace, replaceFrom, if_pos hp]
  exact congrArg (d ++ ·) (replaceFrom_length s)

theorem replace_of_absent (h : ¬w <:+: s) : replace w d s = s := by
  have hc : Clear w s [] := by
    intro x hx _ hp
    rw [List.append_nil] at hp
    exact h (hp.isInfix.trans hx.isInfix)
  have hr := hc.replace (d := d)
  have hnil : replace w d [] = [] := rfl
  rwa [List.append_nil, hnil, List.append_nil] at hr

theorem Separates.replaceFrom_append (h : Separates t w) (hk : k ≤ a.length) :
    replaceFrom w d k (a ++ (t ++ b)) = replaceFrom w d k a ++ t ++ replace w d b := by
  induction a generalizing k with
  | nil =>
    obtain rfl : k = 0 := Nat.le_zero.mp hk
    exact (h.clear b).replace
  | cons c a ih =>
    cases k with
    | succ k => exact ih (Nat.le_of_succ_le_succ hk)
    | zero =>
      have hp : w.isPrefixOf (c :: (a ++ (t ++ b))) ↔ w.isPrefixOf (c :: a) := by
        rw [List.isPrefixOf_iff_prefix, List.isPrefixOf_iff_prefix]
        exact ⟨h.stops (c :: a) b, fun hp => hp.trans (List.prefix_append (c :: a) (t ++ b))⟩
      rw [List.cons_append, replaceFrom, replaceFrom]
      by_cases hw : w.isPrefixOf (c :: a)
      · have hl := (List.isPrefixOf_iff_prefix.mp hw).length_le
        rw [List.length_cons] at hl
        rw [if_pos (hp.mpr hw), if_pos hw, ih (by omega), List.append_assoc, List.append_assoc, List.append_assoc]
      · rw [if_neg (mt hp.mp hw), if_neg hw, ih (Nat.zero_le _)]
        rfl

theorem Separates.replace (h : Separates t w) :
    replace w d (a ++ t ++ b) = replace w d a ++ t ++ replace w d b := by
  rw [List.append_assoc]
  exact h.replaceFrom_append (Nat.zero_le _)

def Differ (c d : Char) (s t : List Char) : Prop :=
  ∃ a x y, s = a ++ c :: x ∧ t = a ++ d :: y

theorem Differ.ne {c d : Char} (hcd : c ≠ d) (h : Differ c d s t) : s ≠ t := by
  obtain ⟨a, x, y, rfl, rfl⟩ := h
  intro h
  rw [List.append_cancel_left_eq, List.cons.injEq] at h
  exact hcd h.1

theorem Differ.trans {c d : Char} {u : List Char} (hcd : c ≠ d) (h : Differ c d s t) (h' : Differ c d t u) :
    Differ c d s u := by
  obtain ⟨a, x, y, rfl, rfl⟩ := h
  obtain ⟨b, z, v, hb, rfl⟩ := h'
  rcases List.append_eq_append_iff.mp hb with ⟨e, rfl, he⟩ | ⟨e, rfl, he⟩
  · cases e with
    | nil => exact absurd (List.cons.inj he).1.symm hcd
    | cons k e =>
      obtain ⟨rfl, -⟩ := List.cons.inj he
      exact ⟨a, x, e ++ d :: v, rfl, by rw [List.append_assoc, List.cons_append]⟩
  · cases e with
    | nil => exact absurd (List.cons.inj he).1 hcd
    | cons k e =>
      obtain ⟨rfl, -⟩ := List.cons.inj he
      exact ⟨b, e ++ c :: x, v, by rw [List.append_assoc, List.cons_append], rfl⟩

theorem replace_differ {c e : Char} (hs : c :: w <:+: s) : Differ c e s (replace (c :: w) (e :: d) s) := by
  obtain ⟨⟨x, y⟩, hc⟩ := Option.isSome_iff_exists.mp (contains_iff.mpr hs)
  obtain ⟨rfl, hclear⟩ := clear_of_cut? hc
  refine ⟨x, w ++ y, d ++ replace (c :: w) (e :: d) y, rfl, ?_⟩
  rw [hclear.replace, replace_append_self (List.cons_ne_nil c w), List.cons_append]

theorem mem_replaceFrom {c : Char} (h : c ∈ replaceFrom w d k s) : c ∈ d ∨ c ∈ s := by
  fun_induction replaceFrom w d k s with
  | case1 => cases h
  | case2 k x r ih => exact (ih h).imp_right (List.mem_cons_of_mem x)
  | case3 x r hp ih =>
    rcases List.mem_append.mp h with h | h
    · exact .inl h
    · exact (ih h).imp_right (List.mem_cons_of_mem x)
  | case4 x r hp ih =>
    rcases List.mem_cons.mp h with rfl | h
    · exact .inr List.mem_cons_self
    · exact (ih h).imp_right (List.mem_cons_of_mem x)

theorem mem_replace_iff {c : Char} (hw : w ≠ []) (h : c ∉ w) (hd : c ∉ d) : c ∈ replace w d s ↔ c ∈ s := by
  constructor
  · intro hc
    exact (mem_replaceFrom hc).resolve_left hd
  · intro hc
    obtain ⟨a, b, rfl⟩ := List.append_of_mem hc
    rw [← List.singleton_append, ← List.append_assoc, (separates_singleton hw h).replace]
    simp

theorem splitFrom_ne_nil (w : List Char) (k : Nat) (s : List Char) : splitFrom w k s ≠ [] := by
  fun_induction splitFrom w k s with
  | case1 => exact List.cons_ne_nil _ _
  | case2 k c s ih => exact ih
  | case3 => exact List.cons_ne_nil _ _
  | case4 => exact List.cons_ne_nil _ _
  | case5 => exact List.cons_ne_nil _ _

theorem splitFrom_length (s : List Char) : splitFrom w a.length (a ++ s) = split w s := by
  induction a with
  | nil => rfl
  | cons c a ih => exact ih

theorem split_of_absent (h : ¬w <:+: s) : split w s = [s] := by
  induction s with
  | nil => rfl
  | cons c s ih =>
    have hp : ¬w.isPrefixOf (c :: s) := by
      rw [List.isPrefixOf_iff_prefix]
      exact fun hp => h hp.isInfix
    have hs := ih fun hs => h (List.infix_cons hs)
    rw [split] at hs
    rw [split, splitFrom, if_neg hp, hs]

theorem splitFrom_append_self (hw : w ≠ []) (h : runsInto w.tail w = false) (hk : k ≤ a.length) (b : List Char) :
    splitFrom w k (a ++ (w ++ b)) = splitFrom w k a ++ split w b := by
  induction a generalizing k with
  | nil =>
    obtain rfl : k = 0 := Nat.le_zero.mp hk
    obtain ⟨c, w, rfl⟩ := List.exists_cons_of_ne_nil hw
    have hp : (c :: w).isPrefixOf (c :: (w ++ b)) := List.isPrefixOf_iff_prefix.mpr (List.prefix_append (c :: w) b)
    change splitFrom (c :: w) 0 (c :: (w ++ b)) = [] :: split (c :: w) b
    rw [splitFrom, if_pos hp]
    exact congrArg ([] :: ·) (splitFrom_length b)
  | cons c a ih =>
    cases k with
    | succ k => exact ih (Nat.le_of_succ_le_succ hk)
    | zero =>
      have hp : w.isPrefixOf (c :: (a ++ (w ++ b))) ↔ w.isPrefixOf (c :: a) := by
        rw [List.isPrefixOf_iff_prefix, List.isPrefixOf_iff_prefix]
        exact ⟨prefix_of_prefix_append_self h (List.cons_ne_nil c a), fun hp => hp.trans (List.prefix_append _ _)⟩
      rw [List.cons_append, splitFrom, splitFrom]
      by_cases hc : w.isPrefixOf (c :: a)
      · have hl := (List.isPrefixOf_iff_prefix.mp hc).length_le
        rw [List.length_cons] at hl
        rw [if_pos (hp.mpr hc), if_pos hc, ih (by omega), List.cons_append]
      · rw [if_neg (mt hp.mp hc), if_neg hc, ih (Nat.zero_le _)]
        cases hs : splitFrom w 0 a with
        | nil => exact absurd hs (splitFrom_ne_nil w 0 a)
        | cons piece rest => rfl

theorem split_append_self (hw : w ≠ []) (h : runsInto w.tail w = false) (a b : List Char) :
    split w (a ++ w ++ b) = split w a ++ split w b := by
  rw [List.append_assoc]
  exact splitFrom_append_self hw h (Nat.zero_le _) b

theorem split_join (hw : w ≠ []) (h : runsInto w.tail w = false) {pieces : List (List Char)} (hn : pieces ≠ [])
    (hp : ∀ piece ∈ pieces, ¬w <:+: piece) : split w (join w pieces) = pieces := by
  induction pieces with
  | nil => exact absurd rfl hn
  | cons piece rest ih =>
    obtain ⟨hpiece, hrest⟩ := List.forall_mem_cons.mp hp
    cases rest with
    | nil => exact split_of_absent hpiece
    | cons next rest =>
      rw [join, split_append_self hw h, split_of_absent hpiece, ih (List.cons_ne_nil next rest) hrest,
        List.singleton_append]
      exact List.cons_ne_nil next rest

theorem mem_join_iff {c : Char} (hw : c ∉ w) {pieces : List (List Char)} :
    c ∈ join w pieces ↔ ∃ piece ∈ pieces, c ∈ piece := by
  induction pieces with
  | nil => simp [join]
  | cons piece rest ih =>
    cases rest with
    | nil => simp [join]
    | cons next rest =>
      rw [join, List.mem_append, List.mem_append, or_iff_left hw, ih, List.exists_mem_cons_iff,
        List.exists_mem_cons_iff, List.exists_mem_cons_iff]
      exact List.cons_ne_nil next rest

end

end BraceParams.Text
