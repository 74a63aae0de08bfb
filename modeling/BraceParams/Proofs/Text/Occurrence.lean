import Mathlib.Data.List.Infix
import BraceParams.Proofs.Text.Search

namespace BraceParams.Text

section

variable {w s a b : List Char}

theorem contains_iff : contains w s = true ↔ w <:+: s := by
  rw [contains, Option.isSome_iff_exists]
  constructor
  · rintro ⟨⟨x, y⟩, h⟩
    exact ⟨x, y, append_of_cut? h⟩
  · rintro ⟨x, y, h⟩
    cases hc : cut? w s with
    | none => exact absurd h.symm (lacks_of_cut? hc x y)
    | some found => exact ⟨found, rfl⟩

theorem contains_eq_false_iff : contains w s = false ↔ ¬w <:+: s := by
  rw [← contains_iff, Bool.not_eq_true]

theorem contains_eq_false_of_mem {c : Char} (hw : c ∈ w) (hs : c ∉ s) : contains w s = false :=
  contains_eq_false_iff.mpr fun h => hs (h.subset hw)

theorem cut?_eq_none_iff : cut? w s = none ↔ ¬w <:+: s := by
  rw [← contains_eq_false_iff, contains, Option.isSome_eq_false_iff, Option.isNone_iff_eq_none]

theorem cut?_append_left {x y : List Char} (h : cut? w a = some (x, y)) (b : List Char) :
    cut? w (a ++ b) = some (x, y ++ b) := by
  have hf := firstAt_of_cut? h
  refine cut?_eq_some_iff.mpr ⟨by rw [hf.text, List.append_assoc], fun x' y' he => ?_⟩
  by_contra hl
  -- an earlier occurrence would end in `a` as well
  have hp : x' ++ w <+: a := by
    apply List.prefix_of_prefix_length_le ⟨y', he.symm⟩ (List.prefix_append a b)
    have := congrArg List.length hf.text
    simp only [List.length_append] at this ⊢
    omega
  obtain ⟨y'', hy⟩ := hp
  exact hl (hf.first x' y'' hy.symm)

theorem cut?_append_self (w b : List Char) : cut? w (w ++ b) = some ([], b) :=
  cut?_eq_some_iff.mpr ⟨rfl, fun _ _ _ => Nat.zero_le _⟩

/-- No occurrence of `w` starts in `a` if `b` follows. -/
def Clear (w a b : List Char) : Prop :=
  ∀ x, x <:+ a → x ≠ [] → ¬w <+: x ++ b

theorem Clear.cons {c : Char} (h : Clear w a b) (hc : ¬w <+: c :: (a ++ b)) : Clear w (c :: a) b := by
  intro x hx hn
  rcases List.suffix_cons_iff.mp hx with rfl | hx
  · exact hc
  · exact h x hx hn

theorem Clear.tail {c : Char} (h : Clear w (c :: a) b) : Clear w a b :=
  fun x hx => h x (hx.trans (List.suffix_cons c a))

theorem Clear.cut? (h : Clear w a b) : cut? w (a ++ b) = (cut? w b).map fun (x, y) => (a ++ x, y) := by
  induction a with
  | nil => simp
  | cons c a ih =>
    have hn : ¬w.isPrefixOf (c :: (a ++ b)) := by
      rw [List.isPrefixOf_iff_prefix]
      exact h (c :: a) List.suffix_rfl (List.cons_ne_nil c a)
    rw [List.cons_append, Text.cut?, if_neg hn, ih h.tail, Option.map_map]
    rfl

theorem Clear.infix_iff (h : Clear w a b) : w <:+: a ++ b ↔ w <:+: b := by
  rw [← contains_iff, ← contains_iff, contains, h.cut?, Option.isSome_map, contains]

theorem clear_of_cut? {x y : List Char} (h : Text.cut? w s = some (x, y)) : s = x ++ (w ++ y) ∧ Clear w x (w ++ y) := by
  have hf := firstAt_of_cut? h
  have ht : s = x ++ (w ++ y) := by rw [hf.text, List.append_assoc]
  refine ⟨ht, ?_⟩
  rintro z ⟨x', rfl⟩ hn ⟨y', hp⟩
  have hl := hf.first x' y' (by rw [ht, List.append_assoc, ← hp, ← List.append_assoc])
  have := List.length_pos_iff.mpr hn
  rw [List.length_append] at hl
  omega

/-- `t` has no character in common with an occurrence of `w`, whatever stands around it. -/
structure Separates (t w : List Char) : Prop where
  clear : ∀ b, Clear w t b
  stops : ∀ x b, w <+: x ++ (t ++ b) → w <+: x

end

def comparable (s t : List Char) : Bool :=
  s.isPrefixOf t || t.isPrefixOf s

theorem comparable_of_starts {s t b : List Char} (h : s <+: t ++ b) : comparable s t = true := by
  rw [comparable, Bool.or_eq_true, List.isPrefixOf_iff_prefix, List.isPrefixOf_iff_prefix]
  exact List.prefix_or_prefix_of_prefix h (List.prefix_append t b)

def runsInto (s t : List Char) : Bool :=
  s.tails.any fun x => !x.isEmpty && comparable x t

theorem not_comparable_of_runsInto {s t x : List Char} (h : runsInto s t = false) (hx : x <:+ s) (hn : x ≠ []) :
    comparable x t = false := by
  rw [runsInto, List.any_eq_false] at h
  simpa [hn] using h x ((List.mem_tails x s).mpr hx)

section

variable {t w a b : List Char}

theorem clear_of_runsInto (h : runsInto t w = false) (b : List Char) : Clear w t b := by
  intro x hx hn hp
  have hc := not_comparable_of_runsInto h hx hn
  rw [comparable, Bool.or_comm] at hc
  exact Bool.eq_false_iff.mp hc (comparable_of_starts hp)

theorem separates_of_runsInto (h : runsInto t w = false) (h' : runsInto w t = false) : Separates t w := by
  refine ⟨clear_of_runsInto h, fun x b hp => ?_⟩
  by_contra hx
  obtain hw | ⟨v, rfl⟩ := List.prefix_or_prefix_of_prefix hp (List.prefix_append x (t ++ b))
  · exact hx hw
  · have hv : v ≠ [] := by
      rintro rfl
      exact hx (by rw [List.append_nil])
    have hc := not_comparable_of_runsInto h' (List.suffix_append x v) hv
    exact Bool.eq_false_iff.mp hc (comparable_of_starts ((List.prefix_append_right_inj x).mp hp))

theorem separates_of_disjoint (hw : w ≠ []) (ht : t ≠ []) (h : ∀ c ∈ t, c ∉ w) : Separates t w := by
  refine ⟨fun b x hx hn hp => ?_, fun x b hp => ?_⟩
  · obtain ⟨e, w, rfl⟩ := List.exists_cons_of_ne_nil hw
    obtain ⟨c, x, rfl⟩ := List.exists_cons_of_ne_nil hn
    obtain ⟨rfl, -⟩ := List.cons_prefix_cons.mp hp
    exact h e (hx.mem List.mem_cons_self) List.mem_cons_self
  · obtain ⟨d, t, rfl⟩ := List.exists_cons_of_ne_nil ht
    obtain hx | ⟨v, rfl⟩ := List.prefix_or_prefix_of_prefix hp (List.prefix_append x (d :: t ++ b))
    · exact hx
    · cases v with
      | nil => rw [List.append_nil]
      | cons e v =>
        obtain ⟨rfl, -⟩ := List.cons_prefix_cons.mp ((List.prefix_append_right_inj x).mp hp)
        exact absurd (List.mem_append_right x List.mem_cons_self) (h e List.mem_cons_self)

theorem separates_singleton {c : Char} (hw : w ≠ []) (h : c ∉ w) : Separates [c] w :=
  separates_of_disjoint hw (List.cons_ne_nil c []) fun d hd => by rwa [List.mem_singleton.mp hd]

namespace Separates

theorem clear_append (h : Separates t w) (ha : ¬w <:+: a) : Clear w (a ++ t) b := by
  induction a with
  | nil => exact h.clear b
  | cons c a ih =>
    intro x hx hn hp
    rw [List.cons_append] at hx
    rcases List.suffix_cons_iff.mp hx with rfl | hx
    · rw [← List.cons_append, List.append_assoc] at hp
      exact ha (h.stops _ b hp).isInfix
    · exact ih (fun hi => ha (List.infix_cons hi)) x hx hn hp

theorem cut? (h : Separates t w) (ha : ¬w <:+: a) :
    cut? w (a ++ t ++ b) = (Text.cut? w b).map fun (x, y) => (a ++ t ++ x, y) :=
  (h.clear_append ha).cut?

theorem infix_iff (h : Separates t w) : w <:+: a ++ t ++ b ↔ w <:+: a ∨ w <:+: b := by
  by_cases ha : w <:+: a
  · simp only [ha, true_or, iff_true]
    rw [List.append_assoc]
    exact ha.trans (List.prefix_append a (t ++ b)).isInfix
  · rw [(h.clear_append ha).infix_iff, or_iff_right ha]

theorem contains (h : Separates t w) : contains w (a ++ t ++ b) = (contains w a || contains w b) := by
  rw [Bool.eq_iff_iff, Bool.or_eq_true, contains_iff, contains_iff, contains_iff, h.infix_iff]

theorem contains_behind (h : Separates t w) : Text.contains w (t ++ b) = Text.contains w b := by
  rw [Bool.eq_iff_iff, contains_iff, contains_iff, (h.clear b).infix_iff]

theorem contains_before (h : Separates t w) : Text.contains w (a ++ t) = Text.contains w a := by
  have hi := h.infix_iff (a := a) (b := [])
  rw [List.append_nil, or_iff_left_of_imp] at hi
  · rw [Bool.eq_iff_iff, contains_iff, contains_iff, hi]
  · intro hn
    rw [List.infix_nil.mp hn]
    exact List.nil_infix

theorem contains_enclosed {t' : List Char} (h : Separates t w) (h' : Separates t' w) (s : List Char) :
    Text.contains w (t ++ s ++ t') = Text.contains w s := by
  rw [h'.contains_before, h.contains_behind]

end Separates

theorem prefix_of_prefix_append_self {x : List Char} (h : runsInto w.tail w = false) (hx : x ≠ [])
    (hp : w <+: x ++ (w ++ b)) : w <+: x := by
  obtain hw | ⟨v, rfl⟩ := List.prefix_or_prefix_of_prefix hp (List.prefix_append x (w ++ b))
  · exact hw
  · -- what is left of `w` behind `x` would start `w` once more
    by_cases hv : v = []
    · rw [hv, List.append_nil]
    · have hs : v <:+ (x ++ v).tail := by
        rw [List.tail_append_of_ne_nil hx]
        exact List.suffix_append x.tail v
      have hc := not_comparable_of_runsInto h hs hv
      exact absurd (comparable_of_starts ((List.prefix_append_right_inj x).mp hp)) (Bool.eq_false_iff.mp hc)

theorem cut?_self (h : runsInto w.tail w = false) (ha : ¬w <:+: a) (b : List Char) :
    cut? w (a ++ w ++ b) = some (a, b) := by
  have hc : Clear w a (w ++ b) := by
    intro x hx hn hp
    exact ha ((prefix_of_prefix_append_self h hn hp).isInfix.trans hx.isInfix)
  rw [List.append_assoc, hc.cut?, cut?_append_self]
  simp

theorem cutLast?_of_absent (h : ¬w <:+: a) : cutLast? w a = none := by
  induction a with
  | nil =>
    have hn : ¬w.isPrefixOf [] := by
      rw [List.isPrefixOf_iff_prefix]
      exact fun hp => h hp.isInfix
    rw [cutLast?, if_neg hn]
  | cons c a ih =>
    have hn : ¬w.isPrefixOf (c :: a) := by
      rw [List.isPrefixOf_iff_prefix]
      exact fun hp => h hp.isInfix
    rw [cutLast?, ih fun ha => h (List.infix_cons ha)]
    exact if_neg hn

theorem cutLast?_append {x y : List Char} (h : cutLast? w b = some (x, y)) (a : List Char) :
    cutLast? w (a ++ b) = some (a ++ x, y) := by
  induction a with
  | nil => exact h
  | cons c a ih => rw [List.cons_append, cutLast?, ih, List.cons_append]

theorem cutLast?_self {c : Char} (h : ¬c :: w <:+: w ++ b) (a : List Char) :
    cutLast? (c :: w) (a ++ (c :: w ++ b)) = some (a, b) := by
  have hp : (c :: w).isPrefixOf (c :: (w ++ b)) := List.isPrefixOf_iff_prefix.mpr (List.prefix_append (c :: w) b)
  have hs : cutLast? (c :: w) (c :: (w ++ b)) = some ([], b) := by
    rw [cutLast?, cutLast?_of_absent h]
    apply (if_pos hp).trans
    rw [← List.cons_append, List.drop_left]
  rw [List.cons_append, cutLast?_append hs, List.append_nil]

end

section

variable {c : Char} {a s : List Char}

theorem cut?_singleton_eq_none_iff : cut? [c] s = none ↔ c ∉ s := by
  rw [cut?_eq_none_iff, List.singleton_infix_iff]

theorem clear_of_not_mem (h : c ∉ a) (b : List Char) : Clear [c] a b := by
  intro x hx hn hp
  obtain ⟨d, x, rfl⟩ := List.exists_cons_of_ne_nil hn
  obtain ⟨rfl, -⟩ := List.cons_prefix_cons.mp hp
  exact h (hx.subset List.mem_cons_self)

theorem before_append_of_not_mem (h : c ∉ a) (b : List Char) : before [c] (a ++ b) = a ++ before [c] b := by
  rw [before, before, (clear_of_not_mem h b).cut?]
  cases cut? [c] b <;> rfl

theorem before_of_not_mem (h : c ∉ s) : before [c] s = s := by
  rw [before, cut?_singleton_eq_none_iff.mpr h]

theorem before_append_of_mem (h : c ∈ a) (b : List Char) : before [c] (a ++ b) = before [c] a := by
  cases hc : cut? [c] a with
  | none => exact absurd h (cut?_singleton_eq_none_iff.mp hc)
  | some found =>
    obtain ⟨x, y⟩ := found
    rw [before, before, cut?_append_left hc, hc]

theorem exists_before_append (h : c ∈ s) : ∃ t, s = before [c] s ++ c :: t := by
  cases hc : cut? [c] s with
  | none => exact absurd h (cut?_singleton_eq_none_iff.mp hc)
  | some found =>
    obtain ⟨x, y⟩ := found
    refine ⟨y, ?_⟩
    rw [before, hc, ← append_of_cut? hc, List.append_assoc]
    rfl

theorem not_mem_before (c : Char) (s : List Char) : c ∉ before [c] s := by
  intro h
  have hu : UpTo [c] s (before [c] s) := before_eq_iff.mp rfl
  obtain ⟨x, y, hx⟩ := List.append_of_mem h
  rcases hu with ⟨rest, hf⟩ | ⟨he, hl⟩
  · have := hf.first x (y ++ [c] ++ rest) (hf.text.trans (by rw [hx]; simp))
    rw [hx, List.length_append, List.length_cons] at this
    omega
  · exact hl x y (he.trans (by rw [hx]; simp))

theorem exists_cut?_singleton (a b : List Char) : ∃ rest, cut? [c] (a ++ c :: b) = some (before [c] a, rest) := by
  by_cases h : c ∈ a
  · cases hc : cut? [c] a with
    | none => exact absurd h (cut?_singleton_eq_none_iff.mp hc)
    | some found =>
      obtain ⟨x, y⟩ := found
      rw [before, hc]
      exact ⟨y ++ c :: b, cut?_append_left hc (c :: b)⟩
  · have hc : cut? [c] (c :: b) = some ([], b) := cut?_append_self [c] b
    refine ⟨b, ?_⟩
    rw [before_of_not_mem h, (clear_of_not_mem h (c :: b)).cut?, hc, Option.map_some]
    simp

end

end BraceParams.Text
