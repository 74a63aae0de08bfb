import BraceParams.Proofs.Text.Replace
import BraceParams.Text.Blank

namespace BraceParams.Text

section

variable {n d s w x y : List Char}

theorem replace_found (hn : n ≠ []) (h : Clear n x (n ++ y)) :
    replace n d (x ++ (n ++ y)) = x ++ (d ++ replace n d y) := by
  rw [h.replace, replace_append_self hn]

theorem replace_induction {motive : List Char → Prop} (hn : n ≠ []) (absent : ∀ s, ¬n <:+: s → motive s)
    (found : ∀ x y, ¬n <:+: x → Clear n x (n ++ y) → motive y → motive (x ++ (n ++ y))) (s : List Char) :
    motive s := by
  induction hl : s.length using Nat.strong_induction_on generalizing s with
  | h l ih =>
    cases hc : cut? n s with
    | none => exact absent s (cut?_eq_none_iff.mp hc)
    | some p =>
      obtain ⟨x, y⟩ := p
      obtain ⟨rfl, hx⟩ := clear_of_cut? hc
      have hlen := List.length_pos_iff.mpr hn
      have hy : motive y := ih y.length (by simp only [← hl, List.length_append]; omega) y rfl
      refine found x y (fun hi => ?_) hx hy
      obtain ⟨a, b, rfl⟩ := hi
      refine hx (n ++ b) ?_ (by simp [hn]) ?_
      · rw [List.append_assoc]
        exact List.suffix_append a (n ++ b)
      · rw [List.append_assoc]
        exact List.prefix_append n _

theorem infix_replace_iff (hn : n ≠ []) (h : Separates n w) (hd : Separates d w) :
    w <:+: replace n d s ↔ w <:+: s := by
  induction s using replace_induction hn with
  | absent s hs => rw [replace_of_absent hs]
  | found x y _ hx ih => rw [replace_found hn hx, ← List.append_assoc, ← List.append_assoc, hd.infix_iff, h.infix_iff, ih]

end

/-- A word that can grow again out of a replacement `e ++ p` of `n`, but only behind `e`. -/
structure Regrows (n e p w : List Char) : Prop where
  alone : runsInto n.tail n = false
  apart : w = n ∨ Separates n w
  lead : Separates e w
  last : runsInto p.tail w = false
  short : p.length ≤ w.length

namespace Regrows

variable {n e p v w s b : List Char}

theorem prefix_append_iff_of_stops (hv : w = p ++ v) {x t : List Char} (h : w <+: (p ++ x) ++ t → w <+: p ++ x) :
    v <+: x ++ t ↔ v <+: x := by
  refine ⟨fun hx => ?_, fun hx => hx.trans (List.prefix_append x t)⟩
  rw [hv, List.append_assoc, List.prefix_append_right_inj, List.prefix_append_right_inj] at h
  exact h hx

theorem prefix_append_needle (h : Regrows n e p w) (hp : p ≠ []) (hv : w = p ++ v) {x : List Char} :
    v <+: x ++ (n ++ b) ↔ v <+: x := by
  apply prefix_append_iff_of_stops hv
  intro hw
  rcases h.apart with rfl | hs
  · exact prefix_of_prefix_append_self h.alone (by simp [hp]) hw
  · exact hs.stops _ b hw

theorem prefix_append_lead (h : Regrows n e p w) (hv : w = p ++ v) {x : List Char} :
    v <+: x ++ (e ++ b) ↔ v <+: x :=
  prefix_append_iff_of_stops hv (h.lead.stops _ b)

theorem prefix_replace_iff (h : Regrows n e p w) (hn : n ≠ []) (hp : p ≠ []) (hv : w = p ++ v) :
    v <+: replace n (e ++ p) s ↔ v <+: s := by
  induction s using replace_induction hn with
  | absent s hs => rw [replace_of_absent hs]
  | found x y _ hx _ =>
    rw [replace_found hn hx, List.append_assoc e, h.prefix_append_lead hv, h.prefix_append_needle hp hv]

theorem infix_behind_lead (h : Regrows n e p w) (hp : p ≠ []) :
    w <:+: p ++ b ↔ (∃ v, w = p ++ v ∧ v <+: b) ∨ w <:+: b := by
  obtain ⟨c, q, rfl⟩ := List.exists_cons_of_ne_nil hp
  have hq : w <:+: q ++ b ↔ w <:+: b := (clear_of_runsInto h.last b).infix_iff
  rw [List.cons_append, List.infix_cons_iff, hq, ← List.cons_append]
  refine or_congr_left ⟨fun hw => ?_, ?_⟩
  · obtain ⟨v, rfl⟩ := List.prefix_of_prefix_length_le (List.prefix_append (c :: q) b) hw h.short
    exact ⟨v, rfl, (List.prefix_append_right_inj _).mp hw⟩
  · rintro ⟨v, rfl, hv⟩
    exact (List.prefix_append_right_inj _).mpr hv

theorem needle_infix_iff (h : Regrows n e p w) (hn : n ≠ []) {x y : List Char} (hx : Clear n x (n ++ y)) :
    n ++ v <:+: x ++ (n ++ y) ↔ v <+: y ∨ n ++ v <:+: y := by
  obtain ⟨c, q, rfl⟩ := List.exists_cons_of_ne_nil hn
  have hclear {a b : List Char} (ha : Clear (c :: q) a b) : Clear (c :: q ++ v) a b :=
    fun z hz hne hp => ha z hz hne ((List.prefix_append _ v).trans hp)
  have hq : c :: q ++ v <:+: q ++ y ↔ c :: q ++ v <:+: y := (hclear (clear_of_runsInto h.alone y)).infix_iff
  have hy : c :: q ++ v <:+: c :: (q ++ y) ↔ c :: q ++ v <+: c :: q ++ y ∨ c :: q ++ v <:+: q ++ y :=
    List.infix_cons_iff
  rw [(hclear hx).infix_iff, ← hq, ← List.prefix_append_right_inj (c :: q)]
  exact hy

theorem infix_replace_iff (h : Regrows n e p w) (hn : n ≠ []) (hp : p ≠ []) :
    w <:+: replace n (e ++ p) s ↔ (w ≠ n ∧ w <:+: s) ∨ ∃ v, w = p ++ v ∧ n ++ v <:+: s := by
  induction s using replace_induction hn with
  | absent s hs =>
    have hv : ∀ v, ¬n ++ v <:+: s := fun v hv => hs ((List.prefix_append n v).isInfix.trans hv)
    rw [replace_of_absent hs]
    constructor
    · intro hw
      exact .inl ⟨fun he => hs (he ▸ hw), hw⟩
    · rintro (⟨-, hw⟩ | ⟨v, -, hw⟩)
      · exact hw
      · exact absurd hw (hv v)
  | found x y hnx hx ih =>
    -- `w` stands in front of the needle, starts in what is put for it, or stands in what is left to be replaced
    have hl : w <:+: replace n (e ++ p) (x ++ (n ++ y)) ↔
        w <:+: x ∨ (∃ v, w = p ++ v ∧ v <+: y) ∨ w <:+: replace n (e ++ p) y := by
      rw [replace_found hn hx, List.append_assoc e, ← List.append_assoc, h.lead.infix_iff, h.infix_behind_lead hp]
      refine or_congr_right (or_congr_left (exists_congr fun v => and_congr_right fun hv => ?_))
      exact h.prefix_replace_iff hn hp hv
    -- the needle that `v` goes on behind is this one or a later one
    have hr : (∃ v, w = p ++ v ∧ n ++ v <:+: x ++ (n ++ y)) ↔
        (∃ v, w = p ++ v ∧ v <+: y) ∨ ∃ v, w = p ++ v ∧ n ++ v <:+: y := by
      simp only [h.needle_infix_iff hn hx, and_or_left, exists_or]
    have hs : w ≠ n ∧ w <:+: x ++ (n ++ y) ↔ w <:+: x ∨ w ≠ n ∧ w <:+: y := by
      by_cases he : w = n
      · subst he
        simp [hnx]
      · rw [← List.append_assoc, (h.apart.resolve_left he).infix_iff]
        simp [he]
    rw [hl, hr, hs, ih, or_left_comm (a := ∃ v, w = p ++ v ∧ v <+: y), ← or_assoc]

end Regrows

section

variable {w s : List Char} {k : Nat} {pieces : List (List Char)}

theorem join_cons_cons (w : List Char) (c : Char) (piece : List Char) (rest : List (List Char)) :
    join w ((c :: piece) :: rest) = c :: join w (piece :: rest) := by
  cases rest <;> rfl

theorem join_nil_cons (w : List Char) {rest : List (List Char)} (h : rest ≠ []) : join w ([] :: rest) = w ++ join w rest := by
  obtain ⟨piece, rest, rfl⟩ := List.exists_cons_of_ne_nil h
  rfl

theorem join_splitFrom (hw : w ≠ []) (k : Nat) (s : List Char) : join w (splitFrom w k s) = s.drop k := by
  fun_induction splitFrom w k s with
  | case1 => simp [join]
  | case2 k c r ih => rw [ih, List.drop_succ_cons]
  | case3 c r hp ih =>
    obtain ⟨e, w, rfl⟩ := List.exists_cons_of_ne_nil hw
    obtain ⟨t, ht⟩ := List.isPrefixOf_iff_prefix.mp hp
    obtain ⟨rfl, rfl⟩ := List.cons.inj ht
    rw [join_nil_cons _ (splitFrom_ne_nil _ _ _), ih]
    exact congrArg (e :: w ++ ·) List.drop_left
  | case4 c r hp he => exact absurd he (splitFrom_ne_nil w 0 r)
  | case5 c r hp piece rest he ih =>
    rw [join_cons_cons, ← he, ih]
    rfl

theorem join_split (hw : w ≠ []) (s : List Char) : join w (split w s) = s :=
  join_splitFrom hw 0 s

theorem infix_join_iff {sep : List Char} (h : Separates sep w) (hw : w ≠ []) :
    w <:+: join sep pieces ↔ ∃ piece ∈ pieces, w <:+: piece := by
  induction pieces with
  | nil => simp [join, hw]
  | cons piece rest ih =>
    cases rest with
    | nil => simp [join]
    | cons next rest =>
      rw [join, h.infix_iff, ih, List.exists_mem_cons_iff (a := piece)]
      exact List.cons_ne_nil next rest

theorem isInfix_trimBy (p : Char → Bool) (s : List Char) : trimBy p s <:+: s := by
  have hr : ((s.dropWhile p).reverse.dropWhile p).reverse <+: s.dropWhile p := by
    rw [← List.reverse_suffix, List.reverse_reverse]
    exact List.dropWhile_suffix p
  exact hr.isInfix.trans (List.dropWhile_suffix p).isInfix

end

end BraceParams.Text
