import Mathlib.Data.List.Sort
import BraceParams.Proofs.Pattern.Product

namespace BraceParams.Pattern

/-- The live comma at place `k` stands directly inside the pair of braces at `i` and `j`: what is between
it and the opening brace is balanced. -/
def Divides (p : List Char) (i j k : Nat) : Prop :=
  i < k ∧ k < j ∧ (live p)[k]? = some (some ',') ∧ Balanced (((signs p).take k).drop (i + 1))

structure Leftmost (p : List Char) (g : Group) : Prop where
  paired : Paired p g.openAt g.closeAt
  divided : ∃ k, Divides p g.openAt g.closeAt k
  least : ∀ i j k, Paired p i j → Divides p i j k → g.openAt ≤ i
  mem_splits : ∀ k, k ∈ g.splits ↔ Divides p g.openAt g.closeAt k
  ordered : g.splits.Pairwise (· < ·)

def Meets (s : Sign) (d i : Nat) (a : List Sign) (k : Nat) : Prop :=
  ∃ n, k = i + n ∧ a[n]? = some s ∧ level d (a.take n) = some 0

theorem meets_nil {s : Sign} {d i k : Nat} : ¬Meets s d i [] k := by
  simp [Meets]

theorem meets_cons {s t : Sign} {d i k : Nat} {a : List Sign} :
    Meets s d i (t :: a) k ↔
      (k = i ∧ t = s ∧ d = 0) ∨ ∃ e, level d [t] = some e ∧ Meets s e (i + 1) a k := by
  constructor
  · rintro ⟨n, rfl, hn, hl⟩
    cases n with
    | zero => exact .inl ⟨rfl, by simpa using hn, by simpa [level] using hl⟩
    | succ n =>
      rw [List.take_succ_cons, ← List.singleton_append, level_append, Option.bind_eq_some_iff] at hl
      obtain ⟨e, he, hl⟩ := hl
      exact .inr ⟨e, he, n, by omega, by simpa using hn, hl⟩
  · rintro (⟨rfl, rfl, rfl⟩ | ⟨e, he, n, rfl, hn, hl⟩)
    · exact ⟨0, rfl, rfl, rfl⟩
    · refine ⟨n + 1, by omega, by simpa using hn, ?_⟩
      rw [List.take_succ_cons, ← List.singleton_append, level_append, he]
      exact hl

theorem close?_iff_meets {d i c : Nat} {a : List Sign} :
    (∃ ks, close? d i a = some (c, ks)) ↔ Meets .closing d i a c := by
  fun_induction close? d i a with
  | case1 => simp [meets_nil]
  | case3 i r => simp [meets_cons, level, eq_comm]
  | _ => simp_all [meets_cons, level]

theorem mem_splits_iff_meets {d i c k : Nat} {ks : List Nat} {a : List Sign}
    (h : close? d i a = some (c, ks)) : k ∈ ks ↔ Meets .comma d i a k ∧ k < c := by
  fun_induction close? d i a generalizing ks with
  | case1 => simp at h
  | case3 i r =>
    cases h
    simp [meets_cons, level]
  | case5 i r ih =>
    obtain ⟨⟨c', ks'⟩, hc, he⟩ := Option.map_eq_some_iff.mp h
    cases he
    have hlt : i < c := (close?_bounds hc).1
    rw [List.mem_cons, ih hc, meets_cons]
    simp only [level, Option.some.injEq, exists_eq_left', and_true]
    constructor
    · rintro (rfl | ⟨hm, hk⟩)
      · exact ⟨.inl rfl, hlt⟩
      · exact ⟨.inr hm, hk⟩
    · rintro ⟨rfl | hm, hk⟩
      · exact .inl rfl
      · exact .inr ⟨hm, hk⟩
  | _ => simp_all [meets_cons, level]

section

variable {p : List Char} {i : Nat} {y : List Sign}

theorem meets_drop (h : (signs p).drop i = .opening :: y) {s : Sign} {k : Nat} :
    Meets s 0 (i + 1) y k ↔
      i < k ∧ (signs p)[k]? = some s ∧ Balanced (((signs p).take k).drop (i + 1)) := by
  have hy : (signs p).drop (i + 1) = y := by rw [← List.drop_drop, h, List.drop_one, List.tail_cons]
  have hat (n : Nat) : y[n]? = (signs p)[i + 1 + n]? := by rw [← hy, List.getElem?_drop]
  have hbetween (n : Nat) : y.take n = ((signs p).take (i + 1 + n)).drop (i + 1) := by
    rw [List.drop_take, hy, Nat.add_sub_cancel_left]
  constructor
  · rintro ⟨n, rfl, hn, hl⟩
    rw [hat] at hn
    rw [hbetween] at hl
    exact ⟨by omega, hn, hl⟩
  · rintro ⟨hik, hk, hb⟩
    obtain ⟨n, rfl⟩ := Nat.exists_eq_add_of_lt hik
    rw [Nat.add_right_comm] at hk hb
    refine ⟨n, by omega, ?_, ?_⟩
    · rw [hat, hk]
    · rw [hbetween]
      exact hb

theorem getElem?_signs_comma {k : Nat} : (signs p)[k]? = some .comma ↔ (live p)[k]? = some (some ',') := by
  simp only [signs, List.getElem?_map, Option.map_eq_some_iff, Sign.ofLive_eq_comma]
  exact exists_eq_right

theorem live_of_drop_signs (h : (signs p).drop i = .opening :: y) : (live p)[i]? = some (some '{') := by
  rw [← getElem?_signs_opening, ← List.head?_drop, h, List.head?_cons]

theorem close?_iff_paired (h : (signs p).drop i = .opening :: y) {c : Nat} :
    (∃ ks, close? 0 (i + 1) y = some (c, ks)) ↔ Paired p i c := by
  rw [close?_iff_meets, meets_drop h, getElem?_signs_closing, Paired]
  simp only [live_of_drop_signs h, true_and]

theorem mem_splits_iff_divides (h : (signs p).drop i = .opening :: y) {c k : Nat} {ks : List Nat}
    (hc : close? 0 (i + 1) y = some (c, ks)) : k ∈ ks ↔ Divides p i c k := by
  rw [mem_splits_iff_meets hc, meets_drop h, getElem?_signs_comma, Divides]
  tauto

theorem Paired.drop_signs {j : Nat} (h : Paired p i j) : ∃ y, (signs p).drop i = .opening :: y := by
  have hi := getElem?_signs_opening.mpr h.2.1
  rw [← List.head?_drop] at hi
  exact List.head?_eq_some_iff.mp hi

theorem Paired.unique {j j' : Nat} (h : Paired p i j) (h' : Paired p i j') : j = j' := by
  obtain ⟨y, hy⟩ := h.drop_signs
  obtain ⟨ks, hk⟩ := (close?_iff_paired hy).mpr h
  obtain ⟨ks', hk'⟩ := (close?_iff_paired hy).mpr h'
  rw [hk, Option.some.injEq, Prod.mk.injEq] at hk'
  exact hk'.1

theorem groupAt_iff_divides : GroupAt (signs p) i ↔ ∃ j k, Paired p i j ∧ Divides p i j k := by
  constructor
  · rintro ⟨y, hy, hs⟩
    obtain ⟨j, k, ks, hc⟩ := (starts_iff_close? (i + 1)).mp hs
    exact ⟨j, k, (close?_iff_paired hy).mp ⟨_, hc⟩, (mem_splits_iff_divides hy hc).mp List.mem_cons_self⟩
  · rintro ⟨j, k, hp, hd⟩
    obtain ⟨y, hy⟩ := hp.drop_signs
    obtain ⟨ks, hc⟩ := (close?_iff_paired hy).mpr hp
    have hk := (mem_splits_iff_divides hy hc).mpr hd
    obtain ⟨k', ks', rfl⟩ := List.exists_cons_of_ne_nil (List.ne_nil_of_mem hk)
    exact ⟨y, hy, (starts_iff_close? (i + 1)).mpr ⟨j, k', ks', hc⟩⟩

end

theorem leftmost_of_findGroup {p : List Char} {g : Group} (h : findGroup p = some g) : Leftmost p g := by
  obtain ⟨x, y, hxy, hb, ho, hc, hne⟩ := findFrom_eq_some h
  rw [Nat.zero_add] at ho
  have hy : (signs p).drop g.openAt = .opening :: y := by rw [hxy, ho, List.drop_left]
  have hs (k : Nat) := mem_splits_iff_divides hy hc (k := k)
  refine ⟨(close?_iff_paired hy).mp ⟨_, hc⟩, ?_, ?_, hs, (close?_bounds hc).2.2⟩
  · obtain ⟨k, hk⟩ := List.exists_mem_of_ne_nil _ hne
    exact ⟨k, (hs k).mp hk⟩
  · intro i j k hp hd
    have hg : GroupAt (signs p) i := groupAt_iff_divides.mpr ⟨j, k, hp, hd⟩
    rw [hxy, hb.groupAt_append] at hg
    obtain ⟨n, rfl, -⟩ := hg
    omega

theorem findGroup_isSome_iff {p : List Char} :
    (findGroup p).isSome ↔ ∃ i j k, Paired p i j ∧ Divides p i j k := by
  constructor
  · intro h
    obtain ⟨g, hg⟩ := Option.isSome_iff_exists.mp h
    have hl := leftmost_of_findGroup hg
    obtain ⟨k, hk⟩ := hl.divided
    exact ⟨g.openAt, g.closeAt, k, hl.paired, hk⟩
  · rintro ⟨i, j, k, hp, hd⟩
    rw [Option.isSome_iff_ne_none]
    intro hn
    have hb := findGroup_eq_none_iff.mp hn
    exact hb.not_groupAt i (groupAt_iff_divides.mpr ⟨j, k, hp, hd⟩)

theorem Leftmost.unique {p : List Char} {g g' : Group} (h : Leftmost p g) (h' : Leftmost p g') : g = g' := by
  obtain ⟨k, hk⟩ := h.divided
  obtain ⟨k', hk'⟩ := h'.divided
  have ho : g.openAt = g'.openAt :=
    Nat.le_antisymm (h.least _ _ _ h'.paired hk') (h'.least _ _ _ h.paired hk)
  have hc : g.closeAt = g'.closeAt := h.paired.unique (ho ▸ h'.paired)
  have hs : g.splits = g'.splits := by
    apply h.ordered.eq_of_mem_iff h'.ordered
    intro k
    rw [h.mem_splits, h'.mem_splits, ho, hc]
  cases g
  cases g'
  simp only at ho hc hs
  rw [ho, hc, hs]

theorem findGroup_leftmost (p : List Char) :
    ((findGroup p).isSome ↔ ∃ i j k, Paired p i j ∧ Divides p i j k) ∧
      ∀ g, findGroup p = some g ↔ Leftmost p g := by
  refine ⟨findGroup_isSome_iff, fun g => ⟨leftmost_of_findGroup, fun h => ?_⟩⟩
  obtain ⟨k, hk⟩ := h.divided
  have hs := findGroup_isSome_iff.mpr ⟨g.openAt, g.closeAt, k, h.paired, hk⟩
  obtain ⟨g', hg'⟩ := Option.isSome_iff_exists.mp hs
  rw [hg', (leftmost_of_findGroup hg').unique h]

end BraceParams.Pattern
