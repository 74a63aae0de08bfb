import BraceParams.Proofs.Pattern.Balance

namespace BraceParams.Pattern

def Starts (view : List Sign) : Prop :=
  ∃ closeAt split splits, close? 0 0 view = some (closeAt, split :: splits)

/-- With `b` behind it, no opening brace of `a` starts a group. -/
def Barren (a b : List Sign) : Prop :=
  ∀ y, .opening :: y <:+ a → ¬Starts (y ++ b)

/-- The opening braces of `a` that start a group with `b` behind it do so without `b`. -/
def Apart (a b : List Sign) : Prop :=
  ∀ y, .opening :: y <:+ a → Starts (y ++ b) → Starts y

def GroupAt (view : List Sign) (i : Nat) : Prop :=
  ∃ y, view.drop i = .opening :: y ∧ Starts y

theorem close?_iff_commas? (i : Nat) {a : List Sign} :
    (∃ closeAt split splits, close? 0 i a = some (closeAt, split :: splits)) ↔
      ∃ n, commas? 0 a = some (n + 1) := by
  rw [← map_close? 0 i]
  constructor
  · rintro ⟨closeAt, split, splits, h⟩
    exact ⟨splits.length, by rw [h]; rfl⟩
  · rintro ⟨n, h⟩
    obtain ⟨⟨closeAt, splits⟩, hx, hn⟩ := Option.map_eq_some_iff.mp h
    obtain ⟨split, splits, rfl⟩ := List.exists_cons_of_length_eq_add_one hn
    exact ⟨closeAt, split, splits, hx⟩

theorem starts_iff {a : List Sign} : Starts a ↔ ∃ n, commas? 0 a = some (n + 1) :=
  close?_iff_commas? 0

theorem starts_iff_close? (i : Nat) {a : List Sign} :
    Starts a ↔ ∃ closeAt split splits, close? 0 i a = some (closeAt, split :: splits) :=
  starts_iff.trans (close?_iff_commas? i).symm

theorem starts_congr {a b : List Sign} (h : commas? 0 a = commas? 0 b) : Starts a ↔ Starts b := by
  rw [starts_iff, starts_iff, h]

theorem Starts.append {a : List Sign} (b : List Sign) (h : Starts a) : Starts (a ++ b) := by
  obtain ⟨n, hn⟩ := starts_iff.mp h
  exact starts_iff.mpr ⟨n, commas?_append b hn⟩

theorem barren_nil (b : List Sign) : Barren [] b := by
  intro y h
  simp at h

theorem barren_cons {s : Sign} {a b : List Sign} :
    Barren (s :: a) b ↔ (s = .opening → ¬Starts (a ++ b)) ∧ Barren a b := by
  simp only [Barren, List.suffix_cons_iff, List.cons.injEq]
  constructor
  · intro h
    exact ⟨fun hs => h a (.inl ⟨hs.symm, rfl⟩), fun y hy => h y (.inr hy)⟩
  · rintro ⟨h, hr⟩ y (⟨hs, rfl⟩ | hy)
    · exact h hs.symm
    · exact hr y hy

theorem barren_append {a b c : List Sign} : Barren (a ++ b) c ↔ Barren a (b ++ c) ∧ Barren b c := by
  induction a with
  | nil => simp [barren_nil]
  | cons s a ih => rw [List.cons_append, barren_cons, barren_cons, ih, List.append_assoc, and_assoc]

theorem Barren.apart {a b : List Sign} (h : Barren a b) : Apart a b :=
  fun y hy hs => absurd hs (h y hy)

theorem Barren.alone {a b : List Sign} (h : Barren a b) : Barren a [] :=
  fun y hy hs => h y hy ((List.append_nil y ▸ hs).append b)

theorem Apart.of_append {a b c : List Sign} (h : Apart (a ++ b) c) : Apart b c :=
  fun y hy => h y (hy.trans (List.suffix_append a b))

theorem suffix_append_cases {s : Sign} {y a b : List Sign} (h : s :: y <:+ a ++ b) :
    s :: y <:+ b ∨ ∃ z, y = z ++ b ∧ s :: z <:+ a := by
  induction a with
  | nil => exact .inl h
  | cons t a ih =>
    rcases List.suffix_cons_iff.mp h with he | h
    · rw [List.cons.injEq] at he
      obtain ⟨rfl, rfl⟩ := he
      exact .inr ⟨a, rfl, List.suffix_refl _⟩
    · rcases ih h with h | ⟨z, rfl, hz⟩
      · exact .inl h
      · exact .inr ⟨z, rfl, hz.trans (List.suffix_cons t a)⟩

theorem Apart.append {a b c : List Sign} (ha : Apart a (b ++ c)) (hb : Apart b c) : Apart (a ++ b) c := by
  intro y hy hs
  rcases suffix_append_cases hy with hy | ⟨z, rfl, hz⟩
  · exact hb y hy hs
  · rw [List.append_assoc] at hs
    exact (ha z hz hs).append b

theorem Barren.extend {a b c : List Sign} (h : Barren a b) (hc : Apart (a ++ b) c) :
    Barren a (b ++ c) := by
  rintro y ⟨x, rfl⟩ hs
  rw [← List.append_assoc] at hs
  exact h y ⟨x, rfl⟩ (hc (y ++ b) ⟨x, by simp⟩ hs)

theorem apart_of_closed {a : List Sign} (b : List Sign)
    (h : ∀ y, .opening :: y <:+ a → (commas? 0 y).isSome) : Apart a b := by
  intro y hy hs
  obtain ⟨n, hn⟩ := Option.isSome_iff_exists.mp (h y hy)
  rw [starts_congr (commas?_append b hn |>.trans hn.symm)] at hs
  exact hs

theorem apart_of_inside {a : List Sign} (b : List Sign) (h : inside 0 a) : Apart a b := by
  apply apart_of_closed
  rintro y ⟨x, rfl⟩
  have hl := level_of_inside h
  rw [level_append, Option.bind_eq_some_iff] at hl
  obtain ⟨k, -, hk⟩ := hl
  rw [level, ← Nat.zero_add k] at hk
  rw [Option.isSome_iff_ne_none]
  intro hn
  exact Nat.not_lt_zero _ (lt_of_commas?_eq_none hn hk)

theorem barren_inside_append {a b : List Sign} (c : List Sign) (h : inside 0 b) :
    Barren a (b ++ c) ↔ Barren a c := by
  have hs (y : List Sign) : Starts (y ++ (b ++ c)) ↔ Starts (y ++ c) :=
    starts_congr (commas?_congr (fun d => commas?_inside_append d c h) 0 y)
  simp only [Barren, hs]

theorem groupAt_append {a b : List Sign} (h : Apart a b) (i : Nat) :
    GroupAt (a ++ b) i ↔ GroupAt a i ∨ ∃ j, i = a.length + j ∧ GroupAt b j := by
  by_cases hi : i < a.length
  · have hd : (a ++ b).drop i = a.drop i ++ b := List.drop_append_of_le_length (Nat.le_of_lt hi)
    obtain ⟨s, z, hz⟩ := List.exists_cons_of_length_pos (l := a.drop i) (by
      rw [List.length_drop]
      omega)
    have hs : s :: z <:+ a := hz ▸ List.drop_suffix i a
    constructor
    · rintro ⟨y, hy, hst⟩
      rw [hd, hz, List.cons_append, List.cons.injEq] at hy
      obtain ⟨rfl, rfl⟩ := hy
      exact .inl ⟨z, hz, h z hs hst⟩
    · rintro (⟨y, hy, hst⟩ | ⟨j, rfl, -⟩)
      · exact ⟨y ++ b, by rw [hd, hy, List.cons_append], hst.append b⟩
      · omega
  · obtain ⟨j, rfl⟩ := Nat.exists_eq_add_of_le (Nat.not_lt.mp hi)
    have hn : ¬GroupAt a (a.length + j) := by
      rintro ⟨y, hy, -⟩
      rw [List.drop_eq_nil_of_le (Nat.le_add_right _ _)] at hy
      cases hy
    have hb : GroupAt (a ++ b) (a.length + j) ↔ GroupAt b j := by
      rw [GroupAt, GroupAt, List.drop_length_add_append]
    rw [hb]
    constructor
    · exact fun hg => .inr ⟨j, rfl, hg⟩
    · rintro (hg | ⟨k, hk, hg⟩)
      · exact absurd hg hn
      · rwa [Nat.add_left_cancel hk]

theorem Barren.not_groupAt {a b : List Sign} (h : Barren a b) (i : Nat) : ¬GroupAt a i := by
  rintro ⟨y, hy, hs⟩
  exact h y (hy ▸ List.drop_suffix i a) (hs.append b)

theorem Barren.groupAt_append {a b : List Sign} (h : Barren a b) (i : Nat) :
    GroupAt (a ++ b) i ↔ ∃ j, i = a.length + j ∧ GroupAt b j := by
  rw [Pattern.groupAt_append h.apart, or_iff_right (h.not_groupAt i)]

theorem findFrom_pass {s : Sign} {a : List Sign} (i : Nat) (h : s = .opening → ¬Starts a) :
    findFrom i (s :: a) = findFrom (i + 1) a := by
  cases s with
  | opening =>
    rw [findFrom]
    split
    · next hx => exact absurd ((starts_iff_close? (i + 1)).mpr ⟨_, _, _, hx⟩) (h rfl)
    · rfl
  | _ => rfl

theorem findFrom_append {a b : List Sign} (i : Nat) (h : Barren a b) :
    findFrom i (a ++ b) = findFrom (i + a.length) b := by
  induction a generalizing i with
  | nil => rfl
  | cons s a ih =>
    obtain ⟨hs, ha⟩ := barren_cons.mp h
    rw [List.cons_append, findFrom_pass i hs, ih (i + 1) ha, List.length_cons, Nat.add_right_comm,
      Nat.add_assoc]

theorem findFrom_eq_some {i : Nat} {a : List Sign} {g : Group} (h : findFrom i a = some g) :
    ∃ x y, a = x ++ .opening :: y ∧ Barren x (.opening :: y) ∧ g.openAt = i + x.length ∧
      close? 0 (g.openAt + 1) y = some (g.closeAt, g.splits) ∧ g.splits ≠ [] := by
  induction a generalizing i with
  | nil => simp [findFrom] at h
  | cons s a ih =>
    by_cases hs : s = .opening ∧ Starts a
    · obtain ⟨rfl, ha⟩ := hs
      obtain ⟨c, k, ks, hx⟩ := (starts_iff_close? (i + 1)).mp ha
      rw [findFrom, hx, Option.some.injEq] at h
      subst h
      exact ⟨[], a, rfl, barren_nil _, rfl, hx, List.cons_ne_nil k ks⟩
    · rw [not_and] at hs
      rw [findFrom_pass i hs] at h
      obtain ⟨x, y, rfl, hb, ho, hx⟩ := ih h
      refine ⟨s :: x, y, rfl, barren_cons.mpr ⟨hs, hb⟩, ?_, hx⟩
      rw [ho, List.length_cons]
      omega

theorem findFrom_eq_none_iff {i : Nat} {a : List Sign} : findFrom i a = none ↔ Barren a [] := by
  constructor
  · intro h
    induction a generalizing i with
    | nil => exact barren_nil []
    | cons s a ih =>
      by_cases hs : s = .opening ∧ Starts a
      · obtain ⟨rfl, ha⟩ := hs
        obtain ⟨c, k, ks, hx⟩ := (starts_iff_close? (i + 1)).mp ha
        simp [findFrom, hx] at h
      · rw [not_and] at hs
        rw [findFrom_pass i hs] at h
        exact barren_cons.mpr ⟨by simpa using hs, ih h⟩
  · intro h
    have := findFrom_append i h
    simpa [findFrom] using this

end BraceParams.Pattern
