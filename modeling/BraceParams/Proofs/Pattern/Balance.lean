import BraceParams.Pattern.Group

namespace BraceParams.Pattern

def level : (depth : Nat) → List Sign → Option Nat
  | depth, [] => some depth
  | depth, .opening :: r => level (depth + 1) r
  | 0, .closing :: _ => none
  | depth + 1, .closing :: r => level depth r
  | depth, .comma :: r => level depth r
  | depth, .other :: r => level depth r

def Balanced (view : List Sign) : Prop :=
  level 0 view = some 0

instance (view : List Sign) : Decidable (Balanced view) := inferInstanceAs (Decidable (_ = _))

/-- Read at this depth of a pair, the view comes back to depth 0 and neither closes nor splits the pair. -/
def inside : (depth : Nat) → List Sign → Bool
  | depth, [] => depth = 0
  | depth, .opening :: r => inside (depth + 1) r
  | 0, .closing :: _ => false
  | depth + 1, .closing :: r => inside depth r
  | 0, .comma :: _ => false
  | depth + 1, .comma :: r => inside (depth + 1) r
  | depth, .other :: r => inside depth r

def commas? : (depth : Nat) → List Sign → Option Nat
  | _, [] => none
  | depth, .opening :: r => commas? (depth + 1) r
  | 0, .closing :: _ => some 0
  | depth + 1, .closing :: r => commas? depth r
  | 0, .comma :: r => (commas? 0 r).map (· + 1)
  | depth + 1, .comma :: r => commas? (depth + 1) r
  | depth, .other :: r => commas? depth r

theorem level_append (d : Nat) (a b : List Sign) : level d (a ++ b) = (level d a).bind (level · b) := by
  fun_induction level d a <;> simp_all [level]

theorem level_add {d e : Nat} {a : List Sign} (k : Nat) (h : level d a = some e) :
    level (d + k) a = some (e + k) := by
  fun_induction level d a with
  | case1 d => simpa [level] using h
  | case2 d r ih => simpa [level, Nat.add_right_comm] using ih h
  | case3 => simp at h
  | case4 d r ih => simpa [level, Nat.add_right_comm] using ih h
  | case5 d r ih => simpa [level] using ih h
  | case6 d r ih => simpa [level] using ih h

theorem level_of_inside {d : Nat} {a : List Sign} (h : inside d a) : level d a = some 0 := by
  fun_induction inside d a <;> simp_all [level]

theorem count_of_level {d e : Nat} {a : List Sign} (h : level d a = some e) :
    a.count .closing + e = a.count .opening + d := by
  fun_induction level d a with
  | case1 d => simpa using h.symm
  | case2 d r ih =>
    have := ih h
    simp only [List.count_cons_self, List.count_cons_of_ne (show Sign.opening ≠ .closing by decide)]
    omega
  | case3 => simp at h
  | case4 d r ih =>
    have := ih h
    simp only [List.count_cons_self, List.count_cons_of_ne (show Sign.closing ≠ .opening by decide)]
    omega
  | case5 d r ih => simpa using ih h
  | case6 d r ih => simpa using ih h

theorem level_of_inside_comma {d : Nat} {a b : List Sign} (h : inside d (a ++ .comma :: b)) :
    ∃ e, level d a = some (e + 1) := by
  fun_induction level d a with
  | case1 d => cases d <;> simp_all [inside]
  | case3 => simp [inside] at h
  | case5 d r ih => cases d <;> simp_all [inside]
  | _ => simp_all [inside]

theorem inside_append {d : Nat} {a b : List Sign} (ha : inside d a) (hb : inside 0 b) :
    inside d (a ++ b) := by
  fun_induction inside d a <;> simp_all [inside]

/-- At depth 1 and below, only braces count. -/
structure Follows {α : Type} (f : Nat → List Sign → α) : Prop where
  opening : ∀ d r, f d (.opening :: r) = f (d + 1) r
  closing : ∀ d r, f (d + 1) (.closing :: r) = f d r
  comma : ∀ d r, f (d + 1) (.comma :: r) = f (d + 1) r
  other : ∀ d r, f d (.other :: r) = f d r

theorem Follows.skip {α : Type} {f : Nat → List Sign → α} (hf : Follows f) {d e : Nat} {a : List Sign}
    (k : Nat) (b : List Sign) (h : level d a = some e) : f (d + k + 1) (a ++ b) = f (e + k + 1) b := by
  fun_induction level d a with
  | case1 d => simp_all
  | case2 d r ih =>
    rw [List.cons_append, hf.opening, ← ih h]
    congr 1
    omega
  | case3 => simp at h
  | case4 d r ih =>
    rw [List.cons_append, hf.closing, ← ih h]
    congr 1
    omega
  | case5 d r ih => rw [List.cons_append, hf.comma, ih h]
  | case6 d r ih => rw [List.cons_append, hf.other, ih h]

theorem inside_follows : Follows inside := by
  constructor <;> intros <;> simp [inside]

theorem commas?_follows : Follows commas? := by
  constructor <;> intros <;> simp [commas?]

theorem close?_inside {d : Nat} {a : List Sign} (i : Nat) (b : List Sign) (h : inside d a) :
    close? d i (a ++ b) = close? 0 (i + a.length) b := by
  fun_induction inside d a generalizing i <;> simp_all [close?, Nat.add_right_comm, Nat.add_assoc]

theorem commas?_inside {d : Nat} {a : List Sign} (b : List Sign) (h : inside d a) :
    commas? d (a ++ b) = commas? 0 b := by
  fun_induction inside d a <;> simp_all [commas?]

theorem commas?_inside_append {a : List Sign} (d : Nat) (b : List Sign) (h : inside 0 a) :
    commas? d (a ++ b) = commas? d b := by
  cases d with
  | zero => exact commas?_inside b h
  | succ d => simpa using commas?_follows.skip d b (level_of_inside h)

theorem commas?_congr {b c : List Sign} (h : ∀ d, commas? d b = commas? d c) (d : Nat) (a : List Sign) :
    commas? d (a ++ b) = commas? d (a ++ c) := by
  fun_induction commas? d a <;> simp_all [commas?]

theorem commas?_append {d n : Nat} {a : List Sign} (b : List Sign) (h : commas? d a = some n) :
    commas? d (a ++ b) = some n := by
  fun_induction commas? d a generalizing n with
  | case3 r => simpa [commas?] using h
  | case5 r ih =>
    obtain ⟨m, hm, rfl⟩ := Option.map_eq_some_iff.mp h
    simp [commas?, ih hm]
  | _ => simp_all [commas?]

theorem commas?_isSome_iff {d : Nat} {a : List Sign} :
    (commas? d a).isSome ↔ ∃ b c, a = b ++ .closing :: c ∧ level d b = some 0 := by
  constructor
  · intro h
    fun_induction commas? d a with
    | case1 => simp at h
    | case2 d r ih =>
      obtain ⟨b, c, rfl, hb⟩ := ih h
      exact ⟨.opening :: b, c, rfl, by simpa [level] using hb⟩
    | case3 r => exact ⟨[], r, rfl, rfl⟩
    | case4 d r ih =>
      obtain ⟨b, c, rfl, hb⟩ := ih h
      exact ⟨.closing :: b, c, rfl, by simpa [level] using hb⟩
    | case5 r ih =>
      obtain ⟨b, c, rfl, hb⟩ := ih (by simpa using h)
      exact ⟨.comma :: b, c, rfl, by simpa [level] using hb⟩
    | case6 d r ih =>
      obtain ⟨b, c, rfl, hb⟩ := ih h
      exact ⟨.comma :: b, c, rfl, by simpa [level] using hb⟩
    | case7 d r ih =>
      obtain ⟨b, c, rfl, hb⟩ := ih h
      exact ⟨.other :: b, c, rfl, by simpa [level] using hb⟩
  · rintro ⟨b, c, rfl, hb⟩
    fun_induction level d b with
    | case5 d r ih => cases d <;> simpa [commas?] using ih hb
    | _ => simp_all [commas?]

theorem map_close? (d i : Nat) (a : List Sign) :
    (close? d i a).map (fun x => x.2.length) = commas? d a := by
  fun_induction close? d i a with
  | case5 i r ih =>
    rw [commas?, ← ih, Option.map_map, Option.map_map]
    rfl
  | _ => simp_all [commas?]

theorem exists_inside_prefix {d i : Nat} {a : List Sign} (h : (close? d i a).isSome) :
    ∃ x s y, a = x ++ s :: y ∧ inside d x ∧ (s = .closing ∨ s = .comma) := by
  fun_induction close? d i a with
  | case1 => simp at h
  | case2 d i r ih =>
    obtain ⟨x, s, y, rfl, hx, hs⟩ := ih h
    exact ⟨.opening :: x, s, y, rfl, hx, hs⟩
  | case3 i r => exact ⟨[], .closing, r, rfl, rfl, .inl rfl⟩
  | case4 d i r ih =>
    obtain ⟨x, s, y, rfl, hx, hs⟩ := ih h
    exact ⟨.closing :: x, s, y, rfl, hx, hs⟩
  | case5 i r => exact ⟨[], .comma, r, rfl, rfl, .inr rfl⟩
  | case6 d i r ih =>
    obtain ⟨x, s, y, rfl, hx, hs⟩ := ih h
    exact ⟨.comma :: x, s, y, rfl, hx, hs⟩
  | case7 d i r ih =>
    obtain ⟨x, s, y, rfl, hx, hs⟩ := ih h
    exact ⟨.other :: x, s, y, rfl, by simpa [inside] using hx, hs⟩

theorem close?_eq_nil {d i c : Nat} {a : List Sign} (h : close? d i a = some (c, [])) :
    ∃ x y, a = x ++ .closing :: y ∧ inside d x ∧ c = i + x.length := by
  obtain ⟨x, s, y, rfl, hx, rfl | rfl⟩ := exists_inside_prefix (Option.isSome_of_eq_some h)
  · rw [close?_inside i _ hx, close?, Option.some.injEq, Prod.mk.injEq] at h
    exact ⟨x, y, rfl, hx, h.1.symm⟩
  · rw [close?_inside i _ hx, close?, Option.map_eq_some_iff] at h
    obtain ⟨r, -, hr⟩ := h
    cases hr

theorem close?_eq_cons {d i c k : Nat} {ks : List Nat} {a : List Sign}
    (h : close? d i a = some (c, k :: ks)) :
    ∃ x y, a = x ++ .comma :: y ∧ inside d x ∧ k = i + x.length ∧
      close? 0 (k + 1) y = some (c, ks) := by
  obtain ⟨x, s, y, rfl, hx, rfl | rfl⟩ := exists_inside_prefix (Option.isSome_of_eq_some h)
  · rw [close?_inside i _ hx, close?] at h
    cases h
  · rw [close?_inside i _ hx, close?, Option.map_eq_some_iff] at h
    obtain ⟨⟨c', ks'⟩, hc, hr⟩ := h
    cases hr
    exact ⟨x, y, rfl, hx, rfl, hc⟩

theorem lt_of_commas?_eq_none {d k e : Nat} {a : List Sign} (h : commas? d a = none)
    (hl : level (d + k + 1) a = some e) : k < e := by
  fun_induction commas? d a with
  | case1 d =>
    simp only [level, Option.some.injEq] at hl
    omega
  | case2 d r ih =>
    rw [level, show d + k + 1 + 1 = d + 1 + k + 1 by omega] at hl
    exact ih h hl
  | case3 => simp at h
  | case4 d r ih =>
    rw [show d + 1 + k + 1 = d + k + 1 + 1 by omega, level] at hl
    exact ih h hl
  | case5 r ih => exact ih (by simpa using h) (by simpa [level] using hl)
  | case6 d r ih => exact ih h (by simpa [level] using hl)
  | case7 d r ih => exact ih h (by simpa [level] using hl)

end BraceParams.Pattern
