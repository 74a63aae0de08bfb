import BraceParams.Proofs.Pattern.Octets

namespace BraceParams.Pattern

open Text

/-- A text read from left to right into escape pairs and single characters. The view covers both octets of
a pair and shows those of a single character; of a pair the second character is left. -/
inductive PairsRead : (s : List Char) → (view : List UInt8) → (left : List Char) → Prop
  | nil : PairsRead [] [] []
  | pair {d : Char} {s left : List Char} {view : List UInt8} (hd : isEscapable d) (h : PairsRead s view left) :
      PairsRead ('\\' :: d :: s) (Octets.covered :: Octets.covered :: view) (d :: left)
  | single {c : Char} {s left : List Char} {view : List UInt8}
      (hc : c = '\\' → ∀ d ∈ s.head?, ¬isEscapable d) (h : PairsRead s view left) :
      PairsRead (c :: s) (String.utf8EncodeChar c ++ view) (c :: left)

/-- Leaves out the first of two octets at which the view differs from the text. -/
def leaveOut : (text view : List UInt8) → List UInt8
  | a :: b :: text, x :: y :: view =>
    if a = x then a :: leaveOut (b :: text) (y :: view) else b :: leaveOut text view
  | text, _ => text

section

variable {c d : Char} {r : List Char}

theorem live_pair (r : List Char) (h : isEscapable d) : live ('\\' :: d :: r) = none :: none :: live r := by
  rw [live, if_pos ⟨rfl, h⟩]

theorem unescape_pair (r : List Char) (h : isEscapable d) : unescape ('\\' :: d :: r) = d :: unescape r := by
  rw [unescape, if_pos ⟨rfl, h⟩]

theorem live_single (h : c = '\\' → ∀ d ∈ r.head?, ¬isEscapable d) : live (c :: r) = some c :: live r := by
  cases r with
  | nil => rfl
  | cons d r => rw [live, if_neg fun hd => h hd.1 d rfl hd.2]

theorem unescape_single (h : c = '\\' → ∀ d ∈ r.head?, ¬isEscapable d) : unescape (c :: r) = c :: unescape r := by
  cases r with
  | nil => rfl
  | cons d r => rw [unescape, if_neg fun hd => h hd.1 d rfl hd.2]

end

theorem pairsRead (s : List Char) : PairsRead s ((live s).flatMap Octets.shown) (unescape s) := by
  fun_induction live s with
  | case1 => exact .nil
  | case2 c => exact .single (fun _ d hd => by cases hd) .nil
  | case3 c d r hp ih =>
    obtain ⟨rfl, hd⟩ := hp
    rw [unescape_pair r hd]
    exact .pair hd ih
  | case4 c d r hp ih =>
    have hc : c = '\\' → ∀ e ∈ (d :: r).head?, ¬isEscapable e := by simpa using hp
    rw [unescape_single hc]
    exact .single hc ih

section

variable {s left : List Char} {view : List UInt8}

theorem pairsRead_iff : PairsRead s view left ↔ view = Octets.mask (encode s) ∧ left = unescape s := by
  rw [Octets.mask_encode]
  constructor
  · intro h
    induction h with
    | nil => exact ⟨rfl, rfl⟩
    | pair hd _ ih =>
      rw [live_pair _ hd, unescape_pair _ hd, ih.1, ih.2]
      exact ⟨rfl, rfl⟩
    | single hc _ ih =>
      rw [live_single hc, unescape_single hc, ih.1, ih.2]
      exact ⟨rfl, rfl⟩
  · rintro ⟨rfl, rfl⟩
    exact pairsRead s

theorem leaveOut_cons (a : UInt8) (text view : List UInt8) :
    leaveOut (a :: text) (a :: view) = a :: leaveOut text view := by
  cases text with
  | nil => cases view <;> rfl
  | cons b text =>
    cases view with
    | nil => simp [leaveOut]
    | cons y view => rw [leaveOut, if_pos rfl]

theorem leaveOut_append (x text view : List UInt8) : leaveOut (x ++ text) (x ++ view) = x ++ leaveOut text view := by
  induction x with
  | nil => rfl
  | cons a x ih => rw [List.cons_append, List.cons_append, leaveOut_cons, ih, List.cons_append]

theorem PairsRead.length_eq (h : PairsRead s view left) : view.length = (encode s).length := by
  induction h with
  | nil => rfl
  | pair hd _ ih =>
    rw [encode_cons_of_lt _ (by decide), encode_cons_of_lt _ (Octets.isEscapable_toUInt8 hd).1]
    simp only [List.length_cons, ih]
  | single _ _ ih => rw [encode_cons, List.length_append, List.length_append, ih]

theorem PairsRead.encode_eq (h : PairsRead s view left) : encode left = leaveOut (encode s) view := by
  induction h with
  | nil => rfl
  | @pair d s left view hd _ ih =>
    have hlt := (Octets.isEscapable_toUInt8 hd).1
    rw [encode_cons_of_lt left hlt, encode_cons_of_lt (d :: s) (by decide), encode_cons_of_lt s hlt, leaveOut,
      if_neg (by decide), ih]
  | single _ _ ih => rw [encode_cons, encode_cons, leaveOut_append, ih]

end

theorem unescape_escape (s : List Char) : unescape (escape s) = s := by
  induction s with
  | nil => rfl
  | cons c s ih =>
    rw [escape, List.flatMap_cons]
    by_cases hc : isEscapable c
    · rw [if_pos hc, List.cons_append, List.singleton_append, unescape_pair _ hc]
      exact congrArg (c :: ·) ih
    · rw [if_neg hc, List.singleton_append, unescape_cons_of_ne]
      · exact congrArg (c :: ·) ih
      · rintro rfl
        exact hc rfl

theorem settled_of_mask {a : List Char} (h : (Octets.mask (encode a)).getLast? ≠ some '\\'.toUInt8) : Settled a := by
  intro hl
  apply h
  obtain ⟨v, hv⟩ := List.getLast?_eq_some_iff.mp hl
  rw [Octets.mask_encode, hv, List.flatMap_append, List.flatMap_singleton, Octets.shown_of_lt (by decide),
    List.getLast?_concat]

theorem mask_agrees_unescape :
    (∀ s, (Octets.mask (encode s)).length = (encode s).length ∧
      (∀ view left, PairsRead s view left ↔ view = Octets.mask (encode s) ∧ left = unescape s) ∧
      encode (unescape s) = leaveOut (encode s) (Octets.mask (encode s))) ∧
    (∀ s, unescape (escape s) = s) ∧
    ∀ a b, (Octets.mask (encode a)).getLast? ≠ some '\\'.toUInt8 →
      unescape (a ++ b) = unescape a ++ unescape b := by
  refine ⟨fun s => ?_, unescape_escape, fun a b ha => unescape_append b (settled_of_mask ha)⟩
  have h : PairsRead s (Octets.mask (encode s)) (unescape s) := pairsRead_iff.mpr ⟨rfl, rfl⟩
  exact ⟨h.length_eq, fun _ _ => pairsRead_iff, h.encode_eq⟩

end BraceParams.Pattern
