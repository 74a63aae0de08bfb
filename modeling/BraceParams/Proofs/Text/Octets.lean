import Mathlib.Data.List.Basic
import BraceParams.Text.Octets

namespace BraceParams.Text

section

variable {b : UInt8} {c d : Char}

theorem encodeChar_of_lt (h : c.toNat < 0x80) : String.utf8EncodeChar c = [c.toUInt8] := by
  apply String.utf8EncodeChar_eq_singleton
  rw [Char.utf8Size_eq_one_iff, UInt32.le_iff_toNat_le]
  exact Nat.le_of_lt_succ h

theorem le_of_mem_encodeChar (h : 0x80 ≤ c.toNat) (hb : b ∈ String.utf8EncodeChar c) : 0x80 ≤ b.toNat := by
  have hc : c.val.toNat = c.toNat := rfl
  simp only [String.utf8EncodeChar, hc, if_neg (show ¬c.toNat ≤ 0x7f by omega)] at hb
  split at hb
  · simp only [List.mem_cons, List.not_mem_nil, or_false] at hb
    rcases hb with rfl | rfl <;> rw [UInt8.toNat_ofNat'] <;> omega
  · split at hb
    · simp only [List.mem_cons, List.not_mem_nil, or_false] at hb
      rcases hb with rfl | rfl | rfl <;> rw [UInt8.toNat_ofNat'] <;> omega
    · simp only [List.mem_cons, List.not_mem_nil, or_false] at hb
      rcases hb with rfl | rfl | rfl | rfl <;> rw [UInt8.toNat_ofNat'] <;> omega

theorem toUInt8_mem_encodeChar (hd : d.toNat < 0x80) : d.toUInt8 ∈ String.utf8EncodeChar c ↔ c = d := by
  constructor
  · intro h
    have hv (e : Char) : e.toUInt8.toNat = e.toNat % 256 := rfl
    have hlt : c.toNat < 0x80 := by
      by_contra hc
      have := le_of_mem_encodeChar (Nat.le_of_not_lt hc) h
      rw [hv] at this
      omega
    rw [encodeChar_of_lt hlt, List.mem_singleton, ← UInt8.toNat_inj, hv, hv] at h
    apply Char.toNat_inj.mp
    omega
  · rintro rfl
    rw [encodeChar_of_lt hd]
    exact List.mem_singleton_self _

theorem startsCharacter_ofNat {n : Nat} (h : n < 0x80 ∨ 0xC0 ≤ n ∧ n < 0x100) :
    startsCharacter (UInt8.ofNat n) := by
  simp only [startsCharacter, Bool.or_eq_true, decide_eq_true_eq, UInt8.lt_iff_toNat_lt,
    UInt8.le_iff_toNat_le, UInt8.toNat_ofNat', UInt8.toNat_ofNat]
  omega

theorem encodeChar_eq_cons (c : Char) : ∃ b r, String.utf8EncodeChar c = b :: r ∧ startsCharacter b := by
  have hc : c.val.toNat = c.toNat := rfl
  simp only [String.utf8EncodeChar, hc]
  split
  · exact ⟨_, _, rfl, startsCharacter_ofNat (by omega)⟩
  · split
    · exact ⟨_, _, rfl, startsCharacter_ofNat (by omega)⟩
    · split
      · exact ⟨_, _, rfl, startsCharacter_ofNat (by omega)⟩
      · exact ⟨_, _, rfl, startsCharacter_ofNat (by omega)⟩

end

theorem encode_cons (c : Char) (s : List Char) : encode (c :: s) = String.utf8EncodeChar c ++ encode s :=
  List.flatMap_cons

theorem encode_append (a b : List Char) : encode (a ++ b) = encode a ++ encode b :=
  List.flatMap_append

theorem encode_cons_of_lt {c : Char} (s : List Char) (h : c.toNat < 0x80) :
    encode (c :: s) = c.toUInt8 :: encode s := by
  rw [encode_cons, encodeChar_of_lt h, List.singleton_append]

theorem encode_ne_nil {s : List Char} (h : s ≠ []) : encode s ≠ [] := by
  obtain ⟨c, r, rfl⟩ := List.exists_cons_of_ne_nil h
  rw [encode_cons]
  exact List.append_ne_nil_of_left_ne_nil String.utf8EncodeChar_ne_nil _

theorem isBoundary_append (a b : List Char) : isBoundary (encode (a ++ b)) (encode a).length := by
  rw [encode_append, isBoundary, List.getElem?_append_right (Nat.le_refl _), Nat.sub_self]
  cases b with
  | nil => simp [encode]
  | cons c b =>
    obtain ⟨o, r, ho, hs⟩ := encodeChar_eq_cons c
    rw [encode_cons, ho, List.cons_append, List.getElem?_cons_zero]
    simp [hs]

theorem slice_append (a b c : List Char) :
    slice (encode (a ++ b ++ c)) (encode a).length (encode (a ++ b)).length = .ok (encode b) := by
  have ha : isBoundary (encode (a ++ b ++ c)) (encode a).length := by
    rw [List.append_assoc]
    exact isBoundary_append a (b ++ c)
  have hb := isBoundary_append (a ++ b) c
  have hl : (encode (a ++ b ++ c)).length = (encode a).length + (encode b).length + (encode c).length := by
    simp only [encode_append, List.length_append]
  have hab : (encode (a ++ b)).length = (encode a).length + (encode b).length := by
    simp only [encode_append, List.length_append]
  rw [slice, if_neg (by omega), if_neg (by omega), ha, hb, Bool.and_self, if_pos rfl, hab,
    Nat.add_sub_cancel_left, encode_append, encode_append, List.append_assoc, List.drop_left, List.take_left]

def place (s : List Char) (i : Nat) : Nat :=
  (encode (s.take i)).length

section

variable {s : List Char} {i j : Nat} {c : Char}

theorem take_eq_append (s : List Char) (h : i ≤ j) : s.take j = s.take i ++ (s.drop i).take (j - i) := by
  obtain ⟨k, rfl⟩ := Nat.exists_eq_add_of_le h
  rw [Nat.add_sub_cancel_left, List.take_add]

theorem place_length (s : List Char) : place s s.length = (encode s).length := by
  rw [place, List.take_length]

theorem place_lt (h : i < j) (hj : j ≤ s.length) : place s i < place s j := by
  have hne : (s.drop i).take (j - i) ≠ [] := by
    apply List.ne_nil_of_length_pos
    rw [List.length_take, List.length_drop]
    omega
  have hpos := List.length_pos_iff.mpr (encode_ne_nil hne)
  rw [place, place, take_eq_append s (Nat.le_of_lt h), encode_append, List.length_append]
  omega

theorem place_succ (h : s[i]? = some c) (hc : c.toNat < 0x80) : place s (i + 1) = place s i + 1 := by
  rw [place, place, List.take_add_one, h, encode_append, List.length_append]
  simp [encode, encodeChar_of_lt hc]

theorem getElem?_place (h : s[i]? = some c) (hc : c.toNat < 0x80) : (encode s)[place s i]? = some c.toUInt8 := by
  obtain ⟨hi, rfl⟩ := List.getElem?_eq_some_iff.mp h
  have hs : s = s.take i ++ s[i] :: s.drop (i + 1) := by
    rw [← List.drop_eq_getElem_cons hi, List.take_append_drop]
  rw [place]
  conv_lhs => rw [hs, encode_append, encode_cons_of_lt _ hc]
  rw [List.take_left' (by rw [List.length_take]; omega), List.getElem?_append_right (Nat.le_refl _), Nat.sub_self,
    List.getElem?_cons_zero]

theorem isBoundary_place (s : List Char) (i : Nat) : isBoundary (encode s) (place s i) := by
  have h := isBoundary_append (s.take i) (s.drop i)
  rwa [List.take_append_drop] at h

theorem slice_place (s : List Char) (h : i ≤ j) :
    slice (encode s) (place s i) (place s j) = .ok (encode ((s.drop i).take (j - i))) := by
  have hs := slice_append (s.take i) ((s.drop i).take (j - i)) (s.drop j)
  rwa [← take_eq_append s h, List.take_append_drop] at hs

end

end BraceParams.Text
