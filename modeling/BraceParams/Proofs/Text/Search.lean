import Mathlib.Data.List.Basic
import BraceParams.Text.Search

namespace BraceParams.Text

/-- The needle stands between `head` and `tail` in `s`, and no occurrence starts before that one. -/
structure FirstAt (needle s head tail : List Char) : Prop where
  text : s = head ++ needle ++ tail
  first : ∀ x y, s = x ++ needle ++ y → head.length ≤ x.length

def Lacks (needle s : List Char) : Prop :=
  ∀ x y, s ≠ x ++ needle ++ y

def UpTo (needle s head : List Char) : Prop :=
  (∃ tail, FirstAt needle s head tail) ∨ s = head ∧ Lacks needle s

section

variable {needle s head tail : List Char}

theorem FirstAt.unique {head' tail' : List Char} (h : FirstAt needle s head tail)
    (h' : FirstAt needle s head' tail') : head = head' ∧ tail = tail' := by
  have hl : head.length = head'.length := Nat.le_antisymm (h.first _ _ h'.text) (h'.first _ _ h.text)
  have he := h.text.symm.trans h'.text
  rw [List.append_assoc, List.append_assoc] at he
  obtain ⟨hh, ht⟩ := List.append_inj he hl
  exact ⟨hh, List.append_cancel_left ht⟩

theorem eq_append_cons {c : Char} {r x y : List Char} (h : c :: r = x ++ needle ++ y)
    (hn : ¬needle.isPrefixOf (c :: r)) : ∃ z, x = c :: z ∧ r = z ++ needle ++ y := by
  cases x with
  | nil =>
    rw [List.isPrefixOf_iff_prefix] at hn
    exact absurd ⟨y, h.symm⟩ hn
  | cons d z =>
    rw [List.cons_append, List.cons_append, List.cons.injEq] at h
    exact ⟨z, by rw [h.1], h.2⟩

theorem lacks_of_cut? (h : cut? needle s = none) : Lacks needle s := by
  induction s with
  | nil =>
    intro x y he
    obtain ⟨hx, rfl⟩ := List.append_eq_nil_iff.mp he.symm
    obtain ⟨rfl, rfl⟩ := List.append_eq_nil_iff.mp hx
    cases h
  | cons c r ih =>
    rw [cut?] at h
    split at h
    · cases h
    · next hn =>
      intro x y he
      obtain ⟨z, -, hz⟩ := eq_append_cons he hn
      exact ih (by simpa using h) z y hz

theorem firstAt_of_cut? (h : cut? needle s = some (head, tail)) : FirstAt needle s head tail := by
  refine ⟨(append_of_cut? h).symm, ?_⟩
  induction s generalizing head with
  | nil =>
    rw [cut?] at h
    split at h
    · cases h
      exact fun x y _ => Nat.zero_le _
    · cases h
  | cons c r ih =>
    rw [cut?] at h
    split at h
    · cases h
      exact fun x y _ => Nat.zero_le _
    · next hn =>
      obtain ⟨⟨head', tail'⟩, hc, he⟩ := Option.map_eq_some_iff.mp h
      cases he
      intro x y hx
      obtain ⟨z, rfl, hz⟩ := eq_append_cons hx hn
      exact Nat.succ_le_succ (ih hc z y hz)

theorem cut?_eq_some_iff : cut? needle s = some (head, tail) ↔ FirstAt needle s head tail := by
  constructor
  · exact firstAt_of_cut?
  · intro h
    cases hc : cut? needle s with
    | none => exact absurd h.text (lacks_of_cut? hc _ _)
    | some found =>
      obtain ⟨head', tail'⟩ := found
      obtain ⟨rfl, rfl⟩ := h.unique (firstAt_of_cut? hc)
      rfl

theorem before_eq_iff : before needle s = head ↔ UpTo needle s head := by
  rw [before, UpTo]
  cases hc : cut? needle s with
  | none =>
    have hl := lacks_of_cut? hc
    constructor
    · exact fun h => .inr ⟨h, hl⟩
    · rintro (⟨tail, h⟩ | ⟨h, -⟩)
      · exact absurd h.text (hl _ _)
      · exact h
  | some found =>
    obtain ⟨head', tail'⟩ := found
    have hf := firstAt_of_cut? hc
    constructor
    · rintro rfl
      exact .inl ⟨tail', hf⟩
    · rintro (⟨tail, h⟩ | ⟨-, h⟩)
      · exact (hf.unique h).1
      · exact absurd hf.text (h _ _)

end

end BraceParams.Text
