import BraceParams.Number.Text

namespace BraceParams.Number

def isNumeric (c : Char) : Bool :=
  c.isAlphanum || c = '.' || c = '-'

section

variable {c : Char} (hc : isNumeric c = false)

include hc

theorem ne_of_isNumeric {d : Char} (hd : isNumeric d) : c ≠ d := by
  rintro rfl
  cases hc.symm.trans hd

theorem not_mem_digitsText (n : Nat) : c ∉ digitsText n := by
  intro h
  have hd := Nat.isDigit_of_mem_toDigits (by decide) (by decide) h
  have hn : isNumeric c := by
    simp [isNumeric, Char.isAlphanum, hd]
  cases hc.symm.trans hn

theorem not_mem_integerText (n : Int) : c ∉ integerText n := by
  have hm : c ≠ '-' := ne_of_isNumeric hc (by decide)
  rw [integerText]
  split
  · exact List.not_mem_cons_of_ne_of_not_mem hm (not_mem_digitsText hc n.natAbs)
  · exact not_mem_digitsText hc n.natAbs

theorem not_mem_zeros (n : Nat) : c ∉ zeros n := by
  intro h
  exact ne_of_isNumeric hc (by decide) (List.eq_of_mem_replicate h)

variable {digits : List Char} (h : c ∉ digits) (p : Int)

include h

theorem not_mem_positionalText : c ∉ positionalText digits p := by
  have hz : c ≠ '0' := ne_of_isNumeric hc (by decide)
  have hp : c ≠ '.' := ne_of_isNumeric hc (by decide)
  have htake (n : Nat) : c ∉ digits.take n := fun hm => h (List.mem_of_mem_take hm)
  have hdrop (n : Nat) : c ∉ digits.drop n := fun hm => h (List.mem_of_mem_drop hm)
  rw [positionalText]
  split
  · simp [h, not_mem_zeros hc, hz, hp]
  · split
    · simp [htake, hdrop, hp]
    · simp [h, not_mem_zeros hc, hz, hp]

theorem not_mem_exponentText : c ∉ exponentText digits p := by
  have he := not_mem_integerText hc
  have hp : c ≠ '.' := ne_of_isNumeric hc (by decide)
  have hexp : c ≠ 'e' := ne_of_isNumeric hc (by decide)
  match digits, h with
  | [], _ => exact List.not_mem_nil
  | [d], h => simpa [exponentText, he, hexp] using h
  | d :: b :: rest, h => simpa [exponentText, he, hexp, hp] using h

omit h in
theorem not_mem_message (x : Binary64) : c ∉ Layout.message.text x := by
  have hfixed : ∀ text ∈ ["inf", "-inf", "NaN"], text.toList.all isNumeric := by decide
  cases x with
  | nan => exact fun hm => ne_of_isNumeric hc (List.all_eq_true.mp (hfixed "NaN" (by simp)) c hm) rfl
  | infinite negative =>
    cases negative
    · exact fun hm => ne_of_isNumeric hc (List.all_eq_true.mp (hfixed "inf" (by simp)) c hm) rfl
    · exact fun hm => ne_of_isNumeric hc (List.all_eq_true.mp (hfixed "-inf" (by simp)) c hm) rfl
  | finite negative m e =>
    rw [Layout.text]
    obtain ⟨d, p⟩ := shortest Layout.message.tie m e
    have hd := not_mem_digitsText hc d
    have hbody (b : Prop) [Decidable b] :
        c ∉ if b then positionalText (digitsText d) p else exponentText (digitsText d) p := by
      split
      · exact not_mem_positionalText hc hd p
      · exact not_mem_exponentText hc hd p
    cases negative
    · exact hbody _
    · exact List.not_mem_cons_of_ne_of_not_mem (ne_of_isNumeric hc (by decide)) (hbody _)

end

end BraceParams.Number
