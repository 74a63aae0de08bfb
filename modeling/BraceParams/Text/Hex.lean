namespace BraceParams.Text

def hexDigit (ten : Char) (n : Nat) : Char :=
  if n < 10 then Char.ofNat ('0'.toNat + n) else Char.ofNat (ten.toNat + (n - 10))

def hexValue? (c : Char) : Option Nat :=
  let n := c.toNat
  if 0x30 ≤ n ∧ n ≤ 0x39 then some (n - 0x30)
  else if 0x41 ≤ n ∧ n ≤ 0x46 then some (n - 0x41 + 10)
  else if 0x61 ≤ n ∧ n ≤ 0x66 then some (n - 0x61 + 10)
  else none

theorem hexValue?_hexDigit {ten : Char} (h : ten = 'A' ∨ ten = 'a') :
    ∀ d < 16, hexValue? (hexDigit ten d) = some d := by
  rcases h with rfl | rfl
  · decide
  · decide

def charOfCode? (n : Nat) : Option Char :=
  if h : n.isValidChar then some (Char.ofNatAux n h) else none

theorem charOfCode?_toNat (c : Char) : charOfCode? c.toNat = some c := by
  rw [charOfCode?, dif_pos (show c.toNat.isValidChar from c.valid)]
  rfl

end BraceParams.Text
