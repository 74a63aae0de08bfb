import BraceParams.Yaml.Problem

namespace BraceParams.Yaml

def isAllowed (c : Char) : Bool :=
  let n := c.toNat
  n == 9 || n == 0xA || n == 0xD || (0x20 ≤ n && n ≤ 0x7E) || n == 0x85 ||
    (0xA0 ≤ n && n ≤ 0xD7FF) || (0xE000 ≤ n && n ≤ 0xFFFD) || (0x10000 ≤ n && n ≤ 0x10FFFF)

def unifyBreaks : List Char → List Char
  | [] => []
  | '\r' :: '\n' :: r => '\n' :: unifyBreaks r
  | c :: r => (if c = '\r' ∨ c = '\u0085' then '\n' else c) :: unifyBreaks r

/-- A text is checked in pieces of so many octets. A character that does not fit into a piece starts the
next one. -/
def pieceSize : Nat := 16384

structure Forbidden where
  offset : Nat
  readable : Nat
  deriving DecidableEq, Repr

def Forbidden.find? (offset index readable room : Nat) : List Char → Option Forbidden
  | [] => none
  | c :: r =>
    let fits := c.utf8Size ≤ room
    let readable := if fits then readable else index
    let room := if fits then room else pieceSize
    if isAllowed c then
      find? (offset + c.utf8Size) (index + 1) readable (room - c.utf8Size) r
    else some ⟨offset, readable⟩

theorem Forbidden.find?_eq_none_iff (offset index readable room : Nat) (text : List Char) :
    find? offset index readable room text = none ↔ ∀ c ∈ text, isAllowed c = true := by
  induction text generalizing offset index readable room with
  | nil => simp [find?]
  | cons c r ih => by_cases h : isAllowed c = true <;> simp [find?, h, ih]

/-- Where the piece with the first forbidden character starts. No character from there on can be read. -/
structure Horizon where
  mark : Mark
  offset : Nat
  deriving DecidableEq, Repr

namespace Horizon

def ofText? (text : List Char) : Option Horizon :=
  (Forbidden.find? 0 0 0 pieceSize text).map fun f =>
    ⟨(unifyBreaks (text.take f.readable)).foldl Mark.after .start, f.offset⟩

theorem ofText?_eq_none_iff (text : List Char) :
    ofText? text = none ↔ ∀ c ∈ text, isAllowed c = true := by
  simp [ofText?, Forbidden.find?_eq_none_iff]

def error (h : Horizon) : SyntaxError :=
  ⟨.forbiddenCharacter h.offset, .start, none⟩

def sees (h : Horizon) (n : Nat) (c : Cursor) : Bool :=
  !h.mark.isBefore (c.skip n).mark

end Horizon

end BraceParams.Yaml
