namespace BraceParams.Text

def encode (s : List Char) : List UInt8 :=
  s.flatMap String.utf8EncodeChar

def startsCharacter (b : UInt8) : Bool :=
  b < 0x80 || 0xC0 ≤ b

def isBoundary (text : List UInt8) (i : Nat) : Bool :=
  match text[i]? with
  | none => i = text.length
  | some b => i = 0 || startsCharacter b

inductive Misstep where
  | reversed
  | insideCharacter
  | behindEnd
  | belowZero
  deriving DecidableEq, Repr

def slice (text : List UInt8) (start stop : Nat) : Except Misstep (List UInt8) :=
  if text.length < start ∨ text.length < stop then .error .behindEnd
  else if stop < start then .error .reversed
  else if isBoundary text start && isBoundary text stop then
    .ok ((text.drop start).take (stop - start))
  else .error .insideCharacter

end BraceParams.Text
