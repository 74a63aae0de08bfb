import BraceParams.Number.Binary64

namespace BraceParams.Number

def digit? (base : Nat) (c : Char) : Option Nat :=
  let n := c.toNat
  let value :=
    if 0x30 ≤ n ∧ n ≤ 0x39 then n - 0x30
    else if 0x41 ≤ n ∧ n ≤ 0x5A then n - 0x41 + 10
    else if 0x61 ≤ n ∧ n ≤ 0x7A then n - 0x61 + 10
    else base
  if value < base then some value else none

def digitsFrom (base : Nat) (n : Nat) : List Char → Option Nat
  | [] => some n
  | c :: r => (digit? base c).bind fun d => digitsFrom base (base * n + d) r

def natural? (base : Nat) (s : List Char) : Option Nat :=
  if s.isEmpty then none else digitsFrom base 0 s

def isDigit (c : Char) : Bool :=
  '0' ≤ c && c ≤ '9'

def exponent? : List Char → Option Int
  | [] => some 0
  | c :: r =>
    if c = 'e' ∨ c = 'E' then
      match r with
      | '-' :: digits => (natural? 10 digits).map fun n => -(n : Int)
      | '+' :: digits => (natural? 10 digits).map fun n => (n : Int)
      | digits => (natural? 10 digits).map fun n => (n : Int)
    else none

def unsignedDecimal? (s : List Char) : Option (Nat × Int) :=
  let whole := s.takeWhile isDigit
  let r := s.dropWhile isDigit
  let (part, r) := match r with
    | '.' :: r => (r.takeWhile isDigit, r.dropWhile isDigit)
    | r => ([], r)
  match natural? 10 (whole ++ part), exponent? r with
  | some n, some e => some (n, e - part.length)
  | _, _ => none

def decimal? (s : List Char) : Option Binary64 :=
  match s with
  | '-' :: r => (unsignedDecimal? r).map fun (n, e) => .ofDecimal true n e
  | r => (unsignedDecimal? r).map fun (n, e) => .ofDecimal false n e

end BraceParams.Number
