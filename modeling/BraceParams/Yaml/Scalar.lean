import BraceParams.Number.Read

namespace BraceParams.Yaml

open Number (Binary64)

inductive Scalar where
  | null
  | boolean (b : Bool)
  | integer (n : Int)
  | wideUnsigned (n : Nat)
  | wideSigned (n : Int)
  | float (x : Binary64)
  | text
  deriving DecidableEq, Repr

namespace Scalar

def isNull (s : List Char) : Bool :=
  s = "null".toList || s = "Null".toList || s = "NULL".toList || s = ['~']

def boolean? (s : List Char) : Option Bool :=
  if s = "true".toList ∨ s = "True".toList ∨ s = "TRUE".toList then some true
  else if s = "false".toList ∨ s = "False".toList ∨ s = "FALSE".toList then some false
  else none

def isZeroPadded (s : List Char) : Bool :=
  let digits := match s with
    | '-' :: r => r
    | '+' :: r => r
    | r => r
  match digits with
  | '0' :: r => !r.isEmpty && r.all Number.isDigit
  | _ => false

def magnitude? (s : List Char) : Option Nat :=
  match s with
  | '0' :: 'x' :: r => Number.natural? 16 r
  | '0' :: 'o' :: r => Number.natural? 8 r
  | '0' :: 'b' :: r => Number.natural? 2 r
  | r => if isZeroPadded r then none else Number.natural? 10 r

def unsigned? (s : List Char) : Option Nat :=
  match s with
  | '+' :: r => magnitude? r
  | r => magnitude? r

def negative? (s : List Char) : Option Int :=
  match s with
  | '-' :: r => (magnitude? r).map fun n => -(n : Int)
  | _ => none

def integer? (s : List Char) : Option Scalar :=
  match unsigned? s, negative? s with
  | some n, _ =>
    if n < Nat.pow 2 64 then some (.integer n)
    else if n < Nat.pow 2 128 then some (.wideUnsigned n)
    else none
  | none, some n =>
    if -(Nat.pow 2 63 : Int) ≤ n then some (.integer n)
    else if -(Nat.pow 2 127 : Int) ≤ n then some (.wideSigned n)
    else none
  | none, none => none

def float? (s : List Char) : Option Binary64 :=
  let unsigned := match s with
    | '+' :: r => r
    | r => r
  if unsigned = ".inf".toList ∨ unsigned = ".Inf".toList ∨ unsigned = ".INF".toList then
    some (.infinite false)
  else if s = "-.inf".toList ∨ s = "-.Inf".toList ∨ s = "-.INF".toList then some (.infinite true)
  else if s = ".nan".toList ∨ s = ".NaN".toList ∨ s = ".NAN".toList then some .nan
  else if s.head? = some '+' ∧ unsigned.head? = some '-' then none
  else (Number.decimal? unsigned).filter Binary64.isFinite

def ofPlain (s : List Char) : Scalar :=
  if s.isEmpty || isNull s then .null
  else
    match boolean? s with
    | some b => .boolean b
    | none =>
      match integer? s with
      | some n => n
      | none =>
        if isZeroPadded s then .text
        else
          match float? s with
          | some x => .float x
          | none => .text

end Scalar

end BraceParams.Yaml
