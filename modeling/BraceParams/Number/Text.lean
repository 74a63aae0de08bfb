import BraceParams.Number.Shortest

namespace BraceParams.Number

structure Layout where
  tie : Tie
  least : Int
  greatest : Int
  infinity : String
  negativeInfinity : String
  nan : String

def Layout.value : Layout :=
  { tie := .even, least := -5, greatest := 15, infinity := ".inf", negativeInfinity := "-.inf", nan := ".nan" }

def Layout.message : Layout :=
  { tie := .up, least := -400, greatest := 400, infinity := "inf", negativeInfinity := "-inf", nan := "NaN" }

def digitsText (n : Nat) : List Char :=
  Nat.toDigits 10 n

def zeros (n : Nat) : List Char :=
  List.replicate n '0'

def integerText (n : Int) : List Char :=
  if n < 0 then '-' :: digitsText n.natAbs else digitsText n.natAbs

def positionalText (digits : List Char) (p : Int) : List Char :=
  let point : Int := digits.length + p
  if 0 ≤ p then digits ++ zeros p.toNat ++ ['.', '0']
  else if 0 < point then digits.take point.toNat ++ '.' :: digits.drop point.toNat
  else ['0', '.'] ++ zeros (-point).toNat ++ digits

def exponentText (digits : List Char) (p : Int) : List Char :=
  let e := integerText (digits.length + p - 1)
  match digits with
  | [] => []
  | [d] => d :: 'e' :: e
  | d :: rest => d :: '.' :: rest ++ 'e' :: e

def Layout.text (layout : Layout) : Binary64 → List Char
  | .nan => layout.nan.toList
  | .infinite true => layout.negativeInfinity.toList
  | .infinite false => layout.infinity.toList
  | .finite negative m e =>
    let (d, p) := shortest layout.tie m e
    let digits := digitsText d
    let top : Int := digits.length + p - 1
    let body :=
      if layout.least ≤ top ∧ top ≤ layout.greatest then positionalText digits p
      else exponentText digits p
    if negative then '-' :: body else body

end BraceParams.Number
