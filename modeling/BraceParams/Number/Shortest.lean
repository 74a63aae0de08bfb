import BraceParams.Number.Binary64

namespace BraceParams.Number

inductive Tie where
  | even
  | up
  deriving DecidableEq, Repr

def compareScaled (x : Nat) (p : Int) (y : Nat) (q : Int) : Ordering :=
  compare (x * Nat.pow 10 p.toNat * Nat.pow 2 (-q).toNat) (y * Nat.pow 2 q.toNat * Nat.pow 10 (-p).toNat)

/-- Whether `x · 10 ^ p` rounds to `m · 2 ^ e`: it lies between the midpoints to the neighbours of the
number, and a midpoint itself rounds to the even mantissa. -/
def roundsTo (x : Nat) (p : Int) (m : Nat) (e : Int) : Bool :=
  let below := if m = Nat.pow 2 52 ∧ Binary64.leastExponent < e then 1 else 2
  let low := compareScaled x p (4 * m - below) (e - 2)
  let high := compareScaled x p (4 * m + 2) (e - 2)
  (low == .gt || (low == .eq && m % 2 == 0)) && (high == .lt || (high == .eq && m % 2 == 0))

def multiple? (tie : Tie) (m : Nat) (e p : Int) : Option Nat :=
  let num := m * Nat.pow 2 e.toNat * Nat.pow 10 (-p).toNat
  let den := Nat.pow 2 (-e).toNat * Nat.pow 10 p.toNat
  let d := num / den
  let lower := d != 0 && roundsTo d p m e
  let upper := roundsTo (d + 1) p m e
  let preferLower := match compare (2 * (num % den)) den with
    | .lt => true
    | .gt => false
    | .eq => tie == .even && d % 2 == 0
  if lower && (preferLower || !upper) then some d else if upper then some (d + 1) else none

def shortestFrom (tie : Tie) (m : Nat) (e : Int) : Nat → Int → Nat × Int
  | 0, p => (m, p)
  | steps + 1, p =>
    match multiple? tie m e p with
    | some d => (d, p)
    | none => shortestFrom tie m e steps (p - 1)

/-- Digits `d` and exponent `p` of the shortest form `d · 10 ^ p` of `m · 2 ^ e`. The search starts at
a power of ten above the number and has reached 17 digits before it ends. -/
def shortest (tie : Tie) (m : Nat) (e : Int) : Nat × Int :=
  if m = 0 then (0, 0)
  else
    let top := (((m.log2 : Int) + e + 1) * 30103).fdiv 100000 + 1
    shortestFrom tie m e 25 top

end BraceParams.Number
