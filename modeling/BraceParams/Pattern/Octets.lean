import BraceParams.Pattern.Group
import BraceParams.Text.Octets

/-!
Groups of a pattern that is given by its octets. Escape pairs are overwritten in a copy of the octets,
the places of a group are found in the copy and the pieces are cut from the pattern, so places count
octets here.
-/

namespace BraceParams.Pattern.Octets

open Text

def isEscapable (b : UInt8) : Bool :=
  b = '\\'.toUInt8 || b = ','.toUInt8 || b = '{'.toUInt8 || b = '}'.toUInt8

def covered : UInt8 := 0

def maskFrom (view : Array UInt8) (i : Nat) : Array UInt8 :=
  if h : i + 1 < view.size then
    if view[i] = '\\'.toUInt8 ∧ isEscapable view[i + 1] then
      maskFrom ((view.set i covered).set (i + 1) covered (by simpa using h)) (i + 2)
    else maskFrom view (i + 1)
  else view
termination_by view.size - i

def mask (text : List UInt8) : List UInt8 :=
  (maskFrom text.toArray 0).toList

/-- The place where a group closes and its commas, read from what stands behind its opening brace. `depth`
counts the pairs that are open, that of the group among them, and `splits` holds the commas met so far. -/
def closeFrom (depth i : Nat) (splits : List Nat) : List UInt8 → Except Misstep (Option (Nat × List Nat))
  | [] => .ok none
  | b :: r =>
    if b = '{'.toUInt8 then closeFrom (depth + 1) (i + 1) splits r
    else if b = '}'.toUInt8 then
      if depth = 0 then .error .belowZero
      else if depth - 1 = 0 then .ok (if splits.isEmpty then none else some (i, splits))
      else closeFrom (depth - 1) (i + 1) splits r
    else if b = ','.toUInt8 ∧ depth = 1 then closeFrom depth (i + 1) (splits ++ [i]) r
    else closeFrom depth (i + 1) splits r

def groupAt (view : List UInt8) (openAt : Nat) : Except Misstep (Option Group) :=
  (closeFrom 1 (openAt + 1) [] (view.drop (openAt + 1))).map
    (Option.map fun (closeAt, splits) => ⟨openAt, closeAt, splits⟩)

def findFrom (view : List UInt8) (start : Nat) : Except Misstep (Option Group) :=
  if view.length < start then .error .behindEnd
  else
    match _hit : (view.drop start).findIdx? (· = '{'.toUInt8) with
    | none => .ok none
    | some offset =>
      match groupAt view (start + offset) with
      | .ok none => findFrom view (start + offset + 1)
      | found => found
termination_by view.length - start
decreasing_by
  obtain ⟨hlt, -⟩ := List.findIdx?_eq_some_iff_getElem.mp _hit
  rw [List.length_drop] at hlt
  omega

def findGroup (text : List UInt8) : Except Misstep (Option Group) :=
  findFrom (mask text) 0

def head (g : Group) (text : List UInt8) : Except Misstep (List UInt8) :=
  slice text 0 g.openAt

def tail (g : Group) (text : List UInt8) : Except Misstep (List UInt8) :=
  slice text (g.closeAt + 1) text.length

def cutAt (text : List UInt8) (start : Nat) (splits : List Nat) (stop : Nat) :
    Except Misstep (List (List UInt8)) :=
  match splits with
  | [] => do
    let piece ← slice text start stop
    .ok [piece]
  | split :: splits => do
    let piece ← slice text start split
    let pieces ← cutAt text (split + 1) splits stop
    .ok (piece :: pieces)

def alternatives (g : Group) (text : List UInt8) : Except Misstep (List (List UInt8)) :=
  cutAt text (g.openAt + 1) g.splits g.closeAt

end BraceParams.Pattern.Octets
