import BraceParams.Yaml.Problem
import BraceParams.Yaml.Token

namespace BraceParams.Yaml.Block

inductive Chomping where
  | strip
  | clip
  | keep
  deriving DecidableEq, Repr

def chomping? (c : Char) : Option Chomping :=
  if c = '+' then some .keep else if c = '-' then some .strip else none

def digit? (c : Char) : Option Nat :=
  if '0' ≤ c ∧ c ≤ '9' then some (c.toNat - '0'.toNat) else none

def indentation (start : Mark) (c : Cursor) : Except SyntaxError (Option Nat × Cursor) :=
  match c.head?.bind digit? with
  | none => .ok (none, c)
  | some 0 => .error ⟨.zeroIndentation, c.mark, some (.blockScalar, start)⟩
  | some n => .ok (some n, c.next)

def header (start : Mark) (c : Cursor) : Except SyntaxError (Chomping × Option Nat × Cursor) :=
  match c.head?.bind chomping? with
  | some chomping => do
    let (increment, c) ← indentation start c.next
    .ok (chomping, increment, c)
  | none => do
    let (increment, c) ← indentation start c
    match increment, c.head?.bind chomping? with
    | some _, some chomping => .ok (chomping, increment, c.next)
    | _, _ => .ok (.clip, increment, c)

def headerEnd (start : Mark) (c : Cursor) : Except SyntaxError Cursor :=
  let c := c.dropWhile isGap
  let c := if c.head? = some '#' then c.dropWhile (!isBreak ·) else c
  match c.rest with
  | [] => .ok c
  | x :: _ =>
    if isBreak x then .ok c.next
    else .error ⟨.blockHeader, c.mark, some (.blockScalar, start)⟩

/-- The text read so far, in reverse order and without the breaks at its end: `lead` is that of its last line, and
`trail` holds those of the blank lines behind it. `widest` is how far the indentation of a blank line went. -/
structure Progress where
  text : List Char
  lead : Option Char
  trail : List Char
  gapLine : Bool
  column : Option Nat
  widest : Nat

def Progress.settled (least : Nat) (p : Progress) : Nat :=
  p.column.getD (max p.widest (max least 1))

def Progress.startLine (folded : Bool) (column : Nat) (c : Char) (p : Progress) : Progress :=
  let lead :=
    if folded && p.lead == some '\n' && !p.gapLine && !isGap c then
      if p.trail.isEmpty then [' '] else []
    else p.lead.toList
  { p with
    text := c :: (p.trail ++ (lead.reverse ++ p.text))
    lead := none, trail := [], gapLine := isGap c, column := some column }

def Progress.finish (chomping : Chomping) (p : Progress) : List Char :=
  p.text.reverse ++
    match chomping with
    | .strip => []
    | .clip => p.lead.toList
    | .keep => p.lead.toList ++ p.trail.reverse

def readFrom (start : Mark) (folded : Bool) (least : Nat) (inLine : Bool) (p : Progress) (m : Mark) :
    List Char → Except SyntaxError (Progress × Cursor)
  | [] => .ok (p, ⟨m, []⟩)
  | c :: r =>
    if inLine then
      if isBreak c then readFrom start folded least false { p with lead := some c } (m.after c) r
      else readFrom start folded least true { p with text := c :: p.text } (m.after c) r
    else
      let indenting := p.column.all (m.column < ·)
      let p := { p with widest := max p.widest m.column }
      if indenting && c = ' ' then readFrom start folded least false p (m.after c) r
      else if indenting && c = '\t' then .error ⟨.blockTab, m, some (.blockScalar, start)⟩
      else if isBreak c then
        readFrom start folded least false { p with trail := c :: p.trail } (m.after c) r
      else if m.column = p.settled least then
        readFrom start folded least true (p.startLine folded (p.settled least) c) (m.after c) r
      else .ok (p, ⟨m, c :: r⟩)

def read (folded : Bool) (least : Nat) (c : Cursor) : Except SyntaxError (List Char × Cursor) := do
  let (chomping, increment, c') ← header c.mark c.next
  let c' ← headerEnd c.mark c'
  let column := increment.map fun n => if least = 0 then n else least - 1 + n
  let progress : Progress := ⟨[], none, [], false, column, 0⟩
  let (progress, c') ← readFrom c.mark folded least false progress c'.mark c'.rest
  .ok (progress.finish chomping, c')

end BraceParams.Yaml.Block
