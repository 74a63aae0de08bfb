namespace BraceParams.Yaml

structure Mark where
  line : Nat
  column : Nat
  octets : Nat
  deriving DecidableEq, Repr

def Mark.start : Mark := ⟨0, 0, 0⟩

def isBreak (c : Char) : Bool :=
  c = '\n' || c = '\u2028' || c = '\u2029'

def isGap (c : Char) : Bool :=
  c = ' ' || c = '\t'

def Mark.after (m : Mark) (c : Char) : Mark :=
  if isBreak c then ⟨m.line + 1, 0, 0⟩ else ⟨m.line, m.column + 1, m.octets + c.utf8Size⟩

def Mark.isBefore (a b : Mark) : Bool :=
  a.line < b.line || (a.line = b.line && a.column < b.column)

structure Cursor where
  mark : Mark
  rest : List Char
  deriving DecidableEq, Repr

namespace Cursor

def ofText (s : List Char) : Cursor := ⟨.start, s⟩

def next (c : Cursor) : Cursor :=
  match c.rest with
  | [] => c
  | x :: r => ⟨c.mark.after x, r⟩

def skip (n : Nat) (c : Cursor) : Cursor :=
  match n with
  | 0 => c
  | n + 1 => c.next.skip n

def past (m : Mark) (text rest : List Char) : Cursor :=
  ⟨text.foldl Mark.after m, rest⟩

def span (p : Char → Bool) (c : Cursor) : List Char × Cursor :=
  (c.rest.takeWhile p, past c.mark (c.rest.takeWhile p) (c.rest.dropWhile p))

def dropWhile (p : Char → Bool) (c : Cursor) : Cursor :=
  (c.span p).2

def head? (c : Cursor) : Option Char :=
  c.rest.head?

end Cursor

def endsWord : List Char → Bool
  | [] => true
  | c :: _ => isBreak c || isGap c

def endsLine : List Char → Bool
  | [] => true
  | c :: _ => isBreak c

def isSeparator (c : Char) (m : Mark) (s : List Char) : Bool :=
  m.column == 0 && [c, c, c].isPrefixOf s && endsWord (s.drop 3)

def startsDocumentMarker (m : Mark) (s : List Char) : Bool :=
  isSeparator '-' m s || isSeparator '.' m s

end BraceParams.Yaml
