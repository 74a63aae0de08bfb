import BraceParams.Text.Hex
import BraceParams.Yaml.Problem
import BraceParams.Yaml.Token.Spacing

namespace BraceParams.Yaml.Quoted

def readSingle (start : Mark) (text : List Char) (spacing : Spacing) (m : Mark) :
    List Char → Except SyntaxError (List Char × Cursor)
  | [] => .error ⟨.quotedEnd, m, some (.quotedScalar, start)⟩
  | c :: r =>
    if isGap c then readSingle start text (spacing.pushGap c) (m.after c) r
    else if isBreak c then readSingle start text (spacing.pushBreak c) (m.after c) r
    else if startsDocumentMarker m (c :: r) then
      .error ⟨.quotedMarker, m, some (.quotedScalar, start)⟩
    else if c = '\'' then
      match r with
      | '\'' :: r' =>
        readSingle start ('\'' :: (spacing.fold ++ text)) .none ((m.after c).after c) r'
      | _ => .ok ((spacing.fold ++ text).reverse, ⟨m.after c, r⟩)
    else readSingle start (c :: (spacing.fold ++ text)) .none (m.after c) r

inductive Escape where
  | char (c : Char)
  | code (digits : Nat)
  deriving DecidableEq, Repr

def escape? : Char → Option Escape
  | '0' => some (.char '\x00')
  | 'a' => some (.char '\x07')
  | 'b' => some (.char '\x08')
  | 't' => some (.char '\t')
  | '\t' => some (.char '\t')
  | 'n' => some (.char '\n')
  | 'v' => some (.char '\x0b')
  | 'f' => some (.char '\x0c')
  | 'r' => some (.char '\r')
  | 'e' => some (.char '\x1b')
  | ' ' => some (.char ' ')
  | '"' => some (.char '"')
  | '/' => some (.char '/')
  | '\\' => some (.char '\\')
  | 'N' => some (.char '\u0085')
  | '_' => some (.char '\u00a0')
  | 'L' => some (.char '\u2028')
  | 'P' => some (.char '\u2029')
  | 'x' => some (.code 2)
  | 'u' => some (.code 4)
  | 'U' => some (.code 8)
  | _ => none

inductive Mode where
  | text
  | escape (backslash : Mark)
  | code (left value : Nat) (first : Mark)
  deriving DecidableEq, Repr

def readDouble (start : Mark) (text : List Char) (spacing : Spacing) (mode : Mode) (m : Mark) :
    List Char → Except SyntaxError (List Char × Cursor)
  | [] =>
    match mode with
    | .text => .error ⟨.quotedEnd, m, some (.quotedScalar, start)⟩
    | .escape backslash => .error ⟨.escapeCharacter, backslash, some (.quotedEscape, start)⟩
    | .code _ _ first => .error ⟨.escapeDigit, first, some (.quotedEscape, start)⟩
  | c :: r =>
    match mode with
    | .text =>
      if isGap c then readDouble start text (spacing.pushGap c) .text (m.after c) r
      else if isBreak c then readDouble start text (spacing.pushBreak c) .text (m.after c) r
      else if startsDocumentMarker m (c :: r) then
        .error ⟨.quotedMarker, m, some (.quotedScalar, start)⟩
      else if c = '"' then .ok ((spacing.fold ++ text).reverse, ⟨m.after c, r⟩)
      else if c = '\\' then
        readDouble start (spacing.fold ++ text) .none (.escape m) (m.after c) r
      else readDouble start (c :: (spacing.fold ++ text)) .none .text (m.after c) r
    | .escape backslash =>
      if isBreak c then readDouble start text (.breaks .none []) .text (m.after c) r
      else
        match escape? c with
        | some (.char d) => readDouble start (d :: text) .none .text (m.after c) r
        | some (.code digits) =>
          readDouble start text .none (.code (digits - 1) 0 (m.after c)) (m.after c) r
        | none => .error ⟨.escapeCharacter, backslash, some (.quotedEscape, start)⟩
    | .code left value first =>
      match Text.hexValue? c with
      | none => .error ⟨.escapeDigit, first, some (.quotedEscape, start)⟩
      | some d =>
        match left with
        | left + 1 => readDouble start text .none (.code left (16 * value + d) first) (m.after c) r
        | 0 =>
          match Text.charOfCode? (16 * value + d) with
          | some x => readDouble start (x :: text) .none .text (m.after c) r
          | none => .error ⟨.escapeCode, first, some (.quotedEscape, start)⟩

def single (c : Cursor) : Except SyntaxError (List Char × Cursor) :=
  readSingle c.mark [] .none c.next.mark c.next.rest

def double (c : Cursor) : Except SyntaxError (List Char × Cursor) :=
  readDouble c.mark [] .none .text c.next.mark c.next.rest

end BraceParams.Yaml.Quoted
