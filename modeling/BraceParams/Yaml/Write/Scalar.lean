import BraceParams.Text.Hex
import BraceParams.Yaml.Mark
import BraceParams.Yaml.Scalar

/-!
Writing texts as YAML scalars. A text is written plain if it reads back as a text that way, else between
single quotes, else between double quotes with escapes. A text with line feeds is written as a literal
block where a block can hold it.
-/

namespace BraceParams.Yaml.Write

def isPlainChar (c : Char) : Bool :=
  let n := c.toNat
  n == 0xA || (0x20 ≤ n && n ≤ 0x7E) || (0xA0 ≤ n && n ≤ 0xFFFD && n ≠ 0xFEFF) || 0x10000 ≤ n

def isAnyBreak (c : Char) : Bool :=
  c = '\r' || c = '\u0085' || isBreak c

def isBlankChar (c : Char) : Bool :=
  isGap c || isAnyBreak c || c = '\x00'

def blankFollows (rest : List Char) : Bool :=
  rest.head?.all isBlankChar

def isLeadingIndicator (c : Char) (rest : List Char) : Bool :=
  c ∈ ['#', ',', '[', ']', '{', '}', '&', '*', '!', '|', '>', '\'', '"', '%', '@', '`'] ||
    (c ∈ ['?', ':', '-'] && blankFollows rest)

def hasInnerIndicator (blankBefore : Bool) : List Char → Bool
  | [] => false
  | c :: r =>
    (c = ':' && blankFollows r) || (c = '#' && blankBefore) || hasInnerIndicator (isBlankChar c) r

def hasIndicator (s : List Char) : Bool :=
  ['-', '-', '-'].isPrefixOf s || ['.', '.', '.'].isPrefixOf s ||
    match s with
    | [] => false
    | c :: r => isLeadingIndicator c r || hasInnerIndicator (isBlankChar c) r

def hasPair (p q : Char → Bool) : List Char → Bool
  | c :: d :: r => (p c && q d) || hasPair p q (d :: r)
  | _ => false

def isSpace (c : Char) : Bool :=
  c = ' '

def needsEscapes (s : List Char) : Bool :=
  s.any (!isPlainChar ·) || hasPair isSpace isAnyBreak s

def allowsPlain (s : List Char) : Bool :=
  !(needsEscapes s || hasIndicator s || s.any isAnyBreak ||
    s.head?.any isSpace || s.getLast?.any isSpace)

def allowsSingle (s : List Char) : Bool :=
  !(needsEscapes s || hasPair isAnyBreak isSpace s)

def allowsBlock (s : List Char) : Bool :=
  !(needsEscapes s || s.isEmpty || s.getLast?.any isSpace)

def readsAsOther (s : List Char) : Bool :=
  Scalar.ofPlain s ≠ .text || Scalar.isZeroPadded s

inductive Form where
  | plain
  | single
  | double
  | literal
  deriving DecidableEq, Repr

def form (s : List Char) : Form :=
  if s.contains '\n' then if allowsBlock s then .literal else .double
  else if !readsAsOther s && allowsPlain s then .plain
  else if allowsSingle s then .single
  else .double

def spaces (n : Nat) : List Char :=
  List.replicate n ' '

def singleFrom (indent : Nat) (atBreak : Bool) : List Char → List Char
  | [] => if atBreak then spaces indent else []
  | c :: r =>
    if isSpace c then c :: singleFrom indent atBreak r
    else if isAnyBreak c then c :: singleFrom indent true r
    else
      (if atBreak then spaces indent else []) ++ (if c = '\'' then ['\'', '\''] else [c]) ++
        singleFrom indent false r

def hexText : (width : Nat) → Nat → List Char
  | 0, _ => []
  | width + 1, n => hexText width (n / 16) ++ [Text.hexDigit 'A' (n % 16)]

def escapeLetter? (c : Char) : Option Char :=
  match c with
  | '\x00' => some '0'
  | '\x07' => some 'a'
  | '\x08' => some 'b'
  | '\t' => some 't'
  | '\n' => some 'n'
  | '\x0b' => some 'v'
  | '\x0c' => some 'f'
  | '\r' => some 'r'
  | '\x1b' => some 'e'
  | '"' => some '"'
  | '\\' => some '\\'
  | '\u0085' => some 'N'
  | '\u00a0' => some '_'
  | '\u2028' => some 'L'
  | '\u2029' => some 'P'
  | _ => none

def escapeCode (n : Nat) : List Char :=
  if n ≤ 0xFF then '\\' :: 'x' :: hexText 2 n
  else if n ≤ 0xFFFF then '\\' :: 'u' :: hexText 4 n
  else '\\' :: 'U' :: hexText 8 n

def doubleChar (c : Char) : List Char :=
  if isPlainChar c && !isAnyBreak c && c ≠ '"' && c ≠ '\\' then [c]
  else
    match escapeLetter? c with
    | some letter => ['\\', letter]
    | none => escapeCode c.toNat

def literalFrom (indent : Nat) (atBreak : Bool) : List Char → List Char
  | [] => []
  | c :: r =>
    if isAnyBreak c then c :: literalFrom indent true r
    else (if atBreak then spaces indent else []) ++ c :: literalFrom indent false r

def indentationHint (s : List Char) : List Char :=
  if s.head?.any (fun c => isSpace c || isAnyBreak c) then ['2'] else []

def chompingHint (s : List Char) : List Char :=
  match s.reverse with
  | [] => ['-']
  | [c] => if isAnyBreak c then ['+'] else ['-']
  | c :: d :: _ => if !isAnyBreak c then ['-'] else if isAnyBreak d then ['+'] else []

def scalar (indent : Nat) (s : List Char) : List Char :=
  match form s with
  | .plain => s
  | .single => '\'' :: singleFrom indent false s ++ ['\'']
  | .double => '"' :: s.flatMap doubleChar ++ ['"']
  | .literal =>
    '|' :: indentationHint s ++ chompingHint s ++ '\n' :: literalFrom indent true s

def lineEnd (s : List Char) : List Char :=
  if form s = .literal ∧ s.getLast?.any isAnyBreak then [] else ['\n']

def scalarLine (indent : Nat) (s : List Char) : List Char :=
  scalar indent s ++ lineEnd s

end BraceParams.Yaml.Write
