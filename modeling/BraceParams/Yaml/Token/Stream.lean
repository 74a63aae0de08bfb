import BraceParams.Yaml.Input
import BraceParams.Yaml.Token.Plain
import BraceParams.Yaml.Token.Block
import BraceParams.Yaml.Token.Directive
import BraceParams.Yaml.Token.Quoted

/-!
The tokens of a YAML text. Tokens for the start and end of block collections follow from indentation.
A key needs no indicator of its own: when a value indicator is met, the key token is put in front of
what stands before it on the line, if a key may start there.
-/

namespace BraceParams.Yaml

/-- A place where a key may have started without an indicator: the number of tokens in front of it, and
whether there must be a key since nothing else may stand there. -/
structure PendingKey where
  index : Nat
  required : Bool
  mark : Mark
  deriving DecidableEq, Repr

/-- All lists start with what is innermost or latest. `pending` is the key that may have started at this level, and
`outer` has those of the brackets around. -/
structure Scanner where
  cursor : Cursor
  tokens : List Token := []
  count : Nat := 0
  blocks : List Nat := []
  keyAllowed : Bool := true
  pending : Option PendingKey := none
  outer : List (Option PendingKey) := []

namespace Scanner

def inFlow (s : Scanner) : Bool :=
  !s.outer.isEmpty

def indent (s : Scanner) : Nat :=
  match s.blocks with
  | [] => 0
  | column :: _ => column + 1

def mark (s : Scanner) : Mark :=
  s.cursor.mark

def push (s : Scanner) (t : Token) : Scanner :=
  { s with tokens := t :: s.tokens, count := s.count + 1 }

def insert (s : Scanner) (index : Nat) (t : Token) : Scanner :=
  let later := s.count - index
  { s with tokens := s.tokens.take later ++ t :: s.tokens.drop later, count := s.count + 1 }

def put (s : Scanner) (kind : Token.Kind) (cursor : Cursor) : Scanner :=
  { s with cursor }.push ⟨kind, s.mark, cursor.mark⟩

def take (s : Scanner) (n : Nat) (kind : Token.Kind) : Scanner :=
  s.put kind (s.cursor.skip n)

def missingColon (s : Scanner) (key : PendingKey) : SyntaxError :=
  ⟨.missingColon, s.mark, some (.simpleKey, key.mark)⟩

def dropKey (s : Scanner) : Except SyntaxError Scanner :=
  match s.pending with
  | none => .ok s
  | some key => if key.required then .error (s.missingColon key) else .ok { s with pending := none }

def saveKey (s : Scanner) : Except SyntaxError Scanner :=
  if s.keyAllowed then do
    let s ← s.dropKey
    let required := !s.inFlow && s.blocks.head? == some s.mark.column
    .ok { s with pending := some ⟨s.count, required, s.mark⟩ }
  else .ok s

def isStale (m : Mark) (key : PendingKey) : Bool :=
  key.mark.line < m.line || key.mark.octets + 1024 < m.octets

def dropStale (s : Scanner) : Except SyntaxError Scanner := do
  let check (key : Option PendingKey) : Except SyntaxError (Option PendingKey) :=
    match key with
    | none => .ok none
    | some key =>
      if isStale s.mark key then
        if key.required then .error (s.missingColon key) else .ok none
      else .ok (some key)
  let outer ← s.outer.reverse.mapM check
  let pending ← check s.pending
  .ok { s with outer := outer.reverse, pending }

def openBlock (s : Scanner) (column : Nat) (index : Nat) (kind : Token.Kind) (m : Mark) : Scanner :=
  if !s.inFlow && s.indent ≤ column then
    { s with blocks := column :: s.blocks }.insert index ⟨kind, m, m⟩
  else s

def closedBy (column : Nat) (blocks : List Nat) : List Nat × List Nat :=
  blocks.span (column < ·)

def closeBlocks (s : Scanner) (closed stay : List Nat) : Scanner :=
  if s.inFlow then s
  else closed.foldl (fun s _ => s.push ⟨.blockEnd, s.mark, s.mark⟩) { s with blocks := stay }

def closeDeeper (s : Scanner) : Scanner :=
  let (closed, stay) := closedBy s.mark.column s.blocks
  s.closeBlocks closed stay

def closeAll (s : Scanner) : Scanner :=
  s.closeBlocks s.blocks []

inductive Space where
  | start
  | line
  | comment
  deriving DecidableEq

/-- Passes over gaps, comments and breaks. A tab is a gap only where no key may start. Behind a break
outside of brackets a key may start. A byte order mark may stand at the start of a line. -/
def skipSpace (inFlow : Bool) (space : Space) (keyAllowed : Bool) (m : Mark) :
    List Char → Bool × Cursor
  | [] => (keyAllowed, ⟨m, []⟩)
  | c :: r =>
    if isBreak c then skipSpace inFlow .start (keyAllowed || !inFlow) (m.after c) r
    else if space = .comment then skipSpace inFlow .comment keyAllowed (m.after c) r
    else if space = .start ∧ m.column = 0 ∧ c = '\ufeff' then
      skipSpace inFlow .line keyAllowed (m.after c) r
    else if c = ' ' ∨ (c = '\t' ∧ (inFlow ∨ ¬ keyAllowed)) then
      skipSpace inFlow .line keyAllowed (m.after c) r
    else if c = '#' then skipSpace inFlow .comment keyAllowed (m.after c) r
    else (keyAllowed, ⟨m, c :: r⟩)

def toToken (s : Scanner) : Scanner :=
  let (keyAllowed, cursor) := skipSpace s.inFlow .start s.keyAllowed s.mark s.cursor.rest
  { s with keyAllowed, cursor }

def endStream (s : Scanner) : Except SyntaxError Scanner := do
  let m := if s.mark.column = 0 then s.mark else ⟨s.mark.line + 1, 0, 0⟩
  let s := { s with cursor := ⟨m, []⟩ }.closeAll
  let s ← s.dropKey
  .ok ({ s with keyAllowed := false }.take 0 .streamEnd)

def directive (s : Scanner) : Except SyntaxError Scanner := do
  let s ← s.closeAll.dropKey
  let (token, cursor) ← Directive.read s.cursor
  .ok ({ s with cursor, keyAllowed := false }.push token)

def documentMarker (s : Scanner) (kind : Token.Kind) : Except SyntaxError Scanner := do
  let s ← s.closeAll.dropKey
  .ok ({ s with keyAllowed := false }.take 3 kind)

def openFlow (s : Scanner) (kind : Token.Kind) : Except SyntaxError Scanner := do
  let s ← s.saveKey
  .ok ({ s with outer := s.pending :: s.outer, pending := none, keyAllowed := true }.take 1 kind)

def closeFlow (s : Scanner) (kind : Token.Kind) : Except SyntaxError Scanner := do
  let s ← s.dropKey
  let s := match s.outer with
    | [] => s
    | pending :: outer => { s with pending, outer }
  .ok ({ s with keyAllowed := false }.take 1 kind)

def flowEntry (s : Scanner) : Except SyntaxError Scanner := do
  let s ← s.dropKey
  .ok ({ s with keyAllowed := true }.take 1 .flowEntry)

def blockEntry (s : Scanner) : Except SyntaxError Scanner := do
  if !s.inFlow && !s.keyAllowed then .error ⟨.misplacedBlockEntry, s.mark, none⟩
  else
    let s := s.openBlock s.mark.column s.count .blockSequenceStart s.mark
    let s ← s.dropKey
    .ok ({ s with keyAllowed := true }.take 1 .blockEntry)

def key (s : Scanner) : Except SyntaxError Scanner := do
  if !s.inFlow && !s.keyAllowed then .error ⟨.misplacedKey, s.mark, none⟩
  else
    let s := s.openBlock s.mark.column s.count .blockMappingStart s.mark
    let s ← s.dropKey
    .ok ({ s with keyAllowed := !s.inFlow }.take 1 .key)

def value (s : Scanner) : Except SyntaxError Scanner :=
  match s.pending with
  | some key =>
    let s := s.insert key.index ⟨.key, key.mark, key.mark⟩
    let s := s.openBlock key.mark.column key.index .blockMappingStart key.mark
    .ok ({ s with pending := none, keyAllowed := false }.take 1 .value)
  | none =>
    if !s.inFlow && !s.keyAllowed then .error ⟨.misplacedValue, s.mark, none⟩
    else
      let s := s.openBlock s.mark.column s.count .blockMappingStart s.mark
      .ok ({ s with keyAllowed := !s.inFlow }.take 1 .value)

def anchor (s : Scanner) (activity : Activity) (kind : List Char → Token.Kind) :
    Except SyntaxError Scanner := do
  let s ← s.saveKey
  let (name, cursor) ← Anchor.read activity s.cursor
  .ok ({ s with keyAllowed := false }.put (kind name) cursor)

def tag (s : Scanner) : Except SyntaxError Scanner := do
  let s ← s.saveKey
  let ((handle, suffix), cursor) ← Tag.read s.inFlow s.cursor
  .ok ({ s with keyAllowed := false }.put (.tag handle suffix) cursor)

def blockScalar (s : Scanner) (style : Style) : Except SyntaxError Scanner := do
  let s ← s.dropKey
  let (text, cursor) ← Block.read (style = .folded) s.indent s.cursor
  .ok ({ s with keyAllowed := true }.put (.scalar text style) cursor)

def quotedScalar (s : Scanner) (style : Style) : Except SyntaxError Scanner := do
  let s ← s.saveKey
  let (text, cursor) ←
    if style = .singleQuoted then Quoted.single s.cursor else Quoted.double s.cursor
  .ok ({ s with keyAllowed := false }.put (.scalar text style) cursor)

def plainScalar (s : Scanner) : Except SyntaxError Scanner := do
  let s ← s.saveKey
  let r ← Plain.read s.inFlow s.indent s.cursor
  .ok ({ s with cursor := r.cursor, keyAllowed := r.atBreak }.push
    ⟨.scalar r.text .plain, s.mark, r.stop⟩)

def startsPlain (inFlow : Bool) (c : Char) (rest : List Char) : Bool :=
  let followed := !endsWord rest
  if c = '-' then !(rest.head?.any isGap)
  else if c = '?' ∨ c = ':' then !inFlow && followed
  else !(isGap c || c ∈ [',', '[', ']', '{', '}', '#', '&', '*', '!', '|', '>', '\'', '"', '%', '@', '`'])

def token (s : Scanner) : Except SyntaxError Scanner :=
  match s.cursor.rest with
  | [] => s.endStream
  | c :: r =>
    if s.mark.column = 0 ∧ c = '%' then s.directive
    else if isSeparator '-' s.mark (c :: r) then s.documentMarker .documentStart
    else if isSeparator '.' s.mark (c :: r) then s.documentMarker .documentEnd
    else if c = '[' then s.openFlow .flowSequenceStart
    else if c = '{' then s.openFlow .flowMappingStart
    else if c = ']' then s.closeFlow .flowSequenceEnd
    else if c = '}' then s.closeFlow .flowMappingEnd
    else if c = ',' then s.flowEntry
    else if c = '-' ∧ endsWord r then s.blockEntry
    else if c = '?' ∧ (s.inFlow ∨ endsWord r) then s.key
    else if c = ':' ∧ (s.inFlow ∨ endsWord r) then s.value
    else if c = '*' then s.anchor .alias .alias
    else if c = '&' then s.anchor .anchor .anchor
    else if c = '!' then s.tag
    else if c = '|' ∧ ¬ s.inFlow then s.blockScalar .literal
    else if c = '>' ∧ ¬ s.inFlow then s.blockScalar .folded
    else if c = '\'' then s.quotedScalar .singleQuoted
    else if c = '"' then s.quotedScalar .doubleQuoted
    else if startsPlain s.inFlow c r then s.plainScalar
    else .error ⟨.tokenStart, s.mark, some (.nextToken, s.mark)⟩

def step (s : Scanner) : Except SyntaxError Scanner := do
  let s ← s.toToken.dropStale
  let s ← s.closeDeeper.token
  s.dropStale

/-- Reads one token of a text that can be read up to a horizon. Where a token starts, four characters have
to be in sight, and behind it one. -/
def stepWithin (h : Horizon) (s : Scanner) : Except SyntaxError Scanner := do
  let s := s.toToken
  if !h.sees 1 s.cursor then .error h.error
  else
    let s ← s.dropStale
    if !h.sees 4 s.cursor then .error h.error
    else
      match s.closeDeeper.token with
      | .error e => .error (if e.mark.isBefore h.mark then e else h.error)
      | .ok s => if h.sees 1 s.cursor then s.dropStale else .error h.error

def settled (s : Scanner) : Nat :=
  (s.pending :: s.outer).foldl (fun n key => match key with
    | none => n
    | some key => min n key.index) s.count

end Scanner

structure Tokens where
  served : List Token
  error : Option SyntaxError
  deriving Repr

namespace Tokens

def scanFrom (step : Scanner → Except SyntaxError Scanner) : (fuel : Nat) → Scanner → Tokens
  | 0, s => ⟨s.tokens.reverse, none⟩
  | fuel + 1, s =>
    match step s with
    | .error e => ⟨s.tokens.reverse.take s.settled, some e⟩
    | .ok s' =>
      if s'.tokens.head?.any (·.kind = .streamEnd) then ⟨s'.tokens.reverse, none⟩
      else scanFrom step fuel s'

def ofText (text : List Char) : Tokens :=
  let step := match Horizon.ofText? text with
    | none => Scanner.step
    | some h => Scanner.stepWithin h
  scanFrom step (text.length + 1) { cursor := .ofText (unifyBreaks text) }

end Tokens

end BraceParams.Yaml
