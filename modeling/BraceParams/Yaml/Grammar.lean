import BraceParams.Yaml.Event
import BraceParams.Yaml.Token.Stream

/-!
The grammar of a YAML document over tokens. The grammar is a stack of goals, what is still to be read;
a step takes the first goal, looks at the next token and gives the events read and the goals that
replace it.
-/

namespace BraceParams.Yaml

namespace Tokens

def peek (ts : Tokens) : Except SyntaxError Token :=
  match ts.served, ts.error with
  | t :: _, _ => .ok t
  | [], some e => .error e
  | [], none => .ok ⟨.streamEnd, .start, .start⟩

def drop (ts : Tokens) : Tokens :=
  { ts with served := ts.served.tail }

def count (ts : Tokens) : Nat :=
  ts.served.length

theorem count_drop_le (ts : Tokens) : ts.drop.count ≤ ts.count := by
  simp [drop, count]

theorem count_drop {ts : Tokens} {t : Token} (h : ts.peek = .ok t) (hk : t.kind ≠ .streamEnd) :
    ts.drop.count + 1 = ts.count := by
  obtain ⟨served, error⟩ := ts
  cases served with
  | cons a r => simp [drop, count]
  | nil =>
    cases error with
    | some e => simp [peek] at h
    | none =>
      simp only [peek, Except.ok.injEq] at h
      exact absurd (by rw [← h]) hk

end Tokens

abbrev Handles := List (List Char × Octets)

def Handles.standard : Handles :=
  [(['!'], Octets.ofText "!"), (['!', '!'], Octets.ofText "tag:yaml.org,2002:")]

def Handles.resolve? (handles : Handles) (handle : List Char) (suffix : Octets) : Option Octets :=
  if handle.isEmpty then some suffix
  else (handles.lookup handle).map (· ++ suffix)

/-- What is still to be read. `opened` is the place where the collection starts. In a node a block collection may
start if `block` is set, and a sequence at the column of the mapping around it if `indentless` is. -/
inductive Goal where
  | node (block indentless : Bool)
  | blockSequence (opened : Mark)
  | indentlessSequence
  | blockKey (opened : Mark)
  | blockValue (opened : Mark)
  | flowSequence (first : Bool) (opened : Mark)
  | pairKey
  | pairValue
  | pairEnd
  | flowKey (first : Bool) (opened : Mark)
  | flowValue (opened : Mark)
  | flowNoValue (opened : Mark)
  deriving DecidableEq, Repr

namespace Goal

abbrev Outcome := Except SyntaxError (List Event × List Goal × Tokens)

structure Properties where
  anchor : Option (List Char) := none
  tag : Option (List Char × Octets × Mark) := none
  start : Mark
  tokens : Tokens

def properties (ts : Tokens) : Except SyntaxError Properties :=
  match ts.peek with
  | .error e => .error e
  | .ok t =>
    match t.kind with
    | .anchor name =>
      match ts.drop.peek with
      | .error e => .error e
      | .ok u =>
        match u.kind with
        | .tag handle suffix => .ok ⟨some name, some (handle, suffix, u.start), t.start, ts.drop.drop⟩
        | _ => .ok ⟨some name, none, t.start, ts.drop⟩
    | .tag handle suffix =>
      match ts.drop.peek with
      | .error e => .error e
      | .ok u =>
        match u.kind with
        | .anchor name => .ok ⟨some name, some (handle, suffix, t.start), t.start, ts.drop.drop⟩
        | _ => .ok ⟨none, some (handle, suffix, t.start), t.start, ts.drop⟩
    | _ => .ok ⟨none, none, t.start, ts⟩

def Properties.resolve (handles : Handles) (p : Properties) : Except SyntaxError (Option Octets) :=
  match p.tag with
  | none => .ok none
  | some (handle, suffix, mark) =>
    match handles.resolve? handle suffix with
    | some tag => .ok (some tag)
    | none => .error ⟨.undefinedTagHandle, mark, some (.node, p.start)⟩

def content (block indentless : Bool) (p : Properties) (tag : Option Octets) : Outcome :=
  match p.tokens.peek with
  | .error e => .error e
  | .ok t =>
    match t.kind with
    | .scalar text style =>
      .ok ([⟨.scalar p.anchor tag text style, p.start⟩], [], p.tokens.drop)
    | .flowSequenceStart =>
      .ok ([⟨.sequenceStart p.anchor tag, p.start⟩], [.flowSequence true t.start], p.tokens.drop)
    | .flowMappingStart =>
      .ok ([⟨.mappingStart p.anchor tag, p.start⟩], [.flowKey true t.start], p.tokens.drop)
    | kind =>
      if kind = .blockEntry ∧ indentless then
        .ok ([⟨.sequenceStart p.anchor tag, p.start⟩], [.indentlessSequence], p.tokens)
      else if kind = .blockSequenceStart ∧ block then
        .ok ([⟨.sequenceStart p.anchor tag, p.start⟩], [.blockSequence t.start], p.tokens.drop)
      else if kind = .blockMappingStart ∧ block then
        .ok ([⟨.mappingStart p.anchor tag, p.start⟩], [.blockKey t.start], p.tokens.drop)
      else if p.anchor.isSome ∨ p.tag.isSome then
        .ok ([⟨.scalar p.anchor tag [] .plain, p.start⟩], [], p.tokens)
      else
        let activity := if block then Activity.blockNode else .flowNode
        .error ⟨.nodeContent, t.start, some (activity, p.start)⟩

def nodeStep (handles : Handles) (block indentless : Bool) (ts : Tokens) : Outcome :=
  match ts.peek with
  | .error e => .error e
  | .ok t =>
    match t.kind with
    | .alias name => .ok ([⟨.alias name, t.start⟩], [], ts.drop)
    | _ =>
      match properties ts with
      | .error e => .error e
      | .ok p =>
        match p.tokens.peek with
        | .error e => .error e
        | .ok _ =>
          match p.resolve handles with
          | .error e => .error e
          | .ok tag => content block indentless p tag

def orEmpty (ends : Token.Kind → Bool) (node : Goal) (goals : List Goal) (ts : Tokens) (m : Mark) :
    Outcome :=
  match ts.peek with
  | .error e => .error e
  | .ok t => if ends t.kind then .ok ([.empty m], goals, ts) else .ok ([], node :: goals, ts)

def endsEntry (kind : Token.Kind) : Bool :=
  kind = .blockEntry || kind = .blockEnd

def endsIndentlessEntry (kind : Token.Kind) : Bool :=
  kind = .blockEntry || kind = .key || kind = .value || kind = .blockEnd

def endsBlockPart (kind : Token.Kind) : Bool :=
  kind = .key || kind = .value || kind = .blockEnd

def endsFlowPart (close : Token.Kind) (kind : Token.Kind) : Bool :=
  kind = .flowEntry || kind = close

def flowSequenceEntry (opened : Mark) (t : Token) (ts : Tokens) : Outcome :=
  if t.kind = .key then
    .ok ([⟨.mappingStart none none, t.start⟩], [.pairKey, .flowSequence false opened], ts.drop)
  else if t.kind = .flowSequenceEnd then .ok ([⟨.sequenceEnd, t.start⟩], [], ts.drop)
  else .ok ([], [.node false false, .flowSequence false opened], ts)

def flowMappingEntry (opened : Mark) (t : Token) (ts : Tokens) : Outcome :=
  if t.kind = .key then
    match ts.drop.peek with
    | .error e => .error e
    | .ok u =>
      if u.kind = .value ∨ endsFlowPart .flowMappingEnd u.kind then
        .ok ([.empty u.start], [.flowValue opened], ts.drop)
      else .ok ([], [.node false false, .flowValue opened], ts.drop)
  else if t.kind = .flowMappingEnd then .ok ([⟨.mappingEnd, t.start⟩], [], ts.drop)
  else .ok ([], [.node false false, .flowNoValue opened], ts)

def step (handles : Handles) (goal : Goal) (ts : Tokens) : Outcome :=
  match goal with
  | .node block indentless => nodeStep handles block indentless ts
  | goal =>
    match ts.peek with
    | .error e => .error e
    | .ok t =>
      match goal with
      | .node .. => .ok ([], [], ts)
      | .blockSequence opened =>
        if t.kind = .blockEntry then
          orEmpty endsEntry (.node true false) [.blockSequence opened] ts.drop t.stop
        else if t.kind = .blockEnd then .ok ([⟨.sequenceEnd, t.start⟩], [], ts.drop)
        else .error ⟨.blockIndicator, t.start, some (.blockCollection, opened)⟩
      | .indentlessSequence =>
        if t.kind = .blockEntry then
          orEmpty endsIndentlessEntry (.node true false) [.indentlessSequence] ts.drop t.stop
        else .ok ([⟨.sequenceEnd, t.start⟩], [], ts)
      | .blockKey opened =>
        if t.kind = .key then
          orEmpty endsBlockPart (.node true true) [.blockValue opened] ts.drop t.stop
        else if t.kind = .blockEnd then .ok ([⟨.mappingEnd, t.start⟩], [], ts.drop)
        else .error ⟨.mappingKey, t.start, some (.blockMapping, opened)⟩
      | .blockValue opened =>
        if t.kind = .value then
          orEmpty endsBlockPart (.node true true) [.blockKey opened] ts.drop t.stop
        else .ok ([.empty t.start], [.blockKey opened], ts)
      | .flowSequence first opened =>
        if first ∨ t.kind = .flowSequenceEnd then flowSequenceEntry opened t ts
        else if t.kind = .flowEntry then
          match ts.drop.peek with
          | .error e => .error e
          | .ok u => flowSequenceEntry opened u ts.drop
        else .error ⟨.flowSequenceEnd, t.start, some (.flowSequence, opened)⟩
      | .pairKey =>
        if t.kind = .value ∨ endsFlowPart .flowSequenceEnd t.kind then
          .ok ([.empty t.stop], [.pairValue], ts.drop)
        else .ok ([], [.node false false, .pairValue], ts)
      | .pairValue =>
        if t.kind = .value then
          match ts.drop.peek with
          | .error e => .error e
          | .ok u =>
            if endsFlowPart .flowSequenceEnd u.kind then .ok ([.empty u.start], [.pairEnd], ts.drop)
            else .ok ([], [.node false false, .pairEnd], ts.drop)
        else .ok ([.empty t.start], [.pairEnd], ts)
      | .pairEnd => .ok ([⟨.mappingEnd, t.start⟩], [], ts)
      | .flowKey first opened =>
        if first ∨ t.kind = .flowMappingEnd then flowMappingEntry opened t ts
        else if t.kind = .flowEntry then
          match ts.drop.peek with
          | .error e => .error e
          | .ok u => flowMappingEntry opened u ts.drop
        else .error ⟨.flowMappingEnd, t.start, some (.flowMapping, opened)⟩
      | .flowValue opened =>
        if t.kind = .value then
          match ts.drop.peek with
          | .error e => .error e
          | .ok u =>
            if endsFlowPart .flowMappingEnd u.kind then
              .ok ([.empty u.start], [.flowKey false opened], ts.drop)
            else .ok ([], [.node false false, .flowKey false opened], ts.drop)
        else .ok ([.empty t.start], [.flowKey false opened], ts)
      | .flowNoValue opened => .ok ([.empty t.start], [.flowKey false opened], ts)

end Goal

end BraceParams.Yaml
