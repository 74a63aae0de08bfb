import BraceParams.Schema.Fault

/-!
Reading nodes as scalars, lists and values of any shape. A reader counts the aliases that it follows,
and every fault gets the place of the innermost node around it.
-/

namespace BraceParams.Schema

open Yaml

/-- The state is the number of aliases followed so far. -/
abbrev Reader (α : Type) := StateT Nat (Except Fault) α

def maxDepth : Nat := 128

def maxRepetition : Nat := 100

def fail {α : Type} (cause : Cause) : Reader α :=
  throw (.data cause none)

def breakFault (t : Tree) : Fault :=
  match t.error with
  | some b => .broken b
  | none => .endOfText

def Fault.placed (mark : Mark) (path : Path) : Fault → Fault
  | .data cause none => .data cause (some (mark, path))
  | fault => fault

def placed {α : Type} (mark : Mark) (path : Path) (r : Reader α) : Reader α := fun jumps =>
  match r jumps with
  | .error fault => .error (fault.placed mark path)
  | .ok result => .ok result

def follow (t : Tree) : Node → Reader Node
  | .alias _ number => do
    let jumps ← get
    if maxRepetition * t.size < jumps + 1 then throw .repetitionLimit
    else
      set (jumps + 1)
      pure ((t.anchors.node? number).getD .cut)
  | node => pure node

def deeper {α : Type} (mark : Mark) (depth : Nat) (r : Nat → Reader α) : Reader α :=
  match depth with
  | 0 => throw (.recursionLimit mark)
  | depth + 1 => r depth

def booleanTag : Octets := Octets.ofText "tag:yaml.org,2002:bool"

def integerTag : Octets := Octets.ofText "tag:yaml.org,2002:int"

def floatTag : Octets := Octets.ofText "tag:yaml.org,2002:float"

def nullTag : Octets := Octets.ofText "tag:yaml.org,2002:null"

def isLocal (tag : Octets) : Bool :=
  tag.head? == some 33

def localName? : Option Octets → Option Octets
  | some tag =>
    if isLocal tag ∧ (String.fromUTF8? ⟨tag.toArray⟩).isSome then some (Octets.unmarked tag) else none
  | none => none

def scalarOf (tag : Option Octets) (text : List Char) (style : Style) : Except Cause Scalar :=
  match tag with
  | none => .ok (if style = .plain then .ofPlain text else .text)
  | some tag =>
    if tag = booleanTag then
      match Scalar.boolean? text with
      | some b => .ok (.boolean b)
      | none => .error (.invalidValue text .boolean)
    else if tag = integerTag then
      match Scalar.integer? text with
      | some s => .ok s
      | none => .error (.invalidValue text .integer)
    else if tag = floatTag then
      match Scalar.float? text with
      | some x => .ok (.float x)
      | none => .error (.invalidValue text .float)
    else if tag = nullTag then
      if Scalar.isNull text then .ok .null else .error (.invalidValue text .null)
    else .ok (if isLocal tag ∧ style = .plain then .ofPlain text else .text)

def mismatch {α : Type} (t : Tree) (expected : Expected) : Node → Reader α
  | .scalar _ tag text style =>
    match scalarOf tag text style with
    | .ok s => fail (.invalidType (.scalar s text) expected)
    | .error cause => fail cause
  | .sequence .. => fail (.invalidType .sequence expected)
  | .mapping .. => fail (.invalidType .map expected)
  | .nothing _ => throw .endOfText
  | .alias .. => throw .endOfText
  | .cut => throw (breakFault t)

def nodeMark : Node → Mark
  | .scalar mark .. => mark
  | .sequence mark .. => mark
  | .mapping mark .. => mark
  | .alias mark _ => mark
  | .nothing mark => mark
  | .cut => .start

def reading {α : Type} (t : Tree) (path : Path) (node : Node) (r : Node → Reader α) : Reader α := do
  let node ← follow t node
  placed (nodeMark node) path (r node)

def readText (t : Tree) (expected : Expected) (path : Path) (node : Node) : Reader (List Char) :=
  reading t path node fun
    | .scalar _ _ text _ => pure text
    | node => mismatch t expected node

def readBoolean (t : Tree) (path : Path) (node : Node) : Reader Bool :=
  reading t path node fun
    | .scalar mark tag text style =>
      match Scalar.boolean? text with
      | some b =>
        if style = .plain ∨ (style = .literal ∧ tag = some booleanTag) then pure b
        else mismatch t .boolean (.scalar mark tag text style)
      | none => mismatch t .boolean (.scalar mark tag text style)
    | node => mismatch t .boolean node

def readOption {α : Type} (t : Tree) (path : Path) (node : Node) (r : Path → Node → Reader α) :
    Reader (Option α) := do
  let node ← follow t node
  match node with
  | .scalar _ tag text .plain =>
    match tag with
    | none => if text.isEmpty || Scalar.isNull text then pure none else some <$> r path node
    | some tag =>
      if tag = nullTag then
        if Scalar.isNull text then pure none else fail (.invalidValue text .null)
      else some <$> r path node
  | .nothing _ => pure none
  | .cut => throw (breakFault t)
  | node => some <$> r path node

def isUnwritten : Node → Bool
  | .scalar _ _ text style => text.isEmpty && style = .plain
  | .nothing _ => true
  | _ => false

def readList {α : Type} (t : Tree) (depth : Nat) (path : Path) (node : Node)
    (r : Nat → Path → Node → Reader α) : Reader (List α) :=
  reading t path node fun node =>
    match node with
    | .sequence mark _ items =>
      deeper mark depth fun depth =>
        items.zipIdx.mapM fun (item, index) => r depth (path.item index) item
    | node => if isUnwritten node then pure [] else mismatch t .sequence node

def Path.ofKey (path : Path) : Node → Path
  | .scalar _ _ text _ => path.field text
  | _ => path.unknown

def readRecord {α : Type} (t : Tree) (depth : Nat) (path : Path) (node : Node) (expected : Expected)
    (known : List String) (record : α) (has : α → String → Bool)
    (field : Nat → Path → String → Node → α → Reader α) (finish : α → Reader β) : Reader β :=
  reading t path node fun node =>
    match node with
    | .mapping mark _ entries =>
      deeper mark depth fun depth => do
        let record ← entries.foldlM (fun record (key, value) => do
          let name ← reading t path key fun key => do
            let name ← readText t .fieldName path key
            match known.find? (·.toList = name) with
            | some name => pure name
            | none => fail (.unknownField name known)
          if has record name then fail (.duplicateField name)
          else field depth (path.ofKey key) name value record) record
        finish record
    | node => if isUnwritten node then finish record else mismatch t expected node

def valueOfScalar (text : List Char) : Scalar → Except Cause Value
  | .null => .ok .null
  | .boolean b => .ok (.boolean b)
  | .integer n => .ok (.integer n)
  | .float x => .ok (.float x)
  | .text => .ok (.string text)
  | wide => .error (.invalidType (.scalar wide text) .anyValue)

def liftCause {α : Type} : Except Cause α → Reader α
  | .ok a => pure a
  | .error cause => fail cause

def withTag (tag : Option Octets) (value : Value) : Value :=
  match localName? tag with
  | some name => .tagged name value
  | none => value

def readValue (t : Tree) (depth : Nat) (path : Path) (node : Node) : Reader Value :=
  reading t path node fun
    | .scalar _ tag text style => do
      let s ← liftCause <|
        if (localName? tag).isSome then .ok (if style = .plain then .ofPlain text else .text)
        else scalarOf tag text style
      withTag tag <$> liftCause (valueOfScalar text s)
    | .sequence mark tag items =>
      match depth with
      | 0 => throw (.recursionLimit mark)
      | depth + 1 => do
        let items ← items.zipIdx.mapM fun (item, index) => readValue t depth (path.item index) item
        pure (withTag tag (.sequence items))
    | .mapping mark tag entries =>
      match depth with
      | 0 => throw (.recursionLimit mark)
      | depth + 1 => do
        let entries ← entries.foldlM (fun (read : List (Value × Value)) (key, value) => do
          let k ← readValue t depth path key
          match read.find? (·.1.same k) with
          | some (k, _) => fail (.duplicateKey k)
          | none =>
            let v ← readValue t depth (path.ofKey key) value
            pure (read ++ [(k, v)])) []
        pure (withTag tag (.mapping entries))
    | .nothing _ => pure .null
    | .alias .. => throw .endOfText
    | .cut => throw (breakFault t)

end BraceParams.Schema
