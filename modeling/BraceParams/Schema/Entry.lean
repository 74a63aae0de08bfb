import BraceParams.Schema.Reader

namespace BraceParams.Schema

open Yaml

def textOf : Value → Except Cause String
  | .string s => .ok (String.ofList s)
  | .integer n => .ok (String.ofList (Number.integerText n))
  | .float x => .ok (String.ofList (Number.Layout.value.text x))
  | .boolean true => .ok "true"
  | .boolean false => .ok "false"
  | .null => .error (.invalidType .null .scalarValue)
  | .sequence _ => .error (.invalidType .sequence .scalarValue)
  | .mapping _ => .error (.invalidType .map .scalarValue)
  | .tagged .. => .error (.invalidType .tagged .scalarValue)

structure Draft where
  name : Option String := none
  value : Option (Option String) := none
  values : Option (Option (List String)) := none
  expand : Option Bool := none

namespace Draft

def fields : List String := ["name", "value", "values", "expand"]

def has (d : Draft) (field : String) : Bool :=
  if field = "name" then d.name.isSome
  else if field = "value" then d.value.isSome
  else if field = "values" then d.values.isSome
  else d.expand.isSome

def readField (t : Tree) (depth : Nat) (path : Path) (field : String) (node : Node) (d : Draft) :
    Reader Draft := do
  if field = "name" then
    let name ← readText t .string path node
    pure { d with name := some (String.ofList name) }
  else if field = "value" then
    let value ← readOption t path node (readValue t depth)
    let text ← liftCause (value.mapM textOf)
    pure { d with value := some text }
  else if field = "values" then
    let values ← readOption t path node fun path node => readList t depth path node (readValue t)
    let texts ← liftCause (values.mapM (·.mapM textOf))
    pure { d with values := some texts }
  else
    let expand ← readBoolean t path node
    pure { d with expand := some expand }

def finish (d : Draft) : Reader Entry :=
  match d.name with
  | none => fail (.missingField "name")
  | some name =>
    pure ⟨name, d.value.join, d.values.join, d.expand.getD false⟩

end Draft

def readEntry (t : Tree) (depth : Nat) (path : Path) (node : Node) : Reader Entry :=
  readRecord t depth path node .entry Draft.fields {} Draft.has (Draft.readField t) Draft.finish

def readParam (t : Tree) (depth : Nat) (path : Path) (node : Node) : Reader Param := do
  let entry ← readEntry t depth path node
  match entry.toParam with
  | .ok param => pure param
  | .error e => fail (.entry e)

def readItems {α : Type} (t : Tree) (expected : Expected) (r : Nat → Path → Node → Reader α) :
    Reader (List α) :=
  readRecord t maxDepth .root t.root expected ["params"] (none : Option (List α))
    (fun items _ => items.isSome)
    (fun depth path _ node _ => some <$> readList t depth path node r)
    (fun items => pure (items.getD []))

def readEntries (t : Tree) : Reader (List Entry) :=
  readItems t .rawDocument (readEntry t)

def readDocument (t : Tree) : Reader Document := do
  let params ← readItems t .document (readParam t)
  pure ⟨params⟩

/-- Reads a text that holds one document. What is wrong in the part that could be read is told before
the reason why the rest could not. -/
def read {α : Type} (text : List Char) (r : Tree → Reader α) : Except Fault α :=
  let t := Tree.ofEvents (Events.ofTokens (Tokens.ofText text))
  match r t 0 with
  | .error fault => .error fault
  | .ok (a, _) =>
    match t.error with
    | some b => .error (.broken b)
    | none => if t.more then .error .moreDocuments else .ok a

def readSingle (text : List Char) : Except Fault Param := do
  let entry ← read text fun t => readEntry t maxDepth .root t.root
  entry.toParam.mapError fun e => .data (.entry e) none

end BraceParams.Schema
