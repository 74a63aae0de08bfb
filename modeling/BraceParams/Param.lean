import BraceParams.Pattern.Expand

namespace BraceParams

structure Query where
  name : String
  value : String
  deriving DecidableEq, Hashable, Repr

def Query.text (q : Query) : String :=
  q.name ++ "=" ++ q.value

inductive Source where
  | single (value : String)
  | list (values : List String)
  | pattern (text : String)
  deriving DecidableEq, Hashable, Repr

namespace Source

def values : Source → List String
  | single value => [value]
  | list values => values
  | pattern text => (Pattern.expand text.toList).map String.ofList

def isPattern : Source → Bool
  | pattern _ => true
  | _ => false

def text : Source → String
  | single value => "value=" ++ value
  | list values => "values=[" ++ ", ".intercalate values ++ "]"
  | pattern text => "expand=" ++ text

end Source

inductive EntryError where
  | missingValue (name : String)
  | missingPattern (name : String)
  deriving DecidableEq, Repr

namespace EntryError

def name : EntryError → String
  | missingValue name => name
  | missingPattern name => name

def message : EntryError → String
  | missingValue name =>
    "value or values must be specified to 'params' (param '" ++ name ++ "')"
  | missingPattern name =>
    "value must be specified to 'params' when expand is true (param '" ++ name ++ "')"

end EntryError

structure Param where
  name : String
  source : Source
  deriving DecidableEq, Hashable, Repr

namespace Param

def queries (p : Param) : List Query :=
  p.source.values.map fun value => ⟨p.name, value⟩

def text (p : Param) : String :=
  "QueryConfig[" ++ p.name ++ ", " ++ p.source.text ++ "]"

end Param

structure Entry where
  name : String
  value : Option String := none
  values : Option (List String) := none
  expand : Bool := false
  deriving DecidableEq, Repr

namespace Entry

def source (e : Entry) : Except EntryError Source :=
  match e.expand, e.value, e.values with
  | false, _, some values => .ok (.list values)
  | false, some value, none => .ok (.single value)
  | false, none, none => .error (.missingValue e.name)
  | true, some text, _ => .ok (.pattern text)
  | true, none, _ => .error (.missingPattern e.name)

def toParam (e : Entry) : Except EntryError Param :=
  e.source.map fun source => ⟨e.name, source⟩

def generate (e : Entry) : Except EntryError (List Query) :=
  e.toParam.map Param.queries

end Entry

def Param.toEntry (p : Param) : Entry :=
  match p.source with
  | .single value => { name := p.name, value := some value }
  | .list values => { name := p.name, values := some values }
  | .pattern text => { name := p.name, value := some text, expand := true }

@[simp]
theorem Param.toParam_toEntry (p : Param) : p.toEntry.toParam = .ok p := by
  obtain ⟨name, source⟩ := p
  cases source <;> rfl

structure Document where
  params : List Param := []
  deriving DecidableEq, Repr

namespace Document

def queries (d : Document) : List Query :=
  d.params.flatMap Param.queries

def isEmpty (d : Document) : Bool :=
  d.params.isEmpty

end Document

end BraceParams
