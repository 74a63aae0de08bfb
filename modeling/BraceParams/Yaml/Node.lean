import BraceParams.Yaml.Grammar.Document

/-!
A document as a tree of nodes. Where the text breaks off, the tree ends in `cut`. An alias holds the
number of its anchor, and the tree knows the node of each number. A new anchor is numbered with the
number of names known before it, so a name that is given again may share its number with a later one;
the later one then counts.
-/

namespace BraceParams.Yaml

inductive Node where
  | scalar (mark : Mark) (tag : Option Octets) (text : List Char) (style : Style)
  | sequence (mark : Mark) (tag : Option Octets) (items : List Node)
  | mapping (mark : Mark) (tag : Option Octets) (entries : List (Node × Node))
  | alias (mark : Mark) (anchor : Nat)
  | nothing (mark : Mark)
  | cut
  deriving Inhabited, Repr

inductive Break where
  | syntaxError (e : SyntaxError)
  | unknownAnchor (mark : Mark)
  deriving DecidableEq, Repr

structure Anchors where
  names : List (List Char × Nat) := []
  starts : List (Nat × Nat) := []
  nodes : List (Nat × Node) := []
  deriving Repr

namespace Anchors

def define (a : Anchors) (name : List Char) (index : Nat) : Anchors :=
  let number := a.names.length
  { a with
    names := (name, number) :: a.names.filter (·.1 ≠ name)
    starts := (number, index) :: a.starts }

def define? (a : Anchors) (name : Option (List Char)) (index : Nat) : Anchors :=
  match name with
  | none => a
  | some name => a.define name index

def node? (a : Anchors) (number : Nat) : Option Node :=
  (a.starts.lookup number).bind fun index => a.nodes.lookup index

end Anchors

namespace Node

/-- A collection of which the end is not read yet. Its nodes are in reverse order; those of a mapping
are keys and values in turn. -/
structure Open where
  mark : Mark
  tag : Option Octets
  isMapping : Bool
  index : Option Nat
  nodes : List Node

def pairs : List Node → List (Node × Node)
  | [] => []
  | [key] => [(key, cut)]
  | key :: value :: rest => (key, value) :: pairs rest

def Open.close (o : Open) : Node :=
  if o.isMapping then .mapping o.mark o.tag (pairs o.nodes.reverse)
  else .sequence o.mark o.tag o.nodes.reverse

structure Builder where
  stack : List Open := []
  root : Option Node := none
  anchors : Anchors := {}
  count : Nat := 0

namespace Builder

def put (b : Builder) (index : Option Nat) (node : Node) : Builder :=
  let anchors := match index with
    | none => b.anchors
    | some index => { b.anchors with nodes := (index, node) :: b.anchors.nodes }
  match b.stack with
  | [] => { b with root := some node, anchors }
  | o :: stack => { b with stack := { o with nodes := node :: o.nodes } :: stack, anchors }

def open' (b : Builder) (isMapping : Bool) (anchor : Option (List Char)) (tag : Option Octets)
    (mark : Mark) : Builder :=
  { b with
    stack := ⟨mark, tag, isMapping, anchor.map fun _ => b.count, []⟩ :: b.stack
    anchors := b.anchors.define? anchor b.count
    count := b.count + 1 }

def close (b : Builder) : Builder :=
  match b.stack with
  | [] => b
  | o :: stack => { b with stack }.put o.index o.close

def readFrom (b : Builder) : List Event → Builder × Option Break
  | [] => (b, none)
  | e :: rest =>
    match e.kind with
    | .alias name =>
      match b.anchors.names.lookup name with
      | some number => ({ b with count := b.count + 1 }.put none (.alias e.mark number)).readFrom rest
      | none => (b, some (.unknownAnchor e.mark))
    | .scalar anchor tag text style =>
      let index := anchor.map fun _ => b.count
      let b := { b with anchors := b.anchors.define? anchor b.count, count := b.count + 1 }
      (b.put index (.scalar e.mark tag text style)).readFrom rest
    | .sequenceStart anchor tag => (b.open' false anchor tag e.mark).readFrom rest
    | .mappingStart anchor tag => (b.open' true anchor tag e.mark).readFrom rest
    | .sequenceEnd => { b with count := b.count + 1 }.close.readFrom rest
    | .mappingEnd => { b with count := b.count + 1 }.close.readFrom rest
    | .nothing => ({ b with count := b.count + 1 }.put none (.nothing e.mark)).readFrom rest

def finish (b : Builder) : Builder :=
  if b.stack.isEmpty && b.root.isSome then b
  else Nat.repeat close b.stack.length (b.put none .cut)

end Builder

end Node

structure Tree where
  root : Node
  anchors : Anchors
  size : Nat
  error : Option Break
  more : Bool
  deriving Repr

namespace Tree

def ofEvents (events : Events) : Tree :=
  let (b, unknown) := ({} : Node.Builder).readFrom events.list
  let b := b.finish
  { root := b.root.getD .cut, anchors := b.anchors, size := b.count
    error := unknown <|> events.error.map .syntaxError, more := events.more }

end Tree

end BraceParams.Yaml
