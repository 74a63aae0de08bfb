import BraceParams.Yaml.Grammar.Run

namespace BraceParams.Yaml

structure Directives where
  version : Bool := false
  handles : Handles := []

namespace Directives

def add (d : Directives) (t : Token) : Except SyntaxError Directives :=
  match t.kind with
  | .version major minor =>
    if d.version then .error ⟨.duplicateVersion, t.start, none⟩
    else if major = 1 ∧ (minor = 1 ∨ minor = 2) then .ok { d with version := true }
    else .error ⟨.incompatibleVersion, t.start, none⟩
  | .tagHandle handle expansion =>
    if (d.handles.lookup handle).isSome then .error ⟨.duplicateTagHandle, t.start, none⟩
    else .ok { d with handles := d.handles ++ [(handle, expansion)] }
  | _ => .ok d

def isDirective (kind : Token.Kind) : Bool :=
  match kind with
  | .version .. | .tagHandle .. => true
  | _ => false

def read (error : Option SyntaxError) (d : Directives) :
    List Token → Except SyntaxError (Directives × Tokens)
  | [] => .ok (d, ⟨[], error⟩)
  | t :: ts =>
    if isDirective t.kind then
      match d.add t with
      | .error e => .error e
      | .ok d => read error d ts
    else .ok (d, ⟨t :: ts, error⟩)

end Directives

namespace Events

def failed (e : SyntaxError) : Events :=
  { list := [], error := some e }

def hasMore (ts : Tokens) : Bool :=
  match ({ ts with served := ts.served.dropWhile (·.kind = .documentEnd) } : Tokens).peek with
  | .ok t => t.kind ≠ .streamEnd
  | .error _ => true

def close (list : List Event) (ts : Tokens) : Events :=
  match ts.peek with
  | .error e => { list, error := some e }
  | .ok t => { list, more := hasMore (if t.kind = .documentEnd then ts.drop else ts) }

def ofGoals (handles : Handles) (goals : List Goal) (ts : Tokens) : Events :=
  match Goal.run handles [] goals ts with
  | (list, .error e) => { list, error := some e }
  | (list, .ok ts) => close list ts

def explicit (handles : Handles) (ts : Tokens) : Events :=
  match ts.peek with
  | .error e => failed e
  | .ok t =>
    if Directives.isDirective t.kind || t.kind = .documentStart || t.kind = .documentEnd ||
        t.kind = .streamEnd then
      close [.empty t.start] ts
    else ofGoals handles [.node true false] ts

def ofTokens (ts : Tokens) : Events :=
  match ts.peek with
  | .error e => failed e
  | .ok t =>
    if t.kind = .streamEnd then { list := [⟨.nothing, t.start⟩] }
    else if Directives.isDirective t.kind || t.kind = .documentStart then
      match Directives.read ts.error {} ts.served with
      | .error e => failed e
      | .ok (d, ts) =>
        match ts.peek with
        | .error e => failed e
        | .ok t =>
          if t.kind = .documentStart then explicit (d.handles ++ .standard) ts.drop
          else failed ⟨.documentStart, t.start, none⟩
    else ofGoals .standard [.node true false] ts

end Events

end BraceParams.Yaml
