import BraceParams.Yaml.Problem
import BraceParams.Yaml.Token

namespace BraceParams.Yaml

namespace Event

inductive Kind where
  | alias (name : List Char)
  | scalar (anchor : Option (List Char)) (tag : Option Octets) (text : List Char) (style : Style)
  | sequenceStart (anchor : Option (List Char)) (tag : Option Octets)
  | sequenceEnd
  | mappingStart (anchor : Option (List Char)) (tag : Option Octets)
  | mappingEnd
  | nothing
  deriving DecidableEq, Repr

end Event

structure Event where
  kind : Event.Kind
  mark : Mark
  deriving DecidableEq, Repr

def Event.empty (m : Mark) : Event :=
  ⟨.scalar none none [] .plain, m⟩

structure Events where
  list : List Event
  error : Option SyntaxError := none
  more : Bool := false
  deriving Repr

end BraceParams.Yaml
