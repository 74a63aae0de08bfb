import BraceParams.Yaml.Mark

namespace BraceParams.Yaml

inductive Style where
  | plain
  | singleQuoted
  | doubleQuoted
  | literal
  | folded
  deriving DecidableEq, Repr

abbrev Octets := List UInt8

def Octets.ofText (s : String) : Octets :=
  s.toUTF8.toList

namespace Token

inductive Kind where
  | version (major minor : Nat)
  | tagHandle (handle : List Char) (expansion : Octets)
  | documentStart
  | documentEnd
  | streamEnd
  | blockSequenceStart
  | blockMappingStart
  | blockEnd
  | flowSequenceStart
  | flowSequenceEnd
  | flowMappingStart
  | flowMappingEnd
  | blockEntry
  | flowEntry
  | key
  | value
  | alias (name : List Char)
  | anchor (name : List Char)
  | tag (handle : List Char) (suffix : Octets)
  | scalar (text : List Char) (style : Style)
  deriving DecidableEq, Repr

end Token

structure Token where
  kind : Token.Kind
  start : Mark
  stop : Mark
  deriving DecidableEq, Repr

end BraceParams.Yaml
