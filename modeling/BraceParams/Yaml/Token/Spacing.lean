import BraceParams.Yaml.Mark

namespace BraceParams.Yaml

/-- What was read since the last character that is neither gap nor break, in reverse order. An escaped
line break has no first break. -/
inductive Spacing where
  | gaps (text : List Char)
  | breaks (first : Option Char) (more : List Char)
  deriving DecidableEq, Repr

namespace Spacing

def none : Spacing := gaps []

def isNone : Spacing → Bool
  | gaps [] => true
  | _ => false

def hasBreak : Spacing → Bool
  | gaps _ => false
  | breaks .. => true

def fold : Spacing → List Char
  | gaps text => text
  | breaks (some '\n') [] => [' ']
  | breaks (some '\n') more => more
  | breaks first more => more ++ first.toList

def pushGap (c : Char) : Spacing → Spacing
  | gaps text => gaps (c :: text)
  | breaks first more => breaks first more

def pushBreak (c : Char) : Spacing → Spacing
  | gaps _ => breaks (some c) []
  | breaks first more => breaks first (c :: more)

end Spacing

end BraceParams.Yaml
