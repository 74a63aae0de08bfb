import BraceParams.Text.Blank
import BraceParams.Text.Search

namespace BraceParams.Report

open Text

def dropPlace (message : List Char) : List Char :=
  match cutLast? " at line ".toList message with
  | some (head, _) => head
  | none => message

def shapes : List (String × String) :=
  [("struct RawQueryConfig", "a param mapping with 'name' and 'value'/'values'"),
   ("struct RawParamsConfig", "a mapping with a 'params' list"),
   ("struct ParamsConfig", "a mapping with a 'params' list")]

def describeShapes (message : List Char) : List Char :=
  shapes.foldl (fun message (name, description) => replace name.toList description.toList message)
    message

def between? (start stop message : List Char) : Option (List Char) := do
  let (_, rest) ← cut? start message
  let (found, _) ← cut? stop rest
  some found

def expectedFields? (message : List Char) : Option (List (List Char)) := do
  let marker := if contains "expected one of ".toList message then "expected one of " else "expected "
  let (_, rest) ← cut? marker.toList message
  some ((split ", ".toList (replace " or ".toList ", ".toList rest)).map (trimBy (· = '`')))

def missingFieldMessage? (message : List Char) : Option (List Char) := do
  let field ← between? "missing field `".toList ['`'] message
  some ("missing required field '".toList ++ field ++ ['\''])

def unknownFieldMessage? (message : List Char) : Option (List Char) := do
  let field ← between? "unknown field `".toList ['`'] message
  let unknown := "unknown field '".toList ++ field ++ ['\'']
  match expectedFields? message with
  | some fields => some (unknown ++ ", expected one of: ".toList ++ join ", ".toList fields)
  | none => some unknown

def invalidTypeMessage? (message : List Char) : Option (List Char) := do
  let found ← between? "invalid type: ".toList [','] message
  let (_, expected) ← cut? ", expected ".toList message
  some ("expected ".toList ++ expected ++ ", but found ".toList ++ found)

def reword (raw : List Char) : List Char :=
  let message := describeShapes (dropPlace raw)
  (missingFieldMessage? message <|> unknownFieldMessage? message <|>
    invalidTypeMessage? message).getD message

end BraceParams.Report
