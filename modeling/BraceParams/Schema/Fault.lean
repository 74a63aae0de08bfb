import BraceParams.Number.Text
import BraceParams.Param
import BraceParams.Text.Quoted
import BraceParams.Yaml.Node
import BraceParams.Yaml.Value

namespace BraceParams.Schema

open Yaml

inductive Path where
  | root
  | item (parent : Path) (index : Nat)
  | field (parent : Path) (key : List Char)
  | unknown (parent : Path)
  deriving DecidableEq, Repr

namespace Path

def lead : Path → List Char → List Char
  | root, _ => []
  | _, text => text ++ ['.']

def text : Path → List Char
  | root => ['.']
  | item parent index => parent.text ++ '[' :: Number.digitsText index ++ [']']
  | field parent key => parent.lead parent.text ++ key
  | unknown parent => parent.lead parent.text ++ ['?']

end Path

inductive Found where
  | scalar (s : Scalar) (text : List Char)
  | sequence
  | map
  | null
  | tagged
  deriving DecidableEq, Repr

namespace Found

def scalarText (text : List Char) : Scalar → List Char
  | .null => "unit value".toList
  | .boolean true => "boolean `true`".toList
  | .boolean false => "boolean `false`".toList
  | .integer n => "integer `".toList ++ Number.integerText n ++ ['`']
  | .wideUnsigned n => "integer `".toList ++ Number.digitsText n ++ "` as u128".toList
  | .wideSigned n => "integer `".toList ++ Number.integerText n ++ "` as i128".toList
  | .float x => "floating point `".toList ++ Number.Layout.message.text x ++ ['`']
  | .text => "string ".toList ++ Text.quoted text

def text : Found → List Char
  | scalar s text => scalarText text s
  | sequence => "sequence".toList
  | map => "map".toList
  | null => "null".toList
  | tagged => "tagged value".toList

end Found

inductive Expected where
  | boolean
  | integer
  | float
  | null
  | string
  | sequence
  | fieldName
  | anyValue
  | scalarValue
  | entry
  | rawDocument
  | document
  deriving DecidableEq, Repr

def Expected.text : Expected → String
  | boolean => "a boolean"
  | integer => "an integer"
  | float => "a float"
  | null => "null"
  | string => "a string"
  | sequence => "a sequence"
  | fieldName => "field identifier"
  | anyValue => "any YAML value"
  | scalarValue => "a scalar value"
  | entry => "struct RawQueryConfig"
  | rawDocument => "struct RawParamsConfig"
  | document => "struct ParamsConfig"

inductive Cause where
  | invalidType (found : Found) (expected : Expected)
  | invalidValue (text : List Char) (expected : Expected)
  | unknownField (name : List Char) (known : List String)
  | missingField (name : String)
  | duplicateField (name : String)
  | duplicateKey (key : Value)
  | entry (e : EntryError)
  deriving Repr

namespace Cause

def knownText : List String → List Char
  | [] => []
  | [name] => '`' :: name.toList ++ ['`']
  | [name, other] => '`' :: name.toList ++ "` or `".toList ++ other.toList ++ ['`']
  | names =>
    "one of ".toList ++
      ((names.map fun name => '`' :: name.toList ++ ['`']).intersperse [',', ' ']).flatten

def keyText : Value → List Char
  | .null => "with null key".toList
  | .boolean b => "with key `".toList ++ (if b then "true" else "false").toList ++ ['`']
  | .integer n => "with key ".toList ++ Number.integerText n
  | .float x => "with key ".toList ++ Number.Layout.value.text x
  | .string s => "with key ".toList ++ Text.quoted s
  | _ => "in YAML map".toList

def text : Cause → List Char
  | invalidType found expected =>
    "invalid type: ".toList ++ found.text ++ ", expected ".toList ++ expected.text.toList
  | invalidValue text expected =>
    "invalid value: string ".toList ++ Text.quoted text ++ ", expected ".toList ++
      expected.text.toList
  | unknownField name known =>
    "unknown field `".toList ++ name ++ "`, expected ".toList ++ knownText known
  | missingField name => "missing field `".toList ++ name.toList ++ ['`']
  | duplicateField name => "duplicate field `".toList ++ name.toList ++ ['`']
  | duplicateKey key => "duplicate entry ".toList ++ keyText key
  | entry e => e.message.toList

end Cause

inductive Fault where
  | data (cause : Cause) (place : Option (Mark × Path))
  | broken (b : Break)
  | recursionLimit (mark : Mark)
  | repetitionLimit
  | moreDocuments
  | endOfText
  deriving Repr

def lineColumnText (m : Mark) : List Char :=
  "line ".toList ++ Number.digitsText (m.line + 1) ++ " column ".toList ++
    Number.digitsText (m.column + 1)

def atText (m : Mark) : List Char :=
  if m = .start then [] else " at ".toList ++ lineColumnText m

def placeText (e : SyntaxError) : List Char :=
  match e.problem with
  | .forbiddenCharacter offset =>
    if offset = 0 then [] else " at position ".toList ++ Number.digitsText offset
  | _ => atText e.mark

def syntaxText (e : SyntaxError) : List Char :=
  e.problem.text.toList ++ placeText e ++
    match e.context with
    | none => []
    | some (activity, start) =>
      ", ".toList ++ activity.text.toList ++ if start = e.mark then [] else atText start

namespace Fault

def text : Fault → List Char
  | data cause none => cause.text
  | data cause (some (mark, .root)) => cause.text ++ atText mark
  | data cause (some (mark, path)) => path.text ++ ": ".toList ++ cause.text ++ atText mark
  | broken (.syntaxError e) => syntaxText e
  | broken (.unknownAnchor mark) => "unknown anchor".toList ++ atText mark
  | recursionLimit mark => "recursion limit exceeded".toList ++ atText mark
  | repetitionLimit => "repetition limit exceeded".toList
  | moreDocuments =>
    "deserializing from YAML containing more than one document is not supported".toList
  | endOfText => "EOF while parsing a value".toList

def mark : Fault → Mark
  | data _ (some (mark, _)) => mark
  | broken (.syntaxError e) => e.mark
  | broken (.unknownAnchor mark) => mark
  | recursionLimit mark => mark
  | _ => .start

end Fault

end BraceParams.Schema
