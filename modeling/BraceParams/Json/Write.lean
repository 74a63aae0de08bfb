import BraceParams.Param
import BraceParams.Text.Hex
import BraceParams.Text.Search

namespace BraceParams

inductive Json where
  | string (s : List Char)
  | true
  | array (items : List Json)
  | object (members : List (List Char × Json))
  deriving Inhabited, Repr

namespace Json

open Text (hexDigit)

def escapeChar (c : Char) : List Char :=
  if c = '"' then ['\\', '"']
  else if c = '\\' then ['\\', '\\']
  else if c = '\n' then ['\\', 'n']
  else if c = '\r' then ['\\', 'r']
  else if c = '\t' then ['\\', 't']
  else if c = '\x08' then ['\\', 'b']
  else if c = '\x0c' then ['\\', 'f']
  else if c.toNat < 0x20 then
    ['\\', 'u', '0', '0', hexDigit 'a' (c.toNat / 16), hexDigit 'a' (c.toNat % 16)]
  else [c]

def quote (s : List Char) : List Char :=
  '"' :: s.flatMap escapeChar ++ ['"']

mutual

def compact : Json → List Char
  | string s => quote s
  | true => "true".toList
  | array items => '[' :: compactItems items ++ [']']
  | object members => '{' :: compactMembers members ++ ['}']

def compactItems : List Json → List Char
  | [] => []
  | [item] => item.compact
  | item :: rest => item.compact ++ ',' :: compactItems rest

def compactMembers : List (List Char × Json) → List Char
  | [] => []
  | [(key, value)] => quote key ++ ':' :: value.compact
  | (key, value) :: rest => quote key ++ ':' :: value.compact ++ ',' :: compactMembers rest

end

def indentation (depth : Nat) : List Char :=
  '\n' :: List.replicate (2 * depth) ' '

mutual

def pretty (depth : Nat) : Json → List Char
  | string s => quote s
  | true => "true".toList
  | array [] => ['[', ']']
  | array items => '[' :: prettyItems (depth + 1) items ++ indentation depth ++ [']']
  | object [] => ['{', '}']
  | object members => '{' :: prettyMembers (depth + 1) members ++ indentation depth ++ ['}']

def prettyItems (depth : Nat) : List Json → List Char
  | [] => []
  | [item] => indentation depth ++ item.pretty depth
  | item :: rest => indentation depth ++ item.pretty depth ++ ',' :: prettyItems depth rest

def prettyMembers (depth : Nat) : List (List Char × Json) → List Char
  | [] => []
  | [(key, value)] => indentation depth ++ quote key ++ ": ".toList ++ value.pretty depth
  | (key, value) :: rest =>
    indentation depth ++ quote key ++ ": ".toList ++ value.pretty depth ++ ',' ::
      prettyMembers depth rest

end

def ofString (s : String) : Json :=
  .string s.toList

def ofQuery (q : Query) : Json :=
  .object [("name".toList, ofString q.name), ("value".toList, ofString q.value)]

def ofQueries (queries : List Query) : Json :=
  .array (queries.map ofQuery)

def ofEntry (e : Entry) : Json :=
  .object <|
    ("name".toList, ofString e.name) ::
      (e.value.toList.map fun value => ("value".toList, ofString value)) ++
      (e.values.toList.map fun values => ("values".toList, .array (values.map ofString))) ++
      if e.expand then [("expand".toList, .true)] else []

def ofDocument (d : Document) : Json :=
  .object [("params".toList, .array (d.params.map fun p => ofEntry p.toEntry))]

end Json

def Document.toJson (d : Document) : String :=
  String.ofList (Json.ofDocument d).compact

def compactQueries (queries : List Query) : String :=
  String.ofList (Json.ofQueries queries).compact

def prettyQueries (queries : List Query) : String :=
  String.ofList ((Json.ofQueries queries).pretty 0)

end BraceParams
