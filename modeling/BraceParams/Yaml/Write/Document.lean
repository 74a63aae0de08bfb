import BraceParams.Param
import BraceParams.Yaml.Write.Scalar

namespace BraceParams.Yaml.Write

def scalarIndent : Nat := 4

def fieldLine (key : String) (value : String) : List Char :=
  key.toList ++ ": ".toList ++ scalarLine scalarIndent value.toList

def valuesLines : List String → List Char
  | [] => "  values: []\n".toList
  | values =>
    "  values:\n".toList ++
      values.flatMap fun value => "  - ".toList ++ scalarLine scalarIndent value.toList

def entryLines (e : Entry) : List Char :=
  fieldLine "- name" e.name ++
    (match e.value with
      | some value => fieldLine "  value" value
      | none => []) ++
    (match e.values with
      | some values => valuesLines values
      | none => []) ++
    if e.expand then "  expand: true\n".toList else []

def document (d : Document) : List Char :=
  if d.params.isEmpty then "params: []\n".toList
  else "params:\n".toList ++ d.params.flatMap fun p => entryLines p.toEntry

end BraceParams.Yaml.Write

namespace BraceParams.Document

def toYaml (d : Document) : String :=
  String.ofList (Yaml.Write.document d)

end BraceParams.Document
