import BraceParams.Report.Message
import BraceParams.Text.Lines

namespace BraceParams.Report

open Text

def typos : List (String × String) :=
  [("vaule", "value"), ("valeu", "value"), ("val", "value"), ("valuse", "values"),
   ("vaules", "values"), ("expanded", "expand"), ("expansion", "expand"), ("key", "name"),
   ("param", "params")]

def lower (c : Char) : Char :=
  if c = '\u212a' then 'k' else c.toLower

def fieldAdvice? (message : List Char) : Option String := do
  let field ← between? "unknown field `".toList ['`'] message
  let (_, correct) ← typos.find? fun (typo, _) => field.map lower = typo.toList
  some ("did you mean '" ++ correct ++ "'?")

def errorLine (source : List Char) (line : Nat) : List Char :=
  ((lines source)[line - 1]?).getD []

def advice (message source : List Char) (line : Nat) : Option String :=
  if contains "missing field `name`".toList message then
    some "every param needs a 'name:' key"
  else if contains "value or values must be specified".toList message then
    some "add 'value:' or 'values:' to the param"
  else if contains "when expand is true".toList message then
    some "set 'value:' to the pattern to expand; 'values:' is ignored with 'expand: true'"
  else if "- ".toList.isPrefixOf (trimLeft source) then
    some "wrap the list of params in a top-level 'params:' key"
  else
    match fieldAdvice? message with
    | some text => some text
    | none =>
      if (errorLine source line).head? = some '\t' then
        some "YAML prefers spaces over tabs for indentation. Replace tabs with spaces."
      else none

end BraceParams.Report
