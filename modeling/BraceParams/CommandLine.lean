import BraceParams.Json.Write
import BraceParams.Parse

namespace BraceParams.CommandLine

open Report

inductive Format where
  | plain
  | json
  deriving DecidableEq, Repr

inductive Command where
  | expand (patterns : List String)
  | params (file : String) (format : Format)
  | check (file : String)
  deriving DecidableEq, Repr

structure Invocation where
  command : Command
  verbosity : Nat
  deriving DecidableEq, Repr

structure Arguments where
  verbosity : Nat := 0
  command : Option String := none
  operands : List String := []
  format : Option String := none

def subcommands : List String := ["expand", "params", "check"]

def verbosity? (argument : String) : Option Nat :=
  match argument.toList with
  | '-' :: flags => if !flags.isEmpty && flags.all (· = 'v') then some flags.length else none
  | _ => none

def formatOption : List Char := "--format=".toList

def isOption (argument : String) : Bool :=
  argument.startsWith "-" && argument ≠ "-"

def Arguments.operand (a : Arguments) (argument : String) : Arguments :=
  { a with operands := a.operands ++ [argument] }

def Arguments.read (a : Arguments) : List String → Option Arguments
  | [] => some a
  | "--" :: rest =>
    if a.command.isNone then none else some { a with operands := a.operands ++ rest }
  | "--verbose" :: rest => { a with verbosity := a.verbosity + 1 : Arguments }.read rest
  | "--format" :: rest =>
    match rest with
    | format :: rest =>
      if a.command = some "params" ∧ a.format.isNone ∧ ¬ isOption format then
        { a with format := some format : Arguments }.read rest
      else none
    | [] => none
  | argument :: rest =>
    match verbosity? argument with
    | some n => { a with verbosity := a.verbosity + n : Arguments }.read rest
    | none =>
      if formatOption.isPrefixOf argument.toList then
        if a.command = some "params" ∧ a.format.isNone then
          let format := String.ofList (argument.toList.drop formatOption.length)
          { a with format := some format : Arguments }.read rest
        else none
      else if isOption argument then none
      else
        match a.command with
        | some _ => (a.operand argument).read rest
        | none =>
          if subcommands.contains argument then
            { a with command := some argument : Arguments }.read rest
          else none

def format? : Option String → Option Format
  | none => some .plain
  | some "plain" => some .plain
  | some "json" => some .json
  | some _ => none

def Arguments.command? (a : Arguments) : Option Command :=
  match a.command, a.operands with
  | some "expand", pattern :: patterns => some (.expand (pattern :: patterns))
  | some "params", [file] =>
    if file = "" then none else (format? a.format).map fun format => .params file format
  | some "check", [file] => if file = "" then none else some (.check file)
  | _, _ => none

def parse? (arguments : List String) : Option Invocation := do
  let a ← ({} : Arguments).read arguments
  let command ← a.command?
  some ⟨command, a.verbosity⟩

structure Outcome where
  exit : Nat := 0
  stdout : String := ""
  stderr : String := ""
  report : Option String := none
  deriving DecidableEq, Repr

def styled (style text : String) : String :=
  "\x1b[" ++ style ++ "m" ++ text ++ "\x1b[0m"

def statusLine (action message : String) : String :=
  styled "1;36" (String.ofList (List.replicate (12 - action.length) ' ') ++ action) ++ " " ++
    message ++ "\n"

def successLine (message : String) : String :=
  styled "1;32" "  ✓" ++ " " ++ message ++ "\n"

def checkLine (message : String) : String :=
  styled "32" "  ✓" ++ " " ++ message ++ "\n"

def warningLine (message : String) : String :=
  styled "33" "  !" ++ " " ++ message ++ "\n"

def errorLine (message : String) : String :=
  styled "1;31" "error:" ++ " " ++ message ++ "\n"

def infoLine (message : String) : String :=
  styled "36" "  i" ++ " " ++ message ++ "\n"

def dimLine (message : String) : String :=
  styled "2" message ++ "\n"

def number (n : Nat) : String :=
  String.ofList (Number.digitsText n)

def diagnosticLines (d : Diagnostic) : String :=
  (if 0 < d.line then
    errorLine (d.message ++ " (line " ++ number d.line ++ ":" ++ number d.column ++ ")")
  else errorLine d.message) ++
    (if d.context = "" then ""
    else dimLine (String.ofList (Text.trimRight d.context.toList))) ++
    match d.suggestion with
    | none => ""
    | some text => infoLine ("help: " ++ text)

def expand (patterns : List String) : Outcome :=
  let texts := patterns.flatMap fun pattern => Pattern.expand pattern.toList
  { stdout := String.ofList (texts.flatMap fun text => text ++ ['\n']) }

def render (queries : List Query) : Format → String
  | .plain => "\n".intercalate (queries.map Query.text)
  | .json => prettyQueries queries

def params (path : String) (file : File) (format : Format) : Outcome :=
  match file.parse path with
  | .error d => { exit := 1, stderr := diagnosticLines d }
  | .ok document => { stdout := render document.queries format ++ "\n" }

def warnings (d : Document) : List String :=
  d.params.filterMap fun p =>
    match p.source with
    | .pattern text =>
      if Pattern.hasGroups text.toList then none
      else some (p.name ++ ": 'expand: true' but '" ++ text ++ "' has no \x7ba,b\x7d group")
    | _ => none

def paramLine (p : Param) : String :=
  checkLine (p.name ++ ": " ++ number p.queries.length ++ " value(s)")

def queryCount : List Param → Nat
  | [] => 0
  | p :: params => p.queries.length + queryCount params

def summaryLine (d : Document) : String :=
  successLine (number d.params.length ++ " param(s), " ++
    number (queryCount d.params) ++ " queries")

def check (path : String) : File → Outcome
  | .missing => { exit := 1, report := some ("Params file not found: " ++ path) }
  | file =>
    let start := statusLine "Checking" path
    match file.parse path with
    | .error d => { exit := 1, stderr := start ++ diagnosticLines d }
    | .ok document =>
      { stdout := "\n"
        stderr := start ++ checkLine "YAML syntax valid" ++
          (if document.isEmpty then warningLine "no params defined" else "") ++
          String.join (document.params.map paramLine) ++
          String.join ((warnings document).map warningLine) ++ summaryLine document }

def Command.run (file : File) : Command → Outcome
  | expand patterns => CommandLine.expand patterns
  | params path format => CommandLine.params path file format
  | check path => CommandLine.check path file

def Command.path? : Command → Option String
  | expand _ => none
  | params path _ => some path
  | check path => some path

def usageExit : Nat := 2

end BraceParams.CommandLine
