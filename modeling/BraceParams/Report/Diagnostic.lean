import BraceParams.Report.Advice
import BraceParams.Report.Excerpt
import BraceParams.Schema.Entry

namespace BraceParams.Report

open Text

inductive Kind where
  | syntaxError
  | invalidSchema
  | unknownField
  | invalidValue
  | fileError
  deriving DecidableEq, Repr

/-- A message with its place. Lines and columns count from one; line zero means that there is no
place. -/
structure Diagnostic where
  kind : Kind := .invalidSchema
  message : String
  line : Nat
  column : Nat
  context : String := ""
  suggestion : Option String := none
  deriving DecidableEq, Repr

def classify (message : List Char) : Kind :=
  if contains "unknown field".toList message then .unknownField
  else if contains "must be specified".toList message then .invalidValue
  else if contains "missing field".toList message ∨ contains "invalid type".toList message then
    .invalidSchema
  else .syntaxError

namespace Diagnostic

def withContext (d : Diagnostic) (source : String) (around : Nat) : Diagnostic :=
  { d with context := String.ofList (excerpt source.toList d.line d.column around) }

def contextLines : Nat := 2

def ofText (raw : List Char) (line column : Nat) (source : String) : Diagnostic :=
  { kind := classify raw
    message := String.ofList (reword raw)
    line, column
    suggestion := advice raw source.toList line : Diagnostic }.withContext source contextLines

def ofFault (fault : Schema.Fault) (source : String) : Diagnostic :=
  ofText fault.text (fault.mark.line + 1) (fault.mark.column + 1) source

def ofEntryError (e : EntryError) (line column : Nat) (source : String) : Diagnostic :=
  let d : Diagnostic :=
    { kind := .invalidValue, message := e.message, line, column
      suggestion := advice e.message.toList source.toList line }
  if 0 < line then d.withContext source contextLines else d

section

variable (e : EntryError) (line column : Nat) (source : String)

@[simp]
theorem kind_ofEntryError : (ofEntryError e line column source).kind = .invalidValue := by
  rw [ofEntryError]
  split <;> rfl

@[simp]
theorem message_ofEntryError : (ofEntryError e line column source).message = e.message := by
  rw [ofEntryError]
  split <;> rfl

@[simp]
theorem line_ofEntryError : (ofEntryError e line column source).line = line := by
  rw [ofEntryError]
  split <;> rfl

@[simp]
theorem column_ofEntryError : (ofEntryError e line column source).column = column := by
  rw [ofEntryError]
  split <;> rfl

@[simp]
theorem context_ofEntryError_zero : (ofEntryError e 0 column source).context = "" := rfl

end

def display (d : Diagnostic) : String :=
  let n (k : Nat) : String := String.ofList (Number.digitsText k)
  "error: " ++ d.message ++ "\n  --> line " ++ n d.line ++ ":" ++ n d.column ++ "\n" ++
    (if d.context = "" then "" else "\n" ++ d.context) ++
    match d.suggestion with
    | none => ""
    | some text => "\nhelp: " ++ text ++ "\n"

end Diagnostic

end BraceParams.Report
