import BraceParams.Report.Diagnostic
import BraceParams.Report.NameLine

/-!
Reading a parameter document from text. All entries are read before the first is checked, so that one
that stands for no parameter can be reported at its own line.
-/

namespace BraceParams

open Report Schema

def checkEntries (source : String) (seen : List String) :
    List Entry → Except Diagnostic (List Param)
  | [] => .ok []
  | entry :: rest =>
    match entry.toParam with
    | .ok param => (checkEntries source (entry.name :: seen) rest).map (param :: ·)
    | .error e =>
      let (line, column) :=
        (nameLine? source.toList e.name.toList (seen.count entry.name)).getD (0, 0)
      .error (.ofEntryError e line column source)

namespace Document

def parse (source : String) : Except Diagnostic Document :=
  if (Text.trim source.toList).isEmpty then .ok {}
  else
    match read source.toList readEntries with
    | .error fault => .error (.ofFault fault source)
    | .ok entries => (checkEntries source [] entries).map fun params => ⟨params⟩

end Document

inductive File where
  | missing
  | content (octets : ByteArray)

namespace File

def failure (path reason : String) : Diagnostic :=
  { kind := .fileError, message := "failed to read file " ++ path ++ ": " ++ reason
    line := 0, column := 0 }

def parse (path : String) : File → Except Diagnostic Document
  | missing => .error (failure path "No such file or directory (os error 2)")
  | content octets =>
    match String.fromUTF8? octets with
    | none => .error (failure path "stream did not contain valid UTF-8")
    | some source => Document.parse source

end File

end BraceParams
