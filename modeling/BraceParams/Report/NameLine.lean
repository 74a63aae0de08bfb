import BraceParams.Text.Blank
import BraceParams.Text.Lines
import BraceParams.Text.Search

/-!
Finding the line of a source that names an entry: the text in front of its first `name:` is blank or a
dash, and behind it stands the name up to a comment, with or without quotes.
-/

namespace BraceParams.Report

open Text

def octets : List Char → Nat
  | [] => 0
  | c :: s => c.utf8Size + octets s

def nameOfLine? (line : List Char) : Option (List Char × Nat) := do
  let (before, rest) ← cut? "name:".toList line
  let lead := trim before
  if lead = [] ∨ lead = ['-'] then
    let name := trimBy (fun c => c = '"' || c = '\'') (trim (Text.before " #".toList rest))
    some (name, octets before)
  else none

def nameLines (source : List Char) : List (List Char × Nat × Nat) :=
  (lines source).zipIdx.filterMap fun (line, i) =>
    (nameOfLine? line).map fun (name, column) => (name, i + 1, column + 1)

/-- Line and column of the `name:` key of the entry with this name that has `occurrence` others of the
name before it. -/
def nameLine? (source name : List Char) (occurrence : Nat) : Option (Nat × Nat) :=
  (((nameLines source).filter (·.1 = name))[occurrence]?).map (·.2)

end BraceParams.Report
