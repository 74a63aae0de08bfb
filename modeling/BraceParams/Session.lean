import BraceParams.Json.Write
import BraceParams.Parse
import BraceParams.Yaml.Write.Document
import Std.Data.HashSet

namespace BraceParams

def distinctCount (queries : List Query) : Nat :=
  (Std.HashSet.ofList queries).size

structure Session where
  document : Document := {}
  seen : List Param := []

namespace Session

inductive Step where
  | push (param : Except EntryError Param)
  | pop
  | clear
  | load (source : String)
  | dump

inductive Result where
  | pushed (param : Param) (equalTo : Option Nat) (fresh : Bool)
  | refused (e : EntryError)
  | popped (param : Option Param)
  | cleared
  | loaded (same : Bool)
  | failed (d : Report.Diagnostic)
  | dumped (json yaml : String)

def push (s : Session) (param : Param) : Session × Result :=
  let fresh := !s.seen.contains param
  ({ document := ⟨s.document.params ++ [param]⟩
     seen := if fresh then s.seen ++ [param] else s.seen },
   .pushed param (s.document.params.findIdx? (· = param)) fresh)

def step (s : Session) : Step → Session × Result
  | .push (.ok param) => s.push param
  | .push (.error e) => (s, .refused e)
  | .pop => ({ s with document := ⟨s.document.params.dropLast⟩ }, .popped s.document.params.getLast?)
  | .clear => ({ s with document := {} }, .cleared)
  | .load source =>
    match Document.parse source with
    | .ok document => ({ s with document }, .loaded (document = s.document))
    | .error d => (s, .failed d)
  | .dump => (s, .dumped s.document.toJson s.document.toYaml)

def run (s : Session) : List Step → List (Session × Result)
  | [] => []
  | step :: rest =>
    let after := s.step step
    after :: after.1.run rest

end Session

end BraceParams
