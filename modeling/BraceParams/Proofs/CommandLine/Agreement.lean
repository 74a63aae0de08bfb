import BraceParams.CommandLine
import BraceParams.Proofs.Json.RoundTrip
import BraceParams.Proofs.Pattern.Count

namespace BraceParams.CommandLine

open Report

def objects (p : Param) : List Json :=
  p.queries.map Json.ofQuery

def countLine (p : Param) (block : List Json) : String :=
  checkLine (p.name ++ ": " ++ number block.length ++ " value(s)")

def lonePattern? : Param × List Json → Option (String × String)
  | (⟨name, .pattern text⟩, [_]) => some (name, text)
  | _ => none

def loneText : String × String → String
  | (name, text) => name ++ ": 'expand: true' but '" ++ text ++ "' has no \x7ba,b\x7d group"

def reportOn (path : String) (params : List Param) (blocks : List (List Json)) : String :=
  statusLine "Checking" path ++ checkLine "YAML syntax valid" ++
    (if params.isEmpty then warningLine "no params defined" else "") ++
    String.join (List.zipWith countLine params blocks) ++
    String.join ((((params.zip blocks).filterMap lonePattern?).map loneText).map warningLine) ++
    successLine (number params.length ++ " param(s), " ++ number blocks.flatten.length ++ " queries")

structure Accepts (path : String) (d : Document) (blocks : List (List Json)) (check params : Outcome) : Prop where
  blocks_eq : blocks = d.params.map objects
  check_exit : check.exit = 0
  params_exit : params.exit = 0
  printed : Json.read? params.stdout.toList = some (.array blocks.flatten)
  reported : check.stderr = reportOn path d.params blocks

structure Refuses (path : String) (d : Diagnostic) (check params : Outcome) : Prop where
  check_exit : check.exit = 1
  params_exit : params.exit = 1
  printed : params.stdout = "" ∧ params.stderr = diagnosticLines d
  reported : check.stdout = "" ∧ check.stderr = statusLine "Checking" path ++ diagnosticLines d

theorem queryCount_eq (params : List Param) : queryCount params = (params.map objects).flatten.length := by
  induction params with
  | nil => rfl
  | cons p params ih =>
    rw [queryCount, ih, List.map_cons, List.flatten_cons, List.length_append, objects, List.length_map]

theorem lonePattern?_pattern {name text : String} :
    lonePattern? (⟨name, .pattern text⟩, objects ⟨name, .pattern text⟩) =
      if Pattern.hasGroups text.toList then none else some (name, text) := by
  have hl : (objects ⟨name, .pattern text⟩).length = (Pattern.expand text.toList).length := by
    rw [objects, Param.queries, Source.values, List.length_map, List.length_map, List.length_map]
  cases hg : Pattern.hasGroups text.toList with
  | false =>
    obtain ⟨item, hi⟩ := List.length_eq_one_iff.mp (hl.trans (Pattern.length_expand_eq_one_iff.mpr hg))
    rw [hi]
    rfl
  | true =>
    have hne : (objects ⟨name, .pattern text⟩).length ≠ 1 := by
      rw [hl, Ne, Pattern.length_expand_eq_one_iff, hg]
      decide
    revert hne
    rcases objects ⟨name, .pattern text⟩ with _ | ⟨item, _ | ⟨next, rest⟩⟩
    · exact fun _ => rfl
    · exact fun hne => absurd rfl hne
    · exact fun _ => rfl

theorem warnings_eq (d : Document) :
    warnings d = ((d.params.zip (d.params.map objects)).filterMap lonePattern?).map loneText := by
  rw [← List.map_prod_left_eq_zip, List.filterMap_map, List.map_filterMap, warnings]
  congr 1
  funext p
  obtain ⟨name, source⟩ := p
  cases source with
  | single value => rfl
  | list values => rfl
  | pattern text =>
    rw [Function.comp_apply, lonePattern?_pattern]
    dsimp only
    split <;> rfl

theorem zipWith_countLine (params : List Param) :
    List.zipWith countLine params (params.map objects) = params.map paramLine := by
  rw [List.zipWith_map_right, List.zipWith_self]
  congr 1
  funext p
  rw [countLine, paramLine, objects, List.length_map]

theorem check_of_ok {path : String} {octets : ByteArray} {d : Document}
    (h : File.parse path (.content octets) = .ok d) :
    (Command.check path).run (.content octets) =
      { stdout := "\n", stderr := reportOn path d.params (d.params.map objects) } := by
  rw [Command.run, check, h, reportOn, zipWith_countLine, ← warnings_eq, ← queryCount_eq]
  · rfl
  · exact File.noConfusion

theorem read?_printed (blocks : List (List Json)) :
    Json.read? (String.ofList ((Json.array blocks.flatten).pretty 0) ++ "\n").toList = some (.array blocks.flatten) := by
  rw [String.toList_append, String.toList_ofList]
  exact Json.read?_prettyLine _

theorem params_of_ok {path : String} {octets : ByteArray} {d : Document}
    (h : File.parse path (.content octets) = .ok d) :
    (Command.params path .json).run (.content octets) =
      { stdout := String.ofList ((Json.array (d.params.map objects).flatten).pretty 0) ++ "\n" } := by
  rw [Command.run, params, h]
  dsimp only
  rw [render, prettyQueries, Json.ofQueries, Document.queries, List.map_flatMap, List.flatMap_def]
  rfl

theorem check_agrees_params (path : String) (octets : ByteArray) :
    (((Command.check path).run (.content octets)).exit = 0 ↔
        ((Command.params path .json).run (.content octets)).exit = 0) ∧
      ((∃ d blocks, File.parse path (.content octets) = .ok d ∧
          Accepts path d blocks ((Command.check path).run (.content octets))
            ((Command.params path .json).run (.content octets))) ∨
        ∃ d, File.parse path (.content octets) = .error d ∧
          Refuses path d ((Command.check path).run (.content octets))
            ((Command.params path .json).run (.content octets))) := by
  cases h : File.parse path (.content octets) with
  | ok d =>
    rw [check_of_ok h, params_of_ok h]
    exact ⟨Iff.rfl, .inl ⟨d, _, rfl, rfl, rfl, rfl, read?_printed _, rfl⟩⟩
  | error d =>
    have hc : (Command.check path).run (.content octets) =
        { exit := 1, stderr := statusLine "Checking" path ++ diagnosticLines d } := by
      rw [Command.run, check, h]
      exact File.noConfusion
    have hp : (Command.params path .json).run (.content octets) = { exit := 1, stderr := diagnosticLines d } := by
      rw [Command.run, params, h]
    rw [hc, hp]
    exact ⟨Iff.rfl, .inr ⟨d, rfl, rfl, rfl, ⟨rfl, rfl⟩, rfl, rfl⟩⟩

end BraceParams.CommandLine
