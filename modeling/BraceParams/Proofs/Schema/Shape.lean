import Mathlib.Algebra.Group.Int.Defs
import BraceParams.Proofs.Schema.Success

/-!
The shape of a parameter document, said of its tree: which keys a record may have, which scalars count as
texts, and which parameter an element stands for. The order of the keys does not matter.
-/

namespace BraceParams.Yaml.Node

mutual

def bare : Node → Bool
  | .scalar _ tag _ _ => tag.isNone
  | .sequence _ tag items => tag.isNone && bareItems items
  | .mapping _ tag entries => tag.isNone && bareEntries entries
  | .alias .. => false
  | .nothing _ => true
  | .cut => true

def bareItems : List Node → Bool
  | [] => true
  | node :: rest => bare node && bareItems rest

def bareEntries : List (Node × Node) → Bool
  | [] => true
  | (key, value) :: rest => bare key && bare value && bareEntries rest

end

theorem bareItems_iff {items : List Node} : bareItems items ↔ ∀ n ∈ items, n.bare := by
  induction items with
  | nil => simp [bareItems]
  | cons n items ih => simp [bareItems, ih]

theorem bareEntries_iff {entries : List (Node × Node)} :
    bareEntries entries ↔ ∀ e ∈ entries, e.1.bare ∧ e.2.bare := by
  induction entries with
  | nil => simp [bareEntries]
  | cons e entries ih => simp [bareEntries, ih]

end BraceParams.Yaml.Node

namespace BraceParams.Schema

open Yaml

def scalarText? : Node → Option (List Char)
  | .scalar _ _ text _ => some text
  | _ => none

inductive Unwritten : Node → Prop
  | nothing (mark : Mark) : Unwritten (.nothing mark)
  | plain (mark : Mark) : Unwritten (.scalar mark none [] .plain)

inductive Null : Node → Prop
  | unwritten {node : Node} (h : Unwritten node) : Null node
  | word (mark : Mark) {text : List Char}
      (h : text ∈ [['~'], "null".toList, "Null".toList, "NULL".toList]) : Null (.scalar mark none text .plain)

inductive Reads : Node → String → Prop
  | unplain (mark : Mark) (text : List Char) {style : Style} (h : style ≠ .plain) :
      Reads (.scalar mark none text style) (String.ofList text)
  | string (mark : Mark) {text : List Char} (h : Scalar.ofPlain text = .text) :
      Reads (.scalar mark none text .plain) (String.ofList text)
  | boolean (mark : Mark) {text : List Char} {b : Bool} (h : Scalar.ofPlain text = .boolean b) :
      Reads (.scalar mark none text .plain) (if b then "true" else "false")
  | integer (mark : Mark) {text : List Char} {n : Int} (h : Scalar.ofPlain text = .integer n)
      (low : -(2 ^ 63) ≤ n) (high : n < 2 ^ 64) :
      Reads (.scalar mark none text .plain) (String.ofList (Number.integerText n))
  | float (mark : Mark) {text : List Char} {x : Number.Binary64} (h : Scalar.ofPlain text = .float x) :
      Reads (.scalar mark none text .plain) (String.ofList (Number.Layout.value.text x))

inductive SequenceOf {α : Type} (R : Node → α → Prop) : Node → List α → Prop
  | items (mark : Mark) {items : List Node} {as : List α} (h : List.Forall₂ R items as) :
      SequenceOf R (.sequence mark none items) as

inductive ReadsBoolean : Node → Bool → Prop
  | plain (mark : Mark) {text : List Char} {b : Bool} (h : Scalar.boolean? text = some b) :
      ReadsBoolean (.scalar mark none text .plain) b

def member? (entries : List (Node × Node)) (key : String) : Option Node :=
  (entries.find? fun e => scalarText? e.1 = some key.toList).map (·.2)

structure Keys (known : List String) (entries : List (Node × Node)) : Prop where
  known : ∀ e ∈ entries, ∃ key ∈ known, scalarText? e.1 = some key.toList
  nodup : (entries.map fun e => scalarText? e.1).Nodup

inductive Optional {α : Type} (R : Node → α → Prop) : Option Node → Option α → Prop
  | missing : Optional R none none
  | null {node : Node} (h : Null node) : Optional R (some node) none
  | given {node : Node} {a : α} (h : R node a) : Optional R (some node) (some a)

inductive Flag : Option Node → Bool → Prop
  | missing : Flag none false
  | given {node : Node} {b : Bool} (h : ReadsBoolean node b) : Flag (some node) b

inductive IsEntry : Node → Entry → Prop
  | mapping (mark : Mark) {entries : List (Node × Node)} {name : Node} {e : Entry}
      (keys : Keys ["name", "value", "values", "expand"] entries)
      (hname : member? entries "name" = some name) (text : scalarText? name = some e.name.toList)
      (value : Optional Reads (member? entries "value") e.value)
      (values : Optional (SequenceOf Reads) (member? entries "values") e.values)
      (expand : Flag (member? entries "expand") e.expand) : IsEntry (.mapping mark none entries) e

/-- A pattern needs a value; else there has to be a value or a list, and a list goes before a value. -/
inductive Stands : Entry → Param → Prop
  | pattern (name text : String) (values : Option (List String)) :
      Stands ⟨name, some text, values, true⟩ ⟨name, .pattern text⟩
  | list (name : String) (value : Option String) (values : List String) :
      Stands ⟨name, value, some values, false⟩ ⟨name, .list values⟩
  | single (name value : String) : Stands ⟨name, some value, none, false⟩ ⟨name, .single value⟩

def IsParam (node : Node) (param : Param) : Prop :=
  ∃ e, IsEntry node e ∧ Stands e param

inductive IsList : Node → List Param → Prop
  | unwritten {node : Node} (h : Unwritten node) : IsList node []
  | sequence {node : Node} {params : List Param} (h : SequenceOf IsParam node params) : IsList node params

inductive IsDocument : Node → List Param → Prop
  | unwritten {node : Node} (h : Unwritten node) : IsDocument node []
  | empty (mark : Mark) : IsDocument (.mapping mark none []) []
  | params (mark : Mark) {key value : Node} {params : List Param}
      (hkey : scalarText? key = some "params".toList) (h : IsList value params) :
      IsDocument (.mapping mark none [(key, value)]) params

end BraceParams.Schema
