import BraceParams.Proofs.Yaml.Nodes
import BraceParams.Proofs.Yaml.Written

namespace BraceParams.Yaml

open Write

namespace Part

def text (s : String) : Part :=
  ⟨[.scalar s.toList (style s.toList)], fun n => ∃ m, n = .scalar m none s.toList (style s.toList)⟩

def word (s : List Char) : Part :=
  ⟨[.scalar s .plain], fun n => ∃ m, n = .scalar m none s .plain⟩

def list (items : List Part) : Part :=
  ⟨if items.isEmpty then [.flowSequenceStart, .flowSequenceEnd] else itemKinds items,
    fun n => ∃ m nodes, n = .sequence m none nodes ∧ List.Forall₂ (fun i n => i.Is n) items nodes⟩

def record (fields : List (List Char × Part)) : Part :=
  ⟨recordKinds fields, fun n => ∃ m entries, n = .mapping m none entries ∧ List.Forall₂ IsMember fields entries⟩

def ofValue : Option String → List (List Char × Part)
  | some value => [("value".toList, text value)]
  | none => []

def ofValues : Option (List String) → List (List Char × Part)
  | some values => [("values".toList, list (values.map text))]
  | none => []

def ofExpand (expand : Bool) : List (List Char × Part) :=
  if expand then [("expand".toList, word "true".toList)] else []

def fields (e : Entry) : List (List Char × Part) :=
  ("name".toList, text e.name) :: (ofValue e.value ++ (ofValues e.values ++ ofExpand e.expand))

def document (d : Document) : List (List Char × Part) :=
  [("params".toList, list (d.params.map fun p => record (fields p.toEntry)))]

variable {i : Part} {items : List Part} {indentless : Bool}

theorem denotes_list (h : ∀ i ∈ items, Denotes false i.kinds i.Is) : Denotes true (list items).kinds (list items).Is := by
  cases items with
  | nil => exact Denotes.emptySequence.mono fun _ ⟨m, hm⟩ => ⟨m, [], hm, .nil⟩
  | cons i items => exact Denotes.sequence (by simp) h

theorem denotes_fields (e : Entry) : ∀ f ∈ fields e, Denotes true f.2.kinds f.2.Is := by
  have hvalues : ∀ values : List String, Denotes true (list (values.map text)).kinds (list (values.map text)).Is := by
    intro values
    refine denotes_list fun i hi => ?_
    obtain ⟨value, -, rfl⟩ := List.mem_map.mp hi
    exact .scalar _ _
  have hvalue : ∀ value : String, Denotes true (text value).kinds (text value).Is := fun value => .scalar _ _
  have hexpand : Denotes true (word "true".toList).kinds (word "true".toList).Is := .scalar _ _
  rw [fields, List.forall_mem_cons, List.forall_mem_append, List.forall_mem_append]
  refine ⟨hvalue e.name, ?_, ?_, ?_⟩
  · cases e.value with
    | none => simp [ofValue]
    | some value => exact List.forall_mem_singleton.mpr (hvalue value)
  · cases e.values with
    | none => simp [ofValues]
    | some values => exact List.forall_mem_singleton.mpr (hvalues values)
  · rw [ofExpand]
    split
    · exact List.forall_mem_singleton.mpr hexpand
    · simp

theorem denotes_document (d : Document) : ∀ f ∈ document d, Denotes true f.2.kinds f.2.Is := by
  intro f hf
  obtain rfl := List.mem_singleton.mp hf
  refine denotes_list fun i hi => ?_
  obtain ⟨p, -, rfl⟩ := List.mem_map.mp hi
  exact .record (denotes_fields _)

end Part

end BraceParams.Yaml
