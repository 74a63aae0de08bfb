import Mathlib.Data.List.TakeWhile
import BraceParams.Proofs.Schema.Grammar
import BraceParams.Proofs.Yaml.ScanDocument

namespace BraceParams.Schema

open Yaml Write

variable {node : Node} {fields : List (List Char × Part)} {entries : List (Node × Node)} {d d' : Draft}

theorem reads_text {s : String} (h : (Part.text s).Is node) : Reads node s := by
  obtain ⟨m, rfl⟩ := h
  by_cases hs : style s.toList = .plain
  · have hf : form s.toList = .plain := by
      rw [style] at hs
      cases hf : form s.toList <;> simp_all
    have ho : readsAsOther s.toList = false := (of_form_plain hf).1
    rw [readsAsOther, Bool.or_eq_false_iff, decide_eq_false_iff_not, not_not] at ho
    rw [hs]
    simpa using Reads.string m ho.1
  · simpa using Reads.unplain m s.toList hs

theorem reads_list {values : List String} (h : (Part.list (values.map Part.text)).Is node) :
    SequenceOf Reads node values := by
  obtain ⟨m, nodes, rfl, hn⟩ := h
  rw [List.forall₂_map_left_iff] at hn
  exact .items m (hn.flip.imp fun _ _ => reads_text)

theorem reads_true (h : (Part.word "true".toList).Is node) : ReadsBoolean node true := by
  obtain ⟨m, rfl⟩ := h
  exact .plain m (by decide)

theorem scalarText?_of_isMember {f : List Char × Part} {e : Node × Node} (h : IsMember f e) : scalarText? e.1 = some f.1 := by
  obtain ⟨⟨m, hm⟩, -⟩ := h
  rw [hm]
  rfl

theorem fits_ofExpand {expand : Bool} (hd : d.expand = none)
    (h : List.Forall₂ IsMember (Part.ofExpand expand) entries) :
    Fits entries d { d with expand := if expand then some true else none } := by
  cases expand with
  | false =>
    obtain rfl := List.forall₂_nil_left_iff.mp h
    refine fits_nil.mpr ?_
    obtain ⟨name, value, values, expand⟩ := d
    obtain rfl : expand = none := hd
    rfl
  | true =>
    obtain ⟨e, rest, hm, hr, rfl⟩ := List.forall₂_cons_left_iff.mp h
    obtain rfl := List.forall₂_nil_left_iff.mp hr
    exact (fits_cons (scalarText?_of_isMember hm)).mpr ⟨_, .expand hd (reads_true hm.2), fits_nil.mpr rfl⟩

theorem fits_ofValues {values : Option (List String)} (hd : d.values = none)
    (h : List.Forall₂ IsMember (Part.ofValues values ++ fields) entries)
    (hrest : ∀ rest, List.Forall₂ IsMember fields rest → Fits rest { d with values := values.map some } d') :
    Fits entries d d' := by
  cases values with
  | none =>
    obtain ⟨name, value, values, expand⟩ := d
    obtain rfl : values = none := hd
    exact hrest entries h
  | some values =>
    obtain ⟨e, rest, hm, hr, rfl⟩ := List.forall₂_cons_left_iff.mp h
    exact (fits_cons (scalarText?_of_isMember hm)).mpr ⟨_, .values hd (.given (reads_list hm.2)), hrest rest hr⟩

theorem fits_ofValue {value : Option String} (hd : d.value = none)
    (h : List.Forall₂ IsMember (Part.ofValue value ++ fields) entries)
    (hrest : ∀ rest, List.Forall₂ IsMember fields rest → Fits rest { d with value := value.map some } d') :
    Fits entries d d' := by
  cases value with
  | none =>
    obtain ⟨name, value, values, expand⟩ := d
    obtain rfl : value = none := hd
    exact hrest entries h
  | some value =>
    obtain ⟨e, rest, hm, hr, rfl⟩ := List.forall₂_cons_left_iff.mp h
    exact (fits_cons (scalarText?_of_isMember hm)).mpr ⟨_, .value hd (.given (reads_text hm.2)), hrest rest hr⟩

def draftOf (e : Entry) : Draft :=
  { name := some e.name, value := e.value.map some, values := e.values.map some
    expand := if e.expand then some true else none }

theorem fits_fields {e : Entry} (h : List.Forall₂ IsMember (Part.fields e) entries) : Fits entries {} (draftOf e) := by
  obtain ⟨named, rest, hm, hr, rfl⟩ := List.forall₂_cons_left_iff.mp h
  obtain ⟨m, hname⟩ := hm.2
  have hn : ReadsName named.2 e.name := by
    rw [hname]
    rfl
  refine (fits_cons (scalarText?_of_isMember hm)).mpr ⟨_, .name rfl hn, ?_⟩
  exact fits_ofValue rfl hr fun _ hr => fits_ofValues rfl hr fun _ hr => fits_ofExpand rfl hr

theorem isEntry_of_fits {e : Entry} {m : Mark} (h : Fits entries {} (draftOf e)) :
    IsEntry (.mapping m none entries) e := by
  refine isEntry_iff.mpr ⟨draftOf e, h, ?_⟩
  obtain ⟨name, value, values, expand⟩ := e
  exact ⟨rfl, by cases value <;> rfl, by cases values <;> rfl, by cases expand <;> rfl⟩

theorem isEntry_of_fields {e : Entry} (h : (Part.record (Part.fields e)).Is node) : IsEntry node e := by
  obtain ⟨m, entries, rfl, h⟩ := h
  exact isEntry_of_fits (fits_fields h)

theorem isParam_of_fields {p : Param} (h : (Part.record (Part.fields p.toEntry)).Is node) : IsParam node p :=
  ⟨p.toEntry, isEntry_of_fields h, stands_iff.mpr p.toParam_toEntry⟩

theorem isDocument_of_parts {d : Document} {m : Mark} (h : List.Forall₂ IsMember (Part.document d) entries) :
    IsDocument (.mapping m none entries) d.params := by
  obtain ⟨⟨key, value⟩, rest, hm, hr, rfl⟩ := List.forall₂_cons_left_iff.mp h
  obtain rfl := List.forall₂_nil_left_iff.mp hr
  obtain ⟨m', nodes, rfl, hn⟩ := hm.2
  rw [List.forall₂_map_left_iff] at hn
  exact .params m (scalarText?_of_isMember hm) (.sequence (.items m' (hn.flip.imp fun _ _ => isParam_of_fields)))

end BraceParams.Schema

namespace BraceParams.Document

open Yaml Schema

theorem trim_document (d : Document) : (Text.trim (Write.document d)).isEmpty = false := by
  obtain ⟨r, hr⟩ := document_eq d
  have hp : Text.isBlank 'p' = false := by decide
  rw [hr, Text.trim, Text.trimBy, List.dropWhile_cons_of_neg (by simp [hp]), List.isEmpty_eq_false_iff, ne_eq,
    List.reverse_eq_nil_iff, List.dropWhile_eq_nil_iff]
  intro h
  simpa [hp] using h 'p' (by simp)

theorem parse_toYaml (d : Document) : parse d.toYaml = .ok d := by
  have htext : d.toYaml.toList = Write.document d := String.toList_ofList
  obtain ⟨l, hl, hkinds⟩ := tokens_document d
  have htree : Tree.ofEvents (Events.ofTokens ⟨l, none⟩) = treeOf d.toYaml.toList := by rw [treeOf, htext, hl]
  obtain ⟨herror, hmore, hbare, m, entries, hroot, hm⟩ := tree_of_record (Part.denotes_document d) hkinds htree
  have hd : IsDocument (treeOf d.toYaml.toList).root d.params := by
    rw [hroot]
    exact isDocument_of_parts hm
  obtain ⟨es, hr, hc⟩ := (readEntries_checked hbare).mpr ⟨hd, rfl⟩
  rw [parse_eq_ok (by rw [htext]; exact trim_document d)]
  exact ⟨es, read_eq_ok.mpr ⟨⟨0, hr⟩, herror, hmore⟩, hc⟩

example : toYaml ⟨[⟨"a", .list ["1", "b"]⟩, ⟨"", .single "x\ny"⟩]⟩ =
    "params:\n- name: a\n  values:\n  - '1'\n  - b\n- name: ''\n  value: |-\n    x\n    y\n" := by
  decide +kernel

end BraceParams.Document
