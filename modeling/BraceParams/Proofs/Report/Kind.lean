import BraceParams.Proofs.Report.Advice
import BraceParams.Proofs.Report.Parts
import BraceParams.Proofs.Schema.Success

namespace BraceParams

open Schema Text Yaml

def Schema.Cause.texts : Cause → List (List Char)
  | .invalidType found _ => found.texts
  | .entry e => [e.name.toList]
  | _ => []

def Schema.Cause.kind? : Cause → Option Report.Kind
  | .invalidType .. => some .invalidSchema
  | .entry _ => some .invalidValue
  | _ => none

inductive Schema.Cause.Alike : Cause → Cause → Prop
  | string (s t : List Char) (expected : Expected) :
    Alike (.invalidType (.scalar .text s) expected) (.invalidType (.scalar .text t) expected)
  | missingValue (m n : String) : Alike (.entry (.missingValue m)) (.entry (.missingValue n))
  | missingPattern (m n : String) : Alike (.entry (.missingPattern m)) (.entry (.missingPattern n))

namespace Report

/-- The kind that texts call up by their words, or else the one that fits. -/
def calledKind (fitting : Kind) (texts : List (List Char)) : Kind :=
  if texts.any (contains "unknown field".toList) then .unknownField
  else if texts.any (contains "must be specified".toList) then .invalidValue
  else fitting

def overtaking : Kind → List String
  | .invalidValue => ["unknown field"]
  | _ => ["unknown field", "must be specified"]

def firstWords : List String := ["unknown field", "must be specified"]

theorem mem_marks {words : String} (hw : words ∈ firstWords) : words ∈ marks := by
  have h : ∀ words ∈ firstWords, words ∈ marks := by decide
  exact h words hw

theorem expected_of_mem {words : String} (hw : words ∈ firstWords) (expected : Expected) :
    contains words.toList expected.text.toList = false := by
  have h : ∀ words ∈ firstWords, contains words.toList expected.text.toList = false := by
    cases expected <;> decide
  exact h words hw

theorem contains_invalidType {words : String} (hw : words ∈ firstWords) (found : Found) (expected : Expected) :
    contains words.toList (Cause.invalidType found expected).text = found.texts.any (contains words.toList) := by
  have hi := separates_joint "invalid type: " (mem_marks hw) (by simp [joints])
  have he := separates_joint ", expected " (mem_marks hw) (by simp [joints])
  apply he.contains.trans
  rw [expected_of_mem hw, Bool.or_false, hi.contains_behind, contains_found (mem_marks hw)]

def placeKeys : Option (Mark × Path) → List (List Char)
  | none => []
  | some (_, path) => path.keys

theorem contains_fault {words : String} (hw : words ∈ marks) (cause : Cause) (place : Option (Mark × Path)) :
    contains words.toList (Fault.data cause place).text =
      ((placeKeys place).any (contains words.toList) || contains words.toList cause.text) := by
  have hc := separates_joint ": " hw (by simp [joints])
  rcases place with _ | ⟨mark, path⟩
  · rfl
  · have hm := contains_append_atText hw
    have hp (h : path.text ++ ": ".toList ++ cause.text ++ atText mark = (Fault.data cause (some (mark, path))).text) :
        contains words.toList (Fault.data cause (some (mark, path))).text =
          (path.keys.any (contains words.toList) || contains words.toList cause.text) := by
      rw [← h, hm, hc.contains, contains_path hw]
    cases path with
    | root => exact hm cause.text mark
    | item => exact hp rfl
    | field => exact hp rfl
    | unknown => exact hp rfl

theorem text_infix_fault (cause : Cause) (place : Option (Mark × Path)) :
    cause.text <:+: (Fault.data cause place).text := by
  rcases place with _ | ⟨mark, path⟩
  · exact List.infix_rfl
  · cases path with
    | root => exact (List.prefix_append cause.text (atText mark)).isInfix
    | item => exact ⟨_, _, rfl⟩
    | field => exact ⟨_, _, rfl⟩
    | unknown => exact ⟨_, _, rfl⟩

theorem contains_unknownField_entry (e : EntryError) :
    contains "unknown field".toList (Cause.entry e).text = contains "unknown field".toList e.name.toList := by
  apply contains_message
  · cases e <;> rw [EntryError.lead] <;> exact separates_of_runsInto (by decide) (by decide)
  · exact separates_of_runsInto (by decide) (by decide)

theorem contains_mustBeSpecified (e : EntryError) :
    contains "must be specified".toList (Cause.entry e).text := by
  apply contains_message_of_lead
  cases e <;> rw [EntryError.lead] <;> decide

theorem invalidType_occurs (found : Found) (expected : Expected) :
    "invalid type".toList <:+: (Cause.invalidType found expected).text := by
  have h : "invalid type".toList <+: "invalid type: ".toList := by decide
  have hf := h.trans (List.prefix_append "invalid type: ".toList found.text)
  have he := hf.trans (List.prefix_append _ ", expected ".toList)
  exact (he.trans (List.prefix_append _ expected.text.toList)).isInfix

theorem classify_invalidType (found : Found) (expected : Expected) (place : Option (Mark × Path)) :
    classify (Fault.data (.invalidType found expected) place).text =
      calledKind .invalidSchema (placeKeys place ++ found.texts) := by
  have hc (words : String) (hw : words ∈ firstWords) :
      contains words.toList (Fault.data (.invalidType found expected) place).text =
        (placeKeys place ++ found.texts).any (contains words.toList) := by
    rw [contains_fault (mem_marks hw), contains_invalidType hw, List.any_append]
  have hi : contains "invalid type".toList (Fault.data (.invalidType found expected) place).text := by
    rw [contains_iff]
    exact (invalidType_occurs found expected).trans (text_infix_fault _ place)
  have hu := hc "unknown field" (by simp [firstWords])
  have hm := hc "must be specified" (by simp [firstWords])
  simp only [classify, calledKind, hu, hm, hi, or_true, if_true]

theorem classify_entry (e : EntryError) (place : Option (Mark × Path)) :
    classify (Fault.data (.entry e) place).text = calledKind .invalidValue (placeKeys place ++ [e.name.toList]) := by
  have hu : contains "unknown field".toList (Fault.data (.entry e) place).text =
      (placeKeys place ++ [e.name.toList]).any (contains "unknown field".toList) := by
    have hf : "unknown field" ∈ firstWords := by simp [firstWords]
    rw [contains_fault (mem_marks hf), contains_unknownField_entry, List.any_append, List.any_cons, List.any_nil,
      Bool.or_false]
  have hm : contains "must be specified".toList (Fault.data (.entry e) place).text := by
    rw [contains_iff]
    exact (contains_iff.mp (contains_mustBeSpecified e)).trans (text_infix_fault _ place)
  simp only [classify, calledKind, hu, hm, if_true, ite_self]

theorem calledKind_eq_iff {kind : Kind} (h : kind = .invalidSchema ∨ kind = .invalidValue) (texts : List (List Char)) :
    calledKind kind texts = kind ↔ ∀ text ∈ texts, ∀ words ∈ overtaking kind, ¬words.toList <:+: text := by
  have hany (words : String) :
      (∀ text ∈ texts, ¬words.toList <:+: text) ↔ texts.any (contains words.toList) = false := by
    rw [List.any_eq_false]
    simp only [contains_iff]
  have hswap : (∀ text ∈ texts, ∀ words ∈ overtaking kind, ¬words.toList <:+: text) ↔
      ∀ words ∈ overtaking kind, texts.any (contains words.toList) = false := by
    simp only [← hany]
    exact ⟨fun h words hw text ht => h text ht words hw, fun h text ht words hw => h words hw text ht⟩
  rw [hswap, calledKind]
  generalize hu : texts.any (contains "unknown field".toList) = u
  generalize hm : texts.any (contains "must be specified".toList) = m
  rcases h with rfl | rfl
  · simp only [overtaking, List.forall_mem_cons, hu, hm]
    cases u <;> cases m <;> simp
  · simp only [overtaking, List.forall_mem_cons, hu]
    cases u <;> cases m <;> simp

theorem kind_ofFault_data {cause : Cause} {kind : Kind} (h : cause.kind? = some kind) (place : Option (Mark × Path))
    (source : String) :
    (Diagnostic.ofFault (.data cause place) source).kind = calledKind kind (placeKeys place ++ cause.texts) := by
  cases cause with
  | invalidType found expected =>
    cases h
    exact classify_invalidType found expected place
  | entry e =>
    cases h
    exact classify_entry e place
  | _ => cases h

theorem kind?_cases {cause : Cause} {kind : Kind} (h : cause.kind? = some kind) :
    kind = .invalidSchema ∨ kind = .invalidValue := by
  cases cause <;> cases h
  · exact .inl rfl
  · exact .inr rfl

theorem kind?_of_alike {cause cause' : Cause} (h : cause.Alike cause') : cause'.kind? = cause.kind? := by
  cases h <;> rfl

theorem kind_decided_by_texts {cause : Cause} {kind : Kind} (h : cause.kind? = some kind) (place : Option (Mark × Path))
    (source : String) :
    let d := Diagnostic.ofFault (.data cause place) source
    let keys := placeKeys place
    d.kind = calledKind kind (keys ++ cause.texts) ∧
      (d.kind = kind ↔ ∀ text ∈ keys ++ cause.texts, ∀ words ∈ overtaking kind, ¬words.toList <:+: text) ∧
      ∀ cause' place' source', cause.Alike cause' → placeKeys place' = keys →
        (d.kind = (Diagnostic.ofFault (.data cause' place') source').kind ↔
          calledKind kind (keys ++ cause.texts) = calledKind kind (keys ++ cause'.texts)) := by
  have hk := kind_ofFault_data h place source
  refine ⟨hk, ?_, ?_⟩
  · rw [hk]
    exact calledKind_eq_iff (kind?_cases h) _
  · intro cause' place' source' ha hp
    rw [hk, kind_ofFault_data ((kind?_of_alike ha).trans h), hp]

theorem kind_decided_by_texts_unknownField :
    (Cause.invalidType (.scalar .text "unknown field".toList) .boolean).kind? = some .invalidSchema ∧
      (Diagnostic.ofFault (.data (.invalidType (.scalar .text "unknown field".toList) .boolean)
        (some (⟨3, 10, 10⟩, .field .root "expand".toList))) "").kind = .unknownField := by
  have h : (Cause.invalidType (.scalar .text "unknown field".toList) .boolean).kind? = some .invalidSchema := rfl
  obtain ⟨hk, -⟩ := kind_decided_by_texts h (some (⟨3, 10, 10⟩, .field .root "expand".toList)) ""
  exact ⟨h, hk.trans (by decide)⟩

def SameKind (source source' : String) : Prop :=
  ∀ cause cause' place place', read source.toList readEntries = .error (.data cause place) →
    read source'.toList readEntries = .error (.data cause' place') → cause.Alike cause' →
    placeKeys place = placeKeys place' →
      (error? (Document.parse source)).map (·.kind) = (error? (Document.parse source')).map (·.kind)

def mismatch? : Fault → Option (Found × Expected × Option (Mark × Path))
  | .data (.invalidType found expected) place => some (found, expected, place)
  | _ => none

theorem eq_error_of_mismatch? {α : Type} {r : Except Fault α} {found : Found} {expected : Expected}
    {place : Option (Mark × Path)} (h : (error? r).bind mismatch? = some (found, expected, place)) :
    r = .error (.data (.invalidType found expected) place) := by
  cases r with
  | ok a => cases h
  | error fault =>
    cases fault with
    | data cause place =>
      cases cause with
      | invalidType => cases h; rfl
      | _ => cases h
    | _ => cases h

theorem not_sameKind : ¬SameKind "params:\n- name: a\n  value: x\n  expand: \"yes\"\n"
    "params:\n- name: a\n  value: x\n  expand: \"unknown field\"\n" := by
  intro h
  let place : Option (Mark × Path) :=
    some (⟨3, 10, 10⟩, .field (.item (.field .root "params".toList) 0) "expand".toList)
  have hs : read "params:\n- name: a\n  value: x\n  expand: \"yes\"\n".toList readEntries =
      .error (.data (.invalidType (.scalar .text "yes".toList) .boolean) place) :=
    eq_error_of_mismatch? (by decide +kernel)
  have ht : read "params:\n- name: a\n  value: x\n  expand: \"unknown field\"\n".toList readEntries =
      .error (.data (.invalidType (.scalar .text "unknown field".toList) .boolean) place) :=
    eq_error_of_mismatch? (by decide +kernel)
  have hkind : (error? (Document.parse "params:\n- name: a\n  value: x\n  expand: \"yes\"\n")).map (·.kind) =
      some .invalidSchema := by decide +kernel
  have hkind' : (error? (Document.parse "params:\n- name: a\n  value: x\n  expand: \"unknown field\"\n")).map
      (·.kind) = some .unknownField := by decide +kernel
  have hsame := h _ _ place place hs ht (.string _ _ .boolean) rfl
  rw [hkind, hkind'] at hsame
  cases hsame

end Report

end BraceParams
