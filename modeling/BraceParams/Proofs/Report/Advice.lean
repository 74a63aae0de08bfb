import BraceParams.Proofs.Text.Occurrence
import BraceParams.Report.Diagnostic

namespace BraceParams

open Report Text

def EntryError.help : EntryError → String
  | missingValue _ => "add 'value:' or 'values:' to the param"
  | missingPattern _ => "set 'value:' to the pattern to expand; 'values:' is ignored with 'expand: true'"

/-- The words of the rules that are tried before the one that fits, each with the advice it gives. -/
def EntryError.earlier : EntryError → List (String × String)
  | missingValue _ => [("missing field `name`", "every param needs a 'name:' key")]
  | missingPattern _ =>
    [("missing field `name`", "every param needs a 'name:' key"),
     ("value or values must be specified", "add 'value:' or 'values:' to the param")]

def EntryError.lead : EntryError → String
  | missingValue _ => "value or values must be specified to 'params' (param '"
  | missingPattern _ => "value must be specified to 'params' when expand is true (param '"

theorem EntryError.toList_message (e : EntryError) :
    e.message.toList = e.lead.toList ++ e.name.toList ++ "')".toList := by
  cases e <;> exact String.toList_append.trans (congrArg (· ++ _) String.toList_append)

theorem contains_message {e : EntryError} {w : List Char} (hl : Separates e.lead.toList w)
    (hq : Separates "')".toList w) : contains w e.message.toList = contains w e.name.toList := by
  rw [e.toList_message, hl.contains_enclosed hq]

theorem contains_message_of_lead {e : EntryError} {w : List Char} (h : contains w e.lead.toList) :
    contains w e.message.toList := by
  rw [contains_iff] at h ⊢
  rw [e.toList_message, List.append_assoc]
  exact h.trans (List.prefix_append e.lead.toList _).isInfix

theorem contains_missingField (e : EntryError) :
    contains "missing field `name`".toList e.message.toList = contains "missing field `name`".toList e.name.toList := by
  have hq : Separates "')".toList "missing field `name`".toList :=
    separates_of_runsInto (by decide) (by decide)
  apply contains_message _ hq
  cases e <;> rw [EntryError.lead] <;> exact separates_of_runsInto (by decide) (by decide)

theorem contains_valueOrValues (name : String) :
    contains "value or values must be specified".toList (EntryError.missingPattern name).message.toList =
      contains "value or values must be specified".toList name.toList := by
  apply contains_message
  · rw [EntryError.lead]
    exact separates_of_runsInto (by decide) (by decide)
  · exact separates_of_runsInto (by decide) (by decide)

theorem advice_missingValue (name : String) (source : List Char) (line : Nat) :
    advice (EntryError.missingValue name).message.toList source line =
      some (if contains "missing field `name`".toList name.toList then "every param needs a 'name:' key"
        else (EntryError.missingValue name).help) := by
  have hf := contains_missingField (.missingValue name)
  have hv : contains "value or values must be specified".toList (EntryError.missingValue name).message.toList := by
    apply contains_message_of_lead
    rw [EntryError.lead]
    decide
  by_cases h : contains "missing field `name`".toList name.toList
  · rw [if_pos h]
    exact if_pos (hf.trans h)
  · rw [if_neg h]
    apply (if_neg _).trans (if_pos hv)
    rw [hf]
    exact h

theorem advice_missingPattern (name : String) (source : List Char) (line : Nat) :
    advice (EntryError.missingPattern name).message.toList source line =
      some (if contains "missing field `name`".toList name.toList then "every param needs a 'name:' key"
        else if contains "value or values must be specified".toList name.toList then
          "add 'value:' or 'values:' to the param"
        else (EntryError.missingPattern name).help) := by
  have hf := contains_missingField (.missingPattern name)
  have hv := contains_valueOrValues name
  have he : contains "when expand is true".toList (EntryError.missingPattern name).message.toList := by
    apply contains_message_of_lead
    rw [EntryError.lead]
    decide
  by_cases h : contains "missing field `name`".toList name.toList
  · rw [if_pos h]
    exact if_pos (hf.trans h)
  · rw [if_neg h]
    apply (if_neg _).trans
    · by_cases h' : contains "value or values must be specified".toList name.toList
      · rw [if_pos h']
        exact if_pos (hv.trans h')
      · rw [if_neg h']
        apply (if_neg _).trans (if_pos he)
        rw [hv]
        exact h'
    · rw [hf]
      exact h

theorem suggestion_ofEntryError (e : EntryError) (line column : Nat) (source : String) :
    (Diagnostic.ofEntryError e line column source).suggestion = advice e.message.toList source.toList line := by
  rw [Diagnostic.ofEntryError]
  split <;> rfl

theorem find?_earlier (e : EntryError) (p : String × String → Bool) :
    ((e.earlier.find? p).map Prod.snd).getD e.help = e.help ↔ ∀ rule ∈ e.earlier, ¬p rule := by
  have hne : ∀ rule ∈ e.earlier, rule.2 ≠ e.help := by
    cases e <;> simp [EntryError.earlier, EntryError.help]
  rw [← List.find?_eq_none]
  cases hf : e.earlier.find? p with
  | none => simp
  | some rule => simpa using hne rule (List.mem_of_find?_eq_some hf)

theorem ofEntryError_advice (e : EntryError) (line column : Nat) (source : String) :
    let d := Diagnostic.ofEntryError e line column source
    d.kind = .invalidValue ∧ d.message = e.message ∧ d.line = line ∧ d.column = column ∧
      (line = 0 → d.context = "") ∧
      d.suggestion =
        some (((e.earlier.find? fun rule => contains rule.1.toList e.name.toList).map Prod.snd).getD e.help) ∧
      (d.suggestion = some e.help ↔ ∀ rule ∈ e.earlier, ¬rule.1.toList <:+: e.name.toList) := by
  have hs : (Diagnostic.ofEntryError e line column source).suggestion =
      some (((e.earlier.find? fun rule => contains rule.1.toList e.name.toList).map Prod.snd).getD e.help) := by
    rw [suggestion_ofEntryError]
    cases e with
    | missingValue name =>
      rw [advice_missingValue]
      simp only [EntryError.earlier, EntryError.name, List.find?_cons, List.find?_nil]
      cases contains "missing field `name`".toList name.toList <;> rfl
    | missingPattern name =>
      rw [advice_missingPattern]
      simp only [EntryError.earlier, EntryError.name, List.find?_cons, List.find?_nil]
      cases contains "missing field `name`".toList name.toList
      · cases contains "value or values must be specified".toList name.toList <;> rfl
      · rfl
  refine ⟨Diagnostic.kind_ofEntryError .., Diagnostic.message_ofEntryError .., Diagnostic.line_ofEntryError ..,
    Diagnostic.column_ofEntryError .., ?_, hs, ?_⟩
  · rintro rfl
    exact Diagnostic.context_ofEntryError_zero ..
  · rw [hs, Option.some.injEq, find?_earlier]
    simp only [contains_iff]

theorem suggestion_ne_help :
    (Diagnostic.ofEntryError (.missingValue "missing field `name`") 2 3
          "params:\n- name: missing field `name`\n").suggestion ≠
        some (EntryError.missingValue "missing field `name`").help ∧
      (Diagnostic.ofEntryError (.missingPattern "value or values must be specified") 2 3
          "params:\n- name: value or values must be specified\n  expand: true\n").suggestion ≠
        some (EntryError.missingPattern "value or values must be specified").help := by
  decide +kernel

end BraceParams
