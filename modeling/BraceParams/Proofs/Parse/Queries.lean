import BraceParams.Proofs.Parse.Entries

namespace BraceParams

open Report Schema

namespace Entry

variable {entry : Entry} {e : EntryError} {param : Param} {queries : List Query}

theorem generate_eq_ok_iff : entry.generate = .ok queries ↔ ∃ p, entry.toParam = .ok p ∧ p.queries = queries := by
  rw [generate]
  cases entry.toParam <;> simp [Except.map]

theorem generate_eq_error_iff : entry.generate = .error e ↔ entry.toParam = .error e := by
  rw [generate]
  cases entry.toParam <;> simp [Except.map]

theorem name_of_toParam (h : entry.toParam = .ok param) : param.name = entry.name := by
  rw [toParam] at h
  cases hs : entry.source with
  | error e =>
    rw [hs] at h
    cases h
  | ok source =>
    rw [hs] at h
    cases h
    rfl

theorem name_of_mem_generate (h : entry.generate = .ok queries) : ∀ q ∈ queries, q.name = entry.name := by
  obtain ⟨p, hp, rfl⟩ := generate_eq_ok_iff.mp h
  intro q hq
  obtain ⟨value, -, rfl⟩ := List.mem_map.mp hq
  exact name_of_toParam hp

/-- What the entry that is written for a parameter keeps of the entry that it was built from, and what that one
ignores: a list beside a pattern, and a value beside a list. -/
structure Normal (entry : Entry) (param : Param) : Prop where
  stable : param.toEntry.toParam = .ok param
  queries : param.toEntry.generate = entry.generate
  ignores_values : entry.expand = true → ∀ values, { entry with values : Entry }.generate = entry.generate
  ignores_value : entry.expand = false → entry.values ≠ none →
    ∀ value, { entry with value : Entry }.generate = entry.generate

theorem normal_of_toParam (h : entry.toParam = .ok param) : entry.Normal param := by
  refine ⟨Param.toParam_toEntry param, ?_, ?_, ?_⟩
  · rw [generate, generate, Param.toParam_toEntry, h]
  · intro hx values
    obtain ⟨name, value, _, expand⟩ := entry
    cases hx
    cases value <;> rfl
  · intro hx hv value
    obtain ⟨name, _, values, expand⟩ := entry
    cases hx
    obtain ⟨values, rfl⟩ := Option.ne_none_iff_exists'.mp hv
    rfl

end Entry

theorem firstFailure_generate {entries : List Entry} {k : Nat} {entry : Entry} {e : EntryError}
    (h : FirstFailure Entry.toParam entries k entry e) : FirstFailure Entry.generate entries k entry e := by
  refine ⟨h.element, Entry.generate_eq_error_iff.mpr h.fails, fun b hb => ?_⟩
  obtain ⟨p, hp⟩ := h.before b hb
  exact ⟨p.queries, Entry.generate_eq_ok_iff.mpr ⟨p, hp, rfl⟩⟩

theorem parts_of_params {entries : List Entry} {params : List Param}
    (h : List.Forall₂ (fun e p => Entry.toParam e = .ok p) entries params) :
    List.Forall₂ (fun e part => e.generate = .ok part ∧ ∀ q ∈ part, q.name = e.name) entries
      (params.map Param.queries) := by
  rw [List.forall₂_map_right_iff]
  refine h.imp fun e p hp => ?_
  have hg := Entry.generate_eq_ok_iff.mpr ⟨p, hp, rfl⟩
  exact ⟨hg, Entry.name_of_mem_generate hg⟩

theorem parse_agrees_generate {source : String} {entries : List Entry}
    (h : read source.toList readEntries = .ok entries) :
    ((∃ d, Document.parse source = .ok d) ↔ ∀ e ∈ entries, ∃ queries, e.generate = .ok queries) ∧
      (∀ d, Document.parse source = .ok d → ∃ parts,
        List.Forall₂ (fun e part => e.generate = .ok part ∧ ∀ q ∈ part, q.name = e.name) entries parts ∧
          d.queries = parts.flatten) ∧
      ((¬∃ d, Document.parse source = .ok d) → ∃ k entry e report,
        FirstFailure Entry.generate entries k entry e ∧ Document.parse source = .error report ∧
          report.message = e.message) ∧
      ∀ entry param, Entry.toParam entry = .ok param → entry.Normal param := by
  rcases all_ok_or_firstFailure Entry.toParam entries with ⟨params, hp⟩ | ⟨k, entry, e, hf⟩
  · have hparse := parse_of_forall₂ h hp
    have hparts := parts_of_params hp
    have hall := exists_ok_of_forall₂ (hparts.imp fun _ _ hp => hp.1)
    refine ⟨⟨fun _ => hall, fun _ => ⟨_, hparse⟩⟩, ?_, fun hn => absurd ⟨_, hparse⟩ hn,
      fun _ _ => Entry.normal_of_toParam⟩
    intro d hd
    rw [hparse] at hd
    cases hd
    exact ⟨_, hparts, List.flatMap_def⟩
  · obtain ⟨line, column, hparse, -⟩ := parse_of_firstFailure h hf
    have hgen := firstFailure_generate hf
    have hfails : ¬∃ d, Document.parse source = .ok d := by
      rintro ⟨d, hd⟩
      rw [hparse] at hd
      cases hd
    refine ⟨⟨fun hd => absurd hd hfails, fun hall => absurd hall hgen.not_all⟩, ?_, ?_,
      fun _ _ => Entry.normal_of_toParam⟩
    · exact fun d hd => absurd ⟨d, hd⟩ hfails
    · exact fun _ => ⟨k, entry, e, _, hgen, hparse, Diagnostic.message_ofEntryError ..⟩

theorem parse_agrees_generate_ignored :
    read "params:\n- name: a\n  value: x{1,2}\n  values: [y]\n  expand: true\n- {name: b, value: 1, values: [p]}".toList
        readEntries = .ok [⟨"a", some "x{1,2}", some ["y"], true⟩, ⟨"b", some "1", some ["p"], false⟩] ∧
      ∃ d, Document.parse
          "params:\n- name: a\n  value: x{1,2}\n  values: [y]\n  expand: true\n- {name: b, value: 1, values: [p]}" = .ok d ∧
        d.queries = [⟨"a", "x1"⟩, ⟨"a", "x2"⟩, ⟨"b", "p"⟩] := by
  have h : read "params:\n- name: a\n  value: x{1,2}\n  values: [y]\n  expand: true\n- {name: b, value: 1, values: [p]}".toList
      readEntries = .ok [⟨"a", some "x{1,2}", some ["y"], true⟩, ⟨"b", some "1", some ["p"], false⟩] :=
    eq_ok_of_toOption (by decide +kernel)
  obtain ⟨hiff, hqueries, -⟩ := parse_agrees_generate h
  have ha : Entry.generate ⟨"a", some "x{1,2}", some ["y"], true⟩ = .ok [⟨"a", "x1"⟩, ⟨"a", "x2"⟩] := by cbv
  have hb : Entry.generate ⟨"b", some "1", some ["p"], false⟩ = .ok [⟨"b", "p"⟩] := rfl
  obtain ⟨d, hd⟩ := hiff.mpr (by
    rw [List.forall_mem_cons, List.forall_mem_singleton]
    exact ⟨⟨_, ha⟩, _, hb⟩)
  obtain ⟨parts, hparts, hflat⟩ := hqueries d hd
  refine ⟨h, d, hd, ?_⟩
  cases hparts with
  | cons h₁ hparts =>
    cases hparts with
    | cons h₂ hparts =>
      cases hparts
      rw [ha] at h₁
      rw [hb] at h₂
      cases h₁.1
      cases h₂.1
      exact hflat
end BraceParams
