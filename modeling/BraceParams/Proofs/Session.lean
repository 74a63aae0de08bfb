import Mathlib.Data.List.Dedup
import BraceParams.Session

namespace BraceParams

theorem distinctCount_eq (queries : List Query) : distinctCount queries = queries.dedup.length := by
  have hperm : (Std.HashSet.ofList queries).toList.Perm queries.dedup := by
    rw [List.perm_ext_iff_of_nodup ?_ queries.nodup_dedup]
    · intro q
      rw [Std.HashSet.mem_toList, Std.HashSet.mem_ofList, List.contains_iff_mem, List.mem_dedup]
    · have hd := Std.HashSet.distinct_toList (m := Std.HashSet.ofList queries)
      exact hd.imp fun h he => by simp [he] at h
  rw [distinctCount, ← Std.HashSet.length_toList, hperm.length_eq]

namespace Session

def Step.fails : Step → Bool
  | .push (.error _) => true
  | .load source => (Document.parse source).toOption.isNone
  | _ => false

def Step.isLoad : Step → Bool
  | .load _ => true
  | _ => false

def Result.isFresh : Result → Bool
  | .pushed _ _ fresh => fresh
  | _ => false

def after (s : Session) (steps : List Step) : Session :=
  steps.foldl (fun s step => (s.step step).1) s

variable {s s' : Session} {step : Step} {steps : List Step} {p : Param} {r : Result}

theorem after_cons : s.after (step :: steps) = (s.step step).1.after steps := rfl

theorem step_of_fails (h : step.fails) : (s.step step).1 = s := by
  cases step with
  | push param =>
    cases param with
    | error e => rfl
    | ok p => cases h
  | load source =>
    cases hd : Document.parse source with
    | error d => simp only [Session.step, hd]
    | ok document => simp [Step.fails, hd, Except.toOption] at h
  | pop => cases h
  | clear => cases h
  | dump => cases h

theorem after_filter : s.after (steps.filter (!·.fails)) = s.after steps := by
  induction steps generalizing s with
  | nil => rfl
  | cons step steps ih =>
    cases h : step.fails with
    | true => rw [List.filter_cons_of_neg (by simp [h]), ih, after_cons, step_of_fails h]
    | false => rw [List.filter_cons_of_pos (by simp [h]), after_cons, ih, after_cons]

theorem seen_step (s : Session) (step : Step) :
    (∃ p, step = .push (.ok p) ∧ p ∉ s.seen ∧ (s.step step).1.seen = s.seen ++ [p] ∧
      (s.step step).2.isFresh = true) ∨
    ((∀ p, step = .push (.ok p) → p ∈ s.seen) ∧ (s.step step).1.seen = s.seen ∧
      (s.step step).2.isFresh = false) := by
  cases step with
  | push param =>
    cases param with
    | error e => exact .inr ⟨nofun, rfl, rfl⟩
    | ok p =>
      by_cases hp : p ∈ s.seen
      · refine .inr ⟨?_, by simp [Session.step, push, hp], by simp [Session.step, push, hp, Result.isFresh]⟩
        rintro q ⟨⟩
        exact hp
      · exact .inl ⟨p, rfl, hp, by simp [Session.step, push, hp], by simp [Session.step, push, hp, Result.isFresh]⟩
  | load source =>
    refine .inr ⟨nofun, ?_⟩
    rw [Session.step]
    cases Document.parse source with
    | error d => exact ⟨rfl, rfl⟩
    | ok document => exact ⟨rfl, rfl⟩
  | pop => exact .inr ⟨nofun, rfl, rfl⟩
  | clear => exact .inr ⟨nofun, rfl, rfl⟩
  | dump => exact .inr ⟨nofun, rfl, rfl⟩

theorem mem_seen_step : p ∈ (s.step step).1.seen ↔ p ∈ s.seen ∨ step = .push (.ok p) := by
  rcases seen_step s step with ⟨q, rfl, -, hs, -⟩ | ⟨hq, hs, -⟩
  · rw [hs]
    simp [eq_comm]
  · rw [hs]
    exact ⟨.inl, fun h => h.elim id (hq p)⟩

theorem nodup_seen_step (h : s.seen.Nodup) : (s.step step).1.seen.Nodup := by
  rcases seen_step s step with ⟨q, -, hq, hs, -⟩ | ⟨-, hs, -⟩
  · rw [hs, ← List.concat_eq_append]
    exact h.concat hq
  · rwa [hs]

theorem length_seen_step :
    (s.step step).1.seen.length = s.seen.length + if (s.step step).2.isFresh then 1 else 0 := by
  rcases seen_step s step with ⟨q, -, -, hs, hf⟩ | ⟨-, hs, hf⟩
  · rw [hs, hf, List.length_append]
    rfl
  · rw [hs, hf]
    rfl

theorem isFresh_step_iff :
    (s.step step).2.isFresh = true ↔ ∃ p, step = .push (.ok p) ∧ p ∉ s.seen := by
  rcases seen_step s step with ⟨q, rfl, hq, -, hf⟩ | ⟨hq, -, hf⟩
  · exact ⟨fun _ => ⟨q, rfl, hq⟩, fun _ => hf⟩
  · rw [hf]
    exact ⟨nofun, fun ⟨p, hp, hn⟩ => absurd (hq p hp) hn⟩

theorem subset_seen_step (hl : step.isLoad = false) (h : s.document.params ⊆ s.seen) :
    (s.step step).1.document.params ⊆ (s.step step).1.seen := by
  have hseen : s.seen ⊆ (s.step step).1.seen := fun p hp => mem_seen_step.mpr (.inl hp)
  cases step with
  | push param =>
    cases param with
    | error e => exact h
    | ok p =>
      refine List.append_subset.mpr ⟨List.Subset.trans h hseen, ?_⟩
      exact List.cons_subset.mpr ⟨mem_seen_step.mpr (.inr rfl), List.nil_subset _⟩
  | pop => exact List.Subset.trans (List.dropLast_subset _) h
  | clear => exact List.nil_subset _
  | load source => cases hl
  | dump => exact h

theorem idxOf_of_pushed {place : Option Nat} {fresh : Bool} (h : s.step step = (s', .pushed p place fresh)) :
    s'.document.params.idxOf p = place.getD s.document.params.length := by
  cases step with
  | push param =>
    cases param with
    | error e => cases h
    | ok q =>
      cases h
      have hidx : s.document.params.findIdx (· = p) = s.document.params.idxOf p :=
        congrArg (List.findIdx · _) (funext fun q => (beq_eq_decide q p).symm)
      rw [← List.findIdx_eq_getD_findIdx?, hidx, List.idxOf_append]
      split
      case isTrue hp => rfl
      case isFalse hp => rw [List.idxOf_of_notMem hp, List.idxOf_cons_self, Nat.zero_add]
  | load source =>
    rw [Session.step] at h
    cases hd : Document.parse source with
    | error d => simp [hd] at h
    | ok document => simp [hd] at h
  | pop => cases h
  | clear => cases h
  | dump => cases h

theorem mem_seen_after : p ∈ (s.after steps).seen ↔ p ∈ s.seen ∨ .push (.ok p) ∈ steps := by
  induction steps generalizing s with
  | nil => simp [after]
  | cons step steps ih => rw [after_cons, ih, mem_seen_step, List.mem_cons, or_assoc, eq_comm]

theorem nodup_seen_after (h : s.seen.Nodup) : (s.after steps).seen.Nodup := by
  induction steps generalizing s with
  | nil => exact h
  | cons step steps ih => exact ih (nodup_seen_step h)

theorem subset_seen_after (hl : ∀ step ∈ steps, step.isLoad = false) (h : s.document.params ⊆ s.seen) :
    (s.after steps).document.params ⊆ (s.after steps).seen := by
  induction steps generalizing s with
  | nil => exact h
  | cons step steps ih =>
    obtain ⟨hstep, hsteps⟩ := List.forall_mem_cons.mp hl
    exact ih hsteps (subset_seen_step hstep h)

theorem getElem?_run (s : Session) (steps : List Step) (i : Nat) :
    (s.run steps)[i]? = steps[i]?.map (s.after (steps.take i)).step := by
  induction steps generalizing s i with
  | nil => simp [run]
  | cons step steps ih =>
    cases i with
    | zero => rfl
    | succ i => exact ih _ i

theorem isFresh_run_iff {i : Nat} (h : (s.run steps)[i]? = some (s', r)) :
    r.isFresh = true ↔
      ∃ p, steps[i]? = some (.push (.ok p)) ∧ p ∉ s.seen ∧ .push (.ok p) ∉ steps.take i := by
  rw [getElem?_run, Option.map_eq_some_iff] at h
  obtain ⟨step, hi, hs⟩ := h
  have hr : r = ((s.after (steps.take i)).step step).2 := by rw [hs]
  rw [hr, isFresh_step_iff]
  simp only [mem_seen_after, not_or, hi, Option.some.injEq]

theorem length_seen_after :
    (s.after steps).seen.length = s.seen.length + (s.run steps).countP (·.2.isFresh) := by
  induction steps generalizing s with
  | nil => rfl
  | cons step steps ih =>
    rw [after_cons, ih, length_seen_step, run, List.countP_cons]
    omega

end Session

end BraceParams
