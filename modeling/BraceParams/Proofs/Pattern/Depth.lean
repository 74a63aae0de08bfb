import Mathlib.Data.List.Chain
import BraceParams.Proofs.Pattern.Composition
import BraceParams.Proofs.Pattern.Octets

/-!
How deep the calls of an expansion nest. A call leaves fewer live braces open to expansion or takes up
what was put aside, and it takes that up only if the call around it has found a group, so a chain of
calls is at most twice as long as there are live braces, and one longer.
-/

namespace BraceParams.Pattern

open Text

/-- Expansion by at most `calls` calls one inside the other. -/
def expandWithin : (calls : Nat) → (done pattern rest : List Char) → Option (List (List Char))
  | 0, _, _, _ => none
  | calls + 1, done, pattern, rest =>
    match findGroup pattern with
    | some g =>
      let head := done ++ g.head pattern
      let tail := g.tail pattern ++ rest
      ((g.alternatives pattern).mapM fun alternative => expandWithin calls head alternative tail).map
        List.flatten
    | none =>
      if rest.isEmpty then some [unescape (done ++ pattern)]
      else expandWithin calls (done ++ pattern) rest []

def openings (s : List Char) : Nat :=
  (live s).count (some '{')

structure Call where
  done : List Char
  pattern : List Char
  rest : List Char

namespace Call

def start (p : List Char) : Call :=
  ⟨[], p, []⟩

inductive Makes : Call → Call → Prop
  | alternative {done q rest a : List Char} {g : Group} (hg : findGroup q = some g)
      (ha : a ∈ g.alternatives q) : Makes ⟨done, q, rest⟩ ⟨done ++ g.head q, a, g.tail q ++ rest⟩
  | rest {done q rest : List Char} (hg : findGroup q = none) (hr : rest ≠ []) :
      Makes ⟨done, q, rest⟩ ⟨done ++ q, rest, []⟩

def Nested (c : Call) (calls : List Call) : Prop :=
  calls.head? = some c ∧ calls.IsChain Makes

theorem nested_singleton (c : Call) : c.Nested [c] :=
  ⟨rfl, .singleton c⟩

theorem Nested.cons {c d : Call} {calls : List Call} (hc : c.Makes d) (h : d.Nested calls) :
    c.Nested (c :: calls) := by
  refine ⟨rfl, List.isChain_cons.mpr ⟨fun e he => ?_, h.2⟩⟩
  rw [h.1, Option.mem_some_iff] at he
  exact he ▸ hc

theorem Nested.cases {c : Call} {calls : List Call} (h : c.Nested calls) :
    calls = [c] ∨ ∃ d inner, calls = c :: inner ∧ c.Makes d ∧ d.Nested inner := by
  obtain ⟨hh, hc⟩ := h
  match calls with
  | [] => cases hh
  | [e] =>
    cases hh
    exact .inl rfl
  | e :: d :: inner =>
    cases hh
    rw [List.isChain_cons_cons] at hc
    exact .inr ⟨d, d :: inner, rfl, hc.1, rfl, hc.2⟩

end Call

theorem mapM_eq_some_iff {α β : Type} {f : α → Option β} {l : List α} {bs : List β} :
    l.mapM f = some bs ↔ l.map f = bs.map some := by
  induction l generalizing bs with
  | nil => cases bs <;> simp
  | cons a l ih =>
    rw [List.mapM_cons, Option.bind_eq_bind, Option.bind_eq_some_iff]
    constructor
    · rintro ⟨b, hb, hr⟩
      obtain ⟨cs, hcs, hr⟩ := Option.bind_eq_some_iff.mp hr
      cases hr
      rw [List.map_cons, List.map_cons, hb, ih.mp hcs]
    · intro h
      cases bs with
      | nil => cases h
      | cons b bs =>
        rw [List.map_cons, List.map_cons, List.cons.injEq] at h
        refine ⟨b, h.1, ?_⟩
        rw [ih.mpr h.2]
        rfl

theorem mapM_eq_none {α β : Type} {f : α → Option β} {l : List α} {a : α} (ha : a ∈ l) (h : f a = none) :
    l.mapM f = none := by
  rw [Option.eq_none_iff_forall_ne_some]
  intro bs hbs
  have hm := List.mem_map_of_mem (f := f) ha
  rw [mapM_eq_some_iff.mp hbs, h] at hm
  simp at hm

theorem openings_append {a : List Char} (b : List Char) (h : Settled a) :
    openings (a ++ b) = openings a + openings b := by
  rw [openings, live_append b h, List.count_append, openings, openings]

theorem openings_cons_of_ne {c : Char} (s : List Char) (h : c ≠ '\\') :
    openings (c :: s) = openings s + if c = '{' then 1 else 0 := by
  rw [openings, live_cons_of_ne s h, List.count_cons]
  simp [openings]

theorem openings_le_intercalate {as : List (List Char)} {a : List Char} (h : ∀ b ∈ as, Alternative b)
    (ha : a ∈ as) : openings a ≤ openings ([','].intercalate as) := by
  induction as with
  | nil => cases ha
  | cons b as ih =>
    by_cases he : as = []
    · subst he
      rw [List.mem_singleton.mp ha, List.intercalate_singleton]
    · have hr := ih fun c hc => h c (List.mem_cons_of_mem b hc)
      rw [intercalate_cons he, openings_append _ (h b List.mem_cons_self).settled,
        openings_cons_of_ne _ (by decide)]
      rcases List.mem_cons.mp ha with rfl | ha
      · omega
      · have := hr ha
        omega

theorem FirstGroup.openings_lt {p head tail a : List Char} {alternatives : List (List Char)}
    (h : FirstGroup p head alternatives tail) (ha : a ∈ alternatives) :
    openings a + openings tail < openings p := by
  have hb := (alternative_braced h.alternative).settled
  have hi := (level_intercalate h.alternative).1
  have hle := openings_le_intercalate h.alternative ha
  have hg : openings (braced alternatives) = openings ([','].intercalate alternatives) + 1 := by
    rw [braced, openings_cons_of_ne _ (by decide), openings_append _ hi]
    rfl
  rw [h.text, List.append_assoc, openings_append _ h.settled, openings_append _ hb]
  omega

section

variable {p done q rest : List Char} {fuel : Nat}

/-- Twice the live braces that are left to read, and one more if a text is put aside. -/
def Call.weight (c : Call) : Nat :=
  2 * (openings c.pattern + openings c.rest) + if c.rest = [] then 0 else 1

theorem Call.Makes.reached {c d : Call} (h : c.Makes d) (hc : Reached p c.done c.pattern c.rest) :
    Reached p d.done d.pattern d.rest := by
  cases h with
  | alternative hg ha => exact hc.alternative hg ha
  | rest hg hr => exact hc.rest hg hr

theorem Call.Makes.weight_lt {c d : Call} (h : c.Makes d) (hc : Carried c.done c.pattern c.rest) :
    d.weight < c.weight := by
  cases h with
  | @alternative done q rest a g hg ha =>
    have hf := FirstGroup.of_findGroup hg
    have hlt := hf.openings_lt ha
    -- the tail is joined to what was put aside; no escape pair and no live brace is made there
    have ht : openings (g.tail q ++ rest) = openings (g.tail q) + openings rest := by
      rcases hc.joined with hr | ⟨hs, -⟩
      · simp only at hr
        rw [hr, List.append_nil]
        rfl
      · exact openings_append rest (hf.settled_tail.mp hs)
    simp only [Call.weight, ht]
    split <;> split <;> omega
  | @rest done q rest hg hr =>
    simp only [Call.weight, if_neg hr, if_pos, show openings [] = 0 from rfl]
    omega

theorem Call.Nested.length_le {c : Call} {calls : List Call} (h : c.Nested calls)
    (hc : Reached p c.done c.pattern c.rest) : calls.length ≤ c.weight + 1 := by
  -- along the chain every call is reached from `p`, so what it carries can be read apart
  induction calls generalizing c with
  | nil => exact Nat.zero_le _
  | cons e inner ih =>
    rcases h.cases with he | ⟨d, inner, he, hd, hi⟩
    · rw [he, List.length_singleton]
      omega
    · cases he
      have hl := ih hi (hd.reached hc)
      have hw := hd.weight_lt hc.carried
      rw [List.length_cons]
      omega

theorem expandWithin_of_nested (h : ∀ calls, Call.Nested ⟨done, q, rest⟩ calls → calls.length ≤ fuel) :
    expandWithin fuel done q rest = some (expandInto done q rest) := by
  induction fuel generalizing done q rest with
  | zero => exact absurd (h _ (Call.nested_singleton _)) (by simp)
  | succ fuel ih =>
    have hinner {d : Call} (hd : Call.Makes ⟨done, q, rest⟩ d) :
        expandWithin fuel d.done d.pattern d.rest = some (expandInto d.done d.pattern d.rest) :=
      ih fun calls hc => Nat.le_of_succ_le_succ (h _ (hc.cons hd))
    rw [expandWithin]
    cases hg : findGroup q with
    | some g =>
      have hm : (g.alternatives q).mapM (fun a => expandWithin fuel (done ++ g.head q) a (g.tail q ++ rest)) =
          some ((g.alternatives q).map fun a => expandInto (done ++ g.head q) a (g.tail q ++ rest)) := by
        rw [mapM_eq_some_iff, List.map_map]
        exact List.map_congr_left fun a ha => hinner (.alternative hg ha)
      simp only [hm, Option.map_some, expandInto_firstGroup done rest (.of_findGroup hg), List.flatMap_def]
    | none =>
      by_cases hr : rest = []
      · subst hr
        rw [expandInto_nil done hg]
        rfl
      · simp only [List.isEmpty_iff, if_neg hr, expandInto_rest done rest hg]
        exact hinner (.rest hg hr)

theorem expandWithin_of_lt_length {c : Call} {calls : List Call} (h : c.Nested calls) (hl : fuel < calls.length) :
    expandWithin fuel c.done c.pattern c.rest = none := by
  induction fuel generalizing c calls with
  | zero => rfl
  | succ fuel ih =>
    rcases h.cases with rfl | ⟨d, inner, rfl, hd, hi⟩
    · simp at hl
    · have hn := ih hi (Nat.lt_of_succ_lt_succ hl)
      cases hd with
      | @alternative done q rest a g hg ha =>
        rw [expandWithin]
        have hm := mapM_eq_none (f := fun a => expandWithin fuel (done ++ g.head q) a (g.tail q ++ rest)) ha hn
        simp only [hg, hm, Option.map_none]
      | @rest done q rest hg hr =>
        rw [expandWithin]
        simp only [hg, List.isEmpty_iff, if_neg hr]
        exact hn

theorem expandWithin_eq_none_iff {c : Call} :
    expandWithin fuel c.done c.pattern c.rest = none ↔ ∃ calls, c.Nested calls ∧ fuel < calls.length := by
  constructor
  · intro hn
    by_contra hc
    push Not at hc
    rw [expandWithin_of_nested hc] at hn
    cases hn
  · rintro ⟨calls, hc, hl⟩
    exact expandWithin_of_lt_length hc hl

end

def row : Nat → List Char
  | 0 => ['x']
  | k + 1 => '{' :: ',' :: '}' :: row k

theorem openings_row (k : Nat) : openings (row k) = k := by
  induction k with
  | zero => rfl
  | succ k ih =>
    rw [row, openings_cons_of_ne _ (by decide), openings_cons_of_ne _ (by decide),
      openings_cons_of_ne _ (by decide), ih]
    rfl

theorem findGroup_row (k : Nat) : findGroup (row (k + 1)) = some ⟨0, 2, [1]⟩ := by
  simp [findGroup, row, findFrom, close?]

theorem exists_nested_row (done : List Char) (k : Nat) :
    ∃ calls, Call.Nested ⟨done, row k, []⟩ calls ∧ calls.length = 2 * k + 1 := by
  induction k generalizing done with
  | zero => exact ⟨_, Call.nested_singleton _, rfl⟩
  | succ k ih =>
    obtain ⟨calls, hc, hl⟩ := ih (done ++ [] ++ [])
    have hne : row k ++ [] ≠ [] := by cases k <;> exact List.cons_ne_nil _ _
    have hr : Call.Makes ⟨done ++ [], [], row k ++ []⟩ ⟨done ++ [] ++ [], row k ++ [], []⟩ := .rest rfl hne
    have ha : Call.Makes ⟨done, row (k + 1), []⟩ ⟨done ++ [], [], row k ++ []⟩ :=
      .alternative (findGroup_row k) List.mem_cons_self
    rw [List.append_nil (row k)] at hr ha
    refine ⟨_, (hc.cons hr).cons ha, ?_⟩
    simp only [List.length_cons, hl]
    omega

theorem nested_calls_linear :
    (∀ p, openings p = (Octets.mask (encode p)).count '{'.toUInt8 ∧
      (∀ calls, (Call.start p).Nested calls → calls.length ≤ 2 * openings p + 1) ∧
      (∀ fuel, 2 * openings p + 1 ≤ fuel → expandWithin fuel [] p [] = some (expand p)) ∧
      ∀ fuel, expandWithin fuel [] p [] = none ↔
        ∃ calls, (Call.start p).Nested calls ∧ fuel < calls.length) ∧
    ∀ k, ∃ p calls, openings p = k ∧ (Call.start p).Nested calls ∧ calls.length = 2 * k + 1 := by
  constructor
  · intro p
    have hl (calls : List Call) (hc : (Call.start p).Nested calls) : calls.length ≤ 2 * openings p + 1 :=
      hc.length_le .start
    refine ⟨?_, hl, ?_, fun fuel => expandWithin_eq_none_iff (c := .start p)⟩
    · rw [Octets.mask_encode, Octets.count_flatMap_shown (by decide) (by decide), openings]
    · intro fuel hf
      exact expandWithin_of_nested fun calls hc => Nat.le_trans (hl calls hc) hf
  · intro k
    obtain ⟨calls, hc, hl⟩ := exists_nested_row [] k
    exact ⟨row k, calls, openings_row k, hc, hl⟩

end BraceParams.Pattern
