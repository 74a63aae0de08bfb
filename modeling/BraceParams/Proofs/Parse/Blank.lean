import Mathlib.Data.List.TakeWhile
import BraceParams.Proofs.Yaml.Nodes

namespace BraceParams.Text

theorem isBlank_of_trim_eq_nil {text : List Char} (h : trim text = []) : ∀ c ∈ text, isBlank c = true := by
  have hl : text.dropWhile isBlank = [] := by
    by_contra hne
    rw [trim, trimBy, List.reverse_eq_nil_iff, List.dropWhile_eq_nil_iff] at h
    have hhead := List.head_dropWhile_not isBlank hne
    have hblank := h _ (List.mem_reverse.mpr (List.head_mem hne))
    rw [hhead] at hblank
    cases hblank
  exact List.dropWhile_eq_nil_iff.mp hl

end BraceParams.Text

namespace BraceParams.Yaml

theorem exists_ok_of_bind {ε α β : Type} {x : Except ε α} {f : α → Except ε β} {b : β} (h : x >>= f = .ok b) :
    ∃ a, x = .ok a ∧ f a = .ok b := by
  cases x with
  | error e => cases h
  | ok a => exact ⟨a, rfl, h⟩

def Token.Lone (t : Token) : Prop :=
  t.kind = .streamEnd ∨ ∃ text, t.kind = .scalar text .plain

namespace Scanner

/-- Where scanning a blank text can come to. -/
structure Quiet (s : Scanner) : Prop where
  rest : ∀ c ∈ s.cursor.rest, Text.isBlank c = true
  tokens : ∀ t ∈ s.tokens, t.Lone
  blocks : s.blocks = []

variable {s s' : Scanner}

theorem Quiet.congr (h : s.Quiet) (hc : s'.cursor = s.cursor) (ht : s'.tokens = s.tokens)
    (hb : s'.blocks = s.blocks) : s'.Quiet := by
  constructor
  · rw [hc]
    exact h.rest
  · rw [ht]
    exact h.tokens
  · rw [hb]
    exact h.blocks

theorem Quiet.push (h : s.Quiet) {t : Token} (ht : t.Lone) : (s.push t).Quiet := by
  refine ⟨h.rest, fun u hu => ?_, h.blocks⟩
  rcases List.mem_cons.mp hu with rfl | hu
  · exact ht
  · exact h.tokens u hu

theorem Quiet.moved (h : s.Quiet) {cursor : Cursor} (hc : cursor.rest <:+ s.cursor.rest) (keyAllowed : Bool) :
    ({ s with cursor, keyAllowed } : Scanner).Quiet :=
  ⟨fun c hm => h.rest c (hc.mem hm), h.tokens, h.blocks⟩

theorem Quiet.dropKey (h : s.Quiet) (hd : s.dropKey = .ok s') : s'.Quiet := by
  unfold Scanner.dropKey at hd
  split at hd
  · cases hd
    exact h
  · split at hd
    · cases hd
    · cases hd
      exact h.congr rfl rfl rfl

theorem Quiet.saveKey (h : s.Quiet) (hd : s.saveKey = .ok s') : s'.Quiet := by
  unfold Scanner.saveKey at hd
  split at hd
  · obtain ⟨s₁, hk, hd⟩ := exists_ok_of_bind hd
    cases hd
    exact (h.dropKey hk).congr rfl rfl rfl
  · cases hd
    exact h

theorem Quiet.dropStale (h : s.Quiet) (hd : s.dropStale = .ok s') : s'.Quiet := by
  unfold Scanner.dropStale at hd
  obtain ⟨outer, -, hd⟩ := exists_ok_of_bind hd
  obtain ⟨pending, -, hd⟩ := exists_ok_of_bind hd
  cases hd
  exact h.congr rfl rfl rfl

theorem Quiet.closeBlocks (h : s.Quiet) : (s.closeBlocks [] []).Quiet := by
  unfold Scanner.closeBlocks
  split
  · exact h
  · exact ⟨h.rest, h.tokens, rfl⟩

theorem skipSpace_suffix (inFlow : Bool) (space : Space) (keyAllowed : Bool) (m : Mark) (text : List Char) :
    (skipSpace inFlow space keyAllowed m text).2.rest <:+ text := by
  fun_induction skipSpace inFlow space keyAllowed m text with
  | case1 => exact List.suffix_refl []
  | case7 => exact List.suffix_refl _
  | _ => exact List.IsSuffix.trans ‹_› (List.suffix_cons _ _)

theorem Quiet.toToken (h : s.Quiet) : s.toToken.Quiet :=
  h.moved (skipSpace_suffix ..) _

end Scanner

theorem Plain.readFrom_suffix {inFlow : Bool} {indent : Nat} {start stop m : Mark} {text rest : List Char}
    {spacing : Spacing} {r : Plain.Reading}
    (h : Plain.readFrom inFlow indent start text stop spacing m rest = .ok r) : r.cursor.rest <:+ rest := by
  fun_induction Plain.readFrom inFlow indent start text stop spacing m rest with
  | case1 =>
    cases h
    exact List.suffix_refl []
  | case2 => cases h
  | case3 text stop spacing m c rest _ _ ih => exact (ih h).trans (List.suffix_cons c rest)
  | case4 text stop spacing m c rest _ _ ih => exact (ih h).trans (List.suffix_cons c rest)
  | case5 =>
    cases h
    exact List.suffix_refl _
  | case6 => cases h
  | case7 =>
    cases h
    exact List.suffix_refl _
  | case8 text stop spacing m c rest _ _ _ _ _ ih => exact (ih h).trans (List.suffix_cons c rest)

namespace Scanner

variable {s s' : Scanner}

theorem Quiet.plainScalar (h : s.Quiet) (hp : s.plainScalar = .ok s') : s'.Quiet := by
  obtain ⟨s₁, hk, hp⟩ := exists_ok_of_bind hp
  obtain ⟨r, hr, hp⟩ := exists_ok_of_bind hp
  cases hp
  exact ((h.saveKey hk).moved (Plain.readFrom_suffix hr) r.atBreak).push (.inr ⟨r.text, rfl⟩)

theorem Quiet.closeAll (h : s.Quiet) : s.closeAll.Quiet := by
  rw [Scanner.closeAll, h.blocks]
  exact h.closeBlocks

theorem Quiet.closeDeeper (h : s.Quiet) : s.closeDeeper.Quiet := by
  rw [Scanner.closeDeeper, h.blocks]
  exact h.closeBlocks

theorem Quiet.endStream (h : s.Quiet) (he : s.endStream = .ok s') : s'.Quiet := by
  obtain ⟨s₁, hk, he⟩ := exists_ok_of_bind he
  cases he
  have h₁ := (h.moved List.nil_suffix s.keyAllowed).closeAll.dropKey hk
  exact (h₁.moved (List.suffix_refl _) false).push (.inl rfl)

theorem Quiet.token (h : s.Quiet) (ht : s.token = .ok s') : s'.Quiet := by
  unfold Scanner.token at ht
  split at ht
  · exact h.endStream ht
  · next c r hr =>
    have hc : Text.isBlank c = true := h.rest c (hr ▸ List.mem_cons_self)
    have hne (d : Char) (hd : Text.isBlank d = false) : c ≠ d := by
      rintro rfl
      rw [hc] at hd
      cases hd
    have hs (d : Char) (hd : Text.isBlank d = false) : isSeparator d s.mark (c :: r) = false := by
      simp [isSeparator, Ne.symm (hne d hd)]
    simp [hne '%' rfl, hs '-' rfl, hs '.' rfl, hne '[' rfl, hne '{' rfl, hne ']' rfl, hne '}' rfl,
      hne ',' rfl, hne '-' rfl, hne '?' rfl, hne ':' rfl, hne '*' rfl, hne '&' rfl, hne '!' rfl,
      hne '|' rfl, hne '>' rfl, hne '\'' rfl, hne '"' rfl] at ht
    split at ht
    · exact h.plainScalar ht
    · cases ht

theorem Quiet.step (h : s.Quiet) (hs : s.step = .ok s') : s'.Quiet := by
  obtain ⟨s₁, hd, hs⟩ := exists_ok_of_bind hs
  obtain ⟨s₂, ht, hs⟩ := exists_ok_of_bind hs
  exact ((h.toToken.dropStale hd).closeDeeper.token ht).dropStale hs

theorem Quiet.stepWithin (h : s.Quiet) (horizon : Horizon) (hs : s.stepWithin horizon = .ok s') : s'.Quiet := by
  unfold Scanner.stepWithin at hs
  dsimp only at hs
  split at hs
  · cases hs
  · obtain ⟨s₁, hd, hs⟩ := exists_ok_of_bind hs
    split at hs
    · cases hs
    · split at hs
      · cases hs
      · next s₂ ht =>
        split at hs
        · exact ((h.toToken.dropStale hd).closeDeeper.token ht).dropStale hs
        · cases hs

end Scanner

theorem Tokens.lone_of_scanFrom {step : Scanner → Except SyntaxError Scanner}
    (hstep : ∀ s s' : Scanner, s.Quiet → step s = .ok s' → s'.Quiet) (fuel : Nat) {s : Scanner} (h : s.Quiet) :
    ∀ t ∈ (scanFrom step fuel s).served, t.Lone := by
  induction fuel generalizing s with
  | zero =>
    intro t ht
    exact h.tokens t (List.mem_reverse.mp ht)
  | succ fuel ih =>
    intro t ht
    rw [scanFrom] at ht
    cases hs : step s with
    | error e =>
      rw [hs] at ht
      exact h.tokens t (List.mem_reverse.mp (List.mem_of_mem_take ht))
    | ok s' =>
      have h' := hstep s s' h hs
      rw [hs] at ht
      dsimp only at ht
      split at ht
      · exact h'.tokens t (List.mem_reverse.mp ht)
      · exact ih h' t ht

theorem isBlank_of_mem_unifyBreaks {text : List Char} (h : ∀ c ∈ text, Text.isBlank c = true) :
    ∀ c ∈ unifyBreaks text, Text.isBlank c = true := by
  fun_induction unifyBreaks text with
  | case1 => exact h
  | case2 r ih =>
    rintro c (_ | ⟨_, hc⟩)
    · rfl
    · exact ih (fun d hd => h d (by simp [hd])) c hc
  | case3 c r _ ih =>
    intro d hd
    rcases List.mem_cons.mp hd with rfl | hd
    · split
      · rfl
      · exact h c List.mem_cons_self
    · exact ih (fun e he => h e (List.mem_cons_of_mem c he)) d hd

theorem Tokens.lone_of_blank {text : List Char} (h : ∀ c ∈ text, Text.isBlank c = true) :
    ∀ t ∈ (Tokens.ofText text).served, t.Lone := by
  apply Tokens.lone_of_scanFrom
  · intro s s' hs
    cases Horizon.ofText? text with
    | none => exact hs.step
    | some horizon => exact hs.stepWithin horizon
  · exact ⟨isBlank_of_mem_unifyBreaks h, by simp, rfl⟩

inductive Flat : List Event → Prop
  | none : Flat []
  | nothing (m : Mark) : Flat [⟨.nothing, m⟩]
  | scalar (text : List Char) (m : Mark) : Flat [⟨.scalar none none text .plain, m⟩]

theorem Goal.run_lone {handles : Handles} {t : Token} {l : List Token} {error : Option SyntaxError} {text : List Char}
    (h : t.kind = .scalar text .plain) :
    Goal.run handles [] [.node true false] ⟨t :: l, error⟩ =
      ([⟨.scalar none none text .plain, t.start⟩], .ok ⟨l, error⟩) := by
  have hs : Goal.step handles (.node true false) ⟨t :: l, error⟩ =
      .ok ([⟨.scalar none none text .plain, t.start⟩], [], ⟨l, error⟩) := by
    simp [Goal.step, Goal.nodeStep, Goal.properties, Goal.Properties.resolve, Goal.content, Tokens.peek, Tokens.drop, h]
  rw [Goal.run_of_step hs, List.nil_append, Goal.run]
  rfl

theorem Events.flat_of_lone {ts : Tokens} (h : ∀ t ∈ ts.served, t.Lone) : Flat (Events.ofTokens ts).list := by
  obtain ⟨served, error⟩ := ts
  cases served with
  | nil =>
    cases error with
    | none => exact .nothing .start
    | some e => exact .none
  | cons t l =>
    rcases h t List.mem_cons_self with ht | ⟨text, ht⟩
    · have he : Events.ofTokens ⟨t :: l, error⟩ = { list := [⟨.nothing, t.start⟩] } := by
        simp [Events.ofTokens, Tokens.peek, ht]
      rw [he]
      exact .nothing t.start
    · have he : Events.ofTokens ⟨t :: l, error⟩ = Events.close [⟨.scalar none none text .plain, t.start⟩] ⟨l, error⟩ := by
        simp [Events.ofTokens, Tokens.peek, ht, Directives.isDirective, Events.ofGoals, Goal.run_lone ht]
      rw [he, Events.close]
      cases Tokens.peek ⟨l, error⟩ <;> exact .scalar text t.start

end BraceParams.Yaml

namespace BraceParams.Schema

open Yaml

theorem follow_root_of_flat {events : Events} (h : Flat events.list) {n : Node} {jumps : Nat}
    (hf : follow (Tree.ofEvents events) (Tree.ofEvents events).root 0 = .ok (n, jumps)) :
    ∀ mark tag entries, n ≠ .mapping mark tag entries := by
  obtain ⟨list, error, more⟩ := events
  cases h <;> (cases hf; intro _ _ _ he; cases he)

theorem entries_of_blank {text : List Char} {entries : List Entry} (h : ∀ c ∈ text, Text.isBlank c = true)
    (hr : read text readEntries = .ok entries) : entries = [] := by
  obtain ⟨⟨jumps, hr⟩, -, -⟩ := read_eq_ok.mp hr
  obtain ⟨n, between, hf, hn⟩ := readItems_ok.mp hr
  have hm := follow_root_of_flat (Events.flat_of_lone (Tokens.lone_of_blank h)) hf
  rcases hn with ⟨-, he, -⟩ | ⟨mark, tag, he, -⟩ | ⟨mark, tag, key, value, last, he, -⟩
  · exact he
  · exact absurd he (hm _ _ _)
  · exact absurd he (hm _ _ _)

end BraceParams.Schema
