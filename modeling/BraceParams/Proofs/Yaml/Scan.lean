import Mathlib.Data.List.TakeDrop
import BraceParams.Proofs.Yaml.PlainScalar

/-!
Scanning from token to token. A spot is what the tokens behind a place depend on; text at a spot serves
tokens of certain kinds, whatever was read before.
-/

namespace BraceParams.Yaml

open Write

namespace Scanner

variable {s x y : Scanner} {k n : Nat} {r tail : List Char} {m : Mark} {blocks : List Nat}

def settle (s : Scanner) : Except SyntaxError Scanner :=
  s.toToken.dropStale.map closeDeeper

theorem step_of_settle {s' : Scanner} (hx : s.settle = .ok x) (ht : x.token = .ok y) (hd : y.dropStale = .ok s') :
    s.step = .ok s' := by
  rw [step]
  cases h : s.toToken.dropStale with
  | error e =>
    rw [settle, h] at hx
    cases hx
  | ok s₁ =>
    rw [settle, h] at hx
    obtain rfl : s₁.closeDeeper = x := by simpa [Except.map] using hx
    simp only [bind, Except.bind, ht, hd]

theorem dropStale_eq (ho : s.outer = [])
    (h : ∀ key ∈ s.pending, isStale s.mark key → key.required = false) :
    s.dropStale = .ok { s with pending := s.pending.filter fun key => !isStale s.mark key } := by
  obtain ⟨cursor, tokens, count, blocks, keyAllowed, pending, outer⟩ := s
  obtain rfl : outer = [] := ho
  cases pending with
  | none => rfl
  | some key =>
    by_cases hs : isStale cursor.mark key
    · have hr : key.required = false := h key rfl hs
      simp [dropStale, mark, hs, hr, bind, Except.bind, pure, Except.pure, Option.filter]
    · simp [dropStale, mark, hs, bind, Except.bind, pure, Except.pure, Option.filter]

theorem skipSpace_spaces {space : Space} {keyAllowed : Bool} (n : Nat) (hs : space ≠ .comment) (ht : startsToken r) :
    skipSpace false space keyAllowed m (spaces n ++ r) = (keyAllowed, ⟨(spaces n).foldl Mark.after m, r⟩) := by
  induction n generalizing space m with
  | zero =>
    cases r with
    | nil => rfl
    | cons c r =>
      simp only [startsToken, isGap, Bool.not_eq_true', Bool.or_eq_false_iff, decide_eq_false_iff_not] at ht
      obtain ⟨⟨⟨⟨hsp, htab⟩, hb⟩, hhash⟩, hmark⟩ := ht
      simp [spaces, skipSpace, hs, hsp, htab, hb, hhash, hmark]
  | succ n ih =>
    rw [spaces_succ, List.cons_append, skipSpace]
    simpa [isBreak, hs] using ih (by simp)

theorem skipSpace_newLine {space : Space} {keyAllowed : Bool} (n : Nat) (ht : startsToken r) :
    skipSpace false space keyAllowed m ('\n' :: (spaces n ++ r)) =
      (true, ⟨('\n' :: spaces n).foldl Mark.after m, r⟩) := by
  rw [skipSpace, if_pos (show isBreak '\n' from rfl), skipSpace_spaces n (by simp) ht]
  simp

theorem closedBy_of_le {b n : Nat} {bs : List Nat} (h : b ≤ n) : closedBy n (b :: bs) = ([], b :: bs) := by
  simp [closedBy, List.span_eq_takeWhile_dropWhile, h]

theorem foldl_blockEnd (closed : List Nat) (s : Scanner) :
    ∃ tokens count, tokens.map (·.kind) = List.replicate closed.length .blockEnd ++ s.tokens.map (·.kind) ∧
      closed.foldl (fun s _ => s.push ⟨.blockEnd, s.mark, s.mark⟩) s = { s with tokens, count } := by
  induction closed generalizing s with
  | nil => exact ⟨s.tokens, s.count, rfl, rfl⟩
  | cons _ closed ih =>
    obtain ⟨tokens, count, hk, he⟩ := ih (s.push ⟨.blockEnd, s.mark, s.mark⟩)
    refine ⟨tokens, count, ?_, he⟩
    rw [hk, List.length_cons, List.replicate_succ', List.append_assoc]
    rfl

theorem closeBlocks_eq (ho : s.outer = []) (closed stay : List Nat) :
    ∃ tokens count, tokens.map (·.kind) = List.replicate closed.length .blockEnd ++ s.tokens.map (·.kind) ∧
      s.closeBlocks closed stay = { s with tokens, count, blocks := stay } := by
  obtain ⟨tokens, count, hk, he⟩ := foldl_blockEnd closed { s with blocks := stay }
  refine ⟨tokens, count, hk, ?_⟩
  rw [closeBlocks, inFlow, ho, if_neg (by simp), ← ho]
  exact he

/-- Where scanning stands in front of a token, as far as what follows depends on it. -/
structure Spot where
  blocks : List Nat
  keyAllowed : Bool
  column : Nat
  rest : List Char

def Spot.scanner (q : Spot) (m : Mark) (tokens : List Token) (count : Nat) : Scanner :=
  { cursor := ⟨m, q.rest⟩, tokens, count, blocks := q.blocks, keyAllowed := q.keyAllowed }

theorem settle_of_skip {s : Scanner} {closed stay : List Nat} {keyAllowed : Bool} {cursor : Cursor}
    (ho : s.outer = [])
    (hskip : skipSpace false .start s.keyAllowed s.mark s.cursor.rest = (keyAllowed, cursor))
    (hp : ∀ key ∈ s.pending, key.required = false ∧ key.mark.line < cursor.mark.line)
    (hb : closedBy cursor.mark.column s.blocks = (closed, stay)) :
    ∃ s' tokens count, s.dropStale = .ok s' ∧ s'.tokens = s.tokens ∧
      s'.settle = .ok (Spot.scanner ⟨stay, keyAllowed, cursor.mark.column, cursor.rest⟩ cursor.mark tokens count) ∧
      tokens.map (·.kind) = List.replicate closed.length .blockEnd ++ s.tokens.map (·.kind) := by
  have h₁ := dropStale_eq ho fun key hk _ => (hp key hk).1
  let s₁ : Scanner := { s with pending := s.pending.filter fun key => !isStale s.mark key }
  let s₂ : Scanner := { s₁ with keyAllowed, cursor }
  have hskip₁ : s₁.toToken = s₂ := by
    have hf : s₁.inFlow = false := by simp [inFlow, s₁, ho]
    rw [toToken, hf, show skipSpace false .start s₁.keyAllowed s₁.mark s₁.cursor.rest = _ from hskip]
  -- The key stands on an earlier line than the place reached, so it is given up there.
  have h₂ : s₂.dropStale = .ok { s₂ with pending := none } := by
    have hmem : ∀ key ∈ s₂.pending, key ∈ s.pending := by
      intro key hk
      exact (Option.mem_filter_iff.mp hk).1
    have hstale : ∀ key ∈ s₂.pending, isStale s₂.mark key := by
      intro key hk
      simpa [isStale] using .inl (hp key (hmem key hk)).2
    rw [dropStale_eq (s := s₂) ho fun key hk _ => (hp key (hmem key hk)).1]
    congr 2
    cases hpe : s₂.pending with
    | none => rfl
    | some key => simp [Option.filter, hstale key hpe]
  obtain ⟨tokens, count, hk, hc⟩ := closeBlocks_eq (s := { s₂ with pending := none }) ho closed stay
  refine ⟨s₁, tokens, count, h₁, rfl, ?_, hk⟩
  rw [settle, hskip₁, h₂, Except.map, closeDeeper]
  simp only [show closedBy (mark { s₂ with pending := none }).column s₂.blocks = (closed, stay) from hb]
  rw [hc]
  simp only [s₂, s₁, ho, Spot.scanner]

theorem settle_of_fresh (ho : s.outer = []) (hr : startsToken s.cursor.rest)
    (hp : ∀ key ∈ s.pending, isStale s.mark key = false) (hb : closedBy s.mark.column s.blocks = ([], s.blocks)) :
    s.dropStale = .ok s ∧ s.settle = .ok s := by
  have hd : s.dropStale = .ok s := by
    rw [dropStale_eq ho fun key hk hs => by rw [hp key hk] at hs; cases hs]
    congr 2
    cases hpe : s.pending with
    | none => rfl
    | some key => simp [Option.filter, hp key hpe]
  have ht : s.toToken = s := by
    rw [toToken, show s.inFlow = false by simp [inFlow, ho],
      show skipSpace false .start s.keyAllowed s.mark s.cursor.rest = (s.keyAllowed, s.cursor) from
        skipSpace_spaces 0 (by simp) hr]
  refine ⟨hd, ?_⟩
  rw [settle, ht, hd, Except.map, closeDeeper, hb]
  simp [closeBlocks]

/-- Scanning on from a settled place ends with tokens of these kinds, those before the place included. -/
def Scans (x : Scanner) (kinds : List Token.Kind) : Prop :=
  ∀ s fuel, s.settle = .ok x → x.cursor.rest.length < fuel →
    ∃ ts, Tokens.scanFrom step fuel s = ⟨ts, none⟩ ∧ ts.map (·.kind) = kinds

theorem Scans.of_step {s s' : Scanner} {kinds : List Token.Kind} (ht : x.token = .ok s)
    (hd : s.dropStale = .ok s') (hs : s'.settle = .ok y) (he : s'.tokens.head?.any (·.kind = .streamEnd) = false)
    (hl : y.cursor.rest.length < x.cursor.rest.length) (h : Scans y kinds) : Scans x kinds := by
  intro s₀ fuel hx hfuel
  cases fuel with
  | zero => exact absurd hfuel (Nat.not_lt_zero _)
  | succ fuel =>
    obtain ⟨ts, hts, hk⟩ := h s' fuel hs (by omega)
    refine ⟨ts, ?_, hk⟩
    rw [Tokens.scanFrom, step_of_settle hx ht hd]
    simp only [he]
    exact hts

theorem Scans.of_end {s s' : Scanner} (ht : x.token = .ok s) (hd : s.dropStale = .ok s')
    (he : s'.tokens.head?.any (·.kind = .streamEnd)) : Scans x (s'.tokens.map (·.kind)).reverse := by
  intro s₀ fuel hx hfuel
  cases fuel with
  | zero => exact absurd hfuel (Nat.not_lt_zero _)
  | succ fuel =>
    refine ⟨s'.tokens.reverse, ?_, List.map_reverse⟩
    rw [Tokens.scanFrom, step_of_settle hx ht hd]
    simp only [he]
    rfl

def Spot.Serves (q : Spot) (later : List Token.Kind) : Prop :=
  ∀ m tokens count, m.column = q.column →
    Scans (q.scanner m tokens count) ((tokens.map (·.kind)).reverse ++ later)

theorem Scans.of_token {s : Scanner} {t : Token} {ts : List Token} {closed stay : List Nat} {keyAllowed : Bool}
    {cursor : Cursor} {later : List Token.Kind}
    (h : Spot.Serves ⟨stay, keyAllowed, cursor.mark.column, cursor.rest⟩ later)
    (ht : x.token = .ok s) (hts : s.tokens = t :: ts) (he : t.kind ≠ .streamEnd) (ho : s.outer = [])
    (hskip : skipSpace false .start s.keyAllowed s.mark s.cursor.rest = (keyAllowed, cursor))
    (hp : ∀ key ∈ s.pending, key.required = false ∧ key.mark.line < cursor.mark.line)
    (hb : closedBy cursor.mark.column s.blocks = (closed, stay))
    (hl : cursor.rest.length < x.cursor.rest.length) {kinds : List Token.Kind}
    (hkinds : kinds = (s.tokens.map (·.kind)).reverse ++ (List.replicate closed.length .blockEnd ++ later)) :
    Scans x kinds := by
  obtain ⟨s', tokens, count, hd, hs', hy, hk⟩ := settle_of_skip ho hskip hp hb
  have hscans := h cursor.mark tokens count rfl
  rw [hk, List.reverse_append, List.reverse_replicate, List.append_assoc, ← hkinds] at hscans
  exact Scans.of_step ht hd hy (by rw [hs', hts]; simpa using he) hl hscans

/-- What follows at the start of a line inside the block at column `b`: it is indented no further. -/
def LineServes (b : Nat) (bs : List Nat) (rest : List Char) (later : List Token.Kind) : Prop :=
  ∃ n tail closed stay later', n ≤ b ∧ rest = spaces n ++ tail ∧ startsToken tail ∧
    closedBy n (b :: bs) = (closed, stay) ∧ later = List.replicate closed.length .blockEnd ++ later' ∧
    Spot.Serves ⟨stay, true, n, tail⟩ later'

theorem LineServes.of_spot {b : Nat} {bs : List Nat} {tail : List Char} {later : List Token.Kind}
    (ht : startsToken tail) (h : Spot.Serves ⟨b :: bs, true, b, tail⟩ later) :
    LineServes b bs (spaces b ++ tail) later := by
  exact ⟨b, tail, [], b :: bs, later, Nat.le_refl b, rfl, ht, closedBy_of_le (Nat.le_refl b), rfl, h⟩

theorem LineServes.deeper {b b' : Nat} {bs : List Nat} {rest : List Char} {later : List Token.Kind} (hb : b < b')
    (h : LineServes b bs rest later) : LineServes b' (b :: bs) rest (.blockEnd :: later) := by
  obtain ⟨n, tail, closed, stay, later', hn, rfl, ht, hc, rfl, hs⟩ := h
  refine ⟨n, tail, b' :: closed, stay, later', by omega, rfl, ht, ?_, rfl, hs⟩
  rw [closedBy, List.span_eq_takeWhile_dropWhile] at hc ⊢
  have hlt : n < b' := by omega
  obtain ⟨rfl, rfl⟩ := Prod.mk.inj hc
  simp [hlt]

def Behind (keyAllowed : Bool) (blocks : List Nat) (column : Nat) (rest : List Char) (later : List Token.Kind) : Prop :=
  ∀ m, m.column = column → ∃ allowed cursor closed stay later',
    skipSpace false .start keyAllowed m rest = (allowed, cursor) ∧ cursor.rest.length ≤ rest.length ∧
    closedBy cursor.mark.column blocks = (closed, stay) ∧ later = List.replicate closed.length .blockEnd ++ later' ∧
    Spot.Serves ⟨stay, allowed, cursor.mark.column, cursor.rest⟩ later'

theorem Behind.space {keyAllowed : Bool} {b column : Nat} {bs : List Nat} {rest : List Char} {later : List Token.Kind}
    (hb : b ≤ column + 1) (hr : startsToken rest) (h : Spot.Serves ⟨b :: bs, keyAllowed, column + 1, rest⟩ later) :
    Behind keyAllowed (b :: bs) column (' ' :: rest) later := by
  rintro m rfl
  exact ⟨keyAllowed, ⟨m.after ' ', rest⟩, [], b :: bs, later, skipSpace_spaces 1 (by simp) hr, Nat.le_succ _,
    closedBy_of_le hb, rfl, h⟩

theorem Behind.newLine {keyAllowed : Bool} {b column : Nat} {bs : List Nat} {rest : List Char} {later : List Token.Kind}
    (h : LineServes b bs rest later) : Behind keyAllowed (b :: bs) column ('\n' :: rest) later := by
  rintro m -
  obtain ⟨n, tail, closed, stay, later', hn, rfl, ht, hc, rfl, hs⟩ := h
  have hcol : (('\n' :: spaces n).foldl Mark.after m).column = n := by rw [Mark.foldl_after_newLine]
  refine ⟨true, ⟨('\n' :: spaces n).foldl Mark.after m, tail⟩, closed, stay, later', skipSpace_newLine n ht, ?_, ?_, rfl, ?_⟩
  · simp only [List.length_cons, List.length_append]
    omega
  · rwa [hcol]
  · rwa [hcol]

theorem Scans.of_behind {s : Scanner} {t : Token} {ts : List Token} {later kinds : List Token.Kind}
    (h : Behind s.keyAllowed s.blocks s.mark.column s.cursor.rest later) (ht : x.token = .ok s)
    (hts : s.tokens = t :: ts) (he : t.kind ≠ .streamEnd) (ho : s.outer = []) (hp : s.pending = none)
    (hl : s.cursor.rest.length < x.cursor.rest.length) (hkinds : kinds = (s.tokens.map (·.kind)).reverse ++ later) :
    Scans x kinds := by
  obtain ⟨allowed, cursor, closed, stay, later', hskip, hlen, hc, rfl, hs⟩ := h s.mark rfl
  exact Scans.of_token hs ht hts he ho hskip (by simp [hp]) hc (by omega) hkinds

end Scanner

end BraceParams.Yaml
