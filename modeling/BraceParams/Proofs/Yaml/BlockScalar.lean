import BraceParams.Proofs.Yaml.PlainScalar

namespace BraceParams.Yaml.Block

open Write

variable {least k : Nat} {start m : Mark} {b : Bool} {p : Progress} {c : Char} {s e tail : List Char}

def Progress.content (p : Progress) : List Char :=
  p.text.reverse ++ (p.lead.toList ++ p.trail.reverse)

def Progress.behindHeader (column : Option Nat) : Progress :=
  ⟨[], none, [], false, column, 0⟩

theorem Progress.content_behindHeader (column : Option Nat) : (behindHeader column).content = [] :=
  rfl

inductive Stands (least : Nat) : Bool → Progress → Mark → Prop
  | inLine {p : Progress} {m : Mark} (lead : p.lead = none) (trail : p.trail = [])
      (column : p.column = some (least + 1)) : Stands least true p m
  | atStart {p : Progress} {m : Mark} (column : p.column = some (least + 1)) (mark : m.column = 0) :
      Stands least false p m

/-- Reading passes over `written`, which adds `text` to what has been read, and is in a line behind it
if `after` is set. -/
def Takes (start : Mark) (least : Nat) (inLine : Bool) (p : Progress) (m : Mark) (written text : List Char)
    (after : Bool) : Prop :=
  ∃ p', p'.content = p.content ++ text ∧ Stands least after p' (written.foldl Mark.after m) ∧
    ∀ e, readFrom start false least inLine p m (written ++ e) =
      readFrom start false least after p' (written.foldl Mark.after m) e

theorem Takes.nil (h : Stands least b p m) : Takes start least b p m [] [] b :=
  ⟨p, (List.append_nil _).symm, h, fun _ => rfl⟩

theorem Takes.append {between after : Bool} {w w' t t' : List Char} (h : Takes start least b p m w t between)
    (h' : ∀ p', Stands least between p' (w.foldl Mark.after m) →
      Takes start least between p' (w.foldl Mark.after m) w' t' after) :
    Takes start least b p m (w ++ w') (t ++ t') after := by
  obtain ⟨p₁, hc₁, hs₁, hr₁⟩ := h
  obtain ⟨p₂, hc₂, hs₂, hr₂⟩ := h' p₁ hs₁
  refine ⟨p₂, by rw [hc₂, hc₁, List.append_assoc], by rwa [List.foldl_append], fun e => ?_⟩
  rw [List.append_assoc, hr₁, hr₂, List.foldl_append]

theorem takes_break (h : Stands least b p m) (hb : isBreak c) : Takes start least b p m [c] [c] false := by
  have hm : (m.after c).column = 0 := by simp [Mark.after, hb]
  have hs : c ≠ ' ' ∧ c ≠ '\t' := by
    constructor <;> (rintro rfl; revert hb; decide)
  cases h with
  | inLine lead trail column =>
    refine ⟨{ p with lead := some c }, ?_, .atStart column hm, fun e => ?_⟩
    · simp [Progress.content, lead, trail]
    · simp [readFrom, hb]
  | atStart column mark =>
    refine ⟨{ p with trail := c :: p.trail, widest := max p.widest m.column }, ?_, .atStart column hm, fun e => ?_⟩
    · simp [Progress.content]
    · simp [readFrom, hb, hs]

theorem takes_char (h : Stands least true p m) (hb : isBreak c = false) : Takes start least true p m [c] [c] true := by
  cases h with
  | inLine lead trail column =>
    refine ⟨{ p with text := c :: p.text }, ?_, .inLine lead trail column, fun e => ?_⟩
    · simp [Progress.content, lead, trail]
    · simp [readFrom, hb]

theorem readFrom_spaces (start : Mark) (least k : Nat) (h : p.column.all (m.column + k ≤ ·)) :
    ∃ w ≤ max p.widest (m.column + k), ∀ e, readFrom start false least false p m (spaces k ++ e) =
      readFrom start false least false { p with widest := w } ((spaces k).foldl Mark.after m) e := by
  induction k generalizing p m with
  | zero => exact ⟨p.widest, by omega, fun _ => rfl⟩
  | succ k ih =>
    have hcol : (m.after ' ').column = m.column + 1 := rfl
    have hindent : p.column.all (m.column < ·) := by
      cases hp : p.column with
      | none => rfl
      | some column =>
        rw [hp, Option.all_some, decide_eq_true_eq] at h
        simpa using by omega
    have hrest : p.column.all ((m.after ' ').column + k ≤ ·) := by rwa [hcol, Nat.add_assoc, Nat.add_comm 1]
    obtain ⟨w, hw, hr⟩ := ih (p := { p with widest := max p.widest m.column }) (m := m.after ' ') hrest
    refine ⟨w, by dsimp only at hw; omega, fun e => ?_⟩
    rw [spaces_succ, List.cons_append, readFrom]
    simpa [hindent] using hr e

theorem takes_line (hl : 0 < least) (hm : m.column = 0)
    (h : p.column = some (least + 1) ∨ p.column = none ∧ p.widest = 0 ∧ isSpace c = false)
    (hc : isPlainChar c) (hb : isBreak c = false) :
    Takes start least false p m (spaces (least + 1) ++ [c]) [c] true := by
  have hall : p.column.all (m.column + (least + 1) ≤ ·) := by
    rcases h with h | ⟨h, -⟩ <;> simp [h, hm]
  obtain ⟨w, hw, hr⟩ := readFrom_spaces start least (least + 1) hall
  have hcol : ((spaces (least + 1)).foldl Mark.after m).column = least + 1 := by
    rw [Mark.foldl_after_spaces, hm, Nat.zero_add]
  have ht : c ≠ '\t' := by rintro rfl; revert hc; decide
  have hs : p.column = some (least + 1) ∨ p.column = none ∧ c ≠ ' ' :=
    h.imp_right fun h => ⟨h.1, by simpa [isSpace] using h.2.2⟩
  have hsettled : p.column.getD (max (max w (least + 1)) (max least 1)) = least + 1 := by
    rcases h with h | ⟨h, hw0, -⟩
    · simp [h]
    · rw [h, Option.getD_none]
      omega
  refine ⟨({ p with widest := max w (least + 1) } : Progress).startLine false (least + 1) c, ?_,
    .inLine rfl rfl rfl, fun e => ?_⟩
  · simp [Progress.content, Progress.startLine]
  · rw [List.append_assoc, hr, List.singleton_append, readFrom, List.foldl_append]
    rcases hs with hs | ⟨hs, hc⟩ <;> simp_all [Progress.settled]

def inLineAfter (inLine : Bool) (s : List Char) : Bool :=
  (s.getLast?.map fun c => !isAnyBreak c).getD inLine

theorem inLineAfter_cons : inLineAfter b (c :: s) = inLineAfter (!isAnyBreak c) s := by
  simp only [inLineAfter, List.getLast?_cons, Option.map_some, Option.getD_some]
  cases s.getLast? <;> rfl

theorem takes_literalFrom (hl : 0 < least) (hp : ∀ c ∈ s, isPlainChar c) (h : Stands least b p m) :
    Takes start least b p m (literalFrom (least + 1) (!b) s) s (inLineAfter b s) := by
  induction s generalizing b p m with
  | nil => exact .nil h
  | cons c r ih =>
    have hpc : isPlainChar c := hp c List.mem_cons_self
    have ih {b p m} := ih (b := b) (p := p) (m := m) fun d hd => hp d (List.mem_cons_of_mem c hd)
    rw [inLineAfter_cons, literalFrom]
    by_cases hbr : isAnyBreak c
    · have hb : isBreak c := by rwa [isAnyBreak_of_isPlainChar hpc] at hbr
      rw [if_pos hbr, hbr]
      exact (takes_break h hb).append fun _ => ih
    · have hb : isBreak c = false := by rwa [isAnyBreak_of_isPlainChar hpc, Bool.not_eq_true] at hbr
      rw [Bool.not_eq_true] at hbr
      rw [hbr, if_neg Bool.false_ne_true, ← List.singleton_append, ← List.append_assoc]
      refine Takes.append (?_ : Takes start least b p m _ [c] true) fun _ => ih
      cases h with
      | inLine lead trail column => exact takes_char (.inLine lead trail column) hb
      | atStart column mark => exact takes_line hl mark (.inl column) hpc hb

theorem takes_block (start : Mark) {column : Option Nat} (hl : 0 < least) (hp : ∀ c ∈ s, isPlainChar c) (hs : s ≠ [])
    (hm : m.column = 0) (hc : column = some (least + 1) ∨ column = none ∧ indentationHint s = []) :
    Takes start least false (.behindHeader column) m (literalFrom (least + 1) true s) s
      (inLineAfter false s) := by
  rcases hc with rfl | ⟨rfl, hi⟩
  · exact takes_literalFrom hl hp (.atStart rfl hm)
  · cases s with
    | nil => exact absurd rfl hs
    | cons c r =>
      have hpc : isPlainChar c := hp c List.mem_cons_self
      -- Without a hint the text starts with a character that shows the column.
      have hci : isSpace c = false ∧ isAnyBreak c = false := by simpa [indentationHint] using hi
      have hb : isBreak c = false := by rw [← isAnyBreak_of_isPlainChar hpc, hci.2]
      rw [inLineAfter_cons, literalFrom, hci.2, if_neg Bool.false_ne_true, ← List.singleton_append, ← List.append_assoc]
      refine Takes.append (takes_line hl hm (.inr ⟨rfl, rfl, hci.1⟩) hpc hb) fun _ => ?_
      exact takes_literalFrom hl fun d hd => hp d (List.mem_cons_of_mem c hd)

theorem readFrom_end (start : Mark) (h : Stands least false p m) (hk : k ≤ least) (ht : startsToken tail) :
    ∃ w, readFrom start false least false p m (spaces k ++ tail) =
      .ok ({ p with widest := w }, ⟨(spaces k).foldl Mark.after m, tail⟩) := by
  cases h with
  | atStart column mark =>
    obtain ⟨w, -, hr⟩ := readFrom_spaces start least (p := p) (m := m) k
      (by rw [column]; simpa using by omega)
    rw [hr]
    cases tail with
    | nil => exact ⟨w, rfl⟩
    | cons c r =>
      have hcol : ((spaces k).foldl Mark.after m).column = k := by rw [Mark.foldl_after_spaces, mark, Nat.zero_add]
      have hne : k ≠ least + 1 := by omega
      simp only [startsToken, isGap, Bool.not_eq_true', Bool.or_eq_false_iff, decide_eq_false_iff_not] at ht
      obtain ⟨⟨⟨⟨hs, htab⟩, hb⟩, -⟩, -⟩ := ht
      exact ⟨max w k, by simp [readFrom, hcol, column, hs, htab, hb, Progress.settled, hne]⟩

theorem readFrom_lastLine (start : Mark) (h : Stands least true p m) (hb : isBreak c) (hk : k ≤ least) (ht : startsToken tail) :
    ∃ p', p'.text.reverse = p.content ∧ p'.lead = some c ∧
      readFrom start false least true p m (c :: (spaces k ++ tail)) =
        .ok (p', ⟨(c :: spaces k).foldl Mark.after m, tail⟩) := by
  cases h with
  | inLine lead trail column =>
    have hs : Stands least false { p with lead := some c } (m.after c) := .atStart column (by simp [Mark.after, hb])
    obtain ⟨w, hw⟩ := readFrom_end start hs hk ht
    refine ⟨{ p with lead := some c, widest := w }, by simp [Progress.content, lead, trail], rfl, ?_⟩
    rw [readFrom, if_pos rfl, if_pos hb, hw]
    rfl

inductive Ends : List Char → Chomping → Prop
  | strip (s : List Char) {c : Char} (h : isAnyBreak c = false) : Ends (s ++ [c]) .strip
  | clip (s : List Char) {d c : Char} (hd : isAnyBreak d = false) (h : isAnyBreak c) : Ends (s ++ [d] ++ [c]) .clip
  | keep (s : List Char) {c : Char} (h : isAnyBreak c) : Ends (s ++ [c]) .keep

def chompingText : Chomping → List Char
  | .strip => ['-']
  | .clip => []
  | .keep => ['+']

theorem exists_ends (h : s ≠ []) : ∃ chomping, Ends s chomping ∧ chompingHint s = chompingText chomping := by
  have hlast : ∀ {s : List Char}, s ≠ [] → ∃ x c, s = x ++ [c] :=
    fun {s} h => ⟨s.dropLast, s.getLast h, (List.dropLast_concat_getLast h).symm⟩
  obtain ⟨x, c, rfl⟩ := hlast h
  by_cases hc : isAnyBreak c
  · by_cases hx : x = []
    · subst hx
      exact ⟨.keep, .keep [] hc, by simp [chompingHint, hc, chompingText]⟩
    · obtain ⟨y, d, rfl⟩ := hlast hx
      by_cases hd : isAnyBreak d
      · exact ⟨.keep, .keep _ hc, by simp [chompingHint, hc, hd, chompingText]⟩
      · exact ⟨.clip, .clip y (by simpa using hd) hc, by simp [chompingHint, hc, hd, chompingText]⟩
  · refine ⟨.strip, .strip x (by simpa using hc), ?_⟩
    cases hx : x.reverse <;> simp [chompingHint, hx, hc, chompingText]

theorem literalFrom_break {indent : Nat} (s : List Char) (h : isAnyBreak c) :
    literalFrom indent b (s ++ [c]) = literalFrom indent b s ++ [c] := by
  induction s generalizing b with
  | nil => simp [literalFrom, h]
  | cons d r ih =>
    rw [List.cons_append, literalFrom, literalFrom]
    split <;> simp [ih]

theorem readFrom_block (start : Mark) {chomping : Chomping} {column : Option Nat} (hl : 0 < least) (hf : form s = .literal)
    (he : Ends s chomping) (hm : m.column = 0)
    (hc : column = some (least + 1) ∨ column = none ∧ indentationHint s = []) (hk : k ≤ least)
    (ht : startsToken tail) :
    ∃ p, p.finish chomping = s ∧
      readFrom start false least false (.behindHeader column) m
          (literalFrom (least + 1) true s ++ (lineEnd s ++ (spaces k ++ tail))) =
        .ok (p, ⟨(literalFrom (least + 1) true s ++ (lineEnd s ++ spaces k)).foldl Mark.after m, tail⟩) := by
  have hp : ∀ c ∈ s, isPlainChar c := (needsEscapes_eq_false.mp (needsEscapes_of_form (by simp [hf]))).1
  cases he with
  | @strip x c hx =>
    -- The break behind the text is that of the line, and chomping drops it.
    obtain ⟨p, hcontent, hs, hr⟩ := takes_block start hl hp (by simp) hm hc
    have hline : inLineAfter false (x ++ [c]) = true := by simp [inLineAfter, hx]
    have hend : lineEnd (x ++ [c]) = ['\n'] := by simp [lineEnd, hx]
    rw [hline] at hs hr
    obtain ⟨p', htext, -, hr'⟩ := readFrom_lastLine start hs (c := '\n') rfl hk ht
    rw [Progress.content_behindHeader, List.nil_append] at hcontent
    refine ⟨p', by simp [Progress.finish, htext, hcontent], ?_⟩
    rw [hr, hend, List.singleton_append, hr', List.foldl_append]
    rfl
  | @clip x d c hd hx =>
    have hb : isBreak c := by
      rw [← isAnyBreak_of_isPlainChar (hp c (by simp))]
      exact hx
    have hhint : indentationHint (x ++ [d] ++ [c]) = indentationHint (x ++ [d]) := by
      cases x <;> rfl
    have hp' : ∀ e ∈ x ++ [d], isPlainChar e := fun e he => hp e (List.mem_append_left [c] he)
    -- The last break is read with the indentation of the line behind the block.
    rw [hhint] at hc
    obtain ⟨p, hcontent, hs, hr⟩ := takes_block start hl hp' (by simp) hm hc
    have hline : inLineAfter false (x ++ [d]) = true := by simp [inLineAfter, hd]
    have hend : lineEnd (x ++ [d] ++ [c]) = [] := if_pos ⟨hf, by simp [hx]⟩
    rw [hline] at hs hr
    obtain ⟨p', htext, hlead, hr'⟩ := readFrom_lastLine start hs hb hk ht
    rw [Progress.content_behindHeader, List.nil_append] at hcontent
    refine ⟨p', by simp [Progress.finish, htext, hlead, hcontent], ?_⟩
    rw [hend, literalFrom_break _ hx, List.append_assoc, hr, List.nil_append, List.singleton_append, hr',
      List.append_assoc, List.foldl_append]
    rfl
  | @keep x c hx =>
    obtain ⟨p, hcontent, hs, hr⟩ := takes_block start hl hp (by simp) hm hc
    have hline : inLineAfter false (x ++ [c]) = false := by simp [inLineAfter, hx]
    have hend : lineEnd (x ++ [c]) = [] := by simp [lineEnd, hf, hx]
    rw [hline] at hs hr
    obtain ⟨w, hr'⟩ := readFrom_end start hs hk ht
    refine ⟨{ p with widest := w }, hcontent, ?_⟩
    rw [hr, hend, List.nil_append, List.nil_append, hr', List.foldl_append]

theorem header_hints (start : Mark) {hint : List Char} (h : hint = [] ∨ hint = ['2']) (chomping : Chomping) :
    header start ⟨m, hint ++ (chompingText chomping ++ '\n' :: e)⟩ =
      .ok (chomping, if hint = [] then none else some 2,
        ⟨(hint ++ chompingText chomping).foldl Mark.after m, '\n' :: e⟩) := by
  rcases h with rfl | rfl <;> cases chomping <;> rfl

theorem headerEnd_newLine : headerEnd start ⟨m, '\n' :: e⟩ = .ok ⟨m.after '\n', e⟩ :=
  rfl

theorem read_scalar (hl : 0 < least) (hf : form s = .literal) (hk : k ≤ least) (ht : startsToken tail) :
    read false least ⟨m, scalar (least + 1) s ++ (lineEnd s ++ (spaces k ++ tail))⟩ =
      .ok (s, ⟨(scalar (least + 1) s ++ (lineEnd s ++ spaces k)).foldl Mark.after m, tail⟩) := by
  have hs : s ≠ [] := by
    rintro rfl
    exact absurd (of_form_literal hf) (by decide)
  obtain ⟨chomping, he, hchomp⟩ := exists_ends hs
  have hhint : indentationHint s = [] ∨ indentationHint s = ['2'] := by
    rw [indentationHint]
    split
    · exact .inr rfl
    · exact .inl rfl
  have hcolumn : ∀ o, o = (if indentationHint s = [] then none else some 2) →
      o.map (fun n => if least = 0 then n else least - 1 + n) = some (least + 1) ∨
        o.map (fun n => if least = 0 then n else least - 1 + n) = none ∧ indentationHint s = [] := by
    rintro _ rfl
    by_cases hi : indentationHint s = []
    · exact .inr ⟨by rw [if_pos hi]; rfl, hi⟩
    · left
      rw [if_neg hi, Option.map_some, if_neg (Nat.ne_of_gt hl)]
      congr 1
      omega
  have hw : scalar (least + 1) s =
      '|' :: (indentationHint s ++ (chompingText chomping ++ '\n' :: literalFrom (least + 1) true s)) := by
    rw [scalar, hf, ← hchomp]
    simp
  obtain ⟨p, hfinish, hr⟩ := readFrom_block m
    (m := ((indentationHint s ++ chompingText chomping).foldl Mark.after (m.after '|')).after '\n')
    hl hf he (by simp [Mark.after, isBreak]) (hcolumn _ rfl) hk ht
  have hh := header_hints m (m := m.after '|')
    (e := literalFrom (least + 1) true s ++ (lineEnd s ++ (spaces k ++ tail))) hhint chomping
  rw [hw]
  simp only [List.cons_append, List.append_assoc, read, Cursor.next, hh, headerEnd_newLine, bind, Except.bind]
  rw [Progress.behindHeader] at hr
  rw [hr]
  simp [hfinish]

end BraceParams.Yaml.Block
