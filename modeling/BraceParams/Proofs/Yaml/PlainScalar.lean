import BraceParams.Proofs.Yaml.Written

namespace BraceParams.Yaml

open Write

variable {c : Char} {r s e : List Char} {m : Mark}

def startsToken : List Char → Bool
  | [] => true
  | c :: _ => !(isGap c || isBreak c || c = '#' || c = '\ufeff')

theorem startsDocumentMarker_eq_false (h : 0 < m.column) : startsDocumentMarker m s = false := by
  have h0 : (m.column == 0) = false := by simpa using Nat.ne_of_gt h
  simp [startsDocumentMarker, isSeparator, h0]

theorem endsWord_append (h : blankFollows r = false) : endsWord (r ++ e) = false := by
  cases r with
  | nil => simp [blankFollows] at h
  | cons d r =>
    simp only [blankFollows, isBlankChar, isAnyBreak, List.head?_cons, Option.all_some, Bool.or_eq_false_iff] at h
    simp [endsWord, h.1.1, h.1.2.2]

theorem of_allowsPlain (h : allowsPlain s) :
    (∀ c ∈ s, isPlainChar c) ∧ hasIndicator s = false ∧ (∀ c ∈ s, isAnyBreak c = false) ∧
      s.head?.any isSpace = false ∧ s.getLast?.any isSpace = false := by
  simp only [allowsPlain, Bool.not_eq_true', Bool.or_eq_false_iff] at h
  obtain ⟨⟨⟨⟨hn, hi⟩, hb⟩, hh⟩, hl⟩ := h
  exact ⟨(needsEscapes_eq_false.mp hn).1, hi, by simpa using hb, hh, hl⟩

theorem isLeadingIndicator_of_hasIndicator (h : hasIndicator (c :: r) = false) : isLeadingIndicator c r = false := by
  simp only [hasIndicator, Bool.or_eq_false_iff] at h
  exact h.2.1

theorem hasInnerIndicator_of_hasIndicator (h : hasIndicator s = false) : hasInnerIndicator false s = false := by
  cases s with
  | nil => rfl
  | cons c r =>
    have hl := isLeadingIndicator_of_hasIndicator h
    simp only [hasIndicator, Bool.or_eq_false_iff] at h
    have hc : (c = ':' && blankFollows r) = false := by
      simp only [isLeadingIndicator, Bool.or_eq_false_iff, Bool.and_eq_false_iff] at hl ⊢
      rcases hl.2 with hc | hb
      · left
        simp only [List.mem_cons, decide_eq_false_iff_not, not_or] at hc ⊢
        exact hc.2.1
      · exact .inr hb
    simp [hasInnerIndicator, hc, h.2.2]

theorem isGap_of_isBreak (h : isBreak c) : isGap c = false := by
  simp only [isBreak, Bool.or_eq_true, decide_eq_true_eq] at h
  rcases h with (rfl | rfl) | rfl <;> rfl

namespace Plain

variable {indent k : Nat} {start stop : Mark} {g text tail : List Char}

theorem stopsBefore_eq_false (hi : indent ≤ m.column) (hm : 0 < m.column) (hc : c ≠ '#') :
    stopsBefore false indent m (c :: r) = false := by
  simp [stopsBefore, startsDocumentMarker_eq_false hm, hc, hi]

theorem readFrom_space {spacing : Spacing} :
    readFrom false indent start text stop spacing m (' ' :: r) =
      readFrom false indent start text stop (spacing.pushGap ' ') (m.after ' ') r := by
  simp [readFrom, isGap]

theorem readFrom_break {spacing : Spacing} (h : isBreak c) :
    readFrom false indent start text stop spacing m (c :: r) =
      readFrom false indent start text stop (spacing.pushBreak c) (m.after c) r := by
  have hg : isGap c = false := isGap_of_isBreak h
  simp [readFrom, hg, h]

theorem readFrom_char {spacing : Spacing} (hg : isGap c = false) (hb : isBreak c = false)
    (hs : spacing.isNone ∨ stopsBefore false indent m (c :: r) = false) (hc : stopsAt false c r = false) :
    readFrom false indent start text stop spacing m (c :: r) =
      readFrom false indent start (c :: (spacing.fold ++ text)) (m.after c) .none (m.after c) r := by
  have hn : (!spacing.isNone && stopsBefore false indent m (c :: r)) = false := by
    rcases hs with hs | hs <;> simp [hs]
  simp [readFrom, hg, hb, hn, hc, isBadColon]

theorem readFrom_append (start stop : Mark) (text : List Char) (hp : ∀ c ∈ s, isPlainChar c) (hb : ∀ c ∈ s, isAnyBreak c = false)
    (hi : hasInnerIndicator (!g.isEmpty) s = false) (hl : s.getLast?.any isSpace = false) (hg : s = [] → g = [])
    (hin : indent ≤ m.column ∨ g = [] ∧ ∀ c ∈ s, isSpace c = false) (hm : g = [] ∨ 0 < m.column) :
    ∃ stop', readFrom false indent start text stop (.gaps g) m (s ++ e) =
      readFrom false indent start (s.reverse ++ (g ++ text)) stop' .none (s.foldl Mark.after m) e := by
  induction s generalizing g text stop m with
  | nil => exact ⟨stop, by rw [hg rfl]; rfl⟩
  | cons c r ih =>
    have hpc : isPlainChar c := hp c List.mem_cons_self
    have hbc : isBreak c = false := by
      rw [← isAnyBreak_of_isPlainChar hpc]
      exact hb c List.mem_cons_self
    have hlr : r.getLast?.any isSpace = false := by
      cases r with
      | nil => rfl
      | cons d r => rwa [List.getLast?_cons_cons] at hl
    have hcol : (m.after c).column = m.column + 1 := by rw [Mark.after_of_not_break hbc]
    have ih (g stop text) := ih (g := g) (m := m.after c) stop text
      (fun d hd => hp d (List.mem_cons_of_mem c hd)) (fun d hd => hb d (List.mem_cons_of_mem c hd))
    simp only [hasInnerIndicator, Bool.or_eq_false_iff] at hi
    obtain ⟨⟨hcolon, hhash⟩, hir⟩ := hi
    rw [List.cons_append, List.foldl_cons, List.reverse_cons, List.append_assoc]
    -- A space waits as white space for the next character, which a text without spaces at its end has.
    by_cases hs : isSpace c
    · have hblank : isBlankChar c = true := by simp [isBlankChar, isGap_of_isPlainChar hpc, hs]
      have hr : r ≠ [] := by
        rintro rfl
        simp [hs] at hl
      rw [hblank] at hir
      obtain rfl := isSpace_iff.mp hs
      rw [readFrom_space]
      have hin : indent ≤ m.column := hin.resolve_right fun h => absurd (h.2 ' ' List.mem_cons_self) (by decide)
      exact ih (' ' :: g) _ _ hir hlr (fun h => absurd h hr) (.inl (by omega)) (.inr (by omega))
    · rw [Bool.not_eq_true] at hs
      have hblank : isBlankChar c = false := by
        have h0 : c ≠ '\x00' := by rintro rfl; revert hpc; decide
        simp [isBlankChar, isGap_of_isPlainChar hpc, hs, hb c List.mem_cons_self, h0]
      have hstop : (Spacing.gaps g).isNone ∨ stopsBefore false indent m (c :: (r ++ e)) = false := by
        cases g with
        | nil => exact .inl rfl
        | cons x g =>
          have hin : indent ≤ m.column := hin.resolve_right fun h => absurd h.1 (by simp)
          exact .inr (stopsBefore_eq_false hin (hm.resolve_left (by simp)) (by simpa using hhash))
      have hend : stopsAt false c (r ++ e) = false := by
        simp only [stopsAt, Bool.false_and, Bool.or_false, Bool.and_eq_false_iff] at hcolon ⊢
        exact hcolon.imp_right endsWord_append
      rw [readFrom_char (by rw [isGap_of_isPlainChar hpc, hs]) hbc hstop hend]
      rw [hblank] at hir
      refine ih [] _ _ hir hlr (fun _ => rfl) (hin.imp (by omega) fun h => ⟨rfl, ?_⟩) (.inl rfl)
      exact fun d hd => h.2 d (List.mem_cons_of_mem c hd)

theorem readFrom_spaces {f : Option Char} {more : List Char} (k : Nat) (ht : startsToken tail)
    (hk : m.column + k < indent) :
    readFrom false indent start text stop (.breaks f more) m (spaces k ++ tail) =
      .ok ⟨text.reverse, stop, true, ⟨(spaces k).foldl Mark.after m, tail⟩⟩ := by
  induction k generalizing m with
  | zero =>
    cases tail with
    | nil => rfl
    | cons c r =>
      simp only [startsToken, Bool.not_eq_true', Bool.or_eq_false_iff] at ht
      have hs : stopsBefore false indent m (c :: r) = true := by simp [stopsBefore, show m.column < indent from hk]
      simp [spaces, readFrom, ht.1.1.1, ht.1.1.2, hs, Spacing.isNone, Spacing.hasBreak]
  | succ k ih =>
    have hcol : (m.after ' ').column = m.column + 1 := rfl
    rw [spaces_succ, List.cons_append, readFrom_space]
    exact ih (by omega)

theorem readFrom_newLine (ht : startsToken tail) (hk : k < indent) :
    readFrom false indent start text stop .none m ('\n' :: (spaces k ++ tail)) =
      .ok ⟨text.reverse, stop, true, ⟨('\n' :: spaces k).foldl Mark.after m, tail⟩⟩ := by
  rw [readFrom_break rfl]
  exact readFrom_spaces k ht (by simpa [Mark.after, isBreak] using hk)

theorem readFrom_colon (hr : endsWord r) :
    readFrom false indent start text stop .none m (':' :: r) =
      .ok ⟨text.reverse, stop, false, ⟨m, ':' :: r⟩⟩ := by
  rw [readFrom, if_neg (by decide), if_neg (by decide), if_neg (by simp [Spacing.isNone, Spacing.none]),
    if_neg (by simp [isBadColon]), if_pos (by simp [stopsAt, hr])]
  rfl

theorem read_append (indent : Nat) (h : allowsPlain s) (hin : indent ≤ m.column ∨ ∀ c ∈ s, isSpace c = false) :
    ∃ stop, read false indent ⟨m, s ++ e⟩ =
      readFrom false indent m s.reverse stop .none (s.foldl Mark.after m) e := by
  obtain ⟨hp, hi, hb, -, hl⟩ := of_allowsPlain h
  obtain ⟨stop, hr⟩ := readFrom_append m m [] (g := []) (e := e) hp hb
    (hasInnerIndicator_of_hasIndicator hi) hl (fun _ => rfl) (hin.imp_right fun h => ⟨rfl, h⟩) (.inl rfl)
  refine ⟨stop, hr.trans ?_⟩
  rw [List.nil_append, List.append_nil]

theorem read_line (h : allowsPlain s) (hin : indent ≤ m.column) (ht : startsToken tail) (hk : k < indent) :
    ∃ stop, read false indent ⟨m, s ++ '\n' :: (spaces k ++ tail)⟩ =
      .ok ⟨s, stop, true, ⟨('\n' :: spaces k).foldl Mark.after (s.foldl Mark.after m), tail⟩⟩ := by
  obtain ⟨stop, hr⟩ := read_append indent (e := '\n' :: (spaces k ++ tail)) h (.inl hin)
  exact ⟨stop, by rw [hr, readFrom_newLine ht hk, List.reverse_reverse]⟩

theorem read_key (indent : Nat) (h : allowsPlain s) (hs : ∀ c ∈ s, isSpace c = false) (hr : endsWord r) :
    ∃ stop, read false indent ⟨m, s ++ ':' :: r⟩ = .ok ⟨s, stop, false, ⟨s.foldl Mark.after m, ':' :: r⟩⟩ := by
  obtain ⟨stop, hread⟩ := read_append indent (e := ':' :: r) h (.inr hs)
  exact ⟨stop, by rw [hread, readFrom_colon hr, List.reverse_reverse]⟩

end Plain

end BraceParams.Yaml
