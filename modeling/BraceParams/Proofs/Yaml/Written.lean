import Mathlib.Tactic.SplitIfs
import Mathlib.Algebra.GroupWithZero.Nat
import BraceParams.Yaml.Write.Document
import BraceParams.Yaml.Token.Stream

namespace BraceParams.Yaml

namespace Mark

variable {m : Mark} {c : Char} {s : List Char}

theorem after_of_not_break (h : isBreak c = false) : m.after c = ⟨m.line, m.column + 1, m.octets + c.utf8Size⟩ := by
  rw [after, h]
  rfl

theorem foldl_after (h : ∀ c ∈ s, isBreak c = false) :
    s.foldl after m = ⟨m.line, m.column + s.length, m.octets + (s.map Char.utf8Size).sum⟩ := by
  induction s generalizing m with
  | nil => rfl
  | cons c r ih =>
    rw [List.foldl_cons, ih fun d hd => h d (List.mem_cons_of_mem c hd),
      after_of_not_break (h c List.mem_cons_self)]
    simp only [List.length_cons, List.map_cons, List.sum_cons, Nat.add_assoc, Nat.add_comm 1]

theorem line_le_after : m.line ≤ (m.after c).line := by
  rw [after]
  split <;> simp

theorem line_le_foldl : m.line ≤ (s.foldl after m).line := by
  induction s generalizing m with
  | nil => exact Nat.le_refl _
  | cons c r ih => exact Nat.le_trans line_le_after ih

theorem foldl_after_spaces (n : Nat) :
    (Write.spaces n).foldl after m = ⟨m.line, m.column + n, m.octets + n⟩ := by
  have h : ∀ c ∈ Write.spaces n, isBreak c = false := by
    intro c hc
    rw [List.eq_of_mem_replicate hc]
    rfl
  rw [foldl_after h]
  simp [Write.spaces, show (' ').utf8Size = 1 from rfl]

theorem foldl_after_newLine (n : Nat) :
    ('\n' :: Write.spaces n).foldl after m = ⟨m.line + 1, n, n⟩ := by
  rw [List.foldl_cons, foldl_after_spaces]
  simp [after, isBreak]

theorem foldl_after_line (h : isBreak c) (n : Nat) :
    (s ++ [c] ++ Write.spaces n).foldl after m = ⟨(s.foldl after m).line + 1, n, n⟩ := by
  rw [List.foldl_append, foldl_after_spaces, List.foldl_append, List.foldl_cons, List.foldl_nil, after, if_pos h]
  simp

end Mark

namespace Write

variable {c : Char} {s : List Char}

theorem isAllowed_of_isPlainChar (h : isPlainChar c) : isAllowed c := by
  have hv : c.toNat < 0xD800 ∨ 0xDFFF < c.toNat ∧ c.toNat < 0x110000 := c.valid
  simp only [isPlainChar, isAllowed, Bool.or_eq_true, Bool.and_eq_true, decide_eq_true_eq, beq_iff_eq] at h ⊢
  omega

theorem isAnyBreak_of_isPlainChar (h : isPlainChar c) : isAnyBreak c = isBreak c := by
  have hr : c ≠ '\r' := by rintro rfl; revert h; decide
  have hn : c ≠ '\u0085' := by rintro rfl; revert h; decide
  simp [isAnyBreak, hr, hn]

theorem isGap_of_isPlainChar (h : isPlainChar c) : isGap c = isSpace c := by
  have ht : c ≠ '\t' := by rintro rfl; revert h; decide
  simp [isGap, isSpace, ht]

theorem isSpace_iff : isSpace c ↔ c = ' ' := by simp [isSpace]

theorem unifyBreaks_eq (h : ∀ c ∈ s, isPlainChar c) : unifyBreaks s = s := by
  induction s with
  | nil => rfl
  | cons c r ih =>
    have hc : isPlainChar c := h c List.mem_cons_self
    have hr : c ≠ '\r' := by rintro rfl; revert hc; decide
    have hn : c ≠ '\u0085' := by rintro rfl; revert hc; decide
    rw [unifyBreaks.eq_3 c r fun _ hr' _ => hr hr', ih fun d hd => h d (List.mem_cons_of_mem c hd)]
    simp [hr, hn]

theorem tokens_ofText (h : ∀ c ∈ s, isPlainChar c) :
    Tokens.ofText s = Tokens.scanFrom Scanner.step (s.length + 1) { cursor := .ofText s } := by
  have ha : ∀ c ∈ s, isAllowed c := fun c hc => isAllowed_of_isPlainChar (h c hc)
  rw [Tokens.ofText, (Horizon.ofText?_eq_none_iff s).mpr ha, unifyBreaks_eq h]

theorem needsEscapes_eq_false :
    needsEscapes s = false ↔ (∀ c ∈ s, isPlainChar c) ∧ hasPair isSpace isAnyBreak s = false := by
  simp [needsEscapes]

theorem of_form_plain (h : form s = .plain) : readsAsOther s = false ∧ allowsPlain s := by
  rw [form] at h
  split_ifs at h with _ _ hp
  simpa using hp

theorem ne_nil_of_form_plain (h : form s = .plain) : s ≠ [] := by
  rintro rfl
  exact absurd (of_form_plain h).1 (by decide)

theorem of_form_single (h : form s = .single) : '\n' ∉ s ∧ allowsSingle s := by
  rw [form] at h
  split_ifs at h with hn _ _ hs
  exact ⟨by simpa using hn, hs⟩

theorem of_form_literal (h : form s = .literal) : allowsBlock s := by
  rw [form] at h
  split_ifs at h with _ hb
  exact hb

theorem needsEscapes_of_form (h : form s ≠ .double) : needsEscapes s = false := by
  cases hf : form s with
  | plain =>
    have ha := (of_form_plain hf).2
    simp only [allowsPlain, Bool.not_eq_true', Bool.or_eq_false_iff] at ha
    exact ha.1.1.1.1
  | single =>
    have ha := (of_form_single hf).2
    simp only [allowsSingle, Bool.not_eq_true', Bool.or_eq_false_iff] at ha
    exact ha.1
  | double => exact absurd hf h
  | literal =>
    have ha := of_form_literal hf
    simp only [allowsBlock, Bool.not_eq_true', Bool.or_eq_false_iff] at ha
    exact ha.1.1

def style (s : List Char) : Style :=
  match form s with
  | .plain => .plain
  | .single => .singleQuoted
  | .double => .doubleQuoted
  | .literal => .literal

theorem spaces_succ (n : Nat) : spaces (n + 1) = ' ' :: spaces n :=
  rfl

theorem plain_spaces (n : Nat) : ∀ c ∈ spaces n, isPlainChar c := by
  intro c hc
  rw [List.eq_of_mem_replicate hc]
  rfl

theorem plain_indentation (atBreak : Bool) (n : Nat) :
    ∀ c ∈ (if atBreak then spaces n else []), isPlainChar c := by
  split
  · exact plain_spaces n
  · simp

theorem plain_singleFrom {indent : Nat} {atBreak : Bool} (h : ∀ c ∈ s, isPlainChar c) :
    ∀ c ∈ singleFrom indent atBreak s, isPlainChar c := by
  induction s generalizing atBreak with
  | nil => exact plain_indentation atBreak indent
  | cons c r ih =>
    have hc : isPlainChar c := h c List.mem_cons_self
    have hi : ∀ b, ∀ d ∈ singleFrom indent b r, isPlainChar d :=
      fun b => ih fun d hd => h d (List.mem_cons_of_mem c hd)
    have hq : ∀ d ∈ (if c = '\'' then ['\'', '\''] else [c]), isPlainChar d := by
      split
      · exact List.all_eq_true.mp (by decide)
      · simpa using hc
    rw [singleFrom]
    split
    · exact List.forall_mem_cons.mpr ⟨hc, hi _⟩
    · split
      · exact List.forall_mem_cons.mpr ⟨hc, hi _⟩
      · refine List.forall_mem_append.mpr ⟨List.forall_mem_append.mpr ⟨?_, hq⟩, hi _⟩
        exact plain_indentation atBreak indent

theorem plain_literalFrom {indent : Nat} {atBreak : Bool} (h : ∀ c ∈ s, isPlainChar c) :
    ∀ c ∈ literalFrom indent atBreak s, isPlainChar c := by
  induction s generalizing atBreak with
  | nil => simp [literalFrom]
  | cons c r ih =>
    have hc : isPlainChar c := h c List.mem_cons_self
    have hi : ∀ b, ∀ d ∈ literalFrom indent b r, isPlainChar d :=
      fun b => ih fun d hd => h d (List.mem_cons_of_mem c hd)
    rw [literalFrom]
    split
    · exact List.forall_mem_cons.mpr ⟨hc, hi _⟩
    · refine List.forall_mem_append.mpr ⟨?_, List.forall_mem_cons.mpr ⟨hc, hi _⟩⟩
      exact plain_indentation atBreak indent

theorem plain_hexDigit : ∀ d < 16, isPlainChar (Text.hexDigit 'A' d) := by decide

theorem mem_hexText {width n : Nat} (h : c ∈ hexText width n) : ∃ d < 16, c = Text.hexDigit 'A' d := by
  induction width generalizing n with
  | zero => simp [hexText] at h
  | succ width ih =>
    rw [hexText, List.mem_append, List.mem_singleton] at h
    rcases h with h | rfl
    · exact ih h
    · exact ⟨n % 16, Nat.mod_lt n (by decide), rfl⟩

theorem plain_hexText (width n : Nat) : ∀ c ∈ hexText width n, isPlainChar c := by
  intro c hc
  obtain ⟨d, hd, rfl⟩ := mem_hexText hc
  exact plain_hexDigit d hd

theorem plain_of_escapeLetter {letter : Char} (h : escapeLetter? c = some letter) : isPlainChar letter := by
  unfold escapeLetter? at h
  split at h <;> cases h <;> rfl

theorem plain_doubleChar (c : Char) : ∀ d ∈ doubleChar c, isPlainChar d := by
  have hx : ∀ mark width n, isPlainChar mark → ∀ d ∈ '\\' :: mark :: hexText width n, isPlainChar d := by
    intro mark width n hm
    exact List.forall_mem_cons.mpr ⟨rfl, List.forall_mem_cons.mpr ⟨hm, plain_hexText width n⟩⟩
  rw [doubleChar]
  split
  · next hc =>
    simp only [Bool.and_eq_true] at hc
    simpa using hc.1.1.1
  · cases he : escapeLetter? c with
    | some letter => simpa using ⟨rfl, plain_of_escapeLetter he⟩
    | none =>
      dsimp only
      rw [escapeCode]
      split_ifs
      · exact hx _ _ _ rfl
      · exact hx _ _ _ rfl
      · exact hx _ _ _ rfl

theorem plain_indentationHint (s : List Char) : ∀ c ∈ indentationHint s, isPlainChar c := by
  rw [indentationHint]
  split
  · exact List.all_eq_true.mp (by decide)
  · simp

theorem plain_chompingHint (s : List Char) : ∀ c ∈ chompingHint s, isPlainChar c := by
  unfold chompingHint
  split
  · exact List.all_eq_true.mp (by decide)
  · split <;> exact List.all_eq_true.mp (by decide)
  · split_ifs <;> exact List.all_eq_true.mp (by decide)

theorem plain_scalarLine (indent : Nat) (s : List Char) : ∀ c ∈ scalarLine indent s, isPlainChar c := by
  have he : ∀ c ∈ lineEnd s, isPlainChar c := by
    rw [lineEnd]
    split <;> exact List.all_eq_true.mp (by decide)
  have hp : form s ≠ .double → ∀ c ∈ s, isPlainChar c :=
    fun h => (needsEscapes_eq_false.mp (needsEscapes_of_form h)).1
  have hl : ∀ text q, isPlainChar q → (∀ c ∈ text, isPlainChar c) → ∀ c ∈ q :: text ++ [q], isPlainChar c := by
    intro text q hq ht
    refine List.forall_mem_append.mpr ⟨List.forall_mem_cons.mpr ⟨hq, ht⟩, ?_⟩
    simpa using hq
  rw [scalarLine, List.forall_mem_append]
  refine ⟨?_, he⟩
  rw [scalar]
  cases hf : form s with
  | plain => exact hp (by simp [hf])
  | single => exact hl _ _ rfl (plain_singleFrom (hp (by simp [hf])))
  | double =>
    refine hl _ _ rfl ?_
    intro c hc
    obtain ⟨d, -, hd⟩ := List.mem_flatMap.mp hc
    exact plain_doubleChar d c hd
  | literal =>
    refine List.forall_mem_append.mpr ⟨?_, List.forall_mem_cons.mpr ⟨rfl, plain_literalFrom (hp (by simp [hf]))⟩⟩
    exact List.forall_mem_append.mpr ⟨List.forall_mem_cons.mpr ⟨rfl, plain_indentationHint s⟩, plain_chompingHint s⟩

theorem plain_fieldLine {key : String} (h : ∀ c ∈ key.toList, isPlainChar c) (value : String) :
    ∀ c ∈ fieldLine key value, isPlainChar c := by
  rw [fieldLine, List.forall_mem_append, List.forall_mem_append]
  exact ⟨⟨h, List.all_eq_true.mp (by decide)⟩, plain_scalarLine _ _⟩

theorem plain_valuesLines (values : List String) : ∀ c ∈ valuesLines values, isPlainChar c := by
  unfold valuesLines
  split
  · exact List.all_eq_true.mp (by decide)
  · refine List.forall_mem_append.mpr ⟨List.all_eq_true.mp (by decide), fun c hc => ?_⟩
    obtain ⟨value, -, hv⟩ := List.mem_flatMap.mp hc
    rcases List.mem_append.mp hv with hv | hv
    · exact List.all_eq_true.mp (by decide : "  - ".toList.all isPlainChar) c hv
    · exact plain_scalarLine _ _ c hv

theorem plain_entryLines (e : Entry) : ∀ c ∈ entryLines e, isPlainChar c := by
  rw [entryLines]
  refine List.forall_mem_append.mpr ⟨List.forall_mem_append.mpr ⟨List.forall_mem_append.mpr ⟨?_, ?_⟩, ?_⟩, ?_⟩
  · exact plain_fieldLine (List.all_eq_true.mp (by decide)) _
  · cases e.value with
    | none => simp
    | some value => exact plain_fieldLine (List.all_eq_true.mp (by decide)) _
  · cases e.values with
    | none => simp
    | some values => exact plain_valuesLines values
  · split <;> exact List.all_eq_true.mp (by decide)

theorem plain_document (d : Document) : ∀ c ∈ document d, isPlainChar c := by
  rw [document]
  split
  · exact List.all_eq_true.mp (by decide)
  · refine List.forall_mem_append.mpr ⟨List.all_eq_true.mp (by decide), fun c hc => ?_⟩
    obtain ⟨p, -, hp⟩ := List.mem_flatMap.mp hc
    exact plain_entryLines _ c hp

end Write

end BraceParams.Yaml
