import Mathlib.Algebra.Group.Nat.Defs
import BraceParams.Proofs.Yaml.PlainScalar

namespace BraceParams.Yaml

open Write
open Text (hexDigit hexValue?_hexDigit charOfCode? charOfCode?_toNat)

namespace Write

theorem hasPair_cons {p q : Char → Bool} {c : Char} {r : List Char} :
    hasPair p q (c :: r) = (p c && r.head?.any q || hasPair p q r) := by
  cases r with
  | nil => simp [hasPair]
  | cons d r => rfl

/-- White space as it is read from a single-quoted text in front of `s`; `atBreak` tells whether the
indentation of the next line is still to be written. -/
inductive Behind : Bool → Spacing → List Char → Prop
  | gaps {g s : List Char} (h : g = [] ∨ s.head?.any isAnyBreak = false) : Behind false (.gaps g) s
  | breaks {first : Char} {more s : List Char} (hn : first ≠ '\n') (h : s.head?.any isSpace = false) :
      Behind true (.breaks (some first) more) s

variable {atBreak : Bool} {spacing : Spacing} {c : Char} {r s : List Char}

theorem Behind.none : Behind false .none s :=
  .gaps (.inl rfl)

theorem Behind.pushGap (hb : Behind atBreak spacing (' ' :: r)) (hr : r.head?.any isAnyBreak = false) :
    atBreak = false ∧ Behind false (spacing.pushGap ' ') r ∧ (spacing.pushGap ' ').fold = ' ' :: spacing.fold := by
  cases hb with
  | gaps h => exact ⟨rfl, .gaps (.inr hr), rfl⟩
  | breaks hn h => cases h

theorem fold_breaks {first : Char} (h : first ≠ '\n') (more : List Char) :
    (Spacing.breaks (some first) more).fold = more ++ [first] := by
  have hf : some first ≠ some '\n' := fun he => h (Option.some.inj he)
  rw [Spacing.fold.eq_4 _ _ (fun he _ => hf he) hf, Option.toList_some]

theorem Behind.pushBreak (hb : Behind atBreak spacing (c :: r)) (hc : isAnyBreak c) (hn : c ≠ '\n')
    (hr : r.head?.any isSpace = false) :
    Behind true (spacing.pushBreak c) r ∧ (spacing.pushBreak c).fold = c :: spacing.fold := by
  cases hb with
  | gaps h =>
    obtain rfl := h.resolve_right (by simp [hc])
    exact ⟨.breaks hn hr, fold_breaks hn []⟩
  | breaks hf h =>
    refine ⟨.breaks hf hr, ?_⟩
    rw [Spacing.pushBreak, fold_breaks hf, fold_breaks hf, List.cons_append]

end Write

namespace Quoted

variable {c : Char} {s r rest text : List Char} {start m : Mark} {spacing : Spacing}

theorem readSingle_space :
    readSingle start text spacing m (' ' :: r) = readSingle start text (spacing.pushGap ' ') (m.after ' ') r := by
  rw [readSingle.eq_def]
  simp [isGap]

theorem readSingle_break (h : isBreak c) :
    readSingle start text spacing m (c :: r) = readSingle start text (spacing.pushBreak c) (m.after c) r := by
  rw [readSingle.eq_def]
  simp [isGap_of_isBreak h, h]

theorem readSingle_char (hg : isGap c = false) (hb : isBreak c = false) (hm : 0 < m.column) (hq : c ≠ '\'') :
    readSingle start text spacing m (c :: r) =
      readSingle start (c :: (spacing.fold ++ text)) .none (m.after c) r := by
  rw [readSingle.eq_def]
  simp [hg, hb, startsDocumentMarker_eq_false hm, hq]

theorem readSingle_quote (hm : 0 < m.column) :
    readSingle start text spacing m ('\'' :: '\'' :: r) =
      readSingle start ('\'' :: (spacing.fold ++ text)) .none ((m.after '\'').after '\'') r := by
  simp [readSingle, isGap, isBreak, startsDocumentMarker_eq_false hm]

theorem readSingle_end (hm : 0 < m.column) (hr : rest.head? ≠ some '\'') :
    readSingle start text spacing m ('\'' :: rest) = .ok ((spacing.fold ++ text).reverse, ⟨m.after '\'', rest⟩) := by
  rw [readSingle.eq_def]
  simp only [isGap, isBreak, startsDocumentMarker_eq_false hm]
  cases rest with
  | nil => rfl
  | cons d r => simp_all

theorem readSingle_indentation (start : Mark) (text : List Char) {atBreak : Bool} {indent : Nat} (hb : Behind atBreak spacing s) (hi : 0 < indent)
    (hm : atBreak = false → 0 < m.column) (r : List Char) :
    0 < ((if atBreak then spaces indent else []).foldl Mark.after m).column ∧
      readSingle start text spacing m ((if atBreak then spaces indent else []) ++ r) =
        readSingle start text spacing ((if atBreak then spaces indent else []).foldl Mark.after m) r := by
  cases hb with
  | gaps h => exact ⟨hm rfl, rfl⟩
  | @breaks first more =>
    have hs : ∀ n m, readSingle start text (.breaks (some first) more) m (spaces n ++ r) =
        readSingle start text (.breaks (some first) more) ((spaces n).foldl Mark.after m) r := by
      intro n
      induction n with
      | zero => exact fun m => rfl
      | succ n ih =>
        intro m
        rw [spaces_succ, List.cons_append, readSingle_space]
        exact ih _
    refine ⟨?_, hs indent m⟩
    rw [if_pos rfl, Mark.foldl_after_spaces]
    exact Nat.add_pos_right _ hi

theorem readSingle_singleFrom {atBreak : Bool} {indent : Nat} (hb : Behind atBreak spacing s) (hi : 0 < indent)
    (hp : ∀ c ∈ s, isPlainChar c) (hn : '\n' ∉ s) (h1 : hasPair isSpace isAnyBreak s = false)
    (h2 : hasPair isAnyBreak isSpace s = false) (hm : atBreak = false → 0 < m.column)
    (hr : rest.head? ≠ some '\'') :
    readSingle start text spacing m (singleFrom indent atBreak s ++ '\'' :: rest) =
      .ok ((spacing.fold ++ text).reverse ++ s,
        ⟨(singleFrom indent atBreak s ++ ['\'']).foldl Mark.after m, rest⟩) := by
  induction s generalizing atBreak spacing text m with
  | nil =>
    obtain ⟨hcol, hread⟩ := readSingle_indentation start text hb hi hm ('\'' :: rest)
    rw [singleFrom, hread, readSingle_end hcol hr, List.append_nil, List.foldl_append]
    rfl
  | cons c r ih =>
    have hpc : isPlainChar c := hp c List.mem_cons_self
    have hcn : c ≠ '\n' := fun h => hn (h ▸ List.mem_cons_self)
    rw [hasPair_cons, Bool.or_eq_false_iff] at h1 h2
    have ih {text m spacing atBreak} (hb : Behind atBreak spacing r) := @ih text m spacing atBreak hb
      (fun d hd => hp d (List.mem_cons_of_mem c hd)) (fun h => hn (List.mem_cons_of_mem c h)) h1.2 h2.2
    rw [singleFrom]
    by_cases hs : isSpace c
    · obtain rfl := isSpace_iff.mp hs
      obtain ⟨rfl, hb', hfold⟩ := hb.pushGap h1.1
      rw [if_pos hs, List.cons_append, readSingle_space, ih hb' (fun _ => Nat.succ_pos _), hfold]
      simp
    · rw [if_neg hs]
      by_cases hbr : isAnyBreak c
      · have hbc : isBreak c := by rwa [isAnyBreak_of_isPlainChar hpc] at hbr
        obtain ⟨hb', hfold⟩ := hb.pushBreak hbr hcn (by simpa [hbr] using h2.1)
        rw [if_pos hbr, List.cons_append, readSingle_break hbc, ih hb' (by simp), hfold]
        simp
      · have hbc : isBreak c = false := by rwa [isAnyBreak_of_isPlainChar hpc, Bool.not_eq_true] at hbr
        have hgc : isGap c = false := by rwa [isGap_of_isPlainChar hpc, ← Bool.not_eq_true]
        obtain ⟨hcol, hread⟩ := readSingle_indentation start text hb hi hm
          ((if c = '\'' then ['\'', '\''] else [c]) ++ (singleFrom indent false r ++ '\'' :: rest))
        rw [if_neg hbr, List.append_assoc, List.append_assoc, hread]
        by_cases hq : c = '\''
        · rw [if_pos hq, List.cons_append, List.cons_append, List.nil_append, readSingle_quote hcol,
            ih .none fun _ => Nat.succ_pos _, hq]
          simp [Spacing.none, Spacing.fold]
        · rw [if_neg hq, List.cons_append, List.nil_append, readSingle_char hgc hbc hcol hq,
            ih .none fun _ => by rw [Mark.after_of_not_break hbc]; exact Nat.succ_pos _]
          simp [Spacing.none, Spacing.fold]

theorem readDouble_space :
    readDouble start text spacing .text m (' ' :: r) =
      readDouble start text (spacing.pushGap ' ') .text (m.after ' ') r := by
  simp [readDouble, isGap]

theorem readDouble_char (hg : isGap c = false) (hb : isBreak c = false) (hm : 0 < m.column) (hq : c ≠ '"')
    (hs : c ≠ '\\') :
    readDouble start text spacing .text m (c :: r) =
      readDouble start (c :: (spacing.fold ++ text)) .none .text (m.after c) r := by
  simp [readDouble, hg, hb, startsDocumentMarker_eq_false hm, hq, hs]

theorem readDouble_end (hm : 0 < m.column) :
    readDouble start text spacing .text m ('"' :: rest) =
      .ok ((spacing.fold ++ text).reverse, ⟨m.after '"', rest⟩) := by
  simp [readDouble, isGap, isBreak, startsDocumentMarker_eq_false hm]

theorem readDouble_backslash (hm : 0 < m.column) :
    readDouble start text spacing .text m ('\\' :: r) =
      readDouble start (spacing.fold ++ text) .none (.escape m) (m.after '\\') r := by
  simp [readDouble, isGap, isBreak, startsDocumentMarker_eq_false hm]

theorem readDouble_letter {d : Char} {backslash : Mark} (hb : isBreak c = false) (hc : escape? c = some (.char d)) :
    readDouble start text .none (.escape backslash) m (c :: r) =
      readDouble start (d :: text) .none .text (m.after c) r := by
  simp [readDouble, hb, hc]

theorem readDouble_digits (start first : Mark) (text : List Char) (width left value n : Nat) (e : List Char) :
    readDouble start text .none (.code (width + left) value first) m (hexText width n ++ e) =
      readDouble start text .none (.code left (16 ^ width * value + n % 16 ^ width) first)
        ((hexText width n).foldl Mark.after m) e := by
  induction width generalizing left n e with
  | zero => simp [hexText, Nat.mod_one]
  | succ width ih =>
    have hd : n % 16 < 16 := Nat.mod_lt n (by decide)
    have hv : 16 * (16 ^ width * value + n / 16 % 16 ^ width) + n % 16 =
        16 ^ (width + 1) * value + n % 16 ^ (width + 1) := by
      rw [Nat.pow_succ', Nat.mod_mul, Nat.mul_add, Nat.mul_assoc]
      omega
    rw [hexText, List.append_assoc, Nat.add_right_comm, Nat.add_assoc, ih, List.singleton_append, readDouble]
    simp only [hexValue?_hexDigit (.inl rfl) _ hd]
    rw [hv, List.foldl_append]
    rfl

theorem readDouble_code {first : Mark} (width n : Nat) (hn : n < 16 ^ (width + 1)) (hc : charOfCode? n = some c)
    (e : List Char) :
    readDouble start text .none (.code width 0 first) m (hexText (width + 1) n ++ e) =
      readDouble start (c :: text) .none .text ((hexText (width + 1) n).foldl Mark.after m) e := by
  have hd : n % 16 < 16 := Nat.mod_lt n (by decide)
  have hv : 16 * (16 ^ width * 0 + n / 16 % 16 ^ width) + n % 16 = n := by
    rw [Nat.mod_eq_of_lt (Nat.div_lt_of_lt_mul (by rwa [← Nat.pow_succ'])), Nat.mul_zero, Nat.zero_add]
    exact Nat.div_add_mod n 16
  have hr := readDouble_digits start first text (m := m) width 0 0 (n / 16)
    ([hexDigit 'A' (n % 16)] ++ e)
  rw [Nat.add_zero] at hr
  rw [hexText, List.append_assoc, hr, List.singleton_append, readDouble]
  simp only [hexValue?_hexDigit (.inl rfl) _ hd, hv, hc]
  rw [List.foldl_append]
  rfl

theorem escape?_of_escapeLetter {letter : Char} (h : escapeLetter? c = some letter) :
    isBreak letter = false ∧ escape? letter = some (.char c) := by
  unfold escapeLetter? at h
  split at h <;> cases h <;> exact ⟨rfl, rfl⟩

theorem isBreak_hexDigit : ∀ d < 16, isBreak (hexDigit 'A' d) = false := by decide

theorem isBreak_doubleChar (c : Char) : ∀ d ∈ doubleChar c, isBreak d = false := by
  have hx : ∀ mark width n, isBreak mark = false → ∀ d ∈ '\\' :: mark :: hexText width n, isBreak d = false := by
    intro mark width n hm
    refine List.forall_mem_cons.mpr ⟨rfl, List.forall_mem_cons.mpr ⟨hm, fun x hx => ?_⟩⟩
    obtain ⟨d, hd, rfl⟩ := mem_hexText hx
    exact isBreak_hexDigit d hd
  rw [doubleChar]
  split
  · next hc =>
    simp only [Bool.and_eq_true, Bool.not_eq_true'] at hc
    rw [List.forall_mem_singleton, ← isAnyBreak_of_isPlainChar hc.1.1.1]
    exact hc.1.1.2
  · cases he : escapeLetter? c with
    | some letter => simpa using ⟨rfl, (escape?_of_escapeLetter he).1⟩
    | none =>
      dsimp only
      rw [escapeCode]
      split_ifs
      · exact hx _ _ _ rfl
      · exact hx _ _ _ rfl
      · exact hx _ _ _ rfl

theorem readDouble_escapeCode (start backslash : Mark) (text : List Char) (c : Char) (e : List Char) :
    ∃ r, escapeCode c.toNat = '\\' :: r ∧ readDouble start text .none (.escape backslash) m (r ++ e) =
      readDouble start (c :: text) .none .text (r.foldl Mark.after m) e := by
  have hcode : ∀ mark width, isBreak mark = false → escape? mark = some (.code (width + 1)) →
      c.toNat < 16 ^ (width + 1) →
      readDouble start text .none (.escape backslash) m ((mark :: hexText (width + 1) c.toNat) ++ e) =
        readDouble start (c :: text) .none .text ((mark :: hexText (width + 1) c.toNat).foldl Mark.after m) e := by
    intro mark width hb hmark hn
    rw [List.cons_append, readDouble]
    simp only [hb, hmark]
    exact readDouble_code width c.toNat hn (charOfCode?_toNat c) e
  have hv : c.toNat < 0x110000 := by
    have := c.valid
    simp only [UInt32.isValidChar, Nat.isValidChar] at this
    change c.val.toNat < _
    omega
  rw [escapeCode]
  split_ifs
  · exact ⟨_, rfl, hcode 'x' 1 rfl rfl (by omega)⟩
  · exact ⟨_, rfl, hcode 'u' 3 rfl rfl (by omega)⟩
  · exact ⟨_, rfl, hcode 'U' 7 rfl rfl (by omega)⟩

theorem readDouble_doubleChar (start : Mark) (text g : List Char) (hm : 0 < m.column) (c : Char) (e : List Char) :
    ∃ g' text', g' ++ text' = c :: (g ++ text) ∧
      readDouble start text (.gaps g) .text m (doubleChar c ++ e) =
        readDouble start text' (.gaps g') .text ((doubleChar c).foldl Mark.after m) e := by
  by_cases hs : isSpace c
  · obtain rfl := isSpace_iff.mp hs
    exact ⟨' ' :: g, text, rfl, readDouble_space⟩
  refine ⟨[], c :: (g ++ text), rfl, ?_⟩
  rw [doubleChar]
  split
  · next hc =>
    simp only [Bool.and_eq_true, Bool.not_eq_true', decide_eq_true_eq] at hc
    obtain ⟨⟨⟨hp, hb⟩, hq⟩, hbs⟩ := hc
    rw [isAnyBreak_of_isPlainChar hp] at hb
    rw [Bool.not_eq_true, ← isGap_of_isPlainChar hp] at hs
    exact readDouble_char hs hb hm hq hbs
  · cases he : escapeLetter? c with
    | some letter =>
      obtain ⟨hb, hl⟩ := escape?_of_escapeLetter he
      dsimp only
      rw [List.cons_append, readDouble_backslash hm, List.cons_append, readDouble_letter hb hl]
      rfl
    | none =>
      obtain ⟨r, hr, hread⟩ := readDouble_escapeCode start m (g ++ text) (m := m.after '\\') c e
      dsimp only
      rw [hr, List.cons_append, readDouble_backslash hm]
      exact hread

theorem readDouble_flatMap {g : List Char} (hm : 0 < m.column) (s rest : List Char) :
    readDouble start text (.gaps g) .text m (s.flatMap doubleChar ++ '"' :: rest) =
      .ok ((g ++ text).reverse ++ s, ⟨(s.flatMap doubleChar ++ ['"']).foldl Mark.after m, rest⟩) := by
  induction s generalizing g text m with
  | nil => rw [List.flatMap_nil, List.nil_append, readDouble_end hm, List.append_nil]; rfl
  | cons c r ih =>
    have hcol : 0 < ((doubleChar c).foldl Mark.after m).column := by
      rw [Mark.foldl_after (isBreak_doubleChar c)]
      exact Nat.add_pos_left hm _
    obtain ⟨g', text', ht, hc⟩ := readDouble_doubleChar start text g hm c
      (r.flatMap doubleChar ++ '"' :: rest)
    rw [List.flatMap_cons, List.append_assoc, hc, ih hcol, ht]
    simp

theorem single_scalar {indent : Nat} (hi : 0 < indent) (h : form s = .single) (hr : rest.head? ≠ some '\'') :
    single ⟨m, scalar indent s ++ rest⟩ = .ok (s, ⟨(scalar indent s).foldl Mark.after m, rest⟩) := by
  obtain ⟨hn, ha⟩ := of_form_single h
  simp only [allowsSingle, Bool.not_eq_true', Bool.or_eq_false_iff] at ha
  obtain ⟨hp, h1⟩ := needsEscapes_eq_false.mp ha.1
  have hs : scalar indent s = '\'' :: (singleFrom indent false s ++ ['\'']) := by
    rw [scalar, h]
    rfl
  rw [hs, List.cons_append, List.append_assoc, List.foldl_cons]
  exact readSingle_singleFrom (m := m.after '\'') .none hi hp hn h1 ha.2 (fun _ => Nat.succ_pos _) hr

theorem double_scalar {indent : Nat} (h : form s = .double) :
    double ⟨m, scalar indent s ++ rest⟩ = .ok (s, ⟨(scalar indent s).foldl Mark.after m, rest⟩) := by
  have hs : scalar indent s = '"' :: (s.flatMap doubleChar ++ ['"']) := by
    rw [scalar, h]
    rfl
  rw [hs, List.cons_append, List.append_assoc, List.foldl_cons]
  exact readDouble_flatMap (m := m.after '"') (Nat.succ_pos _) s rest

end Quoted

end BraceParams.Yaml
