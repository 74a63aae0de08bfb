import Mathlib.Data.List.Chain
import BraceParams.Proofs.Text.Replace
import BraceParams.Text.Quoted

namespace BraceParams.Text

theorem mem_hexDigits {c : Char} {n : Nat} (h : c ∈ hexDigits n) : ∃ d < 16, c = d.digitChar := by
  induction n using Nat.strongRecOn with
  | ind n ih =>
    rw [hexDigits, Nat.toDigits_eq_if (by decide)] at h
    split at h
    · next hn => exact ⟨n, hn, List.mem_singleton.mp h⟩
    · rcases List.mem_append.mp h with h | h
      · exact ih (n / 16) (by omega) h
      · exact ⟨n % 16, Nat.mod_lt n (by decide), List.mem_singleton.mp h⟩

theorem quoteChar_cases (c : Char) :
    quoteChar c = [c] ∨ (∃ d ∈ ['0', 't', 'r', 'n', '\\', '"'], quoteChar c = ['\\', d]) ∨
      ∃ n, quoteChar c = '\\' :: 'u' :: '{' :: (hexDigits n ++ ['}']) := by
  rw [quoteChar]
  split_ifs with h h h h h h
  · exact .inr (.inl ⟨'0', by simp, rfl⟩)
  · exact .inr (.inl ⟨'t', by simp, rfl⟩)
  · exact .inr (.inl ⟨'r', by simp, rfl⟩)
  · exact .inr (.inl ⟨'n', by simp, rfl⟩)
  · refine .inr (.inl ⟨c, ?_, rfl⟩)
    rcases h with rfl | rfl <;> simp
  · exact .inl rfl
  · exact .inr (.inr ⟨c.toNat, rfl⟩)

theorem quoteChar_of_quote_mem {c : Char} (h : '"' ∈ quoteChar c) : quoteChar c = ['\\', '"'] := by
  rcases quoteChar_cases c with he | ⟨d, -, he⟩ | ⟨n, he⟩ <;> rw [he] at h
  · obtain rfl := List.mem_singleton.mp h
    cases he
  · rw [List.mem_cons, List.mem_singleton, or_iff_right (by decide)] at h
    rw [he, h]
  · have hd : ∀ d < 16, '"' ≠ d.digitChar := by decide
    have hn : '"' ∉ hexDigits n := by
      intro hm
      obtain ⟨d, hlt, he⟩ := mem_hexDigits hm
      exact hd d hlt he
    simp [hn] at h

def escapeChars : List Char :=
  ['\\', '"', '0', 't', 'r', 'n', '{', '}', '1', '2', '3', '4', '5', '6', '7', '8', '9', 'a', 'b', 'c', 'd', 'e', 'f']

def startsOutside : List Char → Bool
  | [] => false
  | [c] => c ∉ escapeChars && c ≠ 'u'
  | c :: d :: _ => c ∉ escapeChars && (c ≠ 'u' || d ≠ '{')

theorem mem_escapeChars {c : Char} {n : Nat} (h : c ∈ '{' :: (hexDigits n ++ ['}'])) : c ∈ escapeChars := by
  have hd : ∀ d < 16, d.digitChar ∈ escapeChars := by decide
  rw [List.mem_cons, List.mem_append, List.mem_singleton] at h
  rcases h with rfl | h | rfl
  · decide
  · obtain ⟨d, hlt, rfl⟩ := mem_hexDigits h
    exact hd d hlt
  · decide

section

variable {w s d e b : List Char} {c : Char}

theorem not_prefix_of_startsOutside (h : startsOutside w) (hc : c ∈ escapeChars) : ¬w <+: c :: s := by
  intro hp
  cases w with
  | nil => cases h
  | cons x w =>
    obtain ⟨rfl, -⟩ := List.cons_prefix_cons.mp hp
    cases w <;> simp [startsOutside, hc] at h

theorem clear_of_startsOutside (h : startsOutside w) (he : ∀ c ∈ e, c ∈ escapeChars) : Clear w e b := by
  induction e with
  | nil => exact fun x hx hn => absurd (List.suffix_nil.mp hx) hn
  | cons c e ih =>
    obtain ⟨hc, he⟩ := List.forall_mem_cons.mp he
    exact (ih he).cons (not_prefix_of_startsOutside h hc)

theorem clear_quoteChar (h : startsOutside w) (hc : quoteChar c ≠ [c]) : Clear w (quoteChar c) b := by
  rcases quoteChar_cases c with he | ⟨d, hd, he⟩ | ⟨n, he⟩
  · exact absurd he hc
  · have hs : ∀ x ∈ ['0', 't', 'r', 'n', '\\', '"'], x ∈ escapeChars := by simp [escapeChars]
    rw [he]
    apply clear_of_startsOutside h
    exact List.forall_mem_cons.mpr ⟨by decide, List.forall_mem_singleton.mpr (hs d hd)⟩
  · have hu : ¬w <+: 'u' :: ('{' :: (hexDigits n ++ ['}']) ++ b) := by
      intro hp
      match w, h with
      | [x], h =>
        obtain ⟨rfl, -⟩ := List.cons_prefix_cons.mp hp
        simp [startsOutside] at h
      | x :: y :: w, h =>
        obtain ⟨rfl, hy⟩ := List.cons_prefix_cons.mp hp
        obtain ⟨rfl, -⟩ := List.cons_prefix_cons.mp hy
        simp [startsOutside] at h
    rw [he]
    exact ((clear_of_startsOutside h fun x => mem_escapeChars).cons hu).cons
      (not_prefix_of_startsOutside h (by decide))

def isShown (s : List Char) : Bool :=
  s.all fun c => quoteChar c = [c]

theorem isShown_iff : isShown s ↔ ∀ c ∈ s, quoteChar c = [c] := by
  simp [isShown]

/-- A word that quoting leaves as it is and that cannot start inside an escape. -/
structure Kept (w : List Char) : Prop where
  shown : isShown w
  outside : startsOutside w

theorem flatMap_quoteChar (h : isShown w) : w.flatMap quoteChar = w := by
  rw [List.flatMap_congr (isShown_iff.mp h), List.flatMap_singleton']

theorem prefix_flatMap_iff (h : isShown w) : w <+: s.flatMap quoteChar ↔ w <+: s := by
  induction w generalizing s with
  | nil => simp
  | cons x w ih =>
    obtain ⟨hx, hw⟩ := List.forall_mem_cons.mp (isShown_iff.mp h)
    cases s with
    | nil => simp
    | cons c s =>
      rw [List.flatMap_cons, List.cons_prefix_cons]
      by_cases hc : quoteChar c = [c]
      · rw [hc, List.singleton_append, List.cons_prefix_cons, ih (isShown_iff.mpr hw)]
      · have hne : x ≠ c := by
          rintro rfl
          exact hc hx
        have hb : x ≠ '\\' := by
          rintro rfl
          exact absurd hx (by decide)
        obtain ⟨e, he⟩ : ∃ e, quoteChar c = '\\' :: e := by
          rcases quoteChar_cases c with he | ⟨d, -, he⟩ | ⟨n, he⟩
          · exact absurd he hc
          · exact ⟨_, he⟩
          · exact ⟨_, he⟩
        rw [he, List.cons_append, List.cons_prefix_cons]
        exact iff_of_false (fun hp => hb hp.1) (fun hp => hne hp.1)

namespace Kept

theorem ne_nil (h : Kept w) : w ≠ [] := by
  rintro rfl
  cases h.outside

theorem clear (h : Kept w) (hp : ¬w <+: c :: s) : Clear w (quoteChar c) (s.flatMap quoteChar) := by
  by_cases hc : quoteChar c = [c]
  · rw [← prefix_flatMap_iff h.shown, List.flatMap_cons, hc, List.singleton_append] at hp
    rw [hc]
    exact Clear.cons (fun x hx hn => absurd (List.suffix_nil.mp hx) hn) hp
  · exact clear_quoteChar h.outside hc

theorem cut? (h : Kept w) :
    cut? w (s.flatMap quoteChar) =
      (Text.cut? w s).map fun (x, y) => (x.flatMap quoteChar, y.flatMap quoteChar) := by
  induction s with
  | nil =>
    have hn : Text.cut? w [] = none := cut?_eq_none_iff.mpr fun hi => h.ne_nil (List.infix_nil.mp hi)
    rw [List.flatMap_nil, hn, Option.map_none]
  | cons c s ih =>
    by_cases hp : w <+: c :: s
    · obtain ⟨y, hy⟩ := hp
      rw [← hy, List.flatMap_append, flatMap_quoteChar h.shown, cut?_append_self, cut?_append_self]
      rfl
    · have hc : Text.cut? w (c :: s) = (Text.cut? w s).map fun (x, y) => (c :: x, y) := by
        rw [← List.isPrefixOf_iff_prefix] at hp
        rw [Text.cut?, if_neg hp]
      rw [List.flatMap_cons, (h.clear hp).cut?, ih, hc, Option.map_map, Option.map_map]
      rfl

theorem contains (h : Kept w) : contains w (s.flatMap quoteChar) = contains w s := by
  rw [Text.contains, h.cut?, Option.isSome_map, Text.contains]

theorem mem_iff (h : Kept [c]) : c ∈ s.flatMap quoteChar ↔ c ∈ s := by
  have hc := h.contains (s := s)
  rwa [Bool.eq_iff_iff, contains_iff, contains_iff, List.singleton_infix_iff, List.singleton_infix_iff] at hc

theorem contains_quoted (h : Kept w) (hq : '"' ∉ w) : Text.contains w (quoted s) = Text.contains w s := by
  rw [← h.contains (s := s), quoted, ← List.singleton_append,
    (separates_singleton h.ne_nil hq).contains_enclosed (separates_singleton h.ne_nil hq)]

theorem replace (h : Kept w) (hd : isShown d) :
    replace w d (s.flatMap quoteChar) = (replace w d s).flatMap quoteChar := by
  induction hn : s.length using Nat.strongRecOn generalizing s with
  | ind n ih =>
    by_cases hp : w <+: s
    · obtain ⟨y, rfl⟩ := hp
      have hl : y.length < n := by
        have := List.length_pos_iff.mpr h.ne_nil
        rw [List.length_append] at hn
        omega
      rw [List.flatMap_append, flatMap_quoteChar h.shown, replace_append_self h.ne_nil, replace_append_self h.ne_nil,
        ih _ hl rfl, List.flatMap_append, flatMap_quoteChar hd]
    · cases s with
      | nil => rfl
      | cons c s =>
        have hc : Text.replace w d (c :: s) = c :: Text.replace w d s := by
          rw [← List.isPrefixOf_iff_prefix] at hp
          rw [Text.replace, replaceFrom, if_neg hp]
          rfl
        rw [List.flatMap_cons, (h.clear hp).replace, ih s.length (by rw [← hn]; exact Nat.lt_succ_self _) rfl, hc,
          List.flatMap_cons]

end Kept

theorem isChain_flatMap_quoteChar (b : Char) (s : List Char) :
    List.IsChain (fun c d => d = '"' → c = '\\') (b :: s.flatMap quoteChar) := by
  have hrun {e r : List Char} (he : '"' ∉ e) (hr : ∀ c, List.IsChain (fun c d => d = '"' → c = '\\') (c :: r))
      (c : Char) : List.IsChain (fun c d => d = '"' → c = '\\') (c :: (e ++ r)) := by
    induction e generalizing c with
    | nil => exact hr c
    | cons d e ih =>
      obtain ⟨hd, he⟩ := List.ne_and_not_mem_of_not_mem_cons he
      exact List.IsChain.cons_cons (fun h => absurd h.symm hd) (ih he d)
  induction s generalizing b with
  | nil => exact List.IsChain.singleton b
  | cons c s ih =>
    rw [List.flatMap_cons]
    by_cases hq : '"' ∈ quoteChar c
    · rw [quoteChar_of_quote_mem hq]
      exact List.IsChain.cons_cons (fun h => by cases h) (List.IsChain.cons_cons (fun _ => rfl) (ih '"'))
    · exact hrun hq (fun d => ih d) b

theorem eq_nil_of_quoted_eq {x y : List Char} (h : quoted s = x ++ c :: '"' :: y) (hc : c ≠ '\\') : y = [] := by
  rcases List.eq_nil_or_concat y with rfl | ⟨y, d, rfl⟩
  · rfl
  · have hbody : '"' :: s.flatMap quoteChar = x ++ c :: '"' :: y := by
      have h' : ('"' :: s.flatMap quoteChar) ++ ['"'] = (x ++ c :: '"' :: y) ++ [d] := by
        rw [quoted] at h
        simpa using h
      exact (List.append_inj' h' rfl).1
    have hchain := isChain_flatMap_quoteChar '"' s
    exact absurd (List.isChain_iff_forall_rel_of_append_cons_cons.mp hchain hbody rfl) hc

theorem eq_of_flatMap_quoteChar {t : List Char} (h : s.flatMap quoteChar = t) (ht : '\\' ∉ t) : s = t := by
  have hs : ∀ c ∈ s, quoteChar c = [c] := by
    intro c hc
    have hb : '\\' ∉ quoteChar c := fun hb => ht (h ▸ List.mem_flatMap.mpr ⟨c, hc, hb⟩)
    rcases quoteChar_cases c with he | ⟨d, -, he⟩ | ⟨n, he⟩
    · exact he
    · exact absurd (he ▸ List.mem_cons_self) hb
    · exact absurd (he ▸ List.mem_cons_self) hb
  rw [← h, flatMap_quoteChar (isShown_iff.mpr hs)]

end

end BraceParams.Text
