import Mathlib.Data.List.Infix
import BraceParams.Report.Excerpt

namespace BraceParams.Report

open Text

theorem newline_not_mem_rawLines {s line : List Char} {ended : Bool} (h : (line, ended) ∈ rawLines s) :
    '\n' ∉ line := by
  fun_induction rawLines s generalizing line ended with
  | case1 => cases h
  | case2 r ih =>
    rcases List.mem_cons.mp h with he | h
    · cases he
      exact List.not_mem_nil
    · exact ih h
  | case3 c r hc hr ih =>
    cases List.mem_singleton.mp h
    simpa using Ne.symm hc
  | case4 c r hc line' ended' rest hr ih =>
    rcases List.mem_cons.mp h with he | h
    · cases he
      rw [List.mem_cons, not_or]
      exact ⟨Ne.symm hc, ih (by rw [hr]; exact List.mem_cons_self)⟩
    · exact ih (by rw [hr]; exact List.mem_cons_of_mem _ h)

theorem newline_not_mem_lines {s line : List Char} (h : line ∈ lines s) : '\n' ∉ line := by
  obtain ⟨⟨raw, ended⟩, hr, rfl⟩ := List.mem_map.mp h
  have hn := newline_not_mem_rawLines hr
  dsimp only
  split
  · rw [dropReturn]
    split
    · exact fun hm => hn (List.mem_of_mem_dropLast hm)
    · exact hn
  · exact hn

theorem newline_not_mem_numberText (n : Nat) : '\n' ∉ numberText n := by
  rw [numberText, List.mem_append, not_or]
  constructor
  · intro h
    cases List.eq_of_mem_replicate h
  · intro h
    cases Nat.isDigit_of_mem_toDigits (by decide) (by decide) h

def markedRows (s : List Char) : List (List Char) :=
  (s.splitOn '\n').filter (·.head? = some '>')

def markedRow (number : Nat) (line : List Char) : List Char :=
  '>' :: ' ' :: numberText number ++ " | ".toList ++ line

theorem markedRows_append {row : List Char} (h : '\n' ∉ row) (s : List Char) :
    markedRows (row ++ ['\n'] ++ s) = [row].filter (·.head? = some '>') ++ markedRows s := by
  rw [markedRows, List.append_assoc, List.singleton_append, List.splitOn_append_cons_self_of_not_mem h,
    ← List.singleton_append, List.filter_append]
  rfl

theorem markedRows_lineRow {line : List Char} (h : '\n' ∉ line) (marked : Bool) (number : Nat) (s : List Char) :
    markedRows (lineRow marked number line ++ s) =
      (if marked then [markedRow number line] else []) ++ markedRows s := by
  have hr : '\n' ∉ (if marked then '>' else ' ') :: ' ' :: numberText number ++ " | ".toList ++ line := by
    have hn := newline_not_mem_numberText number
    cases marked <;> simp [hn, h]
  rw [lineRow, markedRows_append hr]
  cases marked <;> rfl

theorem markedRows_caretRow (column : Nat) (s : List Char) : markedRows (caretRow column ++ s) = markedRows s := by
  have hr : '\n' ∉ "       | ".toList ++ List.replicate (column - 1) ' ' ++ ['^'] := by simp
  have he : caretRow column = "       | ".toList ++ List.replicate (column - 1) ' ' ++ ['^'] ++ ['\n'] :=
    (List.append_assoc _ ['^'] ['\n']).symm
  rw [he, markedRows_append hr]
  rfl

theorem markedRows_rows {text : List Char} (h : '\n' ∉ text) (line column number : Nat) (s : List Char) :
    markedRows ((rows line column number text).flatten ++ s) =
      (if number = line then [markedRow number text] else []) ++ markedRows s := by
  rw [rows]
  by_cases hn : number = line
  · rw [if_pos hn, if_pos hn, List.flatten_cons, List.append_assoc, markedRows_lineRow h, if_pos rfl]
    by_cases hc : 0 < column
    · rw [if_pos hc, List.flatten_singleton, markedRows_caretRow]
    · rw [if_neg hc, List.flatten_nil, List.nil_append]
  · rw [if_neg hn, if_neg hn, List.flatten_singleton, markedRows_lineRow h, if_neg Bool.false_ne_true]

theorem markedRows_flatMap {numbered : List (Nat × List Char)} (h : ∀ x ∈ numbered, '\n' ∉ x.2)
    (line column : Nat) :
    markedRows (numbered.flatMap fun (number, text) => rows line column number text).flatten =
      (numbered.filter (·.1 = line)).map fun (number, text) => markedRow number text := by
  induction numbered with
  | nil => rfl
  | cons x numbered ih =>
    obtain ⟨hx, hr⟩ := List.forall_mem_cons.mp h
    rw [List.flatMap_cons, List.flatten_append, markedRows_rows hx, ih hr]
    by_cases hl : x.1 = line <;> simp [hl]

def numbered (k : Nat) (texts : List (List Char)) : List (Nat × List Char) :=
  (texts.zipIdx k).map fun (text, i) => (i + 1, text)

theorem numbered_append_cons (k : Nat) (x : List (List Char)) (text : List Char) (y : List (List Char)) :
    numbered k (x ++ text :: y) = numbered k x ++ (k + x.length + 1, text) :: numbered (k + x.length + 1) y := by
  rw [numbered, List.zipIdx_append, List.zipIdx_cons, List.map_append]
  rfl

theorem numbered_bounds {k : Nat} {texts : List (List Char)} {z : Nat × List Char} (h : z ∈ numbered k texts) :
    k < z.1 ∧ z.1 ≤ k + texts.length ∧ z.2 ∈ texts := by
  obtain ⟨⟨text, i⟩, hi, rfl⟩ := List.mem_map.mp h
  refine ⟨Nat.lt_succ_of_le (List.le_snd_of_mem_zipIdx hi), ?_, List.fst_mem_of_mem_zipIdx hi⟩
  rw [Nat.add_comm k]
  exact List.snd_lt_of_mem_zipIdx hi

theorem exists_eq_append_cons {α : Type} {xs : List α} {i : Nat} {x : α} (h : xs[i]? = some x) :
    ∃ a b, xs = a ++ x :: b ∧ a.length = i := by
  obtain ⟨hi, rfl⟩ := List.getElem?_eq_some_iff.mp h
  refine ⟨xs.take i, xs.drop (i + 1), ?_, List.length_take_of_le (Nat.le_of_lt hi)⟩
  rw [← List.drop_eq_getElem_cons hi, List.take_append_drop]

theorem drop_take_append_cons {α : Type} {n : Nat} {a : List α} (h : n ≤ a.length) (x : α) (b : List α) (m : Nat) :
    ((a ++ x :: b).take (a.length + (m + 1))).drop n = a.drop n ++ x :: b.take m := by
  rw [List.take_length_add_append, List.take_succ_cons, List.drop_append_of_le_length h]

theorem filter_window {source text : List Char} {i : Nat} (h : (lines source)[i]? = some text) (around : Nat) :
    (window source (i + 1) around).filter (·.1 = i + 1) = [(i + 1, text)] := by
  obtain ⟨x, y, hs, rfl⟩ := exists_eq_append_cons h
  have hl : (numbered 0 x).length = x.length := by rw [numbered, List.length_map, List.length_zipIdx]
  have hn : x.length + 1 - (around + 1) ≤ (numbered 0 x).length := by omega
  have hw : window source (x.length + 1) around =
      (numbered 0 x).drop (x.length + 1 - (around + 1)) ++
        (x.length + 1, text) :: (numbered (x.length + 1) y).take around := by
    rw [← drop_take_append_cons hn, hl, ← Nat.add_assoc, Nat.add_right_comm]
    change ((numbered 0 (lines source)).take _).drop _ = _
    rw [hs, numbered_append_cons, Nat.zero_add]
  have hx : ∀ z ∈ (numbered 0 x).drop (x.length + 1 - (around + 1)), ¬z.1 = x.length + 1 := by
    intro z hz
    have := numbered_bounds (List.mem_of_mem_drop hz)
    omega
  have hy : ∀ z ∈ (numbered (x.length + 1) y).take around, ¬z.1 = x.length + 1 := by
    intro z hz
    have := numbered_bounds (List.mem_of_mem_take hz)
    omega
  rw [hw, List.filter_append, List.filter_cons_of_pos (by simp), List.filter_eq_nil_iff.mpr (by simpa using hx),
    List.filter_eq_nil_iff.mpr (by simpa using hy)]
  rfl

theorem markedRows_excerpt {source text : List Char} {i : Nat} (h : (lines source)[i]? = some text)
    (column around : Nat) :
    markedRows (excerpt source (i + 1) column around) = [markedRow (i + 1) text] := by
  rw [excerpt, markedRows_flatMap, filter_window h]
  · rfl
  · intro x hx
    have hn : x ∈ numbered 0 (lines source) := List.mem_of_mem_take (List.mem_of_mem_drop hx)
    exact newline_not_mem_lines (numbered_bounds hn).2.2

end BraceParams.Report
