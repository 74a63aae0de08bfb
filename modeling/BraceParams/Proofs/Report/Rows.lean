import Mathlib.Data.List.Nodup
import Mathlib.Data.List.DropRight
import BraceParams.Proofs.Number.Text
import BraceParams.Proofs.Report.Excerpt
import BraceParams.Proofs.Text.Occurrence
import BraceParams.Report.Diagnostic

namespace BraceParams.Report

open Text

inductive Row where
  | line (marked : Bool) (number : Nat) (text : List Char)
  | caret (column : Nat)
  deriving DecidableEq, Repr

namespace Row

def isMarked : Row → Bool
  | line marked _ _ => marked
  | caret _ => false

def text : Row → List Char
  | line marked number text => (if marked then '>' else ' ') :: ' ' :: numberText number ++ (" | ".toList ++ text)
  | caret column => List.replicate 6 ' ' ++ (" | ".toList ++ (List.replicate (column - 1) ' ' ++ ['^']))

end Row

def ofLead? (text : List Char) : List Char → Option Row
  | mark :: gap :: padded =>
    let digits := padded.dropWhile (· = ' ')
    if gap ≠ ' ' then none
    else if digits = [] then
      if mark = ' ' ∧ text = List.replicate (text.length - 1) ' ' ++ ['^'] then some (.caret text.length) else none
    else if digits.all Char.isDigit ∧ (mark = ' ' ∨ mark = '>') then
      some (.line (mark = '>') (Nat.ofDigitChars 10 digits 0) text)
    else none
  | _ => none

def readRow? (row : List Char) : Option Row :=
  (cut? " | ".toList row).bind fun (lead, text) => ofLead? text lead

def readRows? (s : List Char) : Option (List Row) :=
  match (s.splitOn '\n').reverse with
  | [] :: rows => rows.reverse.mapM readRow?
  | _ => none

def rowsOf (line column : Nat) : Nat × List Char → List Row
  | (number, text) => .line (number = line) number text :: if number = line ∧ 1 ≤ column then [.caret column] else []

def linesFromTo (source : List Char) (first last : Nat) : List (Nat × List Char) :=
  (numbered 0 (lines source)).filter fun (number, _) => first ≤ number ∧ number ≤ last

section

variable {lead text : List Char}

theorem clear_bar (h : '|' ∉ lead) (text : List Char) : Clear " | ".toList lead (" | ".toList ++ text) := by
  intro x hx hn hp
  have hw : " | ".toList = ' ' :: '|' :: [' '] := rfl
  obtain ⟨c, x, rfl⟩ := List.exists_cons_of_ne_nil hn
  rw [hw, List.cons_append, List.cons_prefix_cons] at hp
  cases x with
  | nil => cases (List.cons_prefix_cons.mp hp.2).1
  | cons e x =>
    obtain rfl := (List.cons_prefix_cons.mp hp.2).1
    exact h (hx.mem (List.mem_cons_of_mem c List.mem_cons_self))

theorem cut?_bar (h : '|' ∉ lead) (text : List Char) :
    cut? " | ".toList (lead ++ (" | ".toList ++ text)) = some (lead, text) := by
  rw [(clear_bar h text).cut?, cut?_append_self, Option.map_some]
  dsimp only
  rw [List.append_nil]

theorem dropWhile_numberText (n : Nat) : (numberText n).dropWhile (· = ' ') = Number.digitsText n := by
  have hblank : ∀ k, ∀ c ∈ List.replicate k ' ', decide (c = ' ') = true := by
    intro k c hc
    exact decide_eq_true (List.eq_of_mem_replicate hc)
  rw [numberText, List.dropWhile_append_of_pos (hblank _), List.dropWhile_eq_self_iff]
  intro hl hd
  have hc : ' ' ∈ Number.digitsText n := of_decide_eq_true hd ▸ List.getElem_mem hl
  exact Number.not_mem_digitsText (by decide) n hc

theorem not_mem_numberText {c : Char} (hc : c ≠ ' ') (hn : Number.isNumeric c = false) (n : Nat) : c ∉ numberText n := by
  rw [numberText, List.mem_append, not_or]
  exact ⟨fun h => hc (List.eq_of_mem_replicate h), Number.not_mem_digitsText hn n⟩

theorem readRow?_line (marked : Bool) (number : Nat) (text : List Char) :
    readRow? (Row.line marked number text).text = some (.line marked number text) := by
  have hbar : '|' ∉ (if marked then '>' else ' ') :: ' ' :: numberText number := by
    have hn := not_mem_numberText (c := '|') (by decide) (by decide) number
    cases marked <;> simp [hn]
  have hne : Number.digitsText number ≠ [] := Nat.toDigits_ne_nil
  have hdigit : (Number.digitsText number).all Char.isDigit := by
    rw [List.all_eq_true]
    exact fun c hc => Nat.isDigit_of_mem_toDigits (by decide) (by decide) hc
  have hvalue : Nat.ofDigitChars 10 (Number.digitsText number) 0 = number :=
    Nat.ofDigitChars_toDigits (by decide) (by decide)
  have hcut : cut? " | ".toList (Row.line marked number text).text =
      some ((if marked then '>' else ' ') :: ' ' :: numberText number, text) := cut?_bar hbar text
  rw [readRow?, hcut, Option.bind_some]
  dsimp only
  rw [ofLead?, dropWhile_numberText, if_neg (not_not.mpr rfl), if_neg hne, hvalue]
  cases marked <;> simp [hdigit]

theorem readRow?_caret {column : Nat} (h : 1 ≤ column) : readRow? (Row.caret column).text = some (.caret column) := by
  have hl : (List.replicate (column - 1) ' ' ++ ['^']).length = column := by
    rw [List.length_append, List.length_replicate, List.length_singleton]
    omega
  have hcut : cut? " | ".toList (Row.caret column).text =
      some (List.replicate 6 ' ', List.replicate (column - 1) ' ' ++ ['^']) := cut?_bar (by decide) _
  have hd : (List.replicate 4 ' ').dropWhile (· = ' ') = [] := by decide
  rw [readRow?, hcut, Option.bind_some]
  change ofLead? _ (' ' :: ' ' :: List.replicate 4 ' ') = _
  rw [ofLead?, hd, if_neg (not_not.mpr rfl), if_pos rfl, hl, if_pos ⟨rfl, rfl⟩]

end

section

variable {rows : List Row}

theorem splitOn_flatMap (h : ∀ row ∈ rows, '\n' ∉ row.text) :
    (rows.flatMap fun row => row.text ++ ['\n']).splitOn '\n' = rows.map Row.text ++ [[]] := by
  induction rows with
  | nil => rfl
  | cons row rows ih =>
    obtain ⟨hrow, hrows⟩ := List.forall_mem_cons.mp h
    rw [List.flatMap_cons, List.append_assoc, List.singleton_append, List.splitOn_append_cons_self_of_not_mem hrow,
      ih hrows]
    rfl

theorem readRows?_flatMap (h : ∀ row ∈ rows, '\n' ∉ row.text ∧ readRow? row.text = some row) :
    readRows? (rows.flatMap fun row => row.text ++ ['\n']) = some rows := by
  rw [readRows?, splitOn_flatMap fun row hr => (h row hr).1, List.reverse_append, List.reverse_singleton,
    List.singleton_append]
  dsimp only
  rw [List.reverse_reverse]
  induction rows with
  | nil => rfl
  | cons row rows ih =>
    obtain ⟨hrow, hrows⟩ := List.forall_mem_cons.mp h
    rw [List.map_cons, List.mapM_cons, hrow.2, ih hrows]
    rfl

end

theorem lineRow_eq (marked : Bool) (number : Nat) (text : List Char) :
    lineRow marked number text = (Row.line marked number text).text ++ ['\n'] := by
  unfold lineRow Row.text
  simp only [List.append_assoc]

theorem caretRow_eq (column : Nat) : caretRow column = (Row.caret column).text ++ ['\n'] := by
  have hb : "       | ".toList = List.replicate 6 ' ' ++ " | ".toList := by decide
  have ht : ['^', '\n'] = ['^'] ++ ['\n'] := rfl
  unfold caretRow Row.text
  rw [hb, ht]
  simp only [List.append_assoc]

theorem flatten_rows (line column number : Nat) (text : List Char) :
    (rows line column number text).flatten =
      (rowsOf line column (number, text)).flatMap fun row => row.text ++ ['\n'] := by
  rw [rows, rowsOf]
  by_cases hn : number = line
  · rw [if_pos hn, List.flatten_cons, lineRow_eq, List.flatMap_cons, decide_eq_true hn]
    by_cases hc : 0 < column
    · rw [if_pos hc, if_pos ⟨hn, hc⟩, List.flatten_singleton, caretRow_eq, List.flatMap_singleton]
    · rw [if_neg hc, if_neg fun h => hc h.2]
      rfl
  · rw [if_neg hn, List.flatten_singleton, lineRow_eq, if_neg fun h => hn h.1, decide_eq_false hn,
      List.flatMap_singleton]

theorem excerpt_eq (source : List Char) (line column around : Nat) :
    excerpt source line column around =
      ((window source line around).flatMap (rowsOf line column)).flatMap fun row => row.text ++ ['\n'] := by
  rw [excerpt, List.flatMap_assoc]
  induction window source line around with
  | nil => rfl
  | cons x window ih => rw [List.flatMap_cons, List.flatten_append, flatten_rows, ih, List.flatMap_cons]

theorem filter_numbered (first last k : Nat) (texts : List (List Char)) :
    (numbered k texts).filter (fun (number, _) => first ≤ number ∧ number ≤ last) =
      ((numbered k texts).take (last - k)).drop (first - (k + 1)) := by
  induction texts generalizing k with
  | nil => simp [numbered]
  | cons text texts ih =>
    have hc : numbered k (text :: texts) = (k + 1, text) :: numbered (k + 1) texts := rfl
    rw [hc]
    by_cases hl : k < last
    · have ht : last - k = (last - (k + 1)) + 1 := by omega
      rw [ht, List.take_succ_cons]
      by_cases hf : first ≤ k + 1
      · have hd : first - (k + 1) = 0 := by omega
        have hd' : first - (k + 1 + 1) = 0 := by omega
        rw [List.filter_cons_of_pos (by simp; omega), ih, hd, hd', List.drop_zero, List.drop_zero]
      · have hd : first - (k + 1) = (first - (k + 1 + 1)) + 1 := by omega
        rw [List.filter_cons_of_neg (by simp; omega), ih, hd, List.drop_succ_cons]
    · have ht : last - k = 0 := by omega
      have ht' : last - (k + 1) = 0 := by omega
      rw [List.filter_cons_of_neg (by simp; omega), ih, ht, ht', List.take_zero, List.take_zero, List.drop_nil,
        List.drop_nil]

theorem window_eq (source : List Char) (line around : Nat) :
    window source line around =
      linesFromTo source (max 1 (line - around)) (min (lines source).length (line + around)) := by
  have hlast : ∀ x ∈ numbered 0 (lines source), x.1 ≤ (lines source).length := by
    intro x hx
    have := (numbered_bounds hx).2.1
    omega
  have hfirst : max 1 (line - around) - (0 + 1) = line - (around + 1) := by omega
  change ((numbered 0 (lines source)).take (line + around)).drop (line - (around + 1)) = _
  rw [linesFromTo, ← hfirst, ← Nat.sub_zero (line + around), ← filter_numbered]
  apply List.filter_congr
  intro x hx
  have := hlast x hx
  simp only [decide_eq_decide]
  omega

theorem window_newline {source : List Char} {line around : Nat} {x : Nat × List Char}
    (hx : x ∈ window source line around) : '\n' ∉ x.2 :=
  newline_not_mem_lines (numbered_bounds (k := 0) (List.mem_of_mem_take (List.mem_of_mem_drop hx))).2.2

theorem rowsOf_reads {line column : Nat} {x : Nat × List Char} (h : '\n' ∉ x.2) :
    ∀ row ∈ rowsOf line column x, '\n' ∉ row.text ∧ readRow? row.text = some row := by
  obtain ⟨number, text⟩ := x
  dsimp only at h
  rw [rowsOf, List.forall_mem_cons]
  constructor
  · have hn := newline_not_mem_numberText number
    have hl (marked : Bool) : '\n' ∉ (Row.line marked number text).text := by
      cases marked <;> simp [Row.text, hn, h]
    exact ⟨hl _, readRow?_line _ _ _⟩
  · intro row hr
    split at hr
    · next hc =>
      obtain rfl := List.mem_singleton.mp hr
      exact ⟨by simp [Row.text], readRow?_caret hc.2⟩
    · cases hr

theorem rowsOf_window {source : List Char} {line column around : Nat} :
    ∀ row ∈ (window source line around).flatMap (rowsOf line column), '\n' ∉ row.text ∧ readRow? row.text = some row := by
  intro row hr
  obtain ⟨x, hx, hr⟩ := List.mem_flatMap.mp hr
  exact rowsOf_reads (window_newline hx) row hr

theorem map_fst_numbered (k : Nat) (texts : List (List Char)) :
    (numbered k texts).map Prod.fst = List.range' (k + 1) texts.length := by
  induction texts generalizing k with
  | nil => rfl
  | cons text texts ih =>
    rw [List.length_cons, List.range'_succ, ← ih]
    rfl

theorem mem_linesFromTo {source : List Char} {first last : Nat} {x : Nat × List Char} :
    x ∈ linesFromTo source first last ↔ x ∈ numbered 0 (lines source) ∧ first ≤ x.1 ∧ x.1 ≤ last := by
  rw [linesFromTo, List.mem_filter, decide_eq_true_eq]

theorem linesFromTo_eq_nil_iff {source : List Char} {first last : Nat} (hf : 1 ≤ first)
    (hl : last ≤ (lines source).length) : linesFromTo source first last = [] ↔ last < first := by
  constructor
  · intro h
    by_contra hn
    have hm : first ∈ (numbered 0 (lines source)).map Prod.fst := by
      rw [map_fst_numbered, List.mem_range'_1]
      omega
    obtain ⟨x, hx, rfl⟩ := List.mem_map.mp hm
    have hx' : x ∈ linesFromTo source x.1 last := mem_linesFromTo.mpr ⟨hx, Nat.le_refl _, Nat.le_of_not_lt hn⟩
    rw [h] at hx'
    cases hx'
  · intro h
    apply List.eq_nil_iff_forall_not_mem.mpr
    intro x hx
    have := (mem_linesFromTo.mp hx).2
    omega

theorem countP_rowsOf (line column : Nat) (shown : List (Nat × List Char)) :
    (shown.flatMap (rowsOf line column)).countP Row.isMarked = shown.countP (·.1 = line) := by
  induction shown with
  | nil => rfl
  | cons x shown ih =>
    have hx : (rowsOf line column x).countP Row.isMarked = if x.1 = line then 1 else 0 := by
      obtain ⟨number, text⟩ := x
      rw [rowsOf]
      by_cases hn : number = line <;> by_cases hc : 1 ≤ column <;> simp [List.countP_cons, Row.isMarked, hn, hc]
    rw [List.flatMap_cons, List.countP_append, hx, ih, List.countP_cons, Nat.add_comm]
    simp

theorem countP_linesFromTo (source : List Char) (line around : Nat) :
    (linesFromTo source (max 1 (line - around)) (min (lines source).length (line + around))).countP (·.1 = line) =
      if 1 ≤ line ∧ line ≤ (lines source).length then 1 else 0 := by
  have hc : (linesFromTo source (max 1 (line - around)) (min (lines source).length (line + around))).countP (·.1 = line) =
      ((numbered 0 (lines source)).map Prod.fst).countP (· = line) := by
    rw [linesFromTo, List.countP_filter, List.countP_map]
    apply List.countP_congr
    intro x hx
    have := numbered_bounds hx
    simp only [Bool.and_eq_true, decide_eq_true_eq, Function.comp_apply]
    omega
  have hm : line ∈ List.range' 1 (lines source).length ↔ 1 ≤ line ∧ line ≤ (lines source).length := by
    rw [List.mem_range'_1]
    omega
  rw [hc, map_fst_numbered]
  change (List.range' 1 (lines source).length).count line = _
  by_cases hl : line ∈ List.range' 1 (lines source).length
  · rw [List.count_eq_one_of_mem List.nodup_range' hl, if_pos (hm.mp hl)]
  · rw [List.count_eq_zero_of_not_mem hl, if_neg (mt hm.mpr hl)]

theorem context_withContext (d : Diagnostic) (source : String) (around : Nat) :
    (d.withContext source around).context.toList = excerpt source.toList d.line d.column around :=
  String.toList_ofList

theorem flatMap_row_eq_nil_iff {rows : List Row} : (rows.flatMap fun row => row.text ++ ['\n']) = [] ↔ rows = [] := by
  cases rows <;> simp

theorem flatMap_rowsOf_eq_nil_iff {line column : Nat} {shown : List (Nat × List Char)} :
    shown.flatMap (rowsOf line column) = [] ↔ shown = [] := by
  cases shown <;> simp [rowsOf]

theorem withContext_rows (d : Diagnostic) (source : String) (around : Nat) :
    let count := (lines source.toList).length
    let first := max 1 (d.line - around)
    let last := min count (d.line + around)
    let rows := (linesFromTo source.toList first last).flatMap (rowsOf d.line d.column)
    readRows? (d.withContext source around).context.toList = some rows ∧
      rows.countP Row.isMarked = (if 1 ≤ d.line ∧ d.line ≤ count then 1 else 0) ∧
      ((d.withContext source around).context = "" ↔ last < first) ∧
      d.withContext source around = { d with context := (d.withContext source around).context } ∧
      ∀ kind message context suggestion,
        ({ d with kind, message, context, suggestion : Diagnostic }.withContext source around).context =
          (d.withContext source around).context := by
  have hc := context_withContext d source around
  rw [excerpt_eq] at hc
  refine ⟨?_, ?_, ?_, rfl, fun _ _ _ _ => rfl⟩
  · rw [hc, readRows?_flatMap rowsOf_window, window_eq]
  · rw [countP_rowsOf, countP_linesFromTo]
  · rw [← String.toList_eq_nil_iff, hc, flatMap_row_eq_nil_iff, flatMap_rowsOf_eq_nil_iff, window_eq,
      linesFromTo_eq_nil_iff (Nat.le_max_left _ _) (Nat.min_le_left _ _)]

example : readRows? (excerpt "a\n\nb | c\nd".toList 3 2 1) =
    some [.line false 2 [], .line true 3 "b | c".toList, .caret 2, .line false 4 ['d']] := by
  decide +kernel

end BraceParams.Report
