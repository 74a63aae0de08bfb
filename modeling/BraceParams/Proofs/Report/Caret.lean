import BraceParams.Proofs.Report.Rows

namespace BraceParams.Report

open Text

def markedAndNext? (s : List Char) : Option (List Char × List Char) :=
  match (s.splitOn '\n').dropWhile (·.head? ≠ some '>') with
  | marked :: next :: _ => some (marked, next)
  | _ => none

/-- The caret below the marked row stands `k` places to the left of the character at the column of the text that the
row ends with. -/
def CaretLeft (context text : List Char) (column k : Nat) : Prop :=
  ∃ lead next, markedAndNext? context = some (lead ++ text, next) ∧ '^' ∈ next ∧
    next.idxOf '^' + k = lead.length + (column - 1)

section

variable {source text : List Char} {i column : Nat}

theorem head?_text (marked : Bool) (number : Nat) (text : List Char) :
    (Row.line marked number text).text.head? = some (if marked then '>' else ' ') := rfl

theorem not_marked_of_ne {before : List (Nat × List Char)} {line : Nat} (h : ∀ x ∈ before, x.1 ≠ line) :
    ∀ row ∈ (before.flatMap (rowsOf line column)).map Row.text, decide (row.head? ≠ some '>') = true := by
  intro row hr
  obtain ⟨shown, hs, rfl⟩ := List.mem_map.mp hr
  obtain ⟨⟨number, text⟩, hx, hs⟩ := List.mem_flatMap.mp hs
  have hn : number ≠ line := h _ hx
  rw [rowsOf, decide_eq_false hn, if_neg fun h => hn h.1] at hs
  obtain rfl := List.mem_singleton.mp hs
  rw [head?_text]
  decide

theorem markedAndNext?_excerpt (h : (lines source)[i]? = some text) (hc : 1 ≤ column) (around : Nat) :
    markedAndNext? (excerpt source (i + 1) column around) =
      some ((Row.line true (i + 1) text).text, (Row.caret column).text) := by
  obtain ⟨before, behind, hw, hb, -, -⟩ := List.filter_eq_cons_iff.mp (filter_window h around)
  have hne : ∀ x ∈ before, x.1 ≠ i + 1 := by
    intro x hx
    simpa using hb x hx
  have hr : rowsOf (i + 1) column (i + 1, text) = [.line true (i + 1) text, .caret column] := by
    rw [rowsOf, decide_eq_true rfl, if_pos ⟨rfl, hc⟩]
  have hsplit : (excerpt source (i + 1) column around).splitOn '\n' =
      (before.flatMap (rowsOf (i + 1) column)).map Row.text ++
        ((Row.line true (i + 1) text).text :: (Row.caret column).text ::
          ((behind.flatMap (rowsOf (i + 1) column)).map Row.text ++ [[]])) := by
    rw [excerpt_eq, splitOn_flatMap fun row hrow => (rowsOf_window row hrow).1, hw, List.flatMap_append,
      List.flatMap_cons, hr, List.map_append, List.append_assoc]
    rfl
  have hm : decide ((Row.line true (i + 1) text).text.head? ≠ some '>') = false := by
    rw [head?_text]
    decide
  rw [markedAndNext?, hsplit, List.dropWhile_append_of_pos (not_marked_of_ne hne), List.dropWhile_cons, hm]
  rfl

theorem length_numberText (n : Nat) :
    (numberText n).length = (4 - (Number.digitsText n).length) + (Number.digitsText n).length := by
  rw [numberText, List.length_append, List.length_replicate]

theorem idxOf_caret (column : Nat) : (Row.caret column).text.idxOf '^' = 9 + (column - 1) := by
  have hbar : " | ".toList.length = 3 ∧ '^' ∉ " | ".toList := by decide
  have hb : '^' ∉ List.replicate 6 ' ' ++ (" | ".toList ++ List.replicate (column - 1) ' ') := by
    simp only [List.mem_append, not_or]
    exact ⟨by decide, hbar.2, fun h => by cases List.eq_of_mem_replicate h⟩
  have hl : (List.replicate 6 ' ' ++ (" | ".toList ++ List.replicate (column - 1) ' ')).length = 9 + (column - 1) := by
    rw [List.length_append, List.length_append, List.length_replicate, List.length_replicate, hbar.1]
    omega
  have ht : (Row.caret column).text =
      List.replicate 6 ' ' ++ (" | ".toList ++ List.replicate (column - 1) ' ') ++ ['^'] := by
    unfold Row.text
    simp only [List.append_assoc]
  rw [ht, List.idxOf_append_of_notMem hb, hl]
  rfl

theorem caretLeft_excerpt_iff (h : (lines source)[i]? = some text) (hc : 1 ≤ column) (around k : Nat) :
    CaretLeft (excerpt source (i + 1) column around) text column k ↔
      k = (Number.digitsText (i + 1)).length - 4 := by
  have hrows := markedAndNext?_excerpt h hc around
  have hd : 0 < (Number.digitsText (i + 1)).length := Nat.length_toDigits_pos
  have hlead : ('>' :: ' ' :: numberText (i + 1) ++ " | ".toList).length =
      2 + ((4 - (Number.digitsText (i + 1)).length) + (Number.digitsText (i + 1)).length) + 3 := by
    rw [← length_numberText]
    simp
    omega
  have htext : (Row.line true (i + 1) text).text = ('>' :: ' ' :: numberText (i + 1) ++ " | ".toList) ++ text :=
    (List.append_assoc _ _ _).symm
  constructor
  · rintro ⟨lead, next, hm, -, hk⟩
    rw [hrows, Option.some.injEq, Prod.mk.injEq, htext, List.append_cancel_right_eq] at hm
    obtain ⟨rfl, rfl⟩ := hm
    rw [idxOf_caret, hlead] at hk
    omega
  · rintro rfl
    refine ⟨_, _, hrows.trans (by rw [htext]), by simp [Row.text], ?_⟩
    rw [idxOf_caret, hlead]
    omega

end

theorem caretLeft_withContext_iff (d : Diagnostic) (source : String) {text : List Char} (hl : 1 ≤ d.line)
    (ht : (lines source.toList)[d.line - 1]? = some text) (hc : 1 ≤ d.column) (around : Nat) :
    (∀ k, CaretLeft (d.withContext source around).context.toList text d.column k ↔
        k = (Number.digitsText d.line).length - 4) ∧
      (CaretLeft (d.withContext source around).context.toList text d.column 0 ↔ d.line < 10000) := by
  obtain ⟨i, hi⟩ := Nat.exists_eq_add_of_le' hl
  rw [hi, Nat.add_sub_cancel] at ht
  have hd : (Number.digitsText (i + 1)).length ≤ 4 ↔ i + 1 < 10 ^ 4 := Nat.length_toDigits_le_iff (by decide) (by decide)
  rw [context_withContext, hi]
  refine ⟨fun k => caretLeft_excerpt_iff ht hc around k, ?_⟩
  rw [caretLeft_excerpt_iff ht hc]
  omega

theorem caretLeft_withContext_iff_misspelt :
    (lines "params:\n  - name: a\n    vaule: b\n".toList)[2]? = some "    vaule: b".toList ∧
      CaretLeft (Diagnostic.withContext { message := "unknown field 'vaule'", line := 3, column := 5 }
        "params:\n  - name: a\n    vaule: b\n" 1).context.toList "    vaule: b".toList 5 0 := by
  have ht : (lines "params:\n  - name: a\n    vaule: b\n".toList)[2]? = some "    vaule: b".toList := by decide
  exact ⟨ht, (caretLeft_withContext_iff _ _ (by decide) ht (by decide) 1).2.mpr (by decide)⟩

theorem lines_newline_cons (s : List Char) : lines ('\n' :: s) = [] :: lines s := rfl

theorem lines_replicate_append (n : Nat) (s : List Char) :
    lines (List.replicate n '\n' ++ s) = List.replicate n [] ++ lines s := by
  induction n with
  | zero => rfl
  | succ n ih =>
    rw [List.replicate_succ, List.cons_append, lines_newline_cons, ih]
    rfl

theorem getElem?_lines_replicate (n : Nat) {text : List Char} {rest : List (List Char)} {s : List Char}
    (h : lines s = text :: rest) : (lines (List.replicate n '\n' ++ s))[n]? = some text := by
  rw [lines_replicate_append, h, List.getElem?_append_right (by rw [List.length_replicate]), List.length_replicate,
    Nat.sub_self]
  rfl

theorem not_caretLeft_tenThousandth :
    (lines (String.ofList (List.replicate 9999 '\n' ++ ['x'])).toList)[9999]? = some ['x'] ∧
      ¬CaretLeft (Diagnostic.withContext { message := "", line := 10000, column := 1 }
        (String.ofList (List.replicate 9999 '\n' ++ ['x'])) 2).context.toList ['x'] 1 0 := by
  have ht : (lines (List.replicate 9999 '\n' ++ ['x']))[9999]? = some ['x'] :=
    getElem?_lines_replicate 9999 (show lines ['x'] = [['x']] from rfl)
  have hd : (Number.digitsText (9999 + 1)).length - 4 = 1 := by decide
  rw [String.toList_ofList, context_withContext, String.toList_ofList]
  refine ⟨ht, fun h => ?_⟩
  have h := (caretLeft_excerpt_iff ht (Nat.le_refl 1) 2 0).mp h
  rw [hd] at h
  cases h

end BraceParams.Report
