import BraceParams.Proofs.Report.Parts

namespace BraceParams.Report

open Schema Text Yaml

def located (lead message : List Char) (line column : Nat) : List Char :=
  lead ++ message ++
    (" at line ".toList ++ (Number.digitsText line ++ (" column ".toList ++ Number.digitsText column)))

def leadText : Path → List Char
  | .root => []
  | path => path.text ++ ": ".toList

theorem text_eq_located (cause : Cause) {mark : Mark} (path : Path) (h : mark ≠ .start) :
    (Fault.data cause (some (mark, path))).text =
      located (leadText path) cause.text (mark.line + 1) (mark.column + 1) := by
  have ha : atText mark = " at line ".toList ++ (Number.digitsText (mark.line + 1) ++
      (" column ".toList ++ Number.digitsText (mark.column + 1))) := by
    have hl : " at line ".toList = " at ".toList ++ "line ".toList := by decide
    rw [atText, if_neg h]
    unfold lineColumnText
    rw [hl, List.append_assoc, List.append_assoc, List.append_assoc]
  unfold located
  rw [← ha]
  cases path <;> rfl

theorem dropPlace_located (lead message : List Char) (line column : Nat) :
    dropPlace (located lead message line column) = lead ++ message := by
  have hw : " at line ".toList = ' ' :: "at line ".toList := rfl
  have hdigit : ∀ c ∈ " at line ".toList, c.isDigit = false := by simp
  have hs (n : Nat) : Separates (Number.digitsText n) " at line ".toList := by
    apply separates_of_disjoint (by decide) Nat.toDigits_ne_nil
    intro c hc hm
    cases (hdigit c hm).symm.trans (Nat.isDigit_of_mem_toDigits (by decide) (by decide) hc)
  have hnext : ¬" at line ".toList <:+: "at line ".toList ++
      (Number.digitsText line ++ (" column ".toList ++ Number.digitsText column)) := by
    have hline : contains " at line ".toList "at line ".toList = false := by decide
    have hcolumn : contains " at line ".toList " column ".toList = false := by decide
    rw [← contains_eq_false_iff, ← List.append_assoc, (hs line).contains, (hs column).contains_before, hline, hcolumn]
    rfl
  have hc : cutLast? " at line ".toList (located lead message line column) =
      some (lead ++ message, Number.digitsText line ++ (" column ".toList ++ Number.digitsText column)) := by
    unfold located
    rw [hw] at hnext ⊢
    exact cutLast?_self hnext _
  rw [dropPlace, hc]

def ruleWords : List String :=
  ["missing field `", "unknown field `", "invalid type: ", "expected "] ++ shapes.map Prod.fst

def Silent (lead : List Char) : Prop :=
  ∀ words ∈ ruleWords, ¬words.toList <:+: lead

theorem space_not_mem_path {path : Path} (h : ∀ key ∈ path.keys, ' ' ∉ key) : ' ' ∉ path.text := by
  have hlead (parent : Path) (hp : ' ' ∉ parent.text) : ' ' ∉ parent.lead parent.text := by
    cases parent with
    | root => exact List.not_mem_nil
    | _ => simpa [Path.lead] using hp
  induction path with
  | root => decide
  | item parent index ih => simpa [Path.text, Number.not_mem_digitsText (c := ' ') (by decide)] using ih h
  | field parent key ih =>
    obtain ⟨hp, hk⟩ := List.forall_mem_append.mp h
    rw [Path.text, List.mem_append, not_or]
    exact ⟨hlead parent (ih hp), hk key List.mem_cons_self⟩
  | unknown parent ih => simpa [Path.text] using hlead parent (ih h)

theorem silent_leadText {path : Path} (h : ∀ key ∈ path.keys, ' ' ∉ key) : Silent (leadText path) := by
  have hrule : ∀ words ∈ ruleWords, ∃ pair ∈ ["d ", "g ", "n ", "t "], contains pair.toList words.toList := by
    decide
  have hcolon : ∀ pair ∈ ["d ", "g ", "n ", "t "],
      pair.toList ≠ [] ∧ ' ' ∈ pair.toList ∧ ':' ∉ pair.toList ∧ contains pair.toList [' '] = false := by decide
  intro words hw hi
  obtain ⟨pair, hpair, hc⟩ := hrule words hw
  obtain ⟨hn, hspace, hcol, hf⟩ := hcolon pair hpair
  have hlead : pair.toList <:+: leadText path := (contains_iff.mp hc).trans hi
  have htext : ¬pair.toList <:+: path.text ++ [':'] ++ [' '] := by
    rw [← contains_eq_false_iff, (separates_singleton hn hcol).contains, hf,
      contains_eq_false_of_mem hspace (space_not_mem_path h)]
    rfl
  cases path with
  | root => exact hn (List.infix_nil.mp hlead)
  | item => exact htext (by rwa [List.append_assoc])
  | field => exact htext (by rwa [List.append_assoc])
  | unknown => exact htext (by rwa [List.append_assoc])

section

variable {lead s t a b : List Char}

theorem describeShapes_append (h : ∀ shape ∈ shapes, Separates t shape.1.toList) (a b : List Char) :
    describeShapes (a ++ t ++ b) = describeShapes a ++ t ++ describeShapes b := by
  rw [describeShapes, describeShapes, describeShapes]
  generalize shapes = l at h
  induction l generalizing a b with
  | nil => rfl
  | cons shape l ih =>
    obtain ⟨name, text⟩ := shape
    obtain ⟨hs, hl⟩ := List.forall_mem_cons.mp h
    simp only [List.foldl_cons]
    rw [hs.replace, ih _ _ hl]

theorem describeShapes_cases (s : List Char) :
    describeShapes s = s ∧ (∀ shape ∈ shapes, ¬shape.1.toList <:+: s) ∨
      Differ 's' 'a' s (describeShapes s) ∧ ¬∀ shape ∈ shapes, ¬shape.1.toList <:+: s := by
  have hstart : ∀ shape ∈ shapes, shape.1.toList.head? = some 's' ∧ shape.2.toList.head? = some 'a' := by
    decide
  rw [describeShapes]
  generalize shapes = l at hstart
  induction l generalizing s with
  | nil => exact .inl ⟨rfl, fun _ h => by cases h⟩
  | cons shape l ih =>
    obtain ⟨name, text⟩ := shape
    obtain ⟨⟨hname, htext⟩, hl⟩ := List.forall_mem_cons.mp hstart
    obtain ⟨w, hw⟩ := List.head?_eq_some_iff.mp hname
    obtain ⟨d, hd⟩ := List.head?_eq_some_iff.mp htext
    simp only [List.foldl_cons, List.forall_mem_cons, hw, hd]
    by_cases hs : 's' :: w <:+: s
    · have hdiffer : Differ 's' 'a' s (replace ('s' :: w) ('a' :: d) s) := replace_differ hs
      refine .inr ⟨?_, fun h => h.1 hs⟩
      rcases ih _ hl with ⟨he, -⟩ | ⟨h, -⟩
      · rwa [he]
      · exact hdiffer.trans (by decide) h
    · rw [replace_of_absent hs]
      exact (ih s hl).imp (fun h => ⟨h.1, hs, h.2⟩) (fun h => ⟨h.1, fun hall => h.2 hall.2⟩)

theorem describeShapes_eq_self_iff : describeShapes s = s ↔ ∀ shape ∈ shapes, ¬shape.1.toList <:+: s := by
  rcases describeShapes_cases s with ⟨he, h⟩ | ⟨hd, h⟩
  · exact iff_of_true he h
  · exact iff_of_false (hd.ne (by decide)).symm h

theorem describeShapes_silent (h : Silent lead) : describeShapes lead = lead :=
  describeShapes_eq_self_iff.mpr fun _ hs => h _ (List.mem_append_right _ (List.mem_map_of_mem hs))

theorem mem_describeShapes_iff {c : Char} (h : ∀ shape ∈ shapes, c ∉ shape.1.toList ∧ c ∉ shape.2.toList) :
    c ∈ describeShapes s ↔ c ∈ s := by
  have hne : ∀ shape ∈ shapes, shape.1.toList ≠ [] := by decide
  rw [describeShapes]
  generalize shapes = l at h hne
  induction l generalizing s with
  | nil => rfl
  | cons shape l ih =>
    obtain ⟨name, text⟩ := shape
    obtain ⟨⟨hname, htext⟩, hl⟩ := List.forall_mem_cons.mp h
    obtain ⟨hn, hne⟩ := List.forall_mem_cons.mp hne
    exact (ih hl hne).trans (mem_replace_iff hn hname htext)

theorem kept_shape {shape : String × String} (h : shape ∈ shapes) : Kept shape.1.toList :=
  kept_of_mem (mem_marks_of_shape h)

theorem describeShapes_flatMap (s : List Char) :
    describeShapes (s.flatMap quoteChar) = (describeShapes s).flatMap quoteChar := by
  have htexts : ∀ shape ∈ shapes, isShown shape.2.toList := by decide
  have hkept : ∀ shape ∈ shapes, Kept shape.1.toList ∧ isShown shape.2.toList := by
    intro shape hs
    exact ⟨kept_shape hs, htexts shape hs⟩
  rw [describeShapes, describeShapes]
  generalize shapes = l at hkept
  induction l generalizing s with
  | nil => rfl
  | cons shape l ih =>
    obtain ⟨name, text⟩ := shape
    obtain ⟨⟨hname, htext⟩, hl⟩ := List.forall_mem_cons.mp hkept
    simp only [List.foldl_cons]
    rw [hname.replace htext, ih _ hl]

end

section

variable {w s x y : List Char}

theorem between?_of_absent {stop : List Char} (h : ¬w <:+: s) : between? w stop s = none := by
  rw [between?, cut?_eq_none_iff.mpr h]
  rfl

theorem between?_eq_none_iff {stop : Char} (h : Text.cut? w s = some (x, y)) :
    between? w [stop] s = none ↔ stop ∉ y := by
  rw [between?, h, ← cut?_singleton_eq_none_iff, Option.bind_eq_bind, Option.bind_some]
  dsimp only
  cases Text.cut? [stop] y <;> simp

end

section

variable {m x : List Char}

theorem missingFieldMessage?_eq_none_iff :
    missingFieldMessage? m = none ↔ between? "missing field `".toList ['`'] m = none := by
  rw [missingFieldMessage?]
  cases between? "missing field `".toList ['`'] m <;> simp

theorem unknownFieldMessage?_eq_none_iff :
    unknownFieldMessage? m = none ↔ between? "unknown field `".toList ['`'] m = none := by
  rw [unknownFieldMessage?]
  cases between? "unknown field `".toList ['`'] m with
  | none => simp
  | some field => cases expectedFields? m <;> simp

theorem head?_of_missingFieldMessage? (h : missingFieldMessage? m = some x) : x.head? = some 'm' := by
  rw [missingFieldMessage?] at h
  obtain ⟨field, -, h⟩ := Option.bind_eq_some_iff.mp h
  obtain rfl := Option.some.inj h
  rfl

theorem head?_of_unknownFieldMessage? (h : unknownFieldMessage? m = some x) : x.head? = some 'u' := by
  rw [unknownFieldMessage?] at h
  obtain ⟨field, -, h⟩ := Option.bind_eq_some_iff.mp h
  dsimp only at h
  cases hf : expectedFields? m with
  | none =>
    rw [hf] at h
    obtain rfl := Option.some.inj h
    rfl
  | some fields =>
    rw [hf] at h
    obtain rfl := Option.some.inj h
    rfl

end

end BraceParams.Report
