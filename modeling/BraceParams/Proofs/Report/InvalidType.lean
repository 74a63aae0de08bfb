import BraceParams.Proofs.Report.Message

/-!
Which messages on values of a wrong kind tell what was found as it is. The text that was found stands in the
middle of the message that the rules of rewording search.
-/

namespace BraceParams.Report

open Schema Text

def refusal (found : List Char) (expected : Expected) : List Char :=
  "invalid type: ".toList ++ found ++ ", expected ".toList ++ expected.text.toList

def told (found : List Char) (expected : Expected) : List Char :=
  "expected ".toList ++ describeShapes expected.text.toList ++ ", but found ".toList ++ found

/-- A text of the document that no rule of rewording takes for a part of the message. -/
structure Intact (s : List Char) : Prop where
  comma : ',' ∉ s
  shape : ∀ shape ∈ shapes, ¬shape.1.toList <:+: s
  missing : between? "missing field `".toList ['`'] s = none
  unknown : between? "unknown field `".toList ['`'] s = none

/-- The text that gives the message once more when a part of it is taken for the expectation. -/
def echo (expected : Expected) : List Char :=
  ", expected ".toList ++ describeShapes expected.text.toList ++ ", but found string ".toList

section

variable {w a b : List Char}

theorem between?_enclosed {t u : List Char} (ha : ¬w <:+: a) (hb : '`' ∉ b) (hu : '`' ∉ u) (ht : Separates t w)
    (hs : Separates u w) (hw : '`' ∈ w) (s : List Char) :
    between? w ['`'] (a ++ t ++ (s ++ u ++ b)) = none ↔ between? w ['`'] s = none := by
  by_cases hi : w <:+: s
  · obtain ⟨⟨x, y⟩, hc⟩ := Option.isSome_iff_exists.mp (contains_iff.mpr hi)
    have hcut : Text.cut? w (a ++ t ++ (s ++ u ++ b)) = some (a ++ t ++ x, y ++ (u ++ b)) := by
      rw [ht.cut? ha, List.append_assoc s, cut?_append_left hc]
      rfl
    rw [between?_eq_none_iff hcut, between?_eq_none_iff hc, List.mem_append, List.mem_append]
    simp [hb, hu]
  · have hn : ¬w <:+: a ++ t ++ (s ++ u ++ b) := by
      rw [ht.infix_iff, hs.infix_iff]
      rintro (h | h | h)
      · exact ha h
      · exact hi h
      · exact hb (h.subset hw)
    exact iff_of_true (between?_of_absent hn) (between?_of_absent hi)

def fieldWords : List String := ["missing field `", "unknown field `"]

theorem string_quoted (s : List Char) :
    "string ".toList ++ quoted s = "string ".toList ++ ['"'] ++ (s.flatMap quoteChar ++ ['"'] ++ []) := by
  rw [List.append_nil, List.append_assoc]
  rfl

theorem between?_string {words : String} (hw : words ∈ fieldWords) (s : List Char) :
    between? words.toList ['`'] ("string ".toList ++ quoted s) = none ↔ between? words.toList ['`'] s = none := by
  have hkept : ∀ words ∈ fieldWords, isShown words.toList ∧ startsOutside words.toList ∧
      '`' ∈ words.toList ∧ '"' ∉ words.toList ∧ contains words.toList "string ".toList = false := by decide
  obtain ⟨hshown, hout, hmem, hquote, hlead⟩ := hkept words hw
  have hk : Kept words.toList := ⟨hshown, hout⟩
  have hb : Kept ['`'] := ⟨by decide, by decide⟩
  have hs := separates_singleton hk.ne_nil hquote
  rw [string_quoted, between?_enclosed (contains_eq_false_iff.mp hlead) List.not_mem_nil (by decide) hs hs hmem]
  by_cases hi : words.toList <:+: s
  · obtain ⟨⟨x, y⟩, hc⟩ := Option.isSome_iff_exists.mp (contains_iff.mpr hi)
    have hcut : Text.cut? words.toList (s.flatMap quoteChar) = some (x.flatMap quoteChar, y.flatMap quoteChar) := by
      rw [hk.cut?, hc]
      rfl
    rw [between?_eq_none_iff hcut, between?_eq_none_iff hc, hb.mem_iff]
  · have hn : ¬words.toList <:+: s.flatMap quoteChar := by
      rw [← contains_iff, hk.contains, contains_iff]
      exact hi
    exact iff_of_true (between?_of_absent hn) (between?_of_absent hi)

end

section

variable {lead found : List Char} {expected : Expected} {line column : Nat}

def searched (lead found : List Char) (expected : Expected) : List Char :=
  lead ++ "invalid type: ".toList ++ (found ++ ", expected ".toList ++ describeShapes expected.text.toList)

theorem describeShapes_dropPlace (h : Silent lead) :
    describeShapes (dropPlace (located lead (refusal found expected) line column)) =
      searched lead (describeShapes found) expected := by
  have hs {joint : String} (hj : joint ∈ joints) : ∀ shape ∈ shapes, Separates joint.toList shape.1.toList :=
    fun _ hm => separates_joint joint (mem_marks_of_shape hm) hj
  rw [dropPlace_located, searched]
  have ha : lead ++ refusal found expected =
      lead ++ "invalid type: ".toList ++ (found ++ ", expected ".toList ++ expected.text.toList) := by
    unfold refusal
    simp only [List.append_assoc]
  rw [ha, describeShapes_append (hs (by simp [joints])), describeShapes_append (hs (by simp [joints])),
    describeShapes_silent h]

def behindExpected (found : List Char) (expected : Expected) : List Char :=
  match cut? ", expected ".toList found with
  | some (_, rest) => rest ++ ", expected ".toList ++ describeShapes expected.text.toList
  | none => describeShapes expected.text.toList

def retold (found : List Char) (expected : Expected) : List Char :=
  "expected ".toList ++ behindExpected found expected ++ ", but found ".toList ++ before [','] found

theorem expected_plain (expected : Expected) :
    '`' ∉ describeShapes expected.text.toList ∧ '"' ∉ describeShapes expected.text.toList := by
  cases expected <;> decide

theorem between?_searched (h : Silent lead) {words : String} (hw : words ∈ fieldWords) (found : List Char)
    (expected : Expected) :
    between? words.toList ['`'] (searched lead found expected) = none ↔ between? words.toList ['`'] found = none := by
  have hall : ∀ words ∈ fieldWords, words ∈ ruleWords ∧ '`' ∈ words.toList ∧
      ∀ joint ∈ ["invalid type: ", ", expected "], runsInto joint.toList words.toList = false ∧
        runsInto words.toList joint.toList = false := by decide
  obtain ⟨hrule, hmem, hsep⟩ := hall words hw
  have hs {joint : String} (hj : joint ∈ ["invalid type: ", ", expected "]) : Separates joint.toList words.toList :=
    separates_of_runsInto (hsep joint hj).1 (hsep joint hj).2
  have he : '`' ∉ ", expected ".toList := by decide
  exact between?_enclosed (h words hrule) (expected_plain expected).1 he (hs (by simp)) (hs (by simp)) hmem found

theorem between?_invalidType (h : Silent lead) :
    between? "invalid type: ".toList [','] (searched lead found expected) = some (before [','] found) := by
  have hself : runsInto "invalid type: ".toList.tail "invalid type: ".toList = false := by decide
  have hrule : "invalid type: " ∈ ruleWords := by simp [ruleWords]
  obtain ⟨rest, hr⟩ := exists_cut?_singleton (c := ',') found
    (" expected ".toList ++ describeShapes expected.text.toList)
  have hw : ", expected ".toList = ',' :: " expected ".toList := by decide
  rw [between?, searched, cut?_self hself (h _ hrule), hw, List.append_assoc found, List.cons_append,
    Option.bind_eq_bind, Option.bind_some]
  dsimp only
  rw [hr]
  rfl

theorem cut?_expected (h : Silent lead) (found : List Char) (expected : Expected) :
    ∃ x, cut? ", expected ".toList (searched lead found expected) = some (x, behindExpected found expected) := by
  have hself : runsInto ", expected ".toList.tail ", expected ".toList = false := by decide
  have hsep : Separates "invalid type: ".toList ", expected ".toList :=
    separates_of_runsInto (by decide) (by decide)
  have hw : "expected ".toList <:+: ", expected ".toList := ⟨[',', ' '], [], by decide⟩
  have hlead : ¬", expected ".toList <:+: lead := fun hi => h "expected " (by simp [ruleWords]) (hw.trans hi)
  rw [searched, hsep.cut? hlead, behindExpected]
  cases hc : cut? ", expected ".toList found with
  | none =>
    rw [cut?_self hself (cut?_eq_none_iff.mp hc)]
    exact ⟨_, rfl⟩
  | some p =>
    obtain ⟨x, rest⟩ := p
    rw [List.append_assoc found, cut?_append_left hc, ← List.append_assoc rest]
    exact ⟨_, rfl⟩

theorem invalidTypeMessage?_searched (h : Silent lead) :
    invalidTypeMessage? (searched lead found expected) = some (retold found expected) := by
  obtain ⟨x, hx⟩ := cut?_expected h found expected
  rw [invalidTypeMessage?, between?_invalidType h, hx]
  rfl

theorem reword_eq_retold (h : Silent lead) (found : List Char) (expected : Expected) (line column : Nat)
    (hf : ∀ words ∈ fieldWords, between? words.toList ['`'] (describeShapes found) = none) :
    reword (located lead (refusal found expected) line column) = retold (describeShapes found) expected := by
  have hmissing : "missing field `" ∈ fieldWords := by simp [fieldWords]
  have hunknown : "unknown field `" ∈ fieldWords := by simp [fieldWords]
  have hm := (between?_searched h hmissing (describeShapes found) expected).mpr (hf _ hmissing)
  have hu := (between?_searched h hunknown (describeShapes found) expected).mpr (hf _ hunknown)
  rw [reword, describeShapes_dropPlace h, missingFieldMessage?_eq_none_iff.mpr hm,
    unknownFieldMessage?_eq_none_iff.mpr hu, invalidTypeMessage?_searched h]
  rfl

theorem head?_told (s : List Char) (expected : Expected) : (told s expected).head? = some 'e' := by
  have hw : "expected ".toList.head? = some 'e' := by decide
  unfold told
  rw [List.append_assoc, List.append_assoc, List.head?_append, hw, Option.some_or]

theorem reword_ne_told (h : Silent lead) {words : String} (hw : words ∈ fieldWords)
    (hf : between? words.toList ['`'] (describeShapes found) ≠ none) (s : List Char) :
    reword (located lead (refusal found expected) line column) ≠ told s expected := by
  intro he
  rw [reword, describeShapes_dropPlace h] at he
  have hhead := head?_told s expected
  rw [← he] at hhead
  cases hm : missingFieldMessage? (searched lead (describeShapes found) expected) with
  | some x =>
    rw [hm] at hhead
    cases (head?_of_missingFieldMessage? hm).symm.trans hhead
  | none =>
    cases hu : unknownFieldMessage? (searched lead (describeShapes found) expected) with
    | some x =>
      rw [hm, hu] at hhead
      cases (head?_of_unknownFieldMessage? hu).symm.trans hhead
    | none =>
      rw [fieldWords, List.mem_cons, List.mem_singleton] at hw
      rcases hw with rfl | rfl
      · exact hf ((between?_searched h (by simp [fieldWords]) _ _).mp (missingFieldMessage?_eq_none_iff.mp hm))
      · exact hf ((between?_searched h (by simp [fieldWords]) _ _).mp (unknownFieldMessage?_eq_none_iff.mp hu))

end

theorem describeShapes_string (s : List Char) :
    describeShapes ("string ".toList ++ quoted s) = "string ".toList ++ quoted (describeShapes s) := by
  have hquote : ∀ shape ∈ shapes, shape.1.toList ≠ [] ∧ '"' ∉ shape.1.toList := by decide
  have hs : ∀ shape ∈ shapes, Separates ['"'] shape.1.toList := fun shape hm =>
    separates_singleton (hquote shape hm).1 (hquote shape hm).2
  have hlead : describeShapes "string ".toList = "string ".toList := by decide
  rw [string_quoted, string_quoted, describeShapes_append hs, describeShapes_append hs, describeShapes_flatMap, hlead]
  rfl

theorem retold_of_not_mem {found : List Char} (h : ',' ∉ found) (expected : Expected) :
    retold found expected = told found expected := by
  have hc : cut? ", expected ".toList found = none :=
    cut?_eq_none_iff.mpr fun hi => h (hi.subset (by decide))
  unfold retold told behindExpected
  rw [hc, before_of_not_mem h]

section

variable {s s' u v w x y z rest : List Char}

theorem eq_nil_of_opened_eq (h : u ++ [' '] ++ quoted s = z ++ (u ++ [' '] ++ '"' :: y)) (hz : z ≠ []) : y = [] := by
  have hsplit : u ++ [' '] ++ quoted s = (z ++ u) ++ ' ' :: '"' :: y := by
    rw [h]
    simp only [List.append_assoc, List.singleton_append]
  have hp : u ++ [' '] <+: z ++ u := by
    apply List.prefix_of_prefix_length_le (List.prefix_append _ (quoted s)) (hsplit ▸ List.prefix_append _ _)
    have := List.length_pos_iff.mpr hz
    rw [List.length_append, List.length_append, List.length_singleton]
    omega
  obtain ⟨q, hq⟩ := hp
  rw [← hq, List.append_assoc (u ++ [' '])] at hsplit
  exact eq_nil_of_quoted_eq (List.append_cancel_left hsplit) (by decide)

theorem quote_mem_of_eq (h : u ++ quoted s = x ++ (v ++ [' ']) ++ rest) : '"' ∈ rest := by
  have hs : u ++ quoted s = (u ++ '"' :: s.flatMap quoteChar) ++ ['"'] := by
    rw [quoted, List.append_assoc]
  rw [hs] at h
  rcases List.eq_nil_or_concat rest with rfl | ⟨r, d, hr⟩
  · rw [List.append_nil, ← List.append_assoc] at h
    cases (List.append_inj' h rfl).2
  · rw [List.concat_eq_append] at hr
    subst hr
    rw [← List.append_assoc (x ++ (v ++ [' ']))] at h
    cases (List.append_inj' h rfl).2
    exact List.mem_append_right r List.mem_cons_self

theorem body_of_eq (hu : '"' ∉ u ++ [' ']) (hw : '"' ∉ w)
    (htext : u ++ [' '] ++ quoted s' = x ++ (v ++ [' ']) ++ rest)
    (h : rest ++ (v ++ [' '] ++ (w ++ (u ++ [' '] ++ '"' :: y))) = w ++ (u ++ [' '] ++ quoted s)) :
    s.flatMap quoteChar = v ++ [' '] ++ (w ++ (u ++ [' '])) := by
  have hmem := quote_mem_of_eq htext
  rcases List.append_eq_append_iff.mp h with ⟨c, rfl, -⟩ | ⟨c, rfl, hc⟩
  · exact absurd (List.mem_append_left c hmem) hw
  have hmem' : '"' ∈ c := (List.mem_append.mp hmem).resolve_left hw
  rcases List.append_eq_append_iff.mp hc with ⟨d, rfl, hd⟩ | ⟨d, hd, -⟩
  · cases d with
    | nil =>
      rw [List.append_nil] at hmem'
      exact absurd hmem' hu
    | cons e d =>
      obtain ⟨rfl, hbody⟩ := List.cons.inj hd
      have hd : d = [] := by
        apply eq_nil_of_opened_eq (s := s') (u := u) (z := x ++ (v ++ [' ']) ++ w)
        · rw [htext, List.append_assoc (x ++ (v ++ [' ']))]
        · simp
      subst hd
      have hy : y = [] := by
        apply eq_nil_of_opened_eq (s := s) (u := u) (z := u ++ [' '] ++ ['"'] ++ (v ++ [' '] ++ w))
        · rw [hc]
          simp only [List.append_assoc]
        · simp
      subst hy
      have hclosed : s.flatMap quoteChar ++ ['"'] = v ++ [' '] ++ (w ++ (u ++ [' '] ++ ['"'])) := hbody
      simp only [← List.append_assoc] at hclosed ⊢
      exact List.append_cancel_right hclosed
  · exact absurd (hd ▸ List.mem_append_left d hmem') hu

end

theorem eq_echo {s rest x : List Char} {expected : Expected}
    (hcut : cut? ", expected ".toList ("string ".toList ++ quoted (describeShapes s)) = some (x, rest))
    (h : retold ("string ".toList ++ quoted (describeShapes s)) expected =
      told ("string ".toList ++ quoted s) expected) :
    s = echo expected := by
  have hu : "string ".toList = "string".toList ++ [' '] := by decide
  have hv : ", expected ".toList = ", expected".toList ++ [' '] := by decide
  have hquote : '"' ∉ "string".toList ++ [' '] ∧ ',' ∉ "string".toList ++ [' '] ++ ['"'] ∧
      '"' ∉ ", but found ".toList := by
    decide
  have hw : '"' ∉ describeShapes expected.text.toList ++ ", but found ".toList := by
    rw [List.mem_append, not_or]
    exact ⟨(expected_plain expected).2, hquote.2.2⟩
  have hecho : echo expected = ", expected".toList ++ [' '] ++
      (describeShapes expected.text.toList ++ ", but found ".toList ++ ("string".toList ++ [' '])) := by
    cases expected <;> decide
  have hback : '\\' ∉ echo expected := by
    cases expected <;> decide
  unfold retold told behindExpected at h
  rw [hcut] at h
  dsimp only at h
  have htext := (append_of_cut? hcut).symm
  rw [hu, hv] at h htext
  have hbefore : before [','] ("string".toList ++ [' '] ++ quoted (describeShapes s)) =
      "string".toList ++ [' '] ++ '"' :: before [','] ((describeShapes s).flatMap quoteChar ++ ['"']) := by
    have hb := before_append_of_not_mem hquote.2.1 ((describeShapes s).flatMap quoteChar ++ ['"'])
    rw [List.append_assoc _ ['"'], List.append_assoc _ ['"']] at hb
    exact hb
  apply eq_of_flatMap_quoteChar _ hback
  rw [hecho]
  apply body_of_eq hquote.1 hw htext
  rw [hbefore] at h
  simp only [List.append_assoc] at h ⊢
  exact List.append_cancel_left h

theorem comma_mem_string (s : List Char) : ',' ∈ "string ".toList ++ quoted s ↔ ',' ∈ s := by
  have hcomma : Kept [','] := ⟨by decide, by decide⟩
  have hl : ',' ∉ "string ".toList := by decide
  rw [List.mem_append, or_iff_right hl, quoted, List.mem_append, or_iff_left (by decide), List.mem_cons,
    or_iff_right (by decide), hcomma.mem_iff]

theorem comma_mem_describeShapes (s : List Char) : ',' ∈ describeShapes s ↔ ',' ∈ s :=
  mem_describeShapes_iff (by decide)

theorem not_infix_of_quoted_eq {s : List Char} (h : quoted (describeShapes s) = quoted s) :
    ∀ shape ∈ shapes, ¬shape.1.toList <:+: s := by
  intro shape hm
  have hs : describeShapes (s.flatMap quoteChar) = s.flatMap quoteChar := by
    rw [describeShapes_flatMap]
    exact List.append_cancel_right (List.cons.inj h).2
  have hn := describeShapes_eq_self_iff.mp hs shape hm
  rwa [← contains_eq_false_iff, (kept_shape hm).contains, contains_eq_false_iff] at hn

theorem comes_whole {s : List Char} {expected : Expected}
    (hcut : cut? ", expected ".toList ("string ".toList ++ quoted (describeShapes s)) = none)
    (h : retold ("string ".toList ++ quoted (describeShapes s)) expected =
      told ("string ".toList ++ quoted s) expected) :
    ',' ∉ s ∧ ∀ shape ∈ shapes, ¬shape.1.toList <:+: s := by
  have he : before [','] ("string ".toList ++ quoted (describeShapes s)) = "string ".toList ++ quoted s := by
    unfold retold told behindExpected at h
    rw [hcut] at h
    exact List.append_cancel_left h
  have hs : ',' ∉ s := by
    rw [← comma_mem_string, ← he]
    exact not_mem_before ',' _
  rw [before_of_not_mem (by rwa [comma_mem_string, comma_mem_describeShapes])] at he
  exact ⟨hs, not_infix_of_quoted_eq (List.append_cancel_left he)⟩

theorem echo_comes_whole (expected : Expected) : describeShapes (echo expected) = echo expected ∧ '`' ∉ echo expected ∧
    retold ("string ".toList ++ quoted (echo expected)) expected =
      told ("string ".toList ++ quoted (echo expected)) expected := by
  cases expected <;> decide +kernel

theorem reword_string_iff {lead : List Char} (h : Silent lead) (s : List Char) (expected : Expected)
    (line column : Nat) :
    reword (located lead (refusal ("string ".toList ++ quoted s) expected) line column) =
      told ("string ".toList ++ quoted s) expected ↔ Intact s ∨ s = echo expected := by
  have hretold (hf : ∀ words ∈ fieldWords, between? words.toList ['`'] (describeShapes s) = none) :
      reword (located lead (refusal ("string ".toList ++ quoted s) expected) line column) =
        retold ("string ".toList ++ quoted (describeShapes s)) expected := by
    rw [reword_eq_retold h, describeShapes_string]
    intro words hw
    rw [describeShapes_string, between?_string hw]
    exact hf words hw
  constructor
  · intro he
    have hf : ∀ words ∈ fieldWords, between? words.toList ['`'] (describeShapes s) = none := by
      intro words hw
      by_contra hf
      rw [← between?_string hw, ← describeShapes_string] at hf
      exact reword_ne_told h hw hf _ he
    rw [hretold hf] at he
    cases hcut : cut? ", expected ".toList ("string ".toList ++ quoted (describeShapes s)) with
    | some p => exact .inr (eq_echo hcut he)
    | none =>
      obtain ⟨hcomma, hshape⟩ := comes_whole hcut he
      rw [describeShapes_eq_self_iff.mpr hshape] at hf
      exact .inl ⟨hcomma, hshape, hf _ List.mem_cons_self, hf _ (List.mem_cons_of_mem _ List.mem_cons_self)⟩
  · rintro (hs | rfl)
    · have hd := describeShapes_eq_self_iff.mpr hs.shape
      rw [hretold, hd, retold_of_not_mem]
      · rw [comma_mem_string]
        exact hs.comma
      · intro words hw
        rw [fieldWords, List.mem_cons, List.mem_singleton] at hw
        rw [hd]
        rcases hw with rfl | rfl
        · exact hs.missing
        · exact hs.unknown
    · obtain ⟨hd, hb, he⟩ := echo_comes_whole expected
      rw [hretold, hd, he]
      intro words hw
      have hmem : ∀ words ∈ fieldWords, '`' ∈ words.toList := by decide
      rw [hd]
      exact between?_of_absent fun hi => hb (hi.subset (hmem words hw))

theorem comma_not_mem_scalarText (s : Yaml.Scalar) (text : List Char) (h : (Found.scalar s text).texts = []) :
    ',' ∉ Found.scalarText text s := by
  have hfixed : ∀ part ∈ ["unit value", "boolean `true`", "boolean `false`", "integer `", "`", "` as u128", "` as i128",
      "floating point `"], ',' ∉ part.toList := by decide
  have henclosed {t u : String} {digits : List Char} (ht : ',' ∉ t.toList) (hd : ',' ∉ digits) (hu : ',' ∉ u.toList) :
      ',' ∉ t.toList ++ digits ++ u.toList := by
    simp only [List.mem_append, ht, hd, hu, or_self, not_false_iff]
  cases s with
  | null => exact hfixed _ (by simp)
  | boolean b => cases b <;> exact hfixed _ (by simp)
  | integer n =>
    exact henclosed (u := "`") (hfixed _ (by simp)) (Number.not_mem_integerText (by decide) n) (hfixed _ (by simp))
  | wideUnsigned n =>
    exact henclosed (hfixed _ (by simp)) (Number.not_mem_digitsText (by decide) n) (hfixed _ (by simp))
  | wideSigned n =>
    exact henclosed (hfixed _ (by simp)) (Number.not_mem_integerText (by decide) n) (hfixed _ (by simp))
  | float x =>
    exact henclosed (u := "`") (hfixed _ (by simp)) (Number.not_mem_message (by decide) x) (hfixed _ (by simp))
  | text => cases h

theorem comma_not_mem_found {found : Found} (h : found.texts = []) : ',' ∉ found.text := by
  cases found with
  | scalar s text => exact comma_not_mem_scalarText s text h
  | _ => exact of_decide_eq_true rfl

theorem not_infix_found {found : Found} (h : found.texts = []) {words : String} (hw : words ∈ marks) :
    ¬words.toList <:+: found.text := by
  rw [← contains_eq_false_iff, contains_found hw, h, List.any_nil]

theorem reword_invalidType_iff {lead : List Char} (h : Silent lead) (found : Found) (expected : Expected)
    (line column : Nat) :
    reword (located lead (Cause.invalidType found expected).text line column) = told found.text expected ↔
      ∀ s ∈ found.texts, Intact s ∨ s = echo expected := by
  by_cases ht : found.texts = []
  · have hd : describeShapes found.text = found.text :=
      describeShapes_eq_self_iff.mpr fun shape hs =>
        not_infix_found ht (mem_marks_of_shape hs)
    have hfields : ∀ words ∈ fieldWords, ∃ mark ∈ marks, contains mark.toList words.toList := by decide
    have he := reword_eq_retold h found.text expected line column
    rw [hd, retold_of_not_mem (comma_not_mem_found ht)] at he
    refine iff_of_true (he fun words hw => ?_) (by simp [ht])
    obtain ⟨mark, hm, hi⟩ := hfields words hw
    exact between?_of_absent fun hf => not_infix_found ht hm ((contains_iff.mp hi).trans hf)
  · match found, ht with
    | .scalar .text s, _ =>
      exact (reword_string_iff h s expected line column).trans (by simp [Found.texts])

theorem reword_invalidType_iff_yes :
    Silent (leadText (.field (.item (.field .root "params".toList) 0) "expand".toList)) ∧
      reword (Fault.data (.invalidType (.scalar .text "yes".toList) .boolean)
        (some (⟨3, 10, 10⟩, .field (.item (.field .root "params".toList) 0) "expand".toList))).text =
          told (Found.scalar .text "yes".toList).text .boolean := by
  have h : Silent (leadText (.field (.item (.field .root "params".toList) 0) "expand".toList)) :=
    silent_leadText (by decide)
  have hs : Intact "yes".toList := ⟨by decide, by decide, by decide, by decide⟩
  rw [text_eq_located _ _ (by decide)]
  refine ⟨h, (reword_invalidType_iff h _ _ _ _).mpr fun s hm => ?_⟩
  obtain rfl := List.mem_singleton.mp hm
  exact .inl hs

theorem reword_ne_told_comma :
    reword (Fault.data (.invalidType (.scalar .text "yes, no".toList) .boolean)
      (some (⟨3, 10, 10⟩, .field (.item (.field .root "params".toList) 0) "expand".toList))).text ≠
        told (Found.scalar .text "yes, no".toList).text .boolean := by
  decide

end BraceParams.Report
