import BraceParams.Proofs.Report.Message
import BraceParams.Proofs.Text.Regrowth

/-!
Names of shapes in reworded messages. A description ends with the two letters that names start with, so a name comes
back where a text goes on with the rest of one behind a name that is described.
-/

namespace BraceParams.Report

open Text

/-- The names of shapes, each with the words that it comes back from. -/
def relapses : List (String × List String) :=
  [("struct RawQueryConfig",
      ["struct RawParamsConfigruct RawQueryConfig", "struct ParamsConfigruct RawQueryConfig",
       "struct RawParamsConfigruct ParamsConfigruct RawQueryConfig"]),
   ("struct RawParamsConfig",
      ["struct RawParamsConfigruct RawParamsConfig", "struct ParamsConfigruct RawParamsConfig",
       "struct RawParamsConfigruct ParamsConfigruct RawParamsConfig"]),
   ("struct ParamsConfig",
      ["struct ParamsConfigruct ParamsConfig", "struct RawParamsConfigruct ParamsConfigruct ParamsConfig"])]

def entryName : List Char := "struct RawQueryConfig".toList

def entryDescription : List Char := "a param mapping with 'name' and 'value'/'values'".toList

def rawName : List Char := "struct RawParamsConfig".toList

def documentName : List Char := "struct ParamsConfig".toList

def documentDescription : List Char := "a mapping with a 'params' list".toList

def shapeNames : List (List Char) := [entryName, rawName, documentName]

theorem ne_nil_of_mem_shapeNames {w : List Char} (h : w ∈ shapeNames) : w ≠ [] := by
  rintro rfl
  exact absurd h (by decide)

def grown (name w : List Char) : List Char := name ++ w.drop 2

def regrowths (name : List Char) : List (List Char) :=
  (if name = documentName then [] else [grown rawName name]) ++
    [grown documentName name, grown rawName (grown documentName name)]

def describedWords : List (List Char) := shapeNames ++ shapeNames.map (grown documentName)

def rawWords : List (List Char) := describedWords ++ describedWords.map (grown rawName)

theorem regrowths_of_relapses {name : String} {words : List String} (h : (name, words) ∈ relapses) :
    name.toList ∈ shapeNames ∧ regrowths name.toList = words.map String.toList := by
  have hr : ∀ entry ∈ relapses, entry.1.toList ∈ shapeNames ∧ regrowths entry.1.toList = entry.2.map String.toList := by
    decide +kernel
  exact hr (name, words) h

def lastTwo (s : List Char) : List Char := s.drop (s.length - 2)

def allButTwo (s : List Char) : List Char := s.take (s.length - 2)

def canRegrow (name description w : List Char) : Bool :=
  !runsInto name.tail name && (w == name || (!runsInto name w && !runsInto w name)) &&
    !runsInto (allButTwo description) w && !runsInto w (allButTwo description) &&
    !runsInto (lastTwo description).tail w && (lastTwo description).length ≤ w.length

theorem regrows_of_canRegrow {name description w : List Char} (h : canRegrow name description w) :
    Regrows name (allButTwo description) (lastTwo description) w := by
  simp only [canRegrow, Bool.and_eq_true, Bool.or_eq_true, beq_iff_eq, Bool.not_eq_true', decide_eq_true_eq] at h
  obtain ⟨⟨⟨⟨⟨halone, hapart⟩, hlead⟩, hlead'⟩, hlast⟩, hshort⟩ := h
  exact ⟨halone, hapart.imp_right fun h => separates_of_runsInto h.1 h.2, separates_of_runsInto hlead hlead', hlast,
    hshort⟩

section

variable {name description w s : List Char}

theorem infix_replace_name (hn : name ≠ []) (hd : lastTwo description ≠ []) (h : canRegrow name description w) :
    w <:+: replace name description s ↔
      (w ≠ name ∧ w <:+: s) ∨ ∃ v, w = lastTwo description ++ v ∧ name ++ v <:+: s := by
  have hi := (regrows_of_canRegrow h).infix_replace_iff (s := s) hn hd
  rwa [allButTwo, lastTwo, List.take_append_drop] at hi

-- no searched word starts with the end of the description of an entry, so this one brings nothing back
theorem infix_replace_entry (hw : w ∈ rawWords) :
    w <:+: replace entryName entryDescription s ↔ w ≠ entryName ∧ w <:+: s := by
  have h : ∀ w ∈ rawWords, canRegrow entryName entryDescription w ∧ ¬lastTwo entryDescription <+: w := by
    decide +kernel
  obtain ⟨hr, hs⟩ := h w hw
  rw [infix_replace_name (by decide) (by decide) hr, or_iff_left]
  rintro ⟨v, rfl, -⟩
  exact hs (List.prefix_append _ v)

theorem infix_replace_described (hn : name ≠ []) (hr : canRegrow name documentDescription w)
    (hs : lastTwo documentDescription <+: w) :
    w <:+: replace name documentDescription s ↔ (w ≠ name ∧ w <:+: s) ∨ grown name w <:+: s := by
  obtain ⟨v, rfl⟩ := hs
  rw [infix_replace_name hn (by decide) hr]
  refine or_congr_right ⟨?_, fun h => ⟨v, rfl, h⟩⟩
  rintro ⟨v', hv, h⟩
  rwa [← List.append_cancel_left hv] at h

theorem infix_replace_raw (hw : w ∈ describedWords) :
    w <:+: replace rawName documentDescription s ↔ (w ≠ rawName ∧ w <:+: s) ∨ grown rawName w <:+: s := by
  have h : ∀ w ∈ describedWords, canRegrow rawName documentDescription w ∧ lastTwo documentDescription <+: w := by
    decide +kernel
  exact infix_replace_described (by decide) (h w hw).1 (h w hw).2

theorem infix_replace_document (hw : w ∈ shapeNames) :
    w <:+: replace documentName documentDescription s ↔ (w ≠ documentName ∧ w <:+: s) ∨ grown documentName w <:+: s := by
  have h : ∀ w ∈ shapeNames, canRegrow documentName documentDescription w ∧ lastTwo documentDescription <+: w := by
    decide +kernel
  exact infix_replace_described (by decide) (h w hw).1 (h w hw).2

theorem exists_mem_regrowths {p : List Char → Prop} :
    (∃ word ∈ regrowths w, p word) ↔
      (w ≠ documentName ∧ p (grown rawName w)) ∨ p (grown documentName w) ∨ p (grown rawName (grown documentName w)) := by
  unfold regrowths
  split_ifs with h
  · simp [h]
  · simp [h]

theorem infix_describeShapes_iff (hw : w ∈ shapeNames) :
    w <:+: describeShapes s ↔ ∃ word ∈ regrowths w, word <:+: s := by
  have hwords : ∀ w ∈ shapeNames, (w = documentName ∨ w = rawName ∨ w = entryName) ∧ grown rawName w ≠ entryName ∧
      grown documentName w ≠ rawName ∧ grown documentName w ≠ entryName ∧
      grown rawName (grown documentName w) ≠ entryName := by decide
  obtain ⟨hname, hraw, hdoc, hdoc', hboth⟩ := hwords w hw
  have hd : w ∈ describedWords := List.mem_append_left _ hw
  have hg : grown documentName w ∈ describedWords := List.mem_append_right _ (List.mem_map_of_mem hw)
  have hr {u : List Char} (hu : u ∈ describedWords) : u ∈ rawWords ∧ grown rawName u ∈ rawWords :=
    ⟨List.mem_append_left _ hu, List.mem_append_right _ (List.mem_map_of_mem hu)⟩
  have hs : describeShapes s = replace documentName documentDescription
      (replace rawName documentDescription (replace entryName entryDescription s)) := rfl
  -- what the first two replacements took out is not there for the third
  have hleft : w ≠ documentName ∧ (w ≠ rawName ∧ w ≠ entryName ∧ w <:+: s ∨
      grown rawName w ≠ entryName ∧ grown rawName w <:+: s) ↔ w ≠ documentName ∧ grown rawName w <:+: s := by
    refine and_congr_right fun hn => ?_
    rw [and_iff_right hraw, or_iff_right]
    rintro ⟨hr, he, -⟩
    exact (hname.resolve_left hn).elim hr he
  rw [exists_mem_regrowths, hs, infix_replace_document hw, infix_replace_raw hd, infix_replace_raw hg,
    infix_replace_entry (hr hd).1, infix_replace_entry (hr hd).2, infix_replace_entry (hr hg).1,
    infix_replace_entry (hr hg).2, hleft, and_iff_right hdoc, and_iff_right hdoc', and_iff_right hboth]

end

section

variable {w m x : List Char} {start stop : List Char}

def frames : List (List Char) :=
  ["missing required field '".toList, "unknown field '".toList, ['\''], ", expected one of: ".toList, ", ".toList,
    "expected ".toList, ", but found ".toList, " or ".toList]

theorem separates_frame {frame : List Char} (hw : w ∈ shapeNames) (hf : frame ∈ frames) : Separates frame w := by
  have h : ∀ frame ∈ frames, ∀ w ∈ shapeNames, !runsInto frame w && !runsInto w frame := by
    decide +kernel
  have hr := h frame hf w hw
  rw [Bool.and_eq_true, Bool.not_eq_true', Bool.not_eq_true'] at hr
  exact separates_of_runsInto hr.1 hr.2

theorem infix_of_between? (h : between? start stop m = some x) : x <:+: m := by
  rw [between?] at h
  obtain ⟨⟨front, rest⟩, hstart, h⟩ := Option.bind_eq_some_iff.mp h
  obtain ⟨⟨found, back⟩, hstop, h⟩ := Option.bind_eq_some_iff.mp h
  obtain rfl := Option.some.inj h
  have hrest : rest <:+ m := ⟨front ++ start, append_of_cut? hstart⟩
  have hfound : found <+: rest := ⟨stop ++ back, by rw [← append_of_cut? hstop, List.append_assoc]⟩
  exact hfound.isInfix.trans hrest.isInfix

theorem infix_of_expectedFields? (hw : w ∈ shapeNames) {fields : List (List Char)} (h : expectedFields? m = some fields)
    {field : List Char} (hf : field ∈ fields) (hi : w <:+: field) : w <:+: m := by
  have hcomma : Separates ", ".toList w := separates_frame hw (by simp [frames])
  have hor : Separates " or ".toList w := separates_frame hw (by simp [frames])
  rw [expectedFields?] at h
  obtain ⟨⟨front, rest⟩, hcut, h⟩ := Option.bind_eq_some_iff.mp h
  obtain rfl := Option.some.inj h
  obtain ⟨piece, hp, rfl⟩ := List.mem_map.mp hf
  have hjoin := (infix_join_iff hcomma (ne_nil_of_mem_shapeNames hw)).mpr ⟨piece, hp, hi.trans (isInfix_trimBy _ piece)⟩
  rw [join_split (by decide), Text.infix_replace_iff (by decide) hor hcomma] at hjoin
  exact hjoin.trans (List.IsSuffix.isInfix ⟨_, append_of_cut? hcut⟩)

theorem infix_quoted_iff {lead s : List Char} (hw : w ∈ shapeNames) (hl : lead ∈ frames) :
    w <:+: lead ++ s ++ ['\''] ↔ w <:+: s := by
  have hlead : Separates lead w := separates_frame hw hl
  have hquote : Separates ['\''] w := separates_frame hw (by simp [frames])
  rw [← contains_iff, hlead.contains_enclosed hquote, contains_iff]

theorem infix_of_missingFieldMessage? (hw : w ∈ shapeNames) (h : missingFieldMessage? m = some x) (hi : w <:+: x) :
    w <:+: m := by
  rw [missingFieldMessage?] at h
  obtain ⟨field, hb, h⟩ := Option.bind_eq_some_iff.mp h
  obtain rfl := Option.some.inj h
  rw [infix_quoted_iff hw (by simp [frames])] at hi
  exact hi.trans (infix_of_between? hb)

theorem infix_of_unknownFieldMessage? (hw : w ∈ shapeNames) (h : unknownFieldMessage? m = some x) (hi : w <:+: x) :
    w <:+: m := by
  have hlist : Separates ", expected one of: ".toList w := separates_frame hw (by simp [frames])
  have hcomma : Separates ", ".toList w := separates_frame hw (by simp [frames])
  rw [unknownFieldMessage?] at h
  obtain ⟨field, hb, h⟩ := Option.bind_eq_some_iff.mp h
  dsimp only at h
  cases he : expectedFields? m with
  | none =>
    rw [he] at h
    obtain rfl := Option.some.inj h
    rw [infix_quoted_iff hw (by simp [frames])] at hi
    exact hi.trans (infix_of_between? hb)
  | some fields =>
    rw [he] at h
    obtain rfl := Option.some.inj h
    rw [hlist.infix_iff, infix_quoted_iff hw (by simp [frames]), infix_join_iff hcomma (ne_nil_of_mem_shapeNames hw)] at hi
    rcases hi with hi | ⟨piece, hp, hi⟩
    · exact hi.trans (infix_of_between? hb)
    · exact infix_of_expectedFields? hw he hp hi

theorem infix_of_invalidTypeMessage? (hw : w ∈ shapeNames) (h : invalidTypeMessage? m = some x) (hi : w <:+: x) :
    w <:+: m := by
  have hlead : Separates "expected ".toList w := separates_frame hw (by simp [frames])
  have hfound : Separates ", but found ".toList w := separates_frame hw (by simp [frames])
  rw [invalidTypeMessage?] at h
  obtain ⟨found, hb, h⟩ := Option.bind_eq_some_iff.mp h
  obtain ⟨⟨front, expected⟩, hcut, h⟩ := Option.bind_eq_some_iff.mp h
  obtain rfl := Option.some.inj h
  rw [hfound.infix_iff, (hlead.clear expected).infix_iff] at hi
  rcases hi with hi | hi
  · exact hi.trans (List.IsSuffix.isInfix ⟨_, append_of_cut? hcut⟩)
  · exact hi.trans (infix_of_between? hb)

theorem infix_of_infix_reword (hw : w ∈ shapeNames) {raw : List Char} (hi : w <:+: reword raw) :
    w <:+: describeShapes (dropPlace raw) := by
  rw [reword] at hi
  generalize describeShapes (dropPlace raw) = m at hi ⊢
  cases hm : missingFieldMessage? m with
  | some x =>
    rw [hm] at hi
    exact infix_of_missingFieldMessage? hw hm hi
  | none =>
    cases hu : unknownFieldMessage? m with
    | some x =>
      rw [hm, hu] at hi
      exact infix_of_unknownFieldMessage? hw hu hi
    | none =>
      cases ht : invalidTypeMessage? m with
      | some x =>
        rw [hm, hu, ht] at hi
        exact infix_of_invalidTypeMessage? hw ht hi
      | none =>
        rw [hm, hu, ht] at hi
        exact hi

end

theorem name_infix_reword {name : String} {words : List String} (h : (name, words) ∈ relapses) (raw : List Char) :
    (name.toList <:+: reword raw → ∃ word ∈ words, word.toList <:+: dropPlace raw) ∧
      (reword raw = describeShapes (dropPlace raw) →
        (name.toList <:+: reword raw ↔ ∃ word ∈ words, word.toList <:+: dropPlace raw)) := by
  obtain ⟨hname, hwords⟩ := regrowths_of_relapses h
  have hi : name.toList <:+: describeShapes (dropPlace raw) ↔ ∃ word ∈ words, word.toList <:+: dropPlace raw := by
    rw [infix_describeShapes_iff hname, hwords]
    simp only [List.mem_map, exists_exists_and_eq_and]
  constructor
  · intro hr
    exact hi.mp (infix_of_infix_reword hname hr)
  · intro hr
    rw [hr, hi]

theorem name_infix_reword_passed :
    let raw := "unknown tag struct ParamsConfigruct ParamsConfig".toList
    let words := ["struct ParamsConfigruct ParamsConfig", "struct RawParamsConfigruct ParamsConfigruct ParamsConfig"]
    ("struct ParamsConfig", words) ∈ relapses ∧ reword raw = describeShapes (dropPlace raw) ∧
      "struct ParamsConfig".toList <:+: reword raw ∧ ∃ word ∈ words, word.toList <:+: dropPlace raw := by
  intro raw words
  have hm : ("struct ParamsConfig", words) ∈ relapses := by decide
  have hraw : reword raw = describeShapes (dropPlace raw) := by decide +kernel
  have hword : ∃ word ∈ words, word.toList <:+: dropPlace raw :=
    ⟨"struct ParamsConfigruct ParamsConfig", List.mem_cons_self, contains_iff.mp (by decide +kernel)⟩
  have hname := ((name_infix_reword hm raw).2 hraw).mpr hword
  exact ⟨hm, hraw, hname, (name_infix_reword hm raw).1 hname⟩

theorem exists_name_infix_reword : ¬∀ raw, ∀ shape ∈ shapes, ¬shape.1.toList <:+: reword raw := by
  intro h
  have hc : contains "struct ParamsConfig".toList (reword ("params: invalid type: string ".toList ++
      ("\"struct ParamsConfigruct ParamsConfig\", expected a sequence at line 1 column 9").toList)) := by
    decide +kernel
  exact h _ ("struct ParamsConfig", "a mapping with a 'params' list") (by decide) (contains_iff.mp hc)

end BraceParams.Report
