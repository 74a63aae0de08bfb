import BraceParams.Proofs.Report.Message
import BraceParams.Schema.Entry

namespace BraceParams.Report

open Schema Text

structure FieldName (name : String) : Prop where
  nonempty : name.toList ≠ []
  space : ' ' ∉ name.toList
  backtick : '`' ∉ name.toList

/-- Words that can stand neither in a name of a field nor across the ends of one. -/
structure Unlisted (w : List Char) : Prop where
  backtick : '`' ∉ w
  space : ' ' ∈ w
  comma : ¬w <:+: ", ".toList

def ticked (name : String) : List Char :=
  '`' :: name.toList ++ ['`']

def listed (names : List String) : List Char :=
  join ", ".toList (names.map ticked)

def quantifier (names : List String) : List Char :=
  if names.length ≤ 2 then [] else "one of ".toList

def marker (names : List String) : String :=
  if names.length ≤ 2 then "expected " else "expected one of "

structure Named (key : List Char) (names : List String) : Prop where
  backtick : '`' ∉ key
  shape : ∀ shape ∈ shapes, ¬shape.1.toList <:+: key
  missing : ¬"missing field ".toList <:+ key
  marker : ¬(marker names).toList <:+: key

section

variable {w e : List Char} {names : List String}

theorem flatten_intersperse (w : List Char) (pieces : List (List Char)) :
    (pieces.intersperse w).flatten = join w pieces := by
  induction pieces with
  | nil => rfl
  | cons piece rest ih =>
    cases rest with
    | nil => simp [join]
    | cons next rest =>
      rw [List.intersperse_cons_cons, join, List.flatten_cons, List.flatten_cons, ih, List.append_assoc]
      exact List.cons_ne_nil next rest

theorem knownText_two (a b : String) : Cause.knownText [a, b] = ticked a ++ " or ".toList ++ listed [b] := by
  have h : "` or `".toList = ['`'] ++ " or ".toList ++ ['`'] := by decide
  rw [Cause.knownText, h, ticked, listed]
  simp [join, ticked]

theorem knownText_many (a b c : String) (rest : List String) :
    Cause.knownText (a :: b :: c :: rest) = "one of ".toList ++ listed (a :: b :: c :: rest) := by
  have h : ", ".toList = [',', ' '] := by decide
  rw [listed, h, ← flatten_intersperse]
  rfl

namespace Unlisted

theorem ne_nil (hw : Unlisted w) : w ≠ [] :=
  List.ne_nil_of_mem hw.space

theorem separates (hw : Unlisted w) : Separates ['`'] w :=
  separates_singleton hw.ne_nil hw.backtick

theorem not_infix_name (hw : Unlisted w) {name : String} (h : FieldName name) : ¬w <:+: name.toList :=
  fun hi => h.space (hi.subset hw.space)

theorem not_infix_listed (hw : Unlisted w) (hX : ∀ name ∈ names, FieldName name) (he : ¬w <:+: e) :
    ¬w <:+: e ++ listed names := by
  induction names generalizing e with
  | nil => rwa [listed, List.map_nil, join, List.append_nil]
  | cons name names ih =>
    obtain ⟨hname, hnames⟩ := List.forall_mem_cons.mp hX
    have hlist : ∃ d, ¬w <:+: d ∧ listed (name :: names) = ticked name ++ d := by
      cases names with
      | nil => exact ⟨[], fun h => hw.ne_nil (List.infix_nil.mp h), by rw [List.append_nil]; rfl⟩
      | cons next rest =>
        exact ⟨", ".toList ++ listed (next :: rest), ih hnames hw.comma, by rw [← List.append_assoc]; rfl⟩
    obtain ⟨d, hd, hl⟩ := hlist
    have ht : e ++ (ticked name ++ d) = e ++ ['`'] ++ (name.toList ++ ['`'] ++ d) := by
      simp only [ticked, List.append_assoc, List.cons_append, List.nil_append]
    rw [hl, ht, hw.separates.infix_iff, hw.separates.infix_iff]
    rintro (h | h | h)
    · exact he h
    · exact hw.not_infix_name hname h
    · exact hd h

theorem not_infix_knownText (hw : Unlisted w) (hor : ¬w <:+: " or ".toList) (hX : ∀ name ∈ names, FieldName name)
    (he : ¬w <:+: e ++ quantifier names) : ¬w <:+: e ++ Cause.knownText names := by
  match names with
  | [] => exact he
  | [a] =>
    have hq : quantifier [a] = [] := rfl
    rw [hq, List.append_nil] at he
    exact hw.not_infix_listed hX he
  | [a, b] =>
    have hq : quantifier [a, b] = [] := rfl
    have ht : e ++ (ticked a ++ " or ".toList ++ listed [b]) =
        e ++ ['`'] ++ (a.toList ++ ['`'] ++ (" or ".toList ++ listed [b])) := by
      simp only [ticked, List.append_assoc, List.cons_append, List.nil_append]
    obtain ⟨ha, hb⟩ := List.forall_mem_cons.mp hX
    rw [hq, List.append_nil] at he
    rw [knownText_two, ht, hw.separates.infix_iff, hw.separates.infix_iff]
    rintro (h | h | h)
    · exact he h
    · exact hw.not_infix_name ha h
    · exact hw.not_infix_listed hb hor h
  | a :: b :: c :: rest =>
    have hq : quantifier (a :: b :: c :: rest) = "one of ".toList := if_neg (by simp)
    rw [hq] at he
    rw [knownText_many, ← List.append_assoc]
    exact hw.not_infix_listed hX he

theorem knownText_lacks (hw : Unlisted w) (hor : ¬w <:+: " or ".toList) (hone : ¬w <:+: "one of ".toList)
    (hX : ∀ name ∈ names, FieldName name) : ¬w <:+: Cause.knownText names := by
  have hq : ¬w <:+: [] ++ quantifier names := by
    rw [List.nil_append, quantifier]
    split
    · exact fun hi => hw.ne_nil (List.infix_nil.mp hi)
    · exact hone
  exact hw.not_infix_knownText hor hX hq

end Unlisted

theorem unlisted_or : Unlisted " or ".toList :=
  ⟨by decide, by decide, by decide⟩

theorem replace_knownText (hn : names ≠ []) (hX : ∀ name ∈ names, FieldName name)
    (he : e ∈ [[], ", expected ".toList]) :
    replace " or ".toList ", ".toList (e ++ Cause.knownText names) = e ++ (quantifier names ++ listed names) := by
  have hfixed : ∀ e ∈ [[], ", expected ".toList], contains " or ".toList e = false ∧
      contains " or ".toList (e ++ "one of ".toList) = false := by decide
  obtain ⟨hlead, hone⟩ := hfixed e he
  have hl := contains_eq_false_iff.mp hlead
  have ho := contains_eq_false_iff.mp hone
  have hs := unlisted_or.separates
  match names, hn with
  | [a], _ => exact replace_of_absent (unlisted_or.not_infix_listed hX hl)
  | [a, b], _ =>
    obtain ⟨ha, hb⟩ := List.forall_mem_cons.mp hX
    have hlast : replace " or ".toList ", ".toList (listed [b]) = listed [b] :=
      replace_of_absent (unlisted_or.not_infix_listed (e := []) hb (by simp))
    have ht : e ++ (ticked a ++ " or ".toList ++ listed [b]) =
        e ++ ['`'] ++ (a.toList ++ ['`'] ++ (" or ".toList ++ listed [b])) := by
      simp only [ticked, List.append_assoc, List.cons_append, List.nil_append]
    rw [knownText_two, ht, hs.replace, hs.replace, replace_of_absent hl,
      replace_of_absent (unlisted_or.not_infix_name ha), replace_append_self unlisted_or.ne_nil, hlast]
    have hq : quantifier [a, b] = [] := if_pos (Nat.le_refl 2)
    have hab : listed [a, b] = ticked a ++ ", ".toList ++ listed [b] := rfl
    rw [hq, hab, ticked]
    simp only [List.append_assoc, List.cons_append, List.nil_append]
  | a :: b :: c :: rest, _ =>
    rw [knownText_many, ← List.append_assoc, replace_of_absent (unlisted_or.not_infix_listed hX ho),
      List.append_assoc]
    have hq : quantifier (a :: b :: c :: rest) = "one of ".toList := if_neg (by simp)
    rw [hq]

theorem trimRight_ticked {name : String} (h : FieldName name) (s : List Char) :
    ((s ++ name.toList ++ ['`']).reverse.dropWhile (· = '`')).reverse = s ++ name.toList := by
  obtain ⟨r, d, hd⟩ := (List.eq_nil_or_concat name.toList).resolve_left h.nonempty
  have hne : d ≠ '`' := by
    rintro rfl
    exact h.backtick (by simp [hd])
  rw [hd]
  simp [hne]

theorem trimBy_ticked {name : String} (h : FieldName name) : trimBy (· = '`') (ticked name) = name.toList := by
  obtain ⟨c, t, hc⟩ := List.exists_cons_of_ne_nil h.nonempty
  have hne : c ≠ '`' := by
    rintro rfl
    exact h.backtick (hc ▸ List.mem_cons_self)
  have hd : (ticked name).dropWhile (· = '`') = [] ++ name.toList ++ ['`'] := by
    rw [ticked, hc]
    simp [hne]
  rw [trimBy, hd, trimRight_ticked h, List.nil_append]

theorem backtick_mem_trimBy {name : String} (h : FieldName name) {c : Char} (hc : c ≠ '`') :
    '`' ∈ trimBy (· = '`') (c :: e ++ ticked name) := by
  have hd : (c :: e ++ ticked name).dropWhile (· = '`') = c :: e ++ ['`'] ++ name.toList ++ ['`'] := by
    rw [ticked]
    simp [hc]
  rw [trimBy, hd, trimRight_ticked h]
  simp

theorem split_listed (he : ¬", ".toList <:+: e) {name : String} (hX : ∀ x ∈ name :: names, FieldName x) :
    split ", ".toList (e ++ listed (name :: names)) = (e ++ ticked name) :: names.map ticked := by
  have hw : ", ".toList ≠ [] ∧ ' ' ∈ ", ".toList ∧ '`' ∉ ", ".toList ∧
      runsInto ", ".toList.tail ", ".toList = false := by decide
  have hj : e ++ listed (name :: names) = join ", ".toList ((e ++ ticked name) :: names.map ticked) := by
    cases names with
    | nil => rfl
    | cons next rest => simp only [listed, List.map_cons, join, List.append_assoc]
  rw [hj]
  apply split_join hw.1 hw.2.2.2 (List.cons_ne_nil _ _)
  obtain ⟨hname, hnames⟩ := List.forall_mem_cons.mp hX
  refine List.forall_mem_cons.mpr ⟨?_, ?_⟩
  · have ht : e ++ ticked name = e ++ ['`'] ++ (name.toList ++ ['`']) := by
      simp only [ticked, List.append_assoc, List.cons_append, List.nil_append]
    rw [ht, (separates_singleton hw.1 hw.2.2.1).infix_iff, not_or]
    refine ⟨he, fun hi => ?_⟩
    have := hi.subset hw.2.1
    simp [hname.space] at this
  · intro piece hm hi
    obtain ⟨x, hx, rfl⟩ := List.mem_map.mp hm
    have := hi.subset hw.2.1
    simp [ticked, (hnames x hx).space] at this

def fieldsOf (rest : List Char) : List (List Char) :=
  (split ", ".toList (replace " or ".toList ", ".toList rest)).map (trimBy (· = '`'))

theorem map_trimBy_split (hn : names ≠ []) (hX : ∀ name ∈ names, FieldName name) :
    (split ", ".toList (listed names)).map (trimBy (· = '`')) = names.map String.toList := by
  obtain ⟨name, rest, rfl⟩ := List.exists_cons_of_ne_nil hn
  have hs := split_listed (e := []) (by simp) hX
  rw [List.nil_append, List.nil_append, ← List.map_cons] at hs
  rw [hs, List.map_map]
  exact List.map_congr_left fun name hm => trimBy_ticked (hX name hm)

theorem fieldsOf_knownText (hn : names ≠ []) (hX : ∀ name ∈ names, FieldName name) (h : names.length ≤ 2) :
    fieldsOf (Cause.knownText names) = names.map String.toList := by
  have hr := replace_knownText hn hX (e := []) (by simp)
  have hq : quantifier names = [] := if_pos h
  rw [hq, List.nil_append, List.nil_append, List.nil_append] at hr
  rw [fieldsOf, hr, map_trimBy_split hn hX]

theorem fieldsOf_listed (hn : names ≠ []) (hX : ∀ name ∈ names, FieldName name) :
    fieldsOf (listed names) = names.map String.toList := by
  have hl := unlisted_or.not_infix_listed (e := []) hX (by simp)
  rw [List.nil_append] at hl
  rw [fieldsOf, replace_of_absent hl, map_trimBy_split hn hX]

theorem backtick_mem_fieldsOf (hn : names ≠ []) (hX : ∀ name ∈ names, FieldName name) (y : List Char) :
    ∃ field ∈ fieldsOf (y ++ "`, expected ".toList ++ Cause.knownText names), '`' ∈ field := by
  have hw : ", ".toList ≠ [] ∧ runsInto ", ".toList.tail ", ".toList = false := by decide
  have hb : "`, expected ".toList = ['`'] ++ ", expected ".toList := by decide
  have he : ", expected ".toList = ", ".toList ++ "expected ".toList := by decide
  have hx : "expected ".toList = 'e' :: "xpected ".toList := by decide
  have hq : ¬", ".toList <:+: "expected ".toList ++ quantifier names := by
    rw [← contains_eq_false_iff, quantifier]
    split <;> decide
  have hr := replace_knownText hn hX (e := ", expected ".toList) (by simp)
  have ht : y ++ "`, expected ".toList ++ Cause.knownText names =
      y ++ ['`'] ++ (", expected ".toList ++ Cause.knownText names) := by
    rw [hb]
    simp only [List.append_assoc]
  obtain ⟨name, rest, rfl⟩ := List.exists_cons_of_ne_nil hn
  have hsplit : split ", ".toList (replace " or ".toList ", ".toList (y ++ "`, expected ".toList ++
      Cause.knownText (name :: rest))) = split ", ".toList (replace " or ".toList ", ".toList y ++ ['`']) ++
        ("expected ".toList ++ quantifier (name :: rest) ++ ticked name) :: rest.map ticked := by
    rw [ht, unlisted_or.separates.replace, hr, he, ← split_listed hq hX, ← split_append_self hw.1 hw.2]
    simp only [List.append_assoc]
  refine ⟨trimBy (· = '`') ("expected ".toList ++ quantifier (name :: rest) ++ ticked name), ?_, ?_⟩
  · rw [fieldsOf, hsplit]
    exact List.mem_map_of_mem (List.mem_append_right _ List.mem_cons_self)
  · rw [hx]
    exact backtick_mem_trimBy (hX name List.mem_cons_self) (by decide)

theorem backtick_mem_knownText (hn : names ≠ []) : '`' ∈ Cause.knownText names := by
  match names, hn with
  | [a], _ => exact List.mem_cons_self
  | [a, b], _ => exact List.mem_cons_self
  | a :: b :: c :: rest, _ => exact List.mem_append_right _ List.mem_cons_self

end

section

variable {lead key : List Char} {names : List String}

def searchedField (lead key : List Char) (names : List String) : List Char :=
  lead ++ "unknown field `".toList ++ (key ++ "`, expected ".toList ++ Cause.knownText names)

theorem searchedField_eq (lead key : List Char) (names : List String) :
    searchedField lead key names =
      lead ++ "unknown field `".toList ++ (key ++ ['`'] ++ (", expected ".toList ++ Cause.knownText names)) := by
  have hb : "`, expected ".toList = ['`'] ++ ", expected ".toList := by decide
  unfold searchedField
  rw [hb]
  simp only [List.append_assoc]

theorem between?_missingField (h : Silent lead) (key : List Char) (hn : names ≠ [])
    (hX : ∀ name ∈ names, FieldName name) :
    between? "missing field `".toList ['`'] (searchedField lead key names) = none ↔
      ¬"missing field `".toList <:+: key ++ ['`'] := by
  have hrule : "missing field `" ∈ ruleWords := List.mem_cons_self
  have hu : Separates "unknown field `".toList "missing field `".toList :=
    separates_of_runsInto (by decide) (by decide)
  have he : Separates ", expected ".toList "missing field `".toList :=
    separates_of_runsInto (by decide) (by decide)
  rw [searchedField_eq]
  by_cases hi : "missing field `".toList <:+: key ++ ['`']
  · obtain ⟨⟨x, y⟩, hc⟩ := Option.isSome_iff_exists.mp (contains_iff.mpr hi)
    have hcut : cut? "missing field `".toList (lead ++ "unknown field `".toList ++
        (key ++ ['`'] ++ (", expected ".toList ++ Cause.knownText names))) =
          some (lead ++ "unknown field `".toList ++ x, y ++ (", expected ".toList ++ Cause.knownText names)) := by
      rw [hu.cut? (h _ hrule), cut?_append_left hc]
      rfl
    rw [between?_eq_none_iff hcut]
    refine iff_of_false (fun hm => hm ?_) (not_not_intro hi)
    exact List.mem_append_right _ (List.mem_append_right _ (backtick_mem_knownText hn))
  · have hw : Unlisted "missing field".toList := ⟨by decide, by decide, by decide⟩
    have hpart : "missing field".toList <:+: "missing field `".toList := contains_iff.mp (by decide)
    have hknown := hw.knownText_lacks (by decide) (by decide) hX
    refine iff_of_true (between?_of_absent ?_) hi
    rw [hu.infix_iff, ← List.append_assoc (key ++ ['`']), he.infix_iff]
    rintro (hl | hl | hl)
    · exact h _ hrule hl
    · exact hi hl
    · exact hknown (hpart.trans hl)

theorem between?_unknownField (h : Silent lead) :
    between? "unknown field `".toList ['`'] (searchedField lead key names) = some (before ['`'] key) := by
  have hself : runsInto "unknown field `".toList.tail "unknown field `".toList = false := by decide
  have hrule : "unknown field `" ∈ ruleWords := List.mem_cons_of_mem _ List.mem_cons_self
  obtain ⟨rest, hr⟩ := exists_cut?_singleton (c := '`') key (", expected ".toList ++ Cause.knownText names)
  rw [searchedField_eq, between?, cut?_self hself (h _ hrule), Option.bind_eq_bind, Option.bind_some]
  dsimp only
  rw [List.append_assoc, List.singleton_append, hr]
  rfl

def markers : List String := ["expected ", "expected one of "]

theorem separates_marker {mark : String} (hm : mark ∈ markers) :
    Separates "unknown field `".toList mark.toList ∧ Separates ['`'] mark.toList := by
  have hall : ∀ mark ∈ markers, mark.toList ≠ [] ∧ '`' ∉ mark.toList ∧
      runsInto "unknown field `".toList mark.toList = false ∧
      runsInto mark.toList "unknown field `".toList = false := by decide
  obtain ⟨hn, hb, hu, hu'⟩ := hall mark hm
  exact ⟨separates_of_runsInto hu hu', separates_singleton hn hb⟩

theorem marker_not_infix_lead (h : Silent lead) {mark : String} (hm : mark ∈ markers) : ¬mark.toList <:+: lead := by
  have hall : ∀ mark ∈ markers, contains "expected ".toList mark.toList := by decide
  have hrule : "expected " ∈ ruleWords := by simp [ruleWords]
  exact fun hi => h _ hrule ((contains_iff.mp (hall mark hm)).trans hi)

section

variable {mark : String} (h : Silent lead) (hm : mark ∈ markers)

include h hm

theorem cut?_marker_of_present (hk : mark.toList <:+: key) (names : List String) :
    ∃ x y, cut? mark.toList (searchedField lead key names) =
      some (x, y ++ "`, expected ".toList ++ Cause.knownText names) := by
  obtain ⟨⟨x, y⟩, hc⟩ := Option.isSome_iff_exists.mp (contains_iff.mpr hk)
  refine ⟨lead ++ "unknown field `".toList ++ x, y, ?_⟩
  unfold searchedField
  rw [(separates_marker hm).1.cut? (marker_not_infix_lead h hm), List.append_assoc key, cut?_append_left hc,
    ← List.append_assoc y]
  rfl

theorem cut?_marker_of_absent (hk : ¬mark.toList <:+: key) (names : List String) :
    ∃ a, cut? mark.toList (searchedField lead key names) =
      (cut? mark.toList (", expected ".toList ++ Cause.knownText names)).map fun (x, y) => (a ++ x, y) := by
  refine ⟨lead ++ "unknown field `".toList ++ (key ++ ['`']), ?_⟩
  rw [searchedField_eq, (separates_marker hm).1.cut? (marker_not_infix_lead h hm), (separates_marker hm).2.cut? hk,
    Option.map_map]
  cases cut? mark.toList (", expected ".toList ++ Cause.knownText names) with
  | none => rfl
  | some found => simp

end

theorem expectedFields?_of_cut? {m x rest : List Char} {mark : String}
    (hm : (if contains "expected one of ".toList m then "expected one of " else "expected ") = mark)
    (hc : cut? mark.toList m = some (x, rest)) : expectedFields? m = some (fieldsOf rest) := by
  rw [expectedFields?]
  dsimp only
  rw [hm, hc]
  rfl

theorem contains_oneOf (h : Silent lead) (hX : ∀ name ∈ names, FieldName name) (hl : names.length ≤ 2)
    (hk : ¬"expected one of ".toList <:+: key) :
    contains "expected one of ".toList (searchedField lead key names) = false := by
  have hw : Unlisted "expected one of ".toList := ⟨by decide, by decide, by decide⟩
  have hq : quantifier names = [] := if_pos hl
  have hlist : ¬"expected one of ".toList <:+: ", expected ".toList ++ Cause.knownText names := by
    apply hw.not_infix_knownText (by decide) hX
    rw [hq, List.append_nil]
    decide
  have hmark : "expected one of " ∈ markers := by simp [markers]
  obtain ⟨a, ha⟩ := cut?_marker_of_absent h hmark hk names
  rw [contains, ha, cut?_eq_none_iff.mpr hlist]
  rfl

theorem knownText_of_lt (hl : ¬names.length ≤ 2) : Cause.knownText names = "one of ".toList ++ listed names := by
  match names, hl with
  | [], hl => exact absurd (Nat.zero_le 2) hl
  | [_], hl => exact absurd (by simp) hl
  | [_, _], hl => exact absurd (by simp) hl
  | a :: b :: c :: rest, _ => exact knownText_many a b c rest

theorem expectedFields?_of_absent (h : Silent lead) (hn : names ≠ []) (hX : ∀ name ∈ names, FieldName name)
    (hk : ¬(marker names).toList <:+: key) :
    expectedFields? (searchedField lead key names) = some (names.map String.toList) := by
  have hself : ∀ mark ∈ markers, runsInto mark.toList.tail mark.toList = false ∧
      contains mark.toList ", ".toList = false := by decide
  have hcut {mark : String} (hm : mark ∈ markers) (rest : List Char) (hk : ¬mark.toList <:+: key)
      (ht : ", expected ".toList ++ Cause.knownText names = ", ".toList ++ mark.toList ++ rest) :
      ∃ x, cut? mark.toList (searchedField lead key names) = some (x, rest) := by
    obtain ⟨a, ha⟩ := cut?_marker_of_absent h hm hk names
    obtain ⟨hs, hc⟩ := hself mark hm
    rw [ht, cut?_self hs (contains_eq_false_iff.mp hc)] at ha
    exact ⟨_, ha⟩
  by_cases hl : names.length ≤ 2
  · have hmark : marker names = "expected " := if_pos hl
    have hpart : "expected ".toList <:+: "expected one of ".toList := contains_iff.mp (by decide)
    have ht : ", expected ".toList = ", ".toList ++ "expected ".toList := by decide
    rw [hmark] at hk
    have hone := contains_oneOf h hX hl fun hi => hk (hpart.trans hi)
    obtain ⟨x, hx⟩ := hcut (by simp [markers]) _ hk (congrArg (· ++ Cause.knownText names) ht)
    rw [expectedFields?_of_cut? (if_neg (by rw [hone]; exact Bool.false_ne_true)) hx, fieldsOf_knownText hn hX hl]
  · have hmark : marker names = "expected one of " := if_neg hl
    have ht : ", expected ".toList ++ "one of ".toList = ", ".toList ++ "expected one of ".toList := by decide
    rw [hmark] at hk
    obtain ⟨x, hx⟩ := hcut (by simp [markers]) (listed names) hk
      (by rw [knownText_of_lt hl, ← List.append_assoc, ht])
    have hone : contains "expected one of ".toList (searchedField lead key names) := by
      rw [contains, hx]
      rfl
    rw [expectedFields?_of_cut? (if_pos hone) hx, fieldsOf_listed hn hX]

theorem expectedFields?_of_present (h : Silent lead) (hn : names ≠ []) (hX : ∀ name ∈ names, FieldName name)
    (hk : (marker names).toList <:+: key) :
    ∃ fields, expectedFields? (searchedField lead key names) = some fields ∧ ∃ field ∈ fields, '`' ∈ field := by
  by_cases ho : "expected one of ".toList <:+: key
  · have hmark : "expected one of " ∈ markers := by simp [markers]
    obtain ⟨x, y, hc⟩ := cut?_marker_of_present h hmark ho names
    have hone : contains "expected one of ".toList (searchedField lead key names) := by
      rw [contains, hc]
      rfl
    exact ⟨_, expectedFields?_of_cut? (if_pos hone) hc, backtick_mem_fieldsOf hn hX y⟩
  · have hl : names.length ≤ 2 := by
      by_contra hl
      rw [marker, if_neg hl] at hk
      exact ho hk
    rw [marker, if_pos hl] at hk
    have hmark : "expected " ∈ markers := by simp [markers]
    obtain ⟨x, y, hc⟩ := cut?_marker_of_present h hmark hk names
    have hone := contains_oneOf h hX hl ho
    have hf := expectedFields?_of_cut? (if_neg (by rw [hone]; exact Bool.false_ne_true)) hc
    exact ⟨_, hf, backtick_mem_fieldsOf hn hX y⟩

def toldField (key : List Char) (fields : List (List Char)) : List Char :=
  "unknown field '".toList ++ key ++ ['\''] ++ ", expected one of: ".toList ++ join ", ".toList fields

theorem describeShapes_dropPlace_unknownField (h : Silent lead) (hX : ∀ name ∈ names, FieldName name)
    (key : List Char) (line column : Nat) :
    describeShapes (dropPlace (located lead (Cause.unknownField key names).text line column)) =
      searchedField lead (describeShapes key) names := by
  have hsep : ∀ joint ∈ ["unknown field `", "`, expected "], ∀ shape ∈ shapes,
      runsInto joint.toList shape.1.toList = false ∧ runsInto shape.1.toList joint.toList = false := by decide
  have hs {joint : String} (hj : joint ∈ ["unknown field `", "`, expected "]) :
      ∀ shape ∈ shapes, Separates joint.toList shape.1.toList := fun shape hm =>
    separates_of_runsInto (hsep joint hj shape hm).1 (hsep joint hj shape hm).2
  have hplain : ∀ shape ∈ shapes, '`' ∉ shape.1.toList ∧ ' ' ∈ shape.1.toList ∧ ¬shape.1.toList <:+: ", ".toList ∧
      ¬shape.1.toList <:+: " or ".toList ∧ ¬shape.1.toList <:+: "one of ".toList := by decide
  have hknown : describeShapes (Cause.knownText names) = Cause.knownText names := by
    apply describeShapes_eq_self_iff.mpr
    intro shape hm
    obtain ⟨hb, hs, hc, hor, hone⟩ := hplain shape hm
    exact Unlisted.knownText_lacks ⟨hb, hs, hc⟩ hor hone hX
  have ht : (Cause.unknownField key names).text =
      "unknown field `".toList ++ key ++ "`, expected ".toList ++ Cause.knownText names := rfl
  have ha : lead ++ (Cause.unknownField key names).text =
      lead ++ "unknown field `".toList ++ (key ++ "`, expected ".toList ++ Cause.knownText names) := by
    rw [ht]
    simp only [List.append_assoc]
  rw [dropPlace_located, ha, describeShapes_append (hs (by simp)), describeShapes_append (hs (by simp)),
    describeShapes_silent h, hknown]
  rfl

theorem before_ne_of_mem {p : List Char} (hb : '`' ∈ p) (q r x y : List Char) :
    before ['`'] (p ++ q) ++ '\'' :: x ≠ p ++ r ++ '\'' :: y := by
  intro h
  obtain ⟨t, ht⟩ := exists_before_append hb
  rw [before_append_of_mem hb] at h
  generalize before ['`'] p = b at h ht
  subst ht
  rw [List.append_assoc, List.append_assoc] at h
  cases (List.cons.inj (List.append_cancel_left h)).1

theorem plain_of_told {x y : List Char} (h : before ['`'] (describeShapes key) ++ '\'' :: x = key ++ '\'' :: y) :
    '`' ∉ key ∧ ∀ shape ∈ shapes, ¬shape.1.toList <:+: key := by
  rcases describeShapes_cases key with ⟨hd, hs⟩ | ⟨⟨a, r, r', hkey, hd⟩, -⟩
  · rw [hd] at h
    refine ⟨fun hb => before_ne_of_mem hb [] [] x y ?_, hs⟩
    rwa [List.append_nil]
  · exfalso
    by_cases hb : '`' ∈ a
    · apply before_ne_of_mem hb ('a' :: r') ('s' :: r) x y
      rwa [← hkey, ← hd]
    · have ha : before ['`'] ('a' :: r') = 'a' :: before ['`'] r' :=
        before_append_of_not_mem (a := ['a']) (by decide) r'
      rw [hd, before_append_of_not_mem hb, ha, List.append_assoc] at h
      rw [hkey, List.append_assoc] at h
      cases (List.cons.inj (List.append_cancel_left h)).1

theorem missing_iff (hb : '`' ∉ key) :
    "missing field `".toList <:+: key ++ ['`'] ↔ "missing field ".toList <:+ key := by
  have hw : "missing field `".toList = "missing field ".toList ++ ['`'] := by decide
  rw [hw, List.infix_concat_iff]
  constructor
  · rintro (⟨z, hz⟩ | hi)
    · rw [← List.append_assoc] at hz
      exact ⟨z, List.append_cancel_right hz⟩
    · exact absurd (hi.subset (List.mem_append_right _ List.mem_cons_self)) hb
  · rintro ⟨z, rfl⟩
    exact .inl ⟨z, (List.append_assoc _ _ _).symm⟩

theorem unknownFieldMessage?_searchedField (h : Silent lead) {fields : List (List Char)}
    (hf : expectedFields? (searchedField lead key names) = some fields) :
    unknownFieldMessage? (searchedField lead key names) = some (toldField (before ['`'] key) fields) := by
  rw [unknownFieldMessage?, between?_unknownField h, Option.bind_eq_bind, Option.bind_some]
  dsimp only
  rw [hf]
  rfl

theorem head?_toldField (key : List Char) (fields : List (List Char)) : (toldField key fields).head? = some 'u' := by
  have hw : "unknown field '".toList.head? = some 'u' := by decide
  unfold toldField
  rw [List.append_assoc, List.append_assoc, List.append_assoc, List.head?_append, hw, Option.some_or]

theorem toldField_inj {k l : List Char} {fields fields' : List (List Char)}
    (h : toldField k fields = toldField l fields') :
    k ++ '\'' :: (", expected one of: ".toList ++ join ", ".toList fields) =
      l ++ '\'' :: (", expected one of: ".toList ++ join ", ".toList fields') := by
  unfold toldField at h
  simp only [List.append_assoc, List.singleton_append] at h
  exact List.append_cancel_left h

theorem reword_unknownField_iff (h : Silent lead) (key : List Char) (hn : names ≠ [])
    (hX : ∀ name ∈ names, FieldName name) (line column : Nat) :
    reword (located lead (Cause.unknownField key names).text line column) = toldField key (names.map String.toList) ↔
      Named key names := by
  rw [reword, describeShapes_dropPlace_unknownField h hX]
  constructor
  · intro he
    have hmissing : missingFieldMessage? (searchedField lead (describeShapes key) names) = none := by
      cases hm : missingFieldMessage? (searchedField lead (describeShapes key) names) with
      | none => rfl
      | some text =>
        rw [hm] at he
        have hhead := head?_toldField key (names.map String.toList)
        rw [← he] at hhead
        cases (head?_of_missingFieldMessage? hm).symm.trans hhead
    have hm := (between?_missingField h _ hn hX).mp (missingFieldMessage?_eq_none_iff.mp hmissing)
    have hf : ∃ fields, expectedFields? (searchedField lead (describeShapes key) names) = some fields := by
      by_cases hk : (marker names).toList <:+: describeShapes key
      · obtain ⟨fields, hf, -⟩ := expectedFields?_of_present h hn hX hk
        exact ⟨fields, hf⟩
      · exact ⟨_, expectedFields?_of_absent h hn hX hk⟩
    obtain ⟨fields, hf⟩ := hf
    rw [hmissing, unknownFieldMessage?_searchedField h hf] at he
    have htext := toldField_inj he
    obtain ⟨hb, hshape⟩ := plain_of_told htext
    rw [describeShapes_eq_self_iff.mpr hshape] at hf hm htext
    rw [before_of_not_mem hb] at htext
    have hjoin := List.append_cancel_left (List.cons.inj (List.append_cancel_left htext)).2
    refine ⟨hb, hshape, mt (missing_iff hb).mpr hm, fun hk => ?_⟩
    -- a field with a backtick would be told among the expected ones
    obtain ⟨fields', hf', field, hmem, hback⟩ := expectedFields?_of_present h hn hX hk
    obtain rfl := Option.some.inj (hf.symm.trans hf')
    have hcomma : '`' ∉ ", ".toList := by decide
    have hj := (mem_join_iff hcomma).mpr ⟨field, hmem, hback⟩
    rw [hjoin, mem_join_iff hcomma] at hj
    obtain ⟨piece, hp, hback⟩ := hj
    obtain ⟨name, hname, rfl⟩ := List.mem_map.mp hp
    exact (hX name hname).backtick hback
  · intro hk
    have hd := describeShapes_eq_self_iff.mpr hk.shape
    have hm := (between?_missingField h key hn hX).mpr (mt (missing_iff hk.backtick).mp hk.missing)
    have hf := expectedFields?_of_absent h hn hX hk.marker
    rw [hd, missingFieldMessage?_eq_none_iff.mpr hm, unknownFieldMessage?_searchedField h hf,
      before_of_not_mem hk.backtick]
    rfl

end

theorem fieldName_of_mem : ∀ name ∈ "params" :: Draft.fields, FieldName name := by
  have hall : ∀ name ∈ "params" :: Draft.fields, name.toList ≠ [] ∧ ' ' ∉ name.toList ∧ '`' ∉ name.toList := by
    decide
  exact fun name hm => ⟨(hall name hm).1, (hall name hm).2.1, (hall name hm).2.2⟩

theorem reword_unknownField_iff_misspelt :
    Silent (leadText (.item (.field .root "params".toList) 0)) ∧ Draft.fields ≠ [] ∧
      (∀ name ∈ Draft.fields, FieldName name) ∧
      reword (Fault.data (.unknownField "vaule".toList Draft.fields)
        (some (⟨3, 2, 2⟩, .item (.field .root "params".toList) 0))).text =
          toldField "vaule".toList (Draft.fields.map String.toList) := by
  have h : Silent (leadText (.item (.field .root "params".toList) 0)) := silent_leadText (by decide)
  have hn : Draft.fields ≠ [] := List.cons_ne_nil _ _
  have hX : ∀ name ∈ Draft.fields, FieldName name := fun name hm => fieldName_of_mem name (List.mem_cons_of_mem _ hm)
  have hk : Named "vaule".toList Draft.fields := ⟨by decide, by decide, by decide, by decide⟩
  rw [text_eq_located _ _ (by decide)]
  exact ⟨h, hn, hX, (reword_unknownField_iff h "vaule".toList hn hX 4 3).mpr hk⟩

theorem reword_ne_toldField_backtick :
    reword (Fault.data (.unknownField "a`b".toList Draft.fields)
      (some (⟨3, 2, 2⟩, .item (.field .root "params".toList) 0))).text ≠
        toldField "a`b".toList (Draft.fields.map String.toList) := by
  decide

end BraceParams.Report
