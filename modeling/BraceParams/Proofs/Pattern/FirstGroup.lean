import BraceParams.Proofs.Pattern.Join
import BraceParams.Proofs.Pattern.Openings

/-!
The first group of a pattern, as texts: `FirstGroup p head alternatives tail` says without places how
`p` is put together, and holds exactly when the search finds a group that cuts `p` into these pieces.
-/

namespace BraceParams.Pattern

structure Alternative (a : List Char) : Prop where
  settled : Settled a
  within : inside 0 (signs a)

def braced (alternatives : List (List Char)) : List Char :=
  '{' :: ([','].intercalate alternatives ++ ['}'])

theorem braced_append (alternatives : List (List Char)) (t : List Char) :
    braced alternatives ++ t = '{' :: ([','].intercalate alternatives ++ '}' :: t) := by
  simp [braced]

structure FirstGroup (p head : List Char) (alternatives : List (List Char)) (tail : List Char) : Prop where
  text : p = head ++ braced alternatives ++ tail
  settled : Settled head
  alternative : ∀ a ∈ alternatives, Alternative a
  two_le : 2 ≤ alternatives.length
  barren : Barren (signs head) (signs (braced alternatives ++ tail))

theorem intercalate_cons {a : List Char} {as : List (List Char)} (h : as ≠ []) :
    [','].intercalate (a :: as) = a ++ ',' :: [','].intercalate as := by
  rw [List.intercalate_cons_of_ne_nil h]
  simp

theorem drop_behind (a b : List Char) (c : Char) (n : Nat) :
    (a ++ c :: b).drop (a.length + 1 + n) = b.drop n := by
  rw [show a.length + 1 + n = a.length + (n + 1) by omega, List.drop_length_add_append,
    List.drop_succ_cons]

theorem length_cutAt (i : Nat) (splits : List Nat) (stop : Nat) (s : List Char) :
    (cutAt i splits stop s).length = splits.length + 1 := by
  induction splits generalizing i s with
  | nil => rfl
  | cons k ks ih => rw [cutAt, List.length_cons, ih, List.length_cons]

theorem alternatives_of_close? {i c : Nat} {ks : List Nat} {s : List Char}
    (h : close? 0 i (signs s) = some (c, ks)) :
    s = [','].intercalate (cutAt i ks c s) ++ '}' :: s.drop (c + 1 - i) ∧
      ∀ a ∈ cutAt i ks c s, Alternative a := by
  induction ks generalizing i s with
  | nil =>
    obtain ⟨x, y, hxy, hx, rfl⟩ := close?_eq_nil h
    obtain ⟨a, b, rfl, ha, rfl, rfl⟩ := signs_cut_closing hxy
    have hp : cutAt i [] (i + (signs a).length) (a ++ '}' :: b) = [a] := by simp [cutAt]
    rw [hp, show i + (signs a).length + 1 - i = a.length + 1 by simp; omega]
    constructor
    · simp
    · simpa using ⟨ha, hx⟩
  | cons k ks ih =>
    obtain ⟨x, y, hxy, hx, rfl, hc⟩ := close?_eq_cons h
    obtain ⟨a, b, rfl, ha, rfl, rfl⟩ := signs_cut_comma hxy
    have hb := (close?_bounds hc).1
    obtain ⟨ht, hi⟩ := ih hc
    rw [length_signs] at *
    have hp : cutAt i ((i + a.length) :: ks) c (a ++ ',' :: b) = a :: cutAt (i + a.length + 1) ks c b := by
      rw [cutAt, show i + a.length + 1 - i = a.length + 1 by omega]
      simp
    have hd : (a ++ ',' :: b).drop (c + 1 - i) = b.drop (c + 1 - (i + a.length + 1)) := by
      rw [← drop_behind a b ',', show a.length + 1 + (c + 1 - (i + a.length + 1)) = c + 1 - i by omega]
    have hne : cutAt (i + a.length + 1) ks c b ≠ [] := by
      intro he
      have := length_cutAt (i + a.length + 1) ks c b
      simp [he] at this
    constructor
    · rw [hp, hd, intercalate_cons hne, List.append_assoc, List.cons_append, ← ht]
    · intro z hz
      rw [hp] at hz
      rcases List.mem_cons.mp hz with rfl | hz
      · exact ⟨ha, hx⟩
      · exact hi z hz

theorem close?_alternatives {as : List (List Char)} (h : ∀ a ∈ as, Alternative a) (hne : as ≠ [])
    (i : Nat) (t : List Char) :
    ∃ ks, close? 0 i (signs ([','].intercalate as ++ '}' :: t)) =
        some (i + ([','].intercalate as).length, ks) ∧
      cutAt i ks (i + ([','].intercalate as).length) ([','].intercalate as ++ '}' :: t) = as := by
  induction as generalizing i with
  | nil => exact absurd rfl hne
  | cons a as ih =>
    obtain ⟨ha, hi⟩ := h a (by simp)
    by_cases he : as = []
    · subst he
      refine ⟨[], ?_, ?_⟩
      · rw [List.intercalate_singleton, signs_append _ ha, close?_inside i _ hi, signs_closing, close?,
          length_signs]
      · simp [cutAt]
    · obtain ⟨ks, hc, hp⟩ := ih (fun b hb => h b (by simp [hb])) he (i + a.length + 1)
      rw [intercalate_cons he, List.append_assoc, List.cons_append, List.length_append,
        List.length_cons]
      have hl : i + (a.length + (([','].intercalate as).length + 1)) =
          i + a.length + 1 + ([','].intercalate as).length := by omega
      refine ⟨(i + a.length) :: ks, ?_, ?_⟩
      · rw [signs_append _ ha, close?_inside i _ hi, signs_comma, close?, length_signs, hc, hl]
        rfl
      · rw [cutAt, hl, show i + a.length - i = a.length by omega,
          show i + a.length + 1 - i = a.length + 1 by omega]
        simp only [List.take_left, List.drop_append, List.drop_eq_nil_of_le (Nat.le_succ a.length)]
        simpa using hp

theorem FirstGroup.of_findGroup {p : List Char} {g : Group} (h : findGroup p = some g) :
    FirstGroup p (g.head p) (g.alternatives p) (g.tail p) := by
  obtain ⟨x, y, hxy, hb, ho, hc, hne⟩ := findFrom_eq_some h
  obtain ⟨a, b, rfl, ha, rfl, rfl⟩ := signs_cut_opening hxy
  rw [Nat.zero_add, length_signs] at ho
  obtain ⟨ht, hi⟩ := alternatives_of_close? hc
  have hcl := (close?_bounds hc).1
  have hhead : g.head (a ++ '{' :: b) = a := by simp [Group.head, ho]
  have halt : g.alternatives (a ++ '{' :: b) = cutAt (g.openAt + 1) g.splits g.closeAt b := by
    simp [Group.alternatives, ho]
  have htail : g.tail (a ++ '{' :: b) = b.drop (g.closeAt + 1 - (g.openAt + 1)) := by
    rw [← drop_behind a b '{', Group.tail]
    congr 1
    omega
  have hgroup : braced (g.alternatives (a ++ '{' :: b)) ++ g.tail (a ++ '{' :: b) = '{' :: b := by
    rw [halt, htail, braced_append, ← ht]
  constructor
  · rw [List.append_assoc, hgroup, hhead]
  · rwa [hhead]
  · rwa [halt]
  · rw [halt, length_cutAt]
    have := List.length_pos_iff.mpr hne
    omega
  · rwa [hhead, hgroup, signs_opening]

theorem FirstGroup.findGroup {p head tail : List Char} {alternatives : List (List Char)}
    (h : FirstGroup p head alternatives tail) :
    ∃ g, findGroup p = some g ∧ g.head p = head ∧ g.alternatives p = alternatives ∧ g.tail p = tail := by
  obtain ⟨rfl, hs, ha, hl, hb⟩ := h
  have hne : alternatives ≠ [] := by
    rintro rfl
    simp at hl
  obtain ⟨ks, hc, hp⟩ := close?_alternatives ha hne (head.length + 1) tail
  have hk := length_cutAt (head.length + 1) ks _ _ ▸ congrArg List.length hp
  obtain ⟨k, ks, rfl⟩ := List.exists_cons_of_ne_nil (l := ks) (by rintro rfl; simp at hk; omega)
  rw [List.append_assoc, braced_append]
  refine ⟨⟨head.length, head.length + 1 + ([','].intercalate alternatives).length, k :: ks⟩,
    ?_, ?_, ?_, ?_⟩
  · rw [braced_append, signs_opening] at hb
    rw [Pattern.findGroup, signs_append _ hs, signs_opening, findFrom_append 0 hb, Nat.zero_add,
      length_signs, findFrom, hc]
  · exact List.take_left
  · rw [Group.alternatives, show (head ++ _).drop (head.length + 1) = _ from drop_behind head _ '{' 0]
    exact hp
  · rw [Group.tail, Nat.add_assoc, drop_behind]
    exact drop_behind _ _ '}' 0

theorem findGroup_eq_none_iff {p : List Char} : findGroup p = none ↔ Barren (signs p) [] :=
  findFrom_eq_none_iff

theorem Alternative.append {a b : List Char} (ha : Alternative a) (hb : Alternative b) :
    Alternative (a ++ b) := by
  constructor
  · exact (settled_append ha.settled).mpr hb.settled
  · rw [signs_append b ha.settled]
    exact inside_append ha.within hb.within

theorem Alternative.apart {a : List Char} (h : Alternative a) (b : List Sign) : Apart (signs a) b :=
  apart_of_inside b h.within

theorem level_intercalate {as : List (List Char)} (h : ∀ a ∈ as, Alternative a) :
    Settled ([','].intercalate as) ∧ level 0 (signs ([','].intercalate as)) = some 0 := by
  induction as with
  | nil => decide
  | cons a as ih =>
    have ha := h a (by simp)
    have hl := level_of_inside ha.within
    by_cases he : as = []
    · subst he
      simpa using And.intro ha.settled hl
    · obtain ⟨hs, hv⟩ := ih fun b hb => h b (by simp [hb])
      have hc : Settled (',' :: [','].intercalate as) :=
        (settled_append (a := [',']) (by decide)).mpr hs
      rw [intercalate_cons he, settled_append ha.settled, signs_append _ ha.settled, level_append, hl,
        signs_comma]
      exact ⟨hc, hv⟩

theorem alternative_braced {as : List (List Char)} (h : ∀ a ∈ as, Alternative a) :
    Alternative (braced as) := by
  obtain ⟨hs, hl⟩ := level_intercalate h
  constructor
  · exact (settled_append (a := ['{']) (by decide)).mpr ((settled_append hs).mpr (by decide))
  · rw [braced, signs_opening, signs_append _ hs, inside]
    exact (inside_follows.skip 0 _ hl).trans rfl

namespace FirstGroup

variable {p q head tail : List Char} {alternatives : List (List Char)}

theorem signs_eq (h : FirstGroup p head alternatives tail) :
    signs p = signs head ++ signs (braced alternatives ++ tail) := by
  rw [h.text, List.append_assoc, signs_append _ h.settled]

theorem settled_tail (h : FirstGroup p head alternatives tail) : Settled p ↔ Settled tail := by
  rw [h.text, List.append_assoc, settled_append h.settled,
    settled_append (alternative_braced h.alternative).settled]

theorem apart_tail {b : List Sign} (h : FirstGroup p head alternatives tail) (hb : Apart (signs p) b) :
    Apart (signs tail) b := by
  rw [h.signs_eq, signs_append _ (alternative_braced h.alternative).settled] at hb
  exact hb.of_append.of_append

theorem barren_tail (h : FirstGroup p head alternatives tail) : Barren (signs head) (signs tail) := by
  have hb := alternative_braced h.alternative
  rw [← barren_inside_append (signs tail) hb.within, ← signs_append tail hb.settled]
  exact h.barren

theorem barren_alternative {a : List Char} (h : FirstGroup p head alternatives tail)
    (ha : a ∈ alternatives) : Barren (signs head) (signs (a ++ tail)) := by
  have hi := h.alternative a ha
  rw [signs_append tail hi.settled, barren_inside_append (signs tail) hi.within]
  exact h.barren_tail

theorem append (h : FirstGroup p head alternatives tail) (hp : Settled p)
    (hq : Apart (signs p) (signs q)) : FirstGroup (p ++ q) head alternatives (tail ++ q) := by
  have hs : Settled (braced alternatives ++ tail) :=
    (settled_append (alternative_braced h.alternative).settled).mpr (h.settled_tail.mp hp)
  refine ⟨?_, h.settled, h.alternative, h.two_le, ?_⟩
  · rw [h.text]
    simp only [List.append_assoc]
  · rw [← List.append_assoc, signs_append q hs]
    exact h.barren.extend (h.signs_eq ▸ hq)

theorem prepend (h : FirstGroup q head alternatives tail) (hp : Settled p)
    (hq : Barren (signs p) (signs q)) : FirstGroup (p ++ q) (p ++ head) alternatives tail := by
  refine ⟨?_, (settled_append hp).mpr h.settled, h.alternative, h.two_le, ?_⟩
  · rw [h.text]
    simp only [List.append_assoc]
  · rw [signs_append head hp, barren_append, ← h.signs_eq]
    exact ⟨hq, h.barren⟩

end FirstGroup

theorem barren_of_findGroup {p q : List Char} (h : findGroup p = none) (hq : Apart (signs p) (signs q)) :
    Barren (signs p) (signs q) := by
  have hb := findGroup_eq_none_iff.mp h
  exact hb.extend (by rwa [List.append_nil])

theorem findGroup_append_eq_none {p q : List Char} (hp : Settled p) (h : Barren (signs p) (signs q))
    (hq : findGroup q = none) : findGroup (p ++ q) = none := by
  rw [findGroup_eq_none_iff, signs_append q hp, barren_append, List.append_nil]
  exact ⟨h, findGroup_eq_none_iff.mp hq⟩

end BraceParams.Pattern
