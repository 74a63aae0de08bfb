import Mathlib.Data.List.Forall2
import BraceParams.Proofs.Text.Octets
import BraceParams.Proofs.Text.Search
import BraceParams.Report.NameLine

namespace BraceParams.Report

open Text

def gives (name line : List Char) : Bool :=
  (nameOfLine? line).any (·.1 = name)

theorem getElem?_filterMap_eq_some_iff {α β : Type} {f : α → Option β} {xs : List α} {n : Nat} {b : β} :
    (xs.filterMap f)[n]? = some b ↔
      ∃ i a, xs[i]? = some a ∧ f a = some b ∧ (xs.take i).countP (fun x => (f x).isSome) = n := by
  induction xs generalizing n with
  | nil => simp
  | cons x xs ih =>
    cases hx : f x with
    | none =>
      rw [List.filterMap_cons_none hx, ih]
      constructor
      · rintro ⟨i, a, ha, hf, hn⟩
        exact ⟨i + 1, a, ha, hf, by simpa [hx] using hn⟩
      · rintro ⟨_ | i, a, ha, hf, hn⟩
        · cases ha
          rw [hx] at hf
          cases hf
        · exact ⟨i, a, ha, hf, by simpa [hx] using hn⟩
    | some y =>
      rw [List.filterMap_cons_some hx]
      cases n with
      | zero =>
        constructor
        · intro h
          cases h
          exact ⟨0, x, rfl, hx, rfl⟩
        · rintro ⟨_ | i, a, ha, hf, hn⟩
          · cases ha
            rw [← hf, hx]
            rfl
          · simp [hx] at hn
      | succ n =>
        rw [List.getElem?_cons_succ, ih]
        constructor
        · rintro ⟨i, a, ha, hf, hn⟩
          exact ⟨i + 1, a, ha, hf, by simpa [hx] using hn⟩
        · rintro ⟨_ | i, a, ha, hf, hn⟩
          · simp at hn
          · exact ⟨i, a, ha, hf, by simpa [hx] using hn⟩

def placeOn? (name : List Char) (numbered : List Char × Nat) : Option (Nat × Nat) :=
  match nameOfLine? numbered.1 with
  | some (found, offset) => if found = name then some (numbered.2 + 1, offset + 1) else none
  | none => none

theorem placeOn?_eq_some_iff {name line : List Char} {i l c : Nat} :
    placeOn? name (line, i) = some (l, c) ↔
      ∃ offset, nameOfLine? line = some (name, offset) ∧ l = i + 1 ∧ c = offset + 1 := by
  rw [placeOn?]
  cases nameOfLine? line with
  | none => simp
  | some x => grind

theorem isSome_placeOn? (name : List Char) (numbered : List Char × Nat) :
    (placeOn? name numbered).isSome = gives name numbered.1 := by
  rw [placeOn?, gives]
  cases nameOfLine? numbered.1 with
  | none => rfl
  | some x => grind

theorem nameLine?_eq (source name : List Char) (n : Nat) :
    nameLine? source name n = ((lines source).zipIdx.filterMap (placeOn? name))[n]? := by
  rw [nameLine?, nameLines, List.filter_filterMap, ← List.getElem?_map, List.map_filterMap]
  congr 2
  funext ⟨line, i⟩
  simp only [placeOn?]
  cases nameOfLine? line with
  | none => rfl
  | some x => grind

theorem countP_zipIdx {α : Type} (p : α → Bool) (xs : List α) (n : Nat) :
    (xs.zipIdx.take n).countP (fun x => p x.1) = (xs.take n).countP p := by
  conv_rhs => rw [← List.zipIdx_map_fst 0 xs, ← List.map_take, List.countP_map]
  rfl

theorem nameLine?_eq_some_iff {source name : List Char} {n line column : Nat} :
    nameLine? source name n = some (line, column) ↔
      ∃ i text offset, (lines source)[i]? = some text ∧ nameOfLine? text = some (name, offset) ∧
        ((lines source).take i).countP (gives name) = n ∧ line = i + 1 ∧ column = offset + 1 := by
  simp only [nameLine?_eq, getElem?_filterMap_eq_some_iff, isSome_placeOn?, countP_zipIdx]
  constructor
  · rintro ⟨i, ⟨text, j⟩, hi, hp, hn⟩
    obtain ⟨offset, ho, rfl, rfl⟩ := placeOn?_eq_some_iff.mp hp
    rw [List.getElem?_zipIdx, Option.map_eq_some_iff] at hi
    obtain ⟨text', ht, he⟩ := hi
    cases he
    exact ⟨i, text, offset, ht, ho, hn, by rw [Nat.zero_add], rfl⟩
  · rintro ⟨i, text, offset, ht, ho, hn, rfl, rfl⟩
    refine ⟨i, (text, i), ?_, placeOn?_eq_some_iff.mpr ⟨offset, ho, rfl, rfl⟩, hn⟩
    rw [List.getElem?_zipIdx, ht, Nat.zero_add]
    rfl

theorem nameLine?_eq_none_iff {source name : List Char} {n : Nat} :
    nameLine? source name n = none ↔ (lines source).countP (gives name) ≤ n := by
  rw [nameLine?_eq, List.getElem?_eq_none_iff, List.length_filterMap_eq_countP]
  simp only [isSome_placeOn?]
  have h := countP_zipIdx (gives name) (lines source) (lines source).length
  rw [List.take_of_length_le (Nat.le_of_eq List.length_zipIdx), List.take_length] at h
  rw [h]

theorem nameLine?_getD_eq_iff {source name : List Char} {n l c : Nat} :
    (nameLine? source name n).getD (0, 0) = (l + 1, c + 1) ↔
      ∃ text, (lines source)[l]? = some text ∧ nameOfLine? text = some (name, c) ∧
        ((lines source).take l).countP (gives name) = n := by
  have hsome : (nameLine? source name n).getD (0, 0) = (l + 1, c + 1) ↔
      nameLine? source name n = some (l + 1, c + 1) := by
    cases nameLine? source name n with
    | none => simp
    | some place => simp
  rw [hsome, nameLine?_eq_some_iff]
  constructor
  · rintro ⟨i, text, offset, hi, ht, hn, hl, hc⟩
    cases hl
    cases hc
    exact ⟨text, hi, ht, hn⟩
  · rintro ⟨text, hi, ht, hn⟩
    exact ⟨l, text, c, hi, ht, hn, rfl, rfl⟩

/-- The line gives a name: what stands before its first `name:` is blank or a dash, and what stands behind it
up to a comment is the name, with or without quotes. -/
def NameLine (line lead name : List Char) : Prop :=
  ∃ rest value, FirstAt "name:".toList line lead rest ∧ (trim lead = [] ∨ trim lead = ['-']) ∧
    UpTo " #".toList rest value ∧ name = trimBy (fun c => c = '"' || c = '\'') (trim value)

def IsNameLine (line : List Char) : Prop :=
  ∃ lead name, NameLine line lead name

theorem length_encode (s : List Char) : (encode s).length = octets s := by
  induction s with
  | nil => rfl
  | cons c s ih => rw [encode_cons, List.length_append, String.length_utf8EncodeChar, ih, octets]

theorem nameOfLine?_eq_some_iff {line name : List Char} {offset : Nat} :
    nameOfLine? line = some (name, offset) ↔
      ∃ lead, NameLine line lead name ∧ offset = (encode lead).length := by
  simp only [nameOfLine?, NameLine, Option.bind_eq_bind, Option.bind_eq_some_iff, Prod.exists, length_encode,
    cut?_eq_some_iff]
  constructor
  · rintro ⟨lead, rest, hf, h⟩
    split at h
    · next hl =>
      cases h
      exact ⟨lead, ⟨rest, _, hf, hl, before_eq_iff.mp rfl, rfl⟩, rfl⟩
    · cases h
  · rintro ⟨lead, ⟨rest, value, hf, hl, hv, rfl⟩, rfl⟩
    refine ⟨lead, rest, hf, ?_⟩
    rw [if_pos hl, before_eq_iff.mpr hv]

theorem exists_nameLine_iff {line name : List Char} :
    (∃ lead, NameLine line lead name) ↔ ∃ offset, nameOfLine? line = some (name, offset) := by
  simp only [nameOfLine?_eq_some_iff]
  constructor
  · rintro ⟨lead, h⟩
    exact ⟨_, lead, h, rfl⟩
  · rintro ⟨_, lead, h, -⟩
    exact ⟨lead, h⟩

theorem isSome_nameOfLine? (line : List Char) : (nameOfLine? line).isSome = true ↔ IsNameLine line := by
  rw [IsNameLine, exists_comm]
  simp only [exists_nameLine_iff, Option.isSome_iff_exists, Prod.exists]

instance (line : List Char) : Decidable (IsNameLine line) :=
  decidable_of_iff _ (isSome_nameOfLine? line)

theorem names_eq_iff {texts names : List (List Char)} :
    (texts.filterMap nameOfLine?).map Prod.fst = names ↔
      List.Forall₂ (fun line name => ∃ lead, NameLine line lead name) (texts.filter (IsNameLine ·)) names := by
  induction texts generalizing names with
  | nil => simp [eq_comm]
  | cons line texts ih =>
    have hs := isSome_nameOfLine? line
    cases h : nameOfLine? line with
    | none =>
      rw [h] at hs
      rw [List.filterMap_cons_none h, List.filter_cons_of_neg (by simp [← hs]), ih]
    | some found =>
      rw [h] at hs
      rw [List.filterMap_cons_some h, List.filter_cons_of_pos (by simp [← hs]), List.map_cons]
      cases names with
      | nil => simp
      | cons name names => simp [exists_nameLine_iff, h, ih, Prod.ext_iff]

theorem take_filterMap {α β : Type} (f : α → Option β) (xs : List α) (i : Nat) :
    (xs.take i).filterMap f = (xs.filterMap f).take ((xs.take i).countP fun x => (f x).isSome) := by
  rw [← List.length_filterMap_eq_countP]
  exact List.prefix_iff_eq_take.mp ((List.take_prefix i xs).filterMap f)

theorem countP_gives (name : List Char) (texts : List (List Char)) :
    texts.countP (gives name) = ((texts.filterMap nameOfLine?).map Prod.fst).count name := by
  rw [List.count, List.countP_map, List.countP_filterMap]
  congr 1
  funext line
  rw [gives]
  cases nameOfLine? line with
  | none => rfl
  | some found => exact (beq_eq_decide found.1 name).symm

theorem nameLine?_of_names {source name : List Char} {names : List (List Char)} {k : Nat}
    (h : List.Forall₂ (fun line name => ∃ lead, NameLine line lead name)
      ((lines source).filter (IsNameLine ·)) names)
    (hk : names[k]? = some name) :
    ∃ i line lead, (lines source)[i]? = some line ∧ NameLine line lead name ∧
      ((lines source).take i).countP (IsNameLine ·) = k ∧
      nameLine? source name ((names.take k).count name) = some (i + 1, (encode lead).length + 1) := by
  have hd (line : List Char) : (nameOfLine? line).isSome = decide (IsNameLine line) := by
    rw [Bool.eq_iff_iff, isSome_nameOfLine?, decide_eq_true_iff]
  have hnames := names_eq_iff.mpr h
  rw [← hnames, List.getElem?_map, Option.map_eq_some_iff] at hk
  obtain ⟨⟨_, offset⟩, hk, rfl⟩ := hk
  obtain ⟨i, line, hi, hl, hc⟩ := getElem?_filterMap_eq_some_iff.mp hk
  obtain ⟨lead, hlead, rfl⟩ := nameOfLine?_eq_some_iff.mp hl
  refine ⟨i, line, lead, hi, hlead, ?_, nameLine?_eq_some_iff.mpr ⟨i, line, _, hi, hl, ?_, rfl, rfl⟩⟩
  · simpa only [hd] using hc
  · -- the names of the lines in front are the first `k` names, whichever of them repeat
    rw [countP_gives, take_filterMap, hc, ← hnames, List.map_take]

end BraceParams.Report
