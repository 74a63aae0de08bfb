import BraceParams.Pattern.Octets
import BraceParams.Proofs.Pattern.Matching
import BraceParams.Proofs.Text.Octets

namespace BraceParams.Pattern.Octets

open Text

def shown : Option Char → List UInt8
  | none => [covered]
  | some c => String.utf8EncodeChar c

theorem isEscapable_iff {b : UInt8} :
    isEscapable b ↔ b = '\\'.toUInt8 ∨ b = ','.toUInt8 ∨ b = '{'.toUInt8 ∨ b = '}'.toUInt8 := by
  simp [isEscapable, or_assoc]

theorem isEscapable_toUInt8 {c : Char} (h : Pattern.isEscapable c) : c.toNat < 0x80 ∧ isEscapable c.toUInt8 := by
  simp only [Pattern.isEscapable, Bool.or_eq_true, decide_eq_true_eq] at h
  rcases h with ((rfl | rfl) | rfl) | rfl <;> decide

theorem isEscapable_of_mem {b : UInt8} {c : Char} (hb : b ∈ String.utf8EncodeChar c) (h : isEscapable b) :
    Pattern.isEscapable c := by
  rw [isEscapable_iff] at h
  rcases h with rfl | rfl | rfl | rfl <;> rw [(toUInt8_mem_encodeChar (by decide)).mp hb] <;> rfl

section

variable {b : List UInt8} {o : UInt8}

theorem maskFrom_skip (a : List UInt8) (h : o = '\\'.toUInt8 → ∀ d ∈ b.head?, ¬isEscapable d) :
    maskFrom (a ++ o :: b).toArray a.length = maskFrom (a ++ o :: b).toArray (a.length + 1) := by
  cases b with
  | nil => rw [maskFrom, dif_neg (by simp), maskFrom, dif_neg (by simp)]
  | cons d b =>
    rw [maskFrom, dif_pos (by simp)]
    apply if_neg
    rintro ⟨ho, hd⟩
    apply h (by simpa using ho) d rfl
    simpa [List.getElem_append_right] using hd

theorem maskFrom_pass (a : List UInt8) {x : List UInt8} (h : '\\'.toUInt8 ∉ x) :
    maskFrom (a ++ x ++ b).toArray a.length = maskFrom (a ++ x ++ b).toArray (a ++ x).length := by
  induction x generalizing a with
  | nil => rw [List.append_nil]
  | cons o x ih =>
    rw [List.mem_cons, not_or] at h
    have hx := ih (a ++ [o]) h.2
    have hs := maskFrom_skip (b := x ++ b) a fun ho => absurd ho.symm h.1
    simp only [List.append_assoc, List.singleton_append, List.length_append, List.length_singleton] at hx
    simp only [List.append_assoc, List.cons_append, List.length_append]
    exact hs.trans hx

theorem maskFrom_pair (a : List UInt8) {d : UInt8} (h : isEscapable d) :
    maskFrom (a ++ '\\'.toUInt8 :: d :: b).toArray a.length =
      maskFrom (a ++ covered :: covered :: b).toArray (a.length + 2) := by
  rw [maskFrom, dif_pos (by simp), if_pos (by simpa [List.getElem_append_right] using h)]
  congr 1
  simp

end

theorem maskFrom_char (a : List UInt8) {c : Char} {r : List Char}
    (h : c = '\\' → ∀ d ∈ r.head?, ¬Pattern.isEscapable d) :
    maskFrom (a ++ encode (c :: r)).toArray a.length =
      maskFrom (a ++ String.utf8EncodeChar c ++ encode r).toArray (a ++ String.utf8EncodeChar c).length := by
  by_cases hc : c = '\\'
  · subst hc
    rw [encode_cons_of_lt r (by decide), encodeChar_of_lt (by decide), List.length_append, List.length_singleton,
      List.append_assoc, List.singleton_append]
    apply maskFrom_skip
    intro _ b hb hd
    cases r with
    | nil => cases hb
    | cons d r =>
      obtain ⟨o, s, ho, -⟩ := encodeChar_eq_cons d
      rw [encode_cons, ho] at hb
      cases hb
      exact h rfl d rfl (isEscapable_of_mem (ho ▸ List.mem_cons_self) hd)
  · rw [encode_cons, ← List.append_assoc]
    apply maskFrom_pass
    rw [toUInt8_mem_encodeChar (by decide)]
    exact hc

theorem maskFrom_encode (a : List UInt8) (p : List Char) :
    maskFrom (a ++ encode p).toArray a.length = (a ++ (live p).flatMap shown).toArray := by
  have hend (a : List UInt8) : maskFrom (a ++ encode []).toArray a.length = (a ++ []).toArray := by
    rw [maskFrom, dif_neg (by simp [encode])]
    rfl
  -- the index stands behind `a`, in which every pair is covered already
  fun_induction live p generalizing a with
  | case1 => exact hend a
  | case2 c =>
    rw [maskFrom_char a (by simp), hend, List.append_nil]
    simp [shown]
  | case3 c d r hp ih =>
    obtain ⟨rfl, hd⟩ := hp
    obtain ⟨hlt, hd⟩ := isEscapable_toUInt8 hd
    rw [encode_cons_of_lt _ (by decide), encode_cons_of_lt _ hlt, maskFrom_pair a hd]
    simpa [shown] using ih (a ++ [covered, covered])
  | case4 c d r hp ih =>
    rw [maskFrom_char a (by simpa using hp), ih, List.flatMap_cons, ← List.append_assoc]
    rfl

theorem mask_encode (p : List Char) : mask (encode p) = (live p).flatMap shown :=
  congrArg Array.toList (maskFrom_encode [] p)

theorem toUInt8_mem_shown {c : Char} {o : Option Char} (hc : c.toNat < 0x80) (hne : c.toUInt8 ≠ covered) :
    c.toUInt8 ∈ shown o ↔ o = some c := by
  cases o with
  | none => simp [shown, hne]
  | some d => rw [shown, toUInt8_mem_encodeChar hc, Option.some.injEq]

theorem shown_of_lt {c : Char} (h : c.toNat < 0x80) : shown (some c) = [c.toUInt8] :=
  encodeChar_of_lt h

theorem count_flatMap_shown {c : Char} (hc : c.toNat < 0x80) (hne : c.toUInt8 ≠ covered) (v : List (Option Char)) :
    (v.flatMap shown).count c.toUInt8 = v.count (some c) := by
  induction v with
  | nil => rfl
  | cons o v ih =>
    rw [List.flatMap_cons, List.count_append, ih]
    by_cases ho : o = some c
    · rw [ho, shown_of_lt hc, List.count_singleton_self, List.count_cons_self, Nat.add_comm]
    · rw [List.count_cons_of_ne ho, List.count_eq_zero.mpr fun h => ho ((toUInt8_mem_shown hc hne).mp h), Nat.zero_add]

/-- `f` takes the positions of a view, counted from `i`, to the places of their octets, counted from `j`. -/
def Places (f : Nat → Nat) (i j : Nat) (v : List (Option Char)) : Prop :=
  ∀ k ≤ v.length, f (i + k) = j + ((v.take k).flatMap shown).length

section

variable {f : Nat → Nat} {i j : Nat} {o : Option Char} {v : List (Option Char)}

theorem Places.here (h : Places f i j v) : f i = j :=
  h 0 (Nat.zero_le _)

theorem Places.tail (h : Places f i j (o :: v)) : Places f (i + 1) (j + (shown o).length) v := by
  intro k hk
  have := h (k + 1) (Nat.succ_le_succ hk)
  rw [List.take_succ_cons, List.flatMap_cons, List.length_append] at this
  rw [Nat.add_right_comm, Nat.add_assoc, this, Nat.add_assoc]

theorem closeFrom_pass (depth : Nat) (ks : List Nat) {x y : List UInt8} (ho : '{'.toUInt8 ∉ x)
    (hc : '}'.toUInt8 ∉ x) (hs : ','.toUInt8 ∉ x) :
    closeFrom depth j ks (x ++ y) = closeFrom depth (j + x.length) ks y := by
  induction x generalizing j with
  | nil => rfl
  | cons b x ih =>
    rw [List.mem_cons, not_or] at ho hc hs
    rw [List.cons_append, closeFrom, if_neg fun h => ho.1 h.symm, if_neg fun h => hc.1 h.symm,
      if_neg fun h => hs.1 h.1.symm, ih ho.2 hc.2 hs.2, List.length_cons]
    congr 1
    omega

def closing (f : Nat → Nat) (ks : List Nat) : Nat × List Nat → Option (Nat × List Nat)
  | (c, splits) => if (ks ++ splits.map f).isEmpty then none else some (f c, ks ++ splits.map f)

theorem closeFrom_shown (depth : Nat) (ks : List Nat) (h : Places f i j v) :
    closeFrom (depth + 1) j ks (v.flatMap shown) =
      .ok ((close? depth i (v.map Sign.ofLive)).bind (closing f ks)) := by
  -- both readings stand at the same position; `ks` are the places of the commas behind them
  induction v generalizing depth i j ks with
  | nil => rfl
  | cons o v ih =>
    have hj := h.here
    have ht := h.tail
    rw [List.flatMap_cons, List.map_cons]
    cases hs : Sign.ofLive o with
    | opening =>
      rw [Sign.ofLive_eq_opening.mp hs, shown_of_lt (by decide)] at ht ⊢
      exact ih (depth + 1) ks ht
    | closing =>
      rw [Sign.ofLive_eq_closing.mp hs, shown_of_lt (by decide)] at ht ⊢
      cases depth with
      | zero =>
        rw [List.singleton_append, closeFrom, if_neg (by decide), if_pos rfl, if_neg (by decide), if_pos rfl,
          close?]
        simp [closing, hj]
      | succ depth => exact ih depth ks ht
    | comma =>
      rw [Sign.ofLive_eq_comma.mp hs, shown_of_lt (by decide)] at ht ⊢
      cases depth with
      | zero =>
        have hc : closeFrom 1 j ks (','.toUInt8 :: v.flatMap shown) =
            closeFrom 1 (j + 1) (ks ++ [j]) (v.flatMap shown) := rfl
        rw [List.singleton_append, hc, close?, Option.bind_map]
        refine (ih 0 (ks ++ [j]) ht).trans ?_
        congr 2
        funext g
        simp [closing, hj]
      | succ depth => exact ih (depth + 1) ks ht
    | other =>
      -- such a position may have several octets, and none of them is a delimiter
      have hn {c : Char} (hc : c.toNat < 0x80) (hz : c.toUInt8 ≠ covered) (ho : Sign.ofLive (some c) ≠ .other) :
          c.toUInt8 ∉ shown o := by
        rw [toUInt8_mem_shown hc hz]
        rintro rfl
        exact ho hs
      rw [closeFrom_pass _ _ (hn (by decide) (by decide) (by decide)) (hn (by decide) (by decide) (by decide))
        (hn (by decide) (by decide) (by decide)), ih depth ks ht, close?]

def relocate (f : Nat → Nat) (g : Group) : Group :=
  ⟨f g.openAt, f g.closeAt, g.splits.map f⟩

theorem findFrom_eq {view : List UInt8} {start : Nat} (h : start ≤ view.length) :
    findFrom view start =
      match (view.drop start).findIdx? (· = '{'.toUInt8) with
      | none => .ok none
      | some offset =>
        match groupAt view (start + offset) with
        | .ok none => findFrom view (start + offset + 1)
        | found => found := by
  rw [findFrom, if_neg (Nat.not_lt.mpr h)]
  split
  · next hit => rw [hit]
  · next offset hit => rcases hg : groupAt view (start + offset) with e | (_ | g) <;> simp only [hit, hg]

theorem findFrom_pass (a : List UInt8) {x y : List UInt8} (h : '{'.toUInt8 ∉ x) :
    findFrom (a ++ x ++ y) a.length = findFrom (a ++ x ++ y) (a ++ x).length := by
  have hx : x.findIdx? (· = '{'.toUInt8) = none := by
    rw [List.findIdx?_eq_none_iff]
    intro b hb
    exact decide_eq_false fun hbo => h (hbo ▸ hb)
  have hd : (a ++ x ++ y).drop a.length = x ++ y := by rw [List.append_assoc, List.drop_left]
  rw [findFrom_eq (by simp), findFrom_eq (by simp), hd, List.drop_left, List.findIdx?_append, hx, Option.none_or]
  cases y.findIdx? (· = '{'.toUInt8) with
  | none => rfl
  | some offset =>
    have ho : a.length + (offset + x.length) = (a ++ x).length + offset := by
      rw [List.length_append]
      omega
    rw [Option.map_some]
    dsimp only
    rw [ho]

theorem findFrom_opening (a y : List UInt8) :
    findFrom (a ++ '{'.toUInt8 :: y) a.length =
      match closeFrom 1 (a.length + 1) [] y with
      | .ok none => findFrom (a ++ '{'.toUInt8 :: y) (a.length + 1)
      | .ok (some (closeAt, splits)) => .ok (some ⟨a.length, closeAt, splits⟩)
      | .error e => .error e := by
  rw [findFrom_eq (by simp), List.drop_left]
  have hg : groupAt (a ++ '{'.toUInt8 :: y) a.length =
      (closeFrom 1 (a.length + 1) [] y).map (Option.map fun (closeAt, splits) => ⟨a.length, closeAt, splits⟩) := by
    rw [groupAt, ← List.drop_drop, List.drop_left]
    rfl
  simp only [List.findIdx?_cons, decide_true, Nat.add_zero, if_pos, hg]
  cases closeFrom 1 (a.length + 1) [] y with
  | error e => rfl
  | ok found => cases found <;> rfl

theorem findFrom_shown (a : List UInt8) (h : Places f i a.length v) :
    findFrom (a ++ v.flatMap shown) a.length =
      .ok ((Pattern.findFrom i (v.map Sign.ofLive)).map (relocate f)) := by
  induction v generalizing a i with
  | nil =>
    rw [findFrom_eq (by simp), List.drop_left]
    rfl
  | cons o v ih =>
    have ht := h.tail
    have hrest := ih (a ++ shown o) (by rwa [List.length_append])
    rw [List.flatMap_cons, List.map_cons, ← List.append_assoc]
    by_cases ho : o = some '{'
    · -- a brace that opens no group is passed over by both searches
      subst ho
      rw [shown_of_lt (by decide)] at ht hrest ⊢
      have hc : closeFrom 1 (a.length + 1) [] (v.flatMap shown) =
          .ok ((close? 0 (i + 1) (v.map Sign.ofLive)).bind (closing f [])) := closeFrom_shown 0 [] ht
      rw [List.length_append] at hrest
      rw [List.append_assoc, List.singleton_append] at hrest ⊢
      rw [findFrom_opening, hc, show Sign.ofLive (some '{') = .opening from rfl, Pattern.findFrom]
      cases close? 0 (i + 1) (v.map Sign.ofLive) with
      | none => exact hrest
      | some r =>
        obtain ⟨c, ks⟩ := r
        cases ks with
        | nil => exact hrest
        | cons k ks => simp [closing, relocate, h.here]
    · have hn : '{'.toUInt8 ∉ shown o := by
        rwa [toUInt8_mem_shown (by decide) (by decide)]
      have hs : Pattern.findFrom i (Sign.ofLive o :: v.map Sign.ofLive) =
          Pattern.findFrom (i + 1) (v.map Sign.ofLive) := by
        apply Pattern.findFrom_pass
        intro he
        exact absurd (Sign.ofLive_eq_opening.mp he) ho
      rw [findFrom_pass a hn, hrest, hs]

end

theorem places_live (p : List Char) : Places (place p) 0 0 (live p) := by
  have hl : (live p).map (fun o => (shown o).length) = p.map fun c => (String.utf8EncodeChar c).length := by
    fun_induction live p with
    | case1 => rfl
    | case2 c => rfl
    | case3 c d r hp ih =>
      obtain ⟨rfl, hd⟩ := hp
      have hd := encodeChar_of_lt (isEscapable_toUInt8 hd).1
      rw [List.map_cons, List.map_cons, ih, List.map_cons, List.map_cons, hd]
      rfl
    | case4 c d r hp ih =>
      rw [List.map_cons, ih]
      rfl
  intro k _
  rw [Nat.zero_add, Nat.zero_add, place, encode, List.length_flatMap, List.length_flatMap, List.map_take,
    List.map_take, hl]

theorem findGroup_encode (p : List Char) :
    findGroup (encode p) = .ok ((Pattern.findGroup p).map (relocate (place p))) := by
  rw [findGroup, mask_encode]
  exact findFrom_shown [] (places_live p)

end BraceParams.Pattern.Octets
