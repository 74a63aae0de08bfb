import BraceParams.Proofs.Pattern.Composition
import BraceParams.Proofs.Pattern.Cut

/-!
What cutting a pattern at its first group does to the view of it. The places of a group are live
delimiters, so no escape pair reaches over a cut: each piece read as a pattern of its own is seen as the
pattern shows it there, both by characters and by octets.
-/

namespace BraceParams.Pattern

open Text

structure Symbols (α : Type) where
  backslash : α
  opening : α
  closing : α
  comma : α

/-- The view closes all that it opens and nothing else, and has no comma outside of what it opens. -/
structure Enclosed {α : Type} [BEq α] (s : Symbols α) (view : List α) : Prop where
  closing_le : ∀ u, u <+: view → u.count s.closing ≤ u.count s.opening
  count_eq : view.count s.closing = view.count s.opening
  lt_of_comma : ∀ u, u ++ [s.comma] <+: view → u.count s.closing < u.count s.opening

def between {α : Type} (view : List α) (i j : Nat) : List α :=
  (view.take j).drop (i + 1)

def Group.gaps (g : Group) : List (Nat × Nat) :=
  (g.openAt :: g.splits).zip (g.splits ++ [g.closeAt])

/-- The pieces that a group cuts from a text, scanned apart, show what the scan of the text shows there. -/
structure KeepsView {α β : Type} [BEq α] (scan : List β → List α) (s : Symbols α) (text : List β) (g : Group)
    (head : List β) (alternatives : List (List β)) (tail : List β) : Prop where
  head_eq : scan head = (scan text).take g.openAt
  alternatives_eq : alternatives.map scan = g.gaps.map fun (i, j) => between (scan text) i j
  tail_eq : scan tail = (scan text).drop (g.closeAt + 1)
  settled : ∀ piece ∈ head :: alternatives, (scan piece).getLast? ≠ some s.backslash
  enclosed : ∀ a ∈ alternatives, Enclosed s (scan a)
  joined : ∀ a ∈ alternatives, scan (head ++ a ++ tail) = scan head ++ scan a ++ scan tail

theorem enclosed_of_inside {α : Type} [BEq α] [LawfulBEq α] {s : Symbols α} {f : α → Sign}
    (ho : ∀ a, f a = .opening ↔ a = s.opening) (hc : ∀ a, f a = .closing ↔ a = s.closing)
    (hk : f s.comma = .comma) {view : List α} (h : inside 0 (view.map f)) : Enclosed s view := by
  have hcount {σ : Sign} {x : α} (hx : ∀ a, f a = σ ↔ a = x) (u : List α) : (u.map f).count σ = u.count x := by
    rw [List.count, List.countP_map, List.count]
    apply List.countP_congr
    simp [hx]
  constructor
  · rintro u ⟨v, rfl⟩
    rw [List.map_append] at h
    have hl := level_of_inside h
    rw [level_append, Option.bind_eq_some_iff] at hl
    obtain ⟨e, he, -⟩ := hl
    have := count_of_level he
    rw [hcount ho, hcount hc] at this
    omega
  · have := count_of_level (level_of_inside h)
    rw [hcount ho, hcount hc] at this
    omega
  · rintro u ⟨v, rfl⟩
    rw [List.append_assoc, List.map_append, List.singleton_append, List.map_cons, hk] at h
    obtain ⟨e, he⟩ := level_of_inside_comma h
    have := count_of_level he
    rw [hcount ho, hcount hc] at this
    omega

section

variable {p : List Char} {i j : Nat} {c d : Char}

theorem live_take_drop (hc : isEscapable c) (hne : c ≠ '\\') (h : (live p)[i]? = some (some c)) :
    live (p.take i) = (live p).take i ∧ live (p.drop (i + 1)) = (live p).drop (i + 1) := by
  obtain ⟨hi, -⟩ := List.getElem?_eq_some_iff.mp h
  obtain ⟨a, b, hp, -, ha, hb⟩ := live_cut hc (eq_take_append_drop h)
  have hl : a.length = i := by
    rw [← length_live a, ha, List.length_take]
    omega
  rw [live_cons_of_ne b hne, List.cons.injEq] at hb
  constructor
  · rw [← ha, hp, ← hl, List.take_left]
  · rw [← hb.2, hp, ← hl, drop_behind a b c 0, List.drop_zero]

theorem live_between (hc : isEscapable c) (hne : c ≠ '\\') (hi : (live p)[i]? = some (some c)) (hd : isEscapable d)
    (hne' : d ≠ '\\') (hj : (live p)[j]? = some (some d)) (hij : i < j) :
    live (between p i j) = between (live p) i j := by
  -- the right end is cut off first: that leaves the delimiter on the left live
  have ht := (live_take_drop hd hne' hj).1
  have hi' : (live (p.take j))[i]? = some (some c) := by rw [ht, List.getElem?_take_of_lt hij, hi]
  rw [between, (live_take_drop hc hne hi').2, ht, between]

end

theorem lt_of_mem_zip {i k : Nat} {ks : List Nat} (h : (i :: (ks ++ [k])).Pairwise (· < ·)) :
    ∀ x ∈ (i :: ks).zip (ks ++ [k]), x.1 < x.2 := by
  induction ks generalizing i with
  | nil => simpa using h
  | cons m ks ih =>
    rw [List.cons_append, List.pairwise_cons] at h
    intro x hx
    rcases List.mem_cons.mp hx with rfl | hx
    · exact h.1 m List.mem_cons_self
    · exact ih h.2 x hx

theorem cutAt_eq_between {i k : Nat} {ks : List Nat} (p : List Char) (h : (i :: (ks ++ [k])).Pairwise (· < ·)) :
    cutAt (i + 1) ks k (p.drop (i + 1)) = ((i :: ks).zip (ks ++ [k])).map fun (i, j) => between p i j := by
  induction ks generalizing i with
  | nil => simp [cutAt, between, List.drop_take]
  | cons m ks ih =>
    rw [List.cons_append, List.pairwise_cons] at h
    have him := h.1 m List.mem_cons_self
    rw [cutAt, List.drop_drop, show i + 1 + (m + 1 - (i + 1)) = m + 1 by omega, ih h.2, ← List.drop_take]
    rfl

section

variable {p : List Char} {g : Group}

theorem delimiter_of_mem (h : findGroup p = some g) {i : Nat} (hi : i ∈ g.openAt :: (g.splits ++ [g.closeAt])) :
    ∃ c, isEscapable c ∧ c ≠ '\\' ∧ (live p)[i]? = some (some c) := by
  have hl := leftmost_of_findGroup h
  simp only [List.mem_cons, List.mem_append, List.not_mem_nil, or_false] at hi
  rcases hi with rfl | hi | rfl
  · exact ⟨'{', rfl, by decide, hl.paired.2.1⟩
  · exact ⟨',', rfl, by decide, ((hl.mem_splits i).mp hi).2.2.1⟩
  · exact ⟨'}', rfl, by decide, hl.paired.2.2.1⟩

theorem ordered_of_findGroup (h : findGroup p = some g) :
    (g.openAt :: (g.splits ++ [g.closeAt])).Pairwise (· < ·) :=
  (Octets.delimited_of_findGroup h).ordered.sublist (by simp)

theorem gaps_of_findGroup (h : findGroup p = some g) {x : Nat × Nat} (hx : x ∈ g.gaps) :
    x.1 < x.2 ∧ x.1 ∈ g.openAt :: (g.splits ++ [g.closeAt]) ∧ x.2 ∈ g.openAt :: (g.splits ++ [g.closeAt]) := by
  obtain ⟨h1, h2⟩ := List.of_mem_zip (show (x.1, x.2) ∈ _ from hx)
  refine ⟨lt_of_mem_zip (ordered_of_findGroup h) x hx, ?_, List.mem_cons_of_mem _ h2⟩
  rw [← List.cons_append]
  exact List.mem_append_left _ h1

theorem alternatives_eq_between (h : findGroup p = some g) :
    g.alternatives p = g.gaps.map fun (i, j) => between p i j :=
  cutAt_eq_between p (ordered_of_findGroup h)

theorem live_gap (h : findGroup p = some g) {x : Nat × Nat} (hx : x ∈ g.gaps) :
    live (between p x.1 x.2) = between (live p) x.1 x.2 := by
  obtain ⟨hlt, h1, h2⟩ := gaps_of_findGroup h hx
  obtain ⟨c, hc, hne, hi⟩ := delimiter_of_mem h h1
  obtain ⟨d, hd, hne', hj⟩ := delimiter_of_mem h h2
  exact live_between hc hne hi hd hne' hj hlt

def Symbols.characters : Symbols (Option Char) :=
  ⟨some '\\', some '{', some '}', some ','⟩

theorem keepsView_live (h : findGroup p = some g) :
    KeepsView live .characters p g (g.head p) (g.alternatives p) (g.tail p) := by
  have hf := FirstGroup.of_findGroup h
  constructor
  · obtain ⟨c, hc, hne, hi⟩ := delimiter_of_mem h List.mem_cons_self
    exact (live_take_drop hc hne hi).1
  · rw [alternatives_eq_between h, List.map_map]
    exact List.map_congr_left fun x hx => live_gap h hx
  · obtain ⟨c, hc, hne, hi⟩ := delimiter_of_mem h (i := g.closeAt) (by simp)
    exact (live_take_drop hc hne hi).2
  · intro piece hp
    rcases List.mem_cons.mp hp with rfl | ha
    · exact hf.settled
    · exact (hf.alternative piece ha).settled
  · intro a ha
    apply enclosed_of_inside (f := Sign.ofLive)
    · exact fun _ => Sign.ofLive_eq_opening
    · exact fun _ => Sign.ofLive_eq_closing
    · rfl
    · exact (hf.alternative a ha).within
  · exact fun a ha => (hf.carried ha).live_eq

end

namespace Octets

def sign (b : UInt8) : Sign :=
  if b = '{'.toUInt8 then .opening else if b = '}'.toUInt8 then .closing
  else if b = ','.toUInt8 then .comma else .other

def symbols : Symbols UInt8 :=
  ⟨'\\'.toUInt8, '{'.toUInt8, '}'.toUInt8, ','.toUInt8⟩

theorem sign_eq_opening (b : UInt8) : sign b = .opening ↔ b = '{'.toUInt8 := by
  grind [sign]

theorem sign_eq_closing (b : UInt8) : sign b = .closing ↔ b = '}'.toUInt8 := by
  have hne : '}'.toUInt8 ≠ '{'.toUInt8 := by decide
  grind [sign]

theorem sign_of_other {o : Option Char} (h : Sign.ofLive o = .other) {b : UInt8} (hb : b ∈ shown o) :
    sign b = .other := by
  have hn {c : Char} (hc : c.toNat < 0x80) (hz : c.toUInt8 ≠ covered) (ho : Sign.ofLive (some c) ≠ .other) :
      b ≠ c.toUInt8 := by
    rintro rfl
    rw [(toUInt8_mem_shown hc hz).mp hb] at h
    exact ho h
  rw [sign, if_neg (hn (by decide) (by decide) (by decide)), if_neg (hn (by decide) (by decide) (by decide)),
    if_neg (hn (by decide) (by decide) (by decide))]

theorem inside_others (d : Nat) {x : List UInt8} (a : List Sign) (h : ∀ b ∈ x, sign b = .other) :
    inside d (x.map sign ++ a) = inside d a := by
  induction x with
  | nil => rfl
  | cons b x ih =>
    rw [List.map_cons, h b List.mem_cons_self, List.cons_append, inside_follows.other,
      ih fun b hb => h b (List.mem_cons_of_mem _ hb)]

theorem inside_shown (d : Nat) (v : List (Option Char)) :
    inside d ((v.flatMap shown).map sign) = inside d (v.map Sign.ofLive) := by
  induction v generalizing d with
  | nil => rfl
  | cons o v ih =>
    rw [List.flatMap_cons, List.map_append, List.map_cons]
    cases hs : Sign.ofLive o with
    | opening =>
      rw [Sign.ofLive_eq_opening.mp hs]
      exact ih (d + 1)
    | closing =>
      rw [Sign.ofLive_eq_closing.mp hs]
      cases d with
      | zero => rfl
      | succ d => exact ih d
    | comma =>
      rw [Sign.ofLive_eq_comma.mp hs]
      cases d with
      | zero => rfl
      | succ d => exact ih (d + 1)
    -- a character beyond ASCII is several octets, all of them `other`
    | other => rw [inside_others d _ fun b hb => sign_of_other hs hb, inside_follows.other, ih d]

theorem enclosed_mask {a : List Char} (h : Alternative a) : Enclosed symbols (mask (encode a)) := by
  apply enclosed_of_inside sign_eq_opening sign_eq_closing
  · rfl
  · rw [mask_encode, inside_shown]
    exact h.within

theorem settled_mask {a : List Char} (h : Settled a) : (mask (encode a)).getLast? ≠ some symbols.backslash := by
  intro hl
  rw [mask_encode] at hl
  rcases List.eq_nil_or_concat' (live a) with hn | ⟨v, o, hv⟩
  · rw [hn] at hl
    cases hl
  · have hne : shown o ≠ [] := by
      cases o with
      | none => exact List.cons_ne_nil _ _
      | some c => exact String.utf8EncodeChar_ne_nil
    rw [hv, List.flatMap_append, List.flatMap_singleton, List.getLast?_append_of_ne_nil _ hne] at hl
    have ho := (toUInt8_mem_shown (by decide) (by decide)).mp (List.mem_of_getLast? hl)
    apply h
    rw [hv, List.getLast?_concat, ho]

section

variable {p : List Char} {g : Group} {i j k : Nat} {c : Char}

theorem place_eq_length (h : k ≤ p.length) : place p k = (((live p).take k).flatMap shown).length := by
  have := places_live p k (by simpa using h)
  rwa [Nat.zero_add, Nat.zero_add] at this

theorem flatMap_shown_split (v : List (Option Char)) (k : Nat) :
    v.flatMap shown = (v.take k).flatMap shown ++ (v.drop k).flatMap shown := by
  rw [← List.flatMap_append, List.take_append_drop]

theorem take_mask (h : k ≤ p.length) : (mask (encode p)).take (place p k) = ((live p).take k).flatMap shown := by
  rw [mask_encode, place_eq_length h, flatMap_shown_split (live p) k, List.take_left]

theorem drop_mask (h : k ≤ p.length) : (mask (encode p)).drop (place p k) = ((live p).drop k).flatMap shown := by
  rw [mask_encode, place_eq_length h, flatMap_shown_split (live p) k, List.drop_left]

theorem between_mask (hi : p[i]? = some c) (hc : c.toNat < 0x80) (hij : i < j) (hj : j ≤ p.length) :
    between (mask (encode p)) (place p i) (place p j) = (between (live p) i j).flatMap shown := by
  rw [between, take_mask hj, ← place_succ hi hc, place_eq_length (Nat.le_trans hij hj),
    flatMap_shown_split ((live p).take j) (i + 1), List.take_take, Nat.min_eq_left hij, List.drop_left, between]

theorem gaps_relocate (f : Nat → Nat) (g : Group) : (relocate f g).gaps = g.gaps.map (Prod.map f f) := by
  rw [Group.gaps, Group.gaps, ← List.zip_map, List.map_append]
  rfl

theorem keepsView_mask (h : Pattern.findGroup p = some g) :
    KeepsView mask symbols (encode p) (relocate (place p) g) (encode (g.head p)) ((g.alternatives p).map encode)
      (encode (g.tail p)) := by
  have hf := FirstGroup.of_findGroup h
  have hk := keepsView_live h
  have hlt {i : Nat} (hi : i ∈ g.openAt :: (g.splits ++ [g.closeAt])) :
      ∃ c, c.toNat < 0x80 ∧ p[i]? = some c ∧ i < p.length := by
    obtain ⟨c, hc, -, hi⟩ := delimiter_of_mem h hi
    have hi := eq_of_getElem?_live hi
    exact ⟨c, (isEscapable_toUInt8 hc).1, hi, (List.getElem?_eq_some_iff.mp hi).1⟩
  constructor
  · obtain ⟨c, hc, -, ho⟩ := hlt List.mem_cons_self
    rw [mask_encode, hk.head_eq]
    exact (take_mask (Nat.le_of_lt ho)).symm
  · rw [gaps_relocate, alternatives_eq_between h, List.map_map, List.map_map, List.map_map]
    apply List.map_congr_left
    intro x hx
    obtain ⟨hij, h1, h2⟩ := gaps_of_findGroup h hx
    obtain ⟨c, hc, hi, -⟩ := hlt h1
    obtain ⟨-, -, -, hj⟩ := hlt h2
    calc mask (encode (between p x.1 x.2)) = (live (between p x.1 x.2)).flatMap shown := mask_encode _
      _ = (between (live p) x.1 x.2).flatMap shown := by rw [live_gap h hx]
      _ = between (mask (encode p)) (place p x.1) (place p x.2) :=
        (between_mask hi hc hij (Nat.le_of_lt hj)).symm
  · obtain ⟨c, hc, hi, hlt⟩ := hlt (i := g.closeAt) (by simp)
    rw [mask_encode, hk.tail_eq, relocate, ← place_succ hi hc]
    exact (drop_mask hlt).symm
  · intro piece hp
    rw [← List.map_cons, List.mem_map] at hp
    obtain ⟨a, ha, rfl⟩ := hp
    exact settled_mask (hk.settled a ha)
  · intro b hb
    obtain ⟨a, ha, rfl⟩ := List.mem_map.mp hb
    exact enclosed_mask (hf.alternative a ha)
  · intro b hb
    obtain ⟨a, ha, rfl⟩ := List.mem_map.mp hb
    rw [← encode_append, ← encode_append, mask_encode, mask_encode, mask_encode, mask_encode,
      (hf.carried ha).live_eq, List.flatMap_append, List.flatMap_append]

end

end Octets

theorem cut_keeps_view {p : List Char} {g : Group} (h : findGroup p = some g) :
    KeepsView live .characters p g (g.head p) (g.alternatives p) (g.tail p) ∧
      ∃ g' head alternatives tail, Octets.findGroup (encode p) = .ok (some g') ∧
        Octets.head g' (encode p) = .ok head ∧ Octets.alternatives g' (encode p) = .ok alternatives ∧
        Octets.tail g' (encode p) = .ok tail ∧
        KeepsView Octets.mask Octets.symbols (encode p) g' head alternatives tail := by
  have hd := Octets.delimited_of_findGroup h
  refine ⟨keepsView_live h, Octets.relocate (place p) g, _, _, _, ?_, Octets.head_relocate p g,
    Octets.alternatives_relocate hd, Octets.tail_relocate hd, Octets.keepsView_mask h⟩
  rw [Octets.findGroup_encode, h, Option.map_some]

theorem cut_keeps_view_backslashes :
    let p := ['\\', '\\', '{', '\\', ',', '\\', '\\', ',', '{', 'b', ',', '}', '}', '\\']
    findGroup p = some ⟨2, 12, [7]⟩ ∧
      live p = [none, none, some '{', none, none, none, none, some ',', some '{', some 'b', some ',', some '}',
        some '}', some '\\'] ∧
      KeepsView live .characters p ⟨2, 12, [7]⟩ ['\\', '\\']
        [['\\', ',', '\\', '\\'], ['{', 'b', ',', '}']] ['\\'] ∧
      ∃ g' head alternatives tail, Octets.findGroup (encode p) = .ok (some g') ∧
        Octets.head g' (encode p) = .ok head ∧ Octets.alternatives g' (encode p) = .ok alternatives ∧
        Octets.tail g' (encode p) = .ok tail ∧
        KeepsView Octets.mask Octets.symbols (encode p) g' head alternatives tail := by
  intro p
  have h : findGroup p = some ⟨2, 12, [7]⟩ := by decide
  exact ⟨h, by decide, cut_keeps_view h⟩

end BraceParams.Pattern
