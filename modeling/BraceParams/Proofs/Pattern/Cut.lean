import BraceParams.Proofs.Pattern.Octets

namespace BraceParams.Pattern.Octets

open Text

structure GroupCuts (text : List UInt8) (g : Group) : Prop where
  ordered : (g.openAt :: (g.splits ++ [g.closeAt, text.length])).Pairwise (· < ·)
  opening : text[g.openAt]? = some '{'.toUInt8
  commas : ∀ k ∈ g.splits, text[k]? = some ','.toUInt8
  closing : text[g.closeAt]? = some '}'.toUInt8
  boundaries : ∀ k ∈ g.openAt :: (g.splits ++ [g.closeAt]), isBoundary text k ∧ isBoundary text (k + 1)
  two_le : 2 ≤ g.alternativeCount
  pieces : ∃ (before : List Char) (inner : List (List Char)) (behind : List Char),
    head g text = .ok (encode before) ∧ alternatives g text = .ok (inner.map encode) ∧
      tail g text = .ok (encode behind) ∧ g.alternativeCount = inner.length ∧
      encode before ++ '{'.toUInt8 :: ([','.toUInt8].intercalate (inner.map encode) ++
        '}'.toUInt8 :: encode behind) = text

structure Delimited (p : List Char) (g : Group) : Prop where
  ordered : (g.openAt :: (g.splits ++ [g.closeAt, p.length])).Pairwise (· < ·)
  opening : p[g.openAt]? = some '{'
  commas : ∀ k ∈ g.splits, p[k]? = some ','
  closing : p[g.closeAt]? = some '}'
  splits_ne : g.splits ≠ []

theorem delimited_of_findGroup {p : List Char} {g : Group} (h : Pattern.findGroup p = some g) : Delimited p g := by
  have hl := leftmost_of_findGroup h
  have hlt := fun k hk => (hl.mem_splits k).mp hk
  have hclose := eq_of_getElem?_live hl.paired.2.2.1
  have hend : g.closeAt < p.length := (List.getElem?_eq_some_iff.mp hclose).1
  refine ⟨?_, eq_of_getElem?_live hl.paired.2.1, fun k hk => eq_of_getElem?_live (hlt k hk).2.2.1, hclose, ?_⟩
  · rw [List.pairwise_cons, List.pairwise_append]
    refine ⟨?_, hl.ordered, by simpa using hend, ?_⟩
    · intro k hk
      have ho := hl.paired.1
      simp only [List.mem_append, List.mem_cons, List.not_mem_nil, or_false] at hk
      rcases hk with hk | rfl | rfl
      · exact (hlt k hk).1
      · exact ho
      · omega
    · intro k hk j hj
      have hc := (hlt k hk).2.1
      simp only [List.mem_cons, List.not_mem_nil, or_false] at hj
      rcases hj with rfl | rfl <;> omega
  · obtain ⟨k, hk⟩ := hl.divided
    exact List.ne_nil_of_mem ((hl.mem_splits k).mpr hk)

section

variable {p : List Char} {g : Group}

theorem head_relocate (p : List Char) (g : Group) :
    head (relocate (place p) g) (encode p) = .ok (encode (g.head p)) :=
  slice_place p (Nat.zero_le g.openAt)

theorem tail_relocate (h : Delimited p g) :
    tail (relocate (place p) g) (encode p) = .ok (encode (g.tail p)) := by
  have hlt : g.closeAt < p.length := (List.getElem?_eq_some_iff.mp h.closing).1
  have hs := slice_place p (Nat.succ_le_of_lt hlt)
  rw [place_succ h.closing (by decide), place_length, List.take_of_length_le (by simp)] at hs
  exact hs

theorem cutAt_encode {i stop : Nat} {splits : List Nat} (hc : ∀ k ∈ splits, p[k]? = some ',')
    (ho : (splits ++ [stop]).Pairwise (· < ·)) (hi : ∀ k ∈ splits ++ [stop], i ≤ k) :
    cutAt (encode p) (place p i) (splits.map (place p)) (place p stop) =
      .ok ((Pattern.cutAt i splits stop (p.drop i)).map encode) := by
  induction splits generalizing i with
  | nil =>
    rw [List.map_nil, cutAt, slice_place p (hi stop List.mem_cons_self)]
    rfl
  | cons k ks ih =>
    rw [List.cons_append, List.pairwise_cons] at ho
    have hk : i ≤ k := hi k List.mem_cons_self
    have hr := ih (fun j hj => hc j (List.mem_cons_of_mem k hj)) ho.2 ho.1
    rw [place_succ (hc k List.mem_cons_self) (by decide)] at hr
    rw [List.map_cons, cutAt, slice_place p hk, hr, Pattern.cutAt, List.drop_drop,
      show i + (k + 1 - i) = k + 1 by omega]
    rfl

theorem alternatives_relocate (h : Delimited p g) :
    alternatives (relocate (place p) g) (encode p) = .ok ((g.alternatives p).map encode) := by
  have ho := h.ordered
  rw [List.pairwise_cons] at ho
  have hs : (g.splits ++ [g.closeAt]).Sublist (g.splits ++ [g.closeAt, p.length]) := by simp
  have hc := cutAt_encode h.commas (ho.2.sublist hs) fun k hk => ho.1 k (hs.subset hk)
  rw [place_succ h.opening (by decide)] at hc
  exact hc

theorem encode_intercalate (as : List (List Char)) :
    encode ([','].intercalate as) = [','.toUInt8].intercalate (as.map encode) := by
  induction as with
  | nil => rfl
  | cons a as ih =>
    by_cases he : as = []
    · subst he
      simp
    · rw [intercalate_cons he, List.map_cons, List.intercalate_cons_of_ne_nil (by simpa using he), encode_append,
        encode_cons_of_lt _ (by decide), ih]
      simp

theorem ordered_relocate (h : Delimited p g) :
    ((g.openAt :: (g.splits ++ [g.closeAt, p.length])).map (place p)).Pairwise (· < ·) := by
  have hlt {j : Nat} {c : Char} (hj : p[j]? = some c) : j ≤ p.length :=
    Nat.le_of_lt (List.getElem?_eq_some_iff.mp hj).1
  rw [List.pairwise_map]
  apply h.ordered.imp_of_mem
  intro i j _ hj hij
  apply place_lt hij
  simp only [List.mem_cons, List.mem_append, List.not_mem_nil, or_false] at hj
  rcases hj with rfl | hj | rfl | rfl
  · exact hlt h.opening
  · exact hlt (h.commas j hj)
  · exact hlt h.closing
  · exact Nat.le_refl _

theorem groupCuts_of_findGroup (h : Pattern.findGroup p = some g) :
    GroupCuts (encode p) (relocate (place p) g) := by
  have hd := delimited_of_findGroup h
  have hf := FirstGroup.of_findGroup h
  have hne := List.length_pos_iff.mpr hd.splits_ne
  refine ⟨?_, getElem?_place hd.opening (by decide), ?_, getElem?_place hd.closing (by decide), ?_, ?_, ?_⟩
  · have ho := ordered_relocate hd
    rw [List.map_cons, List.map_append, List.map_cons, List.map_cons, List.map_nil, place_length] at ho
    exact ho
  · intro k hk
    obtain ⟨j, hj, rfl⟩ := List.mem_map.mp hk
    exact getElem?_place (hd.commas j hj) (by decide)
  · -- a delimiter is one octet, so the place behind it is that of the next character
    have hb {j : Nat} {c : Char} (hj : p[j]? = some c) (hc : c.toNat < 0x80) :
        isBoundary (encode p) (place p j) ∧ isBoundary (encode p) (place p j + 1) := by
      rw [← place_succ hj hc]
      exact ⟨isBoundary_place p j, isBoundary_place p (j + 1)⟩
    intro k hk
    simp only [relocate, List.mem_cons, List.mem_append, List.not_mem_nil, or_false] at hk
    rcases hk with rfl | hk | rfl
    · exact hb hd.opening (by decide)
    · obtain ⟨j, hj, rfl⟩ := List.mem_map.mp hk
      exact hb (hd.commas j hj) (by decide)
    · exact hb hd.closing (by decide)
  · rw [Group.alternativeCount, relocate, List.length_map]
    omega
  · refine ⟨g.head p, g.alternatives p, g.tail p, head_relocate p g, alternatives_relocate hd, tail_relocate hd, ?_, ?_⟩
    · rw [Group.alternativeCount, relocate, List.length_map, Group.alternatives, length_cutAt]
    · conv_rhs => rw [hf.text]
      rw [List.append_assoc, braced_append, encode_append, encode_cons_of_lt _ (by decide), encode_append,
        encode_cons_of_lt _ (by decide), encode_intercalate]

end

theorem group_cuts_octets (p : List Char) :
    findGroup (encode p) = .ok ((Pattern.findGroup p).map (relocate (place p))) ∧
      ∀ g, findGroup (encode p) = .ok (some g) → GroupCuts (encode p) g := by
  refine ⟨findGroup_encode p, fun g hg => ?_⟩
  rw [findGroup_encode, Except.ok.injEq, Option.map_eq_some_iff] at hg
  obtain ⟨g, h, rfl⟩ := hg
  exact groupCuts_of_findGroup h

example : findGroup (encode ['é', '\\', '{', '{', '日', ',', 'b', '}']) = .ok (some ⟨4, 10, [8]⟩) := by cbv

end BraceParams.Pattern.Octets
