import BraceParams.Proofs.Pattern.Expansion

/-!
Trees of patterns. A tree is a sequence of nodes, and a braced node has one alternative or more. A
tree is written as a pattern by escaping its literals, and expanding what is written gives the meaning
of the tree.
-/

namespace BraceParams.Pattern

mutual
inductive Tree where
  | nil
  | cons (node : Node) (tree : Tree)
inductive Node where
  | literal (text : List Char)
  | braced (alternatives : Alternatives)
inductive Alternatives where
  | single (tree : Tree)
  | cons (tree : Tree) (alternatives : Alternatives)
end

mutual
def Tree.render : Tree → List Char
  | .nil => []
  | .cons node tree => node.render ++ tree.render
def Node.render : Node → List Char
  | .literal text => escape text
  | .braced alternatives => Pattern.braced alternatives.render
def Alternatives.render : Alternatives → List (List Char)
  | .single tree => [tree.render]
  | .cons tree alternatives => tree.render :: alternatives.render
end

mutual
def Tree.meaning : Tree → List (List Char)
  | .nil => [[]]
  | .cons node tree => cross node.meaning tree.meaning
def Node.meaning : Node → List (List Char)
  | .literal text => [text]
  | .braced (.single tree) => tree.meaning.map fun text => '{' :: (text ++ ['}'])
  | .braced (.cons tree alternatives) => tree.meaning ++ alternatives.meaning
def Alternatives.meaning : Alternatives → List (List Char)
  | .single tree => tree.meaning
  | .cons tree alternatives => tree.meaning ++ alternatives.meaning
end

/-- The pattern can stand between the commas of a group and expands to `texts`. -/
structure Means (pattern : List Char) (texts : List (List Char)) : Prop where
  alternative : Alternative pattern
  expand_eq : expand pattern = texts

theorem Means.nil : Means [] [[]] :=
  ⟨⟨settled_nil, rfl⟩, expand_nil⟩

theorem Means.append {a b : List Char} {xs ys : List (List Char)} (ha : Means a xs) (hb : Means b ys) :
    Means (a ++ b) (cross xs ys) := by
  constructor
  · exact ha.alternative.append hb.alternative
  · rw [expand_append_of_alternative ha.alternative, ha.expand_eq, hb.expand_eq]

theorem isEscapable_cases {c : Char} (h : isEscapable c) : c = '\\' ∨ c = ',' ∨ c = '{' ∨ c = '}' := by
  simpa [isEscapable, or_assoc] using h

theorem means_escape_singleton (c : Char) : Means (escape [c]) [[c]] := by
  by_cases h : isEscapable c
  · rcases isEscapable_cases h with rfl | rfl | rfl | rfl <;>
      exact ⟨⟨by decide, by decide⟩, expand_of_findGroup (by decide)⟩
  · have he : escape [c] = [c] := by simp [escape, h]
    have hc : c ≠ '\\' := by
      rintro rfl
      exact h (by decide)
    have hs : signs [c] = [.other] := by
      simp only [isEscapable, Bool.or_eq_true, decide_eq_true_eq, not_or] at h
      simp [signs, live, Sign.ofLive, h]
    rw [he]
    refine ⟨⟨settled_singleton.mpr hc, by rw [hs]; rfl⟩, expand_of_findGroup ?_⟩
    rw [findGroup, hs]
    rfl

theorem means_escape (s : List Char) : Means (escape s) [s] := by
  induction s with
  | nil => exact .nil
  | cons c s ih =>
    rw [show escape (c :: s) = escape [c] ++ escape s by simp [escape]]
    exact (means_escape_singleton c).append ih

theorem means_braced {as : List (List Char)} (h : ∀ a ∈ as, Alternative a) (hl : 2 ≤ as.length) :
    Means (braced as) (as.flatMap expand) := by
  have hf : FirstGroup (braced as) [] as [] := ⟨by simp, settled_nil, h, hl, barren_nil _⟩
  refine ⟨alternative_braced h, ?_⟩
  rw [expand_firstGroup hf, show unescape [] = [] from rfl, cross_nil_left]
  simp only [List.append_nil]

theorem barren_opening {a : List Char} (h : Alternative a) :
    Barren (signs ['{']) (signs (a ++ ['}'])) := by
  rw [signs_opening, signs_append _ h.settled, barren_cons]
  refine ⟨fun _ hs => ?_, barren_nil _⟩
  obtain ⟨n, hn⟩ := starts_iff.mp hs
  rw [signs_nil, List.nil_append, commas?_inside _ h.within] at hn
  simp [commas?] at hn

theorem Means.braced_singleton {a : List Char} {xs : List (List Char)} (h : Means a xs) :
    Means (braced [a]) (xs.map fun x => '{' :: (x ++ ['}'])) := by
  have hc : expand ['}'] = [['}']] := expand_of_findGroup rfl
  refine ⟨alternative_braced (by simpa using h.alternative), ?_⟩
  rw [braced, List.intercalate_singleton, ← List.singleton_append,
    expand_append_of_barren (by decide) (barren_opening h.alternative),
    expand_append_of_alternative h.alternative, h.expand_eq, hc, cross_three]
  exact List.map_eq_flatMap.symm

theorem Alternatives.render_ne_nil (as : Alternatives) : as.render ≠ [] := by
  cases as <;> exact List.cons_ne_nil _ _

mutual
theorem Tree.means_render (t : Tree) : Means t.render t.meaning := by
  cases t with
  | nil => exact .nil
  | cons node tree => exact node.means_render.append tree.means_render
theorem Node.means_render (n : Node) : Means n.render n.meaning := by
  match n with
  | .literal text => exact means_escape text
  | .braced (.single tree) => exact tree.means_render.braced_singleton
  | .braced (.cons tree alternatives) =>
    obtain ⟨ha, he⟩ := (Alternatives.cons tree alternatives).means_render
    have hl : 2 ≤ (tree.render :: alternatives.render).length :=
      Nat.succ_le_succ (List.length_pos_iff.mpr alternatives.render_ne_nil)
    have hm : (Node.braced (.cons tree alternatives)).meaning =
        (Alternatives.cons tree alternatives).meaning := by
      rw [Node.meaning, Alternatives.meaning]
    rw [hm, ← he]
    exact means_braced ha hl
theorem Alternatives.means_render (as : Alternatives) :
    (∀ a ∈ as.render, Alternative a) ∧ as.render.flatMap expand = as.meaning := by
  match as with
  | .single tree =>
    obtain ⟨ha, he⟩ := tree.means_render
    exact ⟨by simpa [Alternatives.render] using ha,
      by simp [Alternatives.render, he, Alternatives.meaning]⟩
  | .cons tree alternatives =>
    obtain ⟨ha, he⟩ := tree.means_render
    obtain ⟨has, hes⟩ := alternatives.means_render
    exact ⟨by simpa [Alternatives.render] using ⟨ha, has⟩,
      by rw [Alternatives.render, List.flatMap_cons, he, hes, Alternatives.meaning]⟩
end

theorem expand_render (t : Tree) : expand t.render = t.meaning :=
  t.means_render.expand_eq

example :
    let inner := Alternatives.cons (.cons (.literal ['a', ',']) .nil) (.single .nil)
    let outer := Tree.cons (.braced (.single (.cons (.braced inner) .nil))) .nil
    outer.render = ['{', '{', 'a', '\\', ',', ',', '}', '}'] ∧
      outer.meaning = [['{', 'a', ',', '}'], ['{', '}']] := by decide

end BraceParams.Pattern
