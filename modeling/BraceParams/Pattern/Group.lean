import BraceParams.Pattern.Escape

/-!
Groups of a brace pattern: the leftmost pair of live braces with a live comma directly inside.
Places count characters. A pair without such a comma is passed over, and the search goes on at
the next brace, which may lie inside that pair.
-/

namespace BraceParams.Pattern

/-- A group `{…,…}`: the place of its opening brace, of its closing brace and of the commas that
separate its alternatives. -/
structure Group where
  openAt : Nat
  closeAt : Nat
  splits : List Nat
  deriving DecidableEq, Repr

inductive Sign where
  | opening
  | closing
  | comma
  | other
  deriving DecidableEq, Repr

def Sign.ofLive : Option Char → Sign
  | none => other
  | some c => if c = '{' then opening else if c = '}' then closing else if c = ',' then comma else other

def signs (pattern : List Char) : List Sign :=
  (live pattern).map Sign.ofLive

/-- The place of the brace that closes a pair and of the commas directly inside, read from what stands
behind the opening brace. `depth` counts the pairs opened since then, `i` is the place read next. -/
def close? : (depth i : Nat) → List Sign → Option (Nat × List Nat)
  | _, _, [] => none
  | depth, i, .opening :: r => close? (depth + 1) (i + 1) r
  | 0, i, .closing :: _ => some (i, [])
  | depth + 1, i, .closing :: r => close? depth (i + 1) r
  | 0, i, .comma :: r =>
    (close? 0 (i + 1) r).map fun (closeAt, splits) => (closeAt, i :: splits)
  | depth + 1, i, .comma :: r => close? (depth + 1) (i + 1) r
  | depth, i, .other :: r => close? depth (i + 1) r

def findFrom : (i : Nat) → List Sign → Option Group
  | _, [] => none
  | i, .opening :: r =>
    match close? 0 (i + 1) r with
    | some (closeAt, split :: splits) => some ⟨i, closeAt, split :: splits⟩
    | _ => findFrom (i + 1) r
  | i, _ :: r => findFrom (i + 1) r

def findGroup (pattern : List Char) : Option Group :=
  findFrom 0 (signs pattern)

def cutAt (i : Nat) (splits : List Nat) (stop : Nat) (s : List Char) : List (List Char) :=
  match splits with
  | [] => [s.take (stop - i)]
  | split :: splits => s.take (split - i) :: cutAt (split + 1) splits stop (s.drop (split + 1 - i))

namespace Group

def head (g : Group) (pattern : List Char) : List Char :=
  pattern.take g.openAt

def tail (g : Group) (pattern : List Char) : List Char :=
  pattern.drop (g.closeAt + 1)

def alternatives (g : Group) (pattern : List Char) : List (List Char) :=
  cutAt (g.openAt + 1) g.splits g.closeAt (pattern.drop (g.openAt + 1))

def alternativeCount (g : Group) : Nat :=
  g.splits.length + 1

end Group

theorem Sign.ofLive_eq_opening {o : Option Char} : ofLive o = opening ↔ o = some '{' := by
  cases o <;> grind [ofLive]

theorem Sign.ofLive_eq_closing {o : Option Char} : ofLive o = closing ↔ o = some '}' := by
  cases o <;> grind [ofLive]

theorem Sign.ofLive_eq_comma {o : Option Char} : ofLive o = comma ↔ o = some ',' := by
  cases o <;> grind [ofLive]

theorem close?_bounds {depth i : Nat} {view : List Sign} {closeAt : Nat} {splits : List Nat}
    (h : close? depth i view = some (closeAt, splits)) :
    i ≤ closeAt ∧ (∀ s ∈ splits, i ≤ s ∧ s < closeAt) ∧ splits.Pairwise (· < ·) := by
  fun_induction close? depth i view generalizing closeAt splits with
  | case1 => simp at h
  | case2 depth i r ih =>
    obtain ⟨hc, hs, hp⟩ := ih h
    exact ⟨by omega, fun s hm => by have := hs s hm; omega, hp⟩
  | case3 =>
    simp only [Option.some.injEq, Prod.mk.injEq] at h
    obtain ⟨rfl, rfl⟩ := h
    simp
  | case4 depth i r ih =>
    obtain ⟨hc, hs, hp⟩ := ih h
    exact ⟨by omega, fun s hm => by have := hs s hm; omega, hp⟩
  | case5 i r ih =>
    obtain ⟨⟨closeAt', splits'⟩, hx, he⟩ := Option.map_eq_some_iff.1 h
    simp only [Prod.mk.injEq] at he
    obtain ⟨rfl, rfl⟩ := he
    obtain ⟨hc, hs, hp⟩ := ih hx
    refine ⟨by omega, fun s hm => ?_, ?_⟩
    · rcases List.mem_cons.1 hm with rfl | hm
      · omega
      · have := hs s hm; omega
    · exact List.pairwise_cons.2 ⟨fun s hm => by have := hs s hm; omega, hp⟩
  | case6 depth i r ih =>
    obtain ⟨hc, hs, hp⟩ := ih h
    exact ⟨by omega, fun s hm => by have := hs s hm; omega, hp⟩
  | case7 depth i r ih =>
    obtain ⟨hc, hs, hp⟩ := ih h
    exact ⟨by omega, fun s hm => by have := hs s hm; omega, hp⟩

theorem findFrom_bounds {i : Nat} {view : List Sign} {g : Group} (h : findFrom i view = some g) :
    i ≤ g.openAt ∧ view[g.openAt - i]? = some .opening ∧ g.openAt < g.closeAt ∧
      (∀ s ∈ g.splits, g.openAt < s ∧ s < g.closeAt) ∧ g.splits.Pairwise (· < ·) := by
  fun_induction findFrom i view with
  | case1 => simp at h
  | case2 i r closeAt split splits hx =>
    simp only [Option.some.injEq] at h
    subst h
    obtain ⟨h1, h2, h3⟩ := close?_bounds hx
    exact ⟨by simp, by simp, by simp; omega, fun s hs => by have := h2 s hs; simp; omega, h3⟩
  | case3 i r _ ih =>
    obtain ⟨h1, h2, h3⟩ := ih h
    refine ⟨by omega, ?_, h3⟩
    rw [show g.openAt - i = g.openAt - (i + 1) + 1 by omega]
    simpa using h2
  | case4 i c r _ ih =>
    obtain ⟨h1, h2, h3⟩ := ih h
    refine ⟨by omega, ?_, h3⟩
    rw [show g.openAt - i = g.openAt - (i + 1) + 1 by omega]
    simpa using h2

theorem findGroup_bounds {p : List Char} {g : Group} (h : findGroup p = some g) :
    p[g.openAt]? = some '{' ∧ g.openAt < g.closeAt ∧
      (∀ s ∈ g.splits, g.openAt < s ∧ s < g.closeAt) ∧ g.splits.Pairwise (· < ·) := by
  obtain ⟨_, h2, h3⟩ := findFrom_bounds h
  simp only [signs, Nat.sub_zero, List.getElem?_map, Option.map_eq_some_iff] at h2
  obtain ⟨c, hc, hs⟩ := h2
  rw [Sign.ofLive_eq_opening.mp hs] at hc
  exact ⟨eq_of_getElem?_live hc, h3⟩

end BraceParams.Pattern
