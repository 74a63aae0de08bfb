import BraceParams.Proofs.Pattern.Expansion

namespace BraceParams.Pattern

/-- The live braces at places `i` and `j` belong together: what stands between them is balanced. -/
def Paired (p : List Char) (i j : Nat) : Prop :=
  i < j ∧ (live p)[i]? = some (some '{') ∧ (live p)[j]? = some (some '}') ∧
    Balanced (((signs p).take j).drop (i + 1))

instance (p : List Char) (i j : Nat) : Decidable (Paired p i j) := inferInstanceAs (Decidable (_ ∧ _))

def OpensClosed (p : List Char) : Prop :=
  ∀ i < p.length, (live p)[i]? = some (some '{') → ∃ j < p.length, Paired p i j

def ClosesOpened (p : List Char) : Prop :=
  ∀ j < p.length, (live p)[j]? = some (some '}') → ∃ i < p.length, Paired p i j

instance (p : List Char) : Decidable (OpensClosed p) := inferInstanceAs (Decidable (∀ i < _, _ → _))

instance (p : List Char) : Decidable (ClosesOpened p) := inferInstanceAs (Decidable (∀ j < _, _ → _))

theorem getElem?_signs_opening {p : List Char} {i : Nat} :
    (signs p)[i]? = some .opening ↔ (live p)[i]? = some (some '{') := by
  simp only [signs, List.getElem?_map, Option.map_eq_some_iff, Sign.ofLive_eq_opening]
  exact exists_eq_right

theorem getElem?_signs_closing {p : List Char} {i : Nat} :
    (signs p)[i]? = some .closing ↔ (live p)[i]? = some (some '}') := by
  simp only [signs, List.getElem?_map, Option.map_eq_some_iff, Sign.ofLive_eq_closing]
  exact exists_eq_right

theorem eq_take_append_drop {α : Type} {a : List α} {i : Nat} {s : α} (h : a[i]? = some s) :
    a = a.take i ++ s :: a.drop (i + 1) := by
  obtain ⟨hi, rfl⟩ := List.getElem?_eq_some_iff.mp h
  rw [← List.drop_eq_getElem_cons hi, List.take_append_drop]

theorem Paired.split {p : List Char} {i j : Nat} (h : Paired p i j) :
    ∃ x b y, signs p = x ++ .opening :: (b ++ .closing :: y) ∧ x.length = i ∧
      i + 1 + b.length = j ∧ Balanced b := by
  obtain ⟨hij, hi, hj, hb⟩ := h
  have hj' := getElem?_signs_closing.mpr hj
  have hi' : ((signs p).take j)[i]? = some .opening := by
    rw [List.getElem?_take_of_lt hij]
    exact getElem?_signs_opening.mpr hi
  obtain ⟨hlt, -⟩ := List.getElem?_eq_some_iff.mp hj'
  refine ⟨((signs p).take j).take i, _, (signs p).drop (j + 1), ?_, ?_, ?_, hb⟩
  · conv_lhs => rw [eq_take_append_drop hj', eq_take_append_drop hi']
    rw [List.append_assoc, List.cons_append]
  · rw [List.take_take, List.length_take]
    omega
  · rw [List.length_drop, List.length_take]
    omega

theorem OpensClosed.apart {p : List Char} (h : OpensClosed p) (b : List Sign) : Apart (signs p) b := by
  apply apart_of_closed
  rintro y ⟨x, hx⟩
  have hi : (signs p)[x.length]? = some .opening := by simp [← hx]
  have hlt : x.length < p.length := by simp [← length_signs p, ← hx]
  obtain ⟨j, -, hj⟩ := h x.length hlt (getElem?_signs_opening.mp hi)
  obtain ⟨x', b, c, hs, hl, -, hb⟩ := hj.split
  rw [← hx] at hs
  obtain ⟨-, hy⟩ := List.append_inj hs hl.symm
  rw [List.cons.injEq] at hy
  exact commas?_isSome_iff.mpr ⟨b, c, hy.2, hb⟩

theorem level_opening_ne {b : List Sign} (e : Nat) (a : List Sign) (h : Balanced b) :
    level e (a ++ .opening :: b) ≠ some 0 := by
  rw [level_append]
  intro hl
  obtain ⟨k, -, hk⟩ := Option.bind_eq_some_iff.mp hl
  have hb := level_add (k + 1) h
  rw [Nat.zero_add] at hb
  simp [level, hb] at hk

theorem ClosesOpened.level_ne {q : List Char} (h : ClosesOpened q) {a c : List Sign}
    (hq : signs q = a ++ .closing :: c) (e : Nat) : level e a ≠ some 0 := by
  have hj : (signs q)[a.length]? = some .closing := by simp [hq]
  have hlt : a.length < q.length := by simp [← length_signs q, hq]
  obtain ⟨i, -, hi⟩ := h a.length hlt (getElem?_signs_closing.mp hj)
  obtain ⟨x, b, y, hs, rfl, hl, hb⟩ := hi.split
  rw [hq, ← List.cons_append, ← List.append_assoc] at hs
  obtain ⟨rfl, -⟩ := List.append_inj hs (by
    rw [List.length_append, List.length_cons]
    omega)
  exact level_opening_ne e x hb

theorem ClosesOpened.apart {q : List Char} (h : ClosesOpened q) (a : List Sign) : Apart a (signs q) := by
  intro y _ hs
  cases hn : commas? 0 y with
  | some n => rwa [starts_congr ((commas?_append (signs q) hn).trans hn.symm)] at hs
  | none =>
    obtain ⟨n, hn'⟩ := starts_iff.mp hs
    obtain ⟨b, c, hbc, hb⟩ := commas?_isSome_iff.mp (Option.isSome_of_eq_some hn')
    -- where the brace that closes the group stands: not in `y`, and in `q` it would be left over
    rcases List.append_eq_append_iff.mp hbc with ⟨b', rfl, hq⟩ | ⟨c', rfl, hc⟩
    · rw [level_append, Option.bind_eq_some_iff] at hb
      obtain ⟨e, -, he⟩ := hb
      exact absurd he (h.level_ne hq e)
    · cases c' with
      | nil => exact absurd rfl (h.level_ne (a := []) hc.symm 0)
      | cons s c' =>
        rw [List.cons_append, List.cons.injEq] at hc
        obtain ⟨rfl, -⟩ := hc
        have := commas?_isSome_iff.mpr ⟨b, c', rfl, hb⟩
        rw [hn] at this
        cases this

theorem expand_append (p q : List Char) (hp : Settled p) (h : OpensClosed p ∨ ClosesOpened q) :
    expand (p ++ q) = (expand p).flatMap fun a => (expand q).map fun b => a ++ b := by
  apply expand_append_of_apart hp
  rcases h with h | h
  · exact h.apart _
  · exact h.apart _

theorem expand_append_stray :
    (Settled ['}', '{', 'a', ',', '{', 'b', '}', '}'] ∧
      OpensClosed ['}', '{', 'a', ',', '{', 'b', '}', '}'] ∧
      expand (['}', '{', 'a', ',', '{', 'b', '}', '}'] ++ ['{', 'c', ',', 'd', '}', '}', '{']) =
        [['}', 'a', 'c', '}', '{'],
         ['}', 'a', 'd', '}', '{'],
         ['}', '{', 'b', '}', 'c', '}', '{'],
         ['}', '{', 'b', '}', 'd', '}', '{']]) ∧
    Settled ['\\', '\\', '{', '{', 'a', ',', 'b', '}'] ∧
      ClosesOpened [',', 'c', '{'] ∧
      expand (['\\', '\\', '{', '{', 'a', ',', 'b', '}'] ++ [',', 'c', '{']) =
        [['\\', '{', 'a', ',', 'c', '{'],
         ['\\', '{', 'b', ',', 'c', '{']] := by
  have hp : Settled ['}', '{', 'a', ',', '{', 'b', '}', '}'] := by decide
  have hc : OpensClosed ['}', '{', 'a', ',', '{', 'b', '}', '}'] := by decide
  have hp' : Settled ['\\', '\\', '{', '{', 'a', ',', 'b', '}'] := by decide
  have ho : ClosesOpened [',', 'c', '{'] := by decide
  refine ⟨⟨hp, hc, ?_⟩, hp', ho, ?_⟩
  · rw [expand_append _ _ hp (.inl hc)]
    cbv
  · rw [expand_append _ _ hp' (.inr ho)]
    cbv

end BraceParams.Pattern
