import BraceParams.Pattern.Group

/-!
Expansion of a brace pattern into its list of literal texts. The first group is cut out, each of its
alternatives takes its place, and what stands around it is carried along: the text to the left as a
finished prefix, the text to the right as a suffix that is scanned again once the alternative is done.
Escapes are resolved once, in the finished text.
-/

namespace BraceParams.Pattern

theorem sublist_of_mem_cutAt {i stop : Nat} {splits : List Nat} {s piece : List Char}
    (h : piece ∈ cutAt i splits stop s) (hb : ∀ x ∈ splits, i ≤ x ∧ x < stop)
    (hp : splits.Pairwise (· < ·)) : piece.Sublist (s.take (stop - i)) := by
  induction splits generalizing i s with
  | nil =>
    simp only [cutAt, List.mem_singleton] at h
    exact h ▸ List.Sublist.refl _
  | cons split splits ih =>
    have hsplit := hb split (by simp)
    rw [List.pairwise_cons] at hp
    rcases List.mem_cons.1 h with rfl | h
    · exact (List.take_prefix_take_left (by omega)).sublist
    · have hrest : ∀ x ∈ splits, split + 1 ≤ x ∧ x < stop := fun x hx =>
        ⟨hp.1 x hx, (hb x (by simp [hx])).2⟩
      refine (ih h hrest hp.2).trans ?_
      rw [List.take_drop, show split + 1 - i + (stop - (split + 1)) = stop - i by omega]
      exact List.drop_sublist _ _

theorem count_alternative_add_count_tail {p alt : List Char} {g : Group} (h : findGroup p = some g)
    (ha : alt ∈ g.alternatives p) : alt.count '{' + (g.tail p).count '{' < p.count '{' := by
  obtain ⟨hopen, hclose, hsplits, hp⟩ := findGroup_bounds h
  obtain ⟨hlt, heq⟩ := List.getElem?_eq_some_iff.1 hopen
  have hd : p.drop g.openAt = '{' :: p.drop (g.openAt + 1) := by
    rw [List.drop_eq_getElem_cons hlt, heq]
  have h1 := (sublist_of_mem_cutAt ha hsplits hp).count_le '{'
  have h2 : (g.tail p).count '{' ≤
      ((p.drop (g.openAt + 1)).drop (g.closeAt - (g.openAt + 1))).count '{' := by
    rw [List.drop_drop, Group.tail, show g.openAt + 1 + (g.closeAt - (g.openAt + 1)) = g.closeAt by omega,
      ← List.drop_drop]
    exact (List.drop_sublist 1 _).count_le '{'
  have h3 : (p.drop (g.openAt + 1)).count '{' =
      ((p.drop (g.openAt + 1)).take (g.closeAt - (g.openAt + 1))).count '{' +
        ((p.drop (g.openAt + 1)).drop (g.closeAt - (g.openAt + 1))).count '{' := by
    rw [← List.count_append, List.take_append_drop]
  have h4 := (List.drop_sublist g.openAt p).count_le '{'
  rw [hd, List.count_cons_self] at h4
  omega

/-- The expansions of `done ++ pattern ++ rest`, where `done` holds no group that is still open to
expansion and the scan has come to `pattern`. -/
def expandInto (done pattern rest : List Char) : List (List Char) :=
  match _found : findGroup pattern with
  | some g =>
    let head := done ++ g.head pattern
    let tail := g.tail pattern ++ rest
    (g.alternatives pattern).attach.flatMap fun ⟨alternative, _⟩ => expandInto head alternative tail
  | none =>
    if rest.isEmpty then [unescape (done ++ pattern)] else expandInto (done ++ pattern) rest []
termination_by (pattern.count '{' + rest.count '{', rest.length)
decreasing_by
  · have := count_alternative_add_count_tail _found ‹_›
    simp only [List.count_append]
    exact Prod.Lex.left _ _ (by omega)
  · rename_i hrest
    have hpos : 0 < rest.length := by
      cases rest with
      | nil => simp at hrest
      | cons => simp
    rcases Nat.eq_zero_or_pos (pattern.count '{') with hz | hz
    · simp only [hz, Nat.zero_add, List.count_nil, Nat.add_zero]
      exact Prod.Lex.right _ (by simpa using hpos)
    · exact Prod.Lex.left _ _ (by simpa using hz)

def expand (pattern : List Char) : List (List Char) :=
  expandInto [] pattern []

def hasGroups (pattern : List Char) : Bool :=
  (findGroup pattern).isSome

end BraceParams.Pattern
