import BraceParams.Yaml.Node

namespace BraceParams.Yaml

namespace Node

def isAlias : Node → Bool
  | .alias .. => true
  | _ => false

def target (t : Tree) : Node → Node
  | .alias _ number => (t.anchors.node? number).getD .cut
  | node => node

theorem target_of_not_alias {t : Tree} {node : Node} (h : node.isAlias = false) : node.target t = node := by
  cases node with
  | «alias» mark number => cases h
  | _ => rfl

end Node

def Anchors.Grounded (a : Anchors) : Prop :=
  ∀ x ∈ a.nodes, x.2.isAlias = false

theorem Anchors.Grounded.node? {a : Anchors} {number : Nat} {node : Node} (h : a.Grounded)
    (hn : a.node? number = some node) : node.isAlias = false := by
  obtain ⟨index, -, hl⟩ := Option.bind_eq_some_iff.mp hn
  obtain ⟨before, after, he, -⟩ := List.lookup_eq_some_iff.mp hl
  exact h (index, node) (he ▸ List.mem_append_right before List.mem_cons_self)

namespace Node

theorem Open.isAlias_close (o : Open) : o.close.isAlias = false := by
  rw [Open.close]
  split <;> rfl

namespace Builder

variable {b : Builder}

theorem grounded_put {index : Option Nat} {node : Node} (h : b.anchors.Grounded)
    (hn : index ≠ none → node.isAlias = false) : (b.put index node).anchors.Grounded := by
  cases index with
  | none =>
    rw [put]
    cases b.stack with
    | nil => exact h
    | cons o stack => exact h
  | some index =>
    have hcons : ∀ x ∈ (index, node) :: b.anchors.nodes, x.2.isAlias = false :=
      List.forall_mem_cons.mpr ⟨hn (Option.some_ne_none index), h⟩
    rw [put]
    cases b.stack with
    | nil => exact hcons
    | cons o stack => exact hcons

theorem grounded_define? {a : Anchors} (h : a.Grounded) (name : Option (List Char)) (index : Nat) :
    (a.define? name index).Grounded := by
  cases name with
  | none => exact h
  | some name => exact h

theorem grounded_close (h : b.anchors.Grounded) : b.close.anchors.Grounded := by
  rw [close]
  cases b.stack with
  | nil => exact h
  | cons o stack => exact grounded_put h fun _ => o.isAlias_close

theorem grounded_readFrom (h : b.anchors.Grounded) (events : List Event) :
    (b.readFrom events).1.anchors.Grounded := by
  induction events generalizing b with
  | nil => exact h
  | cons e events ih =>
    rw [readFrom]
    cases e.kind with
    | «alias» name =>
      dsimp only
      cases b.anchors.names.lookup name with
      | none => exact h
      | some number => exact ih (grounded_put h fun hn => absurd rfl hn)
    | scalar anchor tag text style => exact ih (grounded_put (grounded_define? h _ _) fun _ => rfl)
    | sequenceStart anchor tag => exact ih (grounded_define? h _ _)
    | mappingStart anchor tag => exact ih (grounded_define? h _ _)
    | sequenceEnd => exact ih (grounded_close h)
    | mappingEnd => exact ih (grounded_close h)
    | nothing => exact ih (grounded_put h fun hn => absurd rfl hn)

theorem grounded_repeat_close (n : Nat) (h : b.anchors.Grounded) : (Nat.repeat close n b).anchors.Grounded := by
  induction n with
  | zero => exact h
  | succ n ih => exact grounded_close ih

theorem grounded_finish (h : b.anchors.Grounded) : b.finish.anchors.Grounded := by
  rw [finish]
  split
  · exact h
  · exact grounded_repeat_close _ (grounded_put h fun hn => absurd rfl hn)

end Builder

end Node

theorem Tree.grounded_ofEvents (events : Events) : (Tree.ofEvents events).anchors.Grounded := by
  apply Node.Builder.grounded_finish
  apply Node.Builder.grounded_readFrom
  intro x hx
  cases hx

theorem Node.target_target {t : Tree} (h : t.anchors.Grounded) (node : Node) :
    (node.target t).target t = node.target t := by
  cases node with
  | «alias» mark number =>
    apply target_of_not_alias
    rw [target]
    cases hn : t.anchors.node? number with
    | none => rfl
    | some node => exact h.node? hn
  | _ => rfl

end BraceParams.Yaml
