import BraceParams.Proofs.Schema.Shape
import BraceParams.Proofs.Yaml.Anchors

namespace BraceParams.Schema

open Yaml

variable {α β : Type} {t : Tree} {jumps jumps' depth : Nat} {path : Path}

def hasKey (t : Tree) (field : String) (member : Node × Node) : Bool :=
  scalarText? (member.1.target t) = some field.toList

def memberOf? (t : Tree) (field : String) (node : Node) : Option (Node × Node) :=
  match node.target t with
  | .mapping _ _ members => members.find? (hasKey t field)
  | _ => none

def elements (t : Tree) : List Node :=
  match (memberOf? t "params" t.root).map fun m => Node.target t m.2 with
  | some (.sequence _ _ items) => items
  | _ => []

def Named (t : Tree) (element : Node) (entry : Entry) : Prop :=
  ∃ key value, memberOf? t "name" element = some (key, value) ∧
    scalarText? (value.target t) = some entry.name.toList

theorem eq_target_of_follow {node n : Node} (h : follow t node jumps = .ok (n, jumps')) : n = node.target t := by
  cases node with
  | «alias» mark number =>
    rw [follow, bind_ok] at h
    obtain ⟨count, start, -, h⟩ := h
    split at h
    · exact absurd h throw_ne_ok
    · obtain ⟨-, last, -, h⟩ := bind_ok.mp h
      exact (pure_ok.mp h).1
  | _ => exact (pure_ok.mp h).1

theorem scalarText?_of_readText {expected : Expected} {node : Node} {text : List Char}
    (h : readText t expected path node jumps = .ok (text, jumps')) : scalarText? (node.target t) = some text := by
  obtain ⟨n, between, hf, h⟩ := reading_ok.mp h
  rw [← eq_target_of_follow hf]
  cases n with
  | scalar mark tag read style =>
    rw [scalarText?, (pure_ok.mp h).1]
  | _ => exact absurd h mismatch_ne_ok

theorem hasKey_of_readKey (ht : t.anchors.Grounded) {known : List String} {member : Node × Node} {name : String}
    (h : readKey t known path member.1 jumps = .ok (name, jumps')) (field : String) :
    hasKey t field member ↔ name = field := by
  obtain ⟨n, between, hf, h⟩ := reading_ok.mp h
  obtain ⟨text, last, hr, h⟩ := bind_ok.mp h
  have hs := scalarText?_of_readText hr
  rw [eq_target_of_follow hf, Node.target_target ht] at hs
  rw [hasKey, hs, decide_eq_true_eq, Option.some.injEq]
  cases hk : known.find? (·.toList = text) with
  | none =>
    rw [hk] at h
    exact absurd h fail_ne_ok
  | some found =>
    rw [hk] at h
    obtain ⟨rfl, -⟩ := pure_ok.mp h
    have hfound : name.toList = text := of_decide_eq_true (List.find?_some hk :)
    rw [← hfound, String.toList_inj]

namespace Draft

variable {d d' : Draft} {node : Node}

theorem name_readField_name (h : readField t depth path "name" node d jumps = .ok (d', jumps')) :
    ∃ text, scalarText? (node.target t) = some text ∧ d'.name = some (String.ofList text) := by
  rw [readField, if_pos rfl, bind_ok] at h
  obtain ⟨text, between, hr, h⟩ := h
  obtain ⟨rfl, -⟩ := pure_ok.mp h
  exact ⟨text, scalarText?_of_readText hr, rfl⟩

theorem name_readField {field : String} (hn : field ≠ "name")
    (h : readField t depth path field node d jumps = .ok (d', jumps')) : d'.name = d.name := by
  rw [readField, if_neg hn] at h
  split at h
  · obtain ⟨value, between, -, h⟩ := bind_ok.mp h
    obtain ⟨text, last, -, h⟩ := bind_ok.mp h
    rw [(pure_ok.mp h).1]
  · split at h
    · obtain ⟨values, between, -, h⟩ := bind_ok.mp h
      obtain ⟨texts, last, -, h⟩ := bind_ok.mp h
      rw [(pure_ok.mp h).1]
    · obtain ⟨expand, between, -, h⟩ := bind_ok.mp h
      rw [(pure_ok.mp h).1]

theorem name_foldlM (ht : t.anchors.Grounded) {members : List (Node × Node)}
    (h : members.foldlM (readMember t path fields has (readField t depth)) d jumps = .ok (d', jumps')) :
    (d.name = none → ∀ name, d'.name = some name → ∃ m, members.find? (hasKey t "name") = some m ∧
        scalarText? (m.2.target t) = some name.toList) ∧
      (d.name ≠ none → d'.name = d.name) := by
  induction members generalizing d jumps with
  | nil =>
    obtain ⟨rfl, -⟩ := pure_ok.mp h
    exact ⟨fun hd name hn => absurd (hd.symm.trans hn) (Option.some_ne_none name).symm, fun _ => rfl⟩
  | cons m members ih =>
    rw [List.foldlM_cons, bind_ok] at h
    obtain ⟨between, last, hm, h⟩ := h
    obtain ⟨field, start, hk, hh, hf⟩ := readMember_ok.mp hm
    have hkey := hasKey_of_readKey ht hk "name"
    obtain ⟨hnone, hsome⟩ := ih h
    by_cases hn : field = "name"
    · subst hn
      obtain ⟨text, hs, hb⟩ := name_readField_name hf
      have hd : d.name = none := Option.isNone_iff_eq_none.mp (Option.isSome_eq_false_iff.mp hh)
      have hd' : d'.name = some (String.ofList text) := (hsome (by rw [hb]; exact Option.some_ne_none _)).trans hb
      refine ⟨fun _ name hname => ⟨m, List.find?_cons_of_pos (hkey.mpr rfl), ?_⟩, fun hne => absurd hd hne⟩
      obtain rfl : name = String.ofList text := Option.some.inj (hname.symm.trans hd')
      rw [hs, String.toList_ofList]
    · have hb := name_readField hn hf
      rw [List.find?_cons_of_neg (hkey.not.mpr hn), ← hb]
      exact ⟨hnone, hsome⟩

end Draft

theorem named_of_readEntry (ht : t.anchors.Grounded) {node : Node} {entry : Entry}
    (h : readEntry t (depth + 1) path node jumps = .ok (entry, jumps')) : Named t node entry := by
  obtain ⟨n, between, hf, h⟩ := readRecord_ok.mp h
  obtain rfl := eq_target_of_follow hf
  rcases h with ⟨-, h⟩ | ⟨mark, tag, members, d, last, hn, hd, h⟩
  · exact absurd h fail_ne_ok
  · rw [Draft.finish] at h
    cases hname : d.name with
    | none =>
      rw [hname] at h
      exact absurd h fail_ne_ok
    | some name =>
      rw [hname] at h
      obtain ⟨rfl, -⟩ := pure_ok.mp h
      obtain ⟨⟨key, value⟩, hm, hs⟩ := (Draft.name_foldlM ht hd).1 rfl name hname
      exact ⟨key, value, by rw [memberOf?, hn, ← hm], hs⟩

theorem forall₂_of_mapM {r : α → Reader β} {R : α → β → Prop}
    (hR : ∀ a b jumps jumps', r a jumps = .ok (b, jumps') → R a b) {as : List α} {bs : List β}
    (h : as.mapM r jumps = .ok (bs, jumps')) : List.Forall₂ R as bs := by
  induction as generalizing bs jumps jumps' with
  | nil =>
    obtain ⟨rfl, -⟩ := pure_ok.mp h
    exact .nil
  | cons a as ih =>
    rw [List.mapM_cons, bind_ok] at h
    obtain ⟨b, between, hb, h⟩ := h
    obtain ⟨bs', last, hbs, h⟩ := bind_ok.mp h
    obtain ⟨rfl, -⟩ := pure_ok.mp h
    exact .cons (hR a b _ _ hb) (ih hbs)

theorem named_elements (ht : t.anchors.Grounded) {entries : List Entry}
    (h : readEntries t jumps = .ok (entries, jumps')) : List.Forall₂ (Named t) (elements t) entries := by
  obtain ⟨n, between, hf, h⟩ := readItems_ok.mp h
  obtain rfl := eq_target_of_follow hf
  rcases h with ⟨hu, rfl, -⟩ | ⟨mark, tag, hn, rfl, -⟩ | ⟨mark, tag, key, value, last, hn, hk, h⟩
  · cases hr : t.root.target t with
    | mapping mark tag members =>
      rw [hr] at hu
      cases hu
    | _ =>
      rw [elements, memberOf?, hr]
      exact .nil
  · rw [elements, memberOf?, hn]
    exact .nil
  · have hkey : hasKey t "params" (key, value) := (hasKey_of_readKey ht hk "params").mpr rfl
    have he : elements t = match some (value.target t) with
        | some (.sequence _ _ items) => items
        | _ => [] := by
      rw [elements, memberOf?, hn]
      dsimp only
      rw [List.find?_cons_of_pos hkey]
      rfl
    obtain ⟨n, between, hf, h⟩ := readList_ok.mp h
    obtain rfl := eq_target_of_follow hf
    rw [he]
    rcases h with ⟨hu, rfl, -⟩ | ⟨mark, tag, nodes, hn, h⟩
    · cases hr : value.target t with
      | sequence mark tag nodes =>
        rw [hr] at hu
        cases hu
      | _ => exact .nil
    · rw [hn]
      have hall := forall₂_of_mapM (R := fun x entry => Named t x.1 entry)
        (fun x entry _ _ hx => named_of_readEntry ht hx) h
      rw [← List.forall₂_map_left_iff, List.zipIdx_map_fst] at hall
      exact hall

end BraceParams.Schema
