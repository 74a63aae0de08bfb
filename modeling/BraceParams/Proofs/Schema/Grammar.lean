import BraceParams.Proofs.Schema.Bare

namespace BraceParams.Schema

open Yaml

variable {α β : Type} {t : Tree} {jumps jumps' : Nat} {path : Path} {node : Node}

inductive Field {α : Type} (R : Node → α → Prop) : Option Node → Option α → Option α → Prop
  | missing (before : Option α) : Field R none before before
  | given {node : Node} {a : α} (h : R node a) : Field R (some node) none (some a)

def ReadsName (node : Node) (name : String) : Prop :=
  scalarText? node = some name.toList

/-- What reading the entries of a record makes of a draft. -/
structure Fits (entries : List (Node × Node)) (d d' : Draft) : Prop where
  keys : Keys Draft.fields entries
  name : Field ReadsName (member? entries "name") d.name d'.name
  value : Field (fun n => Optional Reads (some n)) (member? entries "value") d.value d'.value
  values : Field (fun n => Optional (SequenceOf Reads) (some n)) (member? entries "values") d.values d'.values
  expand : Field ReadsBoolean (member? entries "expand") d.expand d'.expand

section

variable {d d' : Draft} {depth : Nat}

theorem readField_name (h : node.bare) :
    Draft.readField t depth path "name" node d jumps = .ok (d', jumps') ↔
      (∃ name, ReadsName node name ∧ d' = { d with name := some name }) ∧ jumps' = jumps := by
  rw [Draft.readField, if_pos rfl]
  constructor
  · intro hr
    obtain ⟨text, between, ht, hp⟩ := bind_ok.mp hr
    obtain ⟨hs, rfl⟩ := (readText_bare h).mp ht
    obtain ⟨rfl, rfl⟩ := pure_ok.mp hp
    exact ⟨⟨String.ofList text, by simpa [ReadsName] using hs, rfl⟩, rfl⟩
  · rintro ⟨⟨name, hn, rfl⟩, rfl⟩
    refine bind_ok.mpr ⟨name.toList, jumps', (readText_bare h).mpr ⟨hn, rfl⟩, ?_⟩
    rw [String.ofList_toList]
    exact pure_ok.mpr ⟨rfl, rfl⟩

theorem readTexts_ok {γ δ : Type} {r : Reader γ} {check : γ → Except Cause δ} {set : δ → Draft}
    {P : δ → Prop} (h : ∀ x, (∃ a, r jumps = .ok (a, jumps') ∧ check a = .ok x) ↔ P x ∧ jumps' = jumps) :
    (r >>= fun a => liftCause (check a) >>= fun x => pure (set x)) jumps = .ok (d', jumps') ↔
      (∃ x, P x ∧ d' = set x) ∧ jumps' = jumps := by
  simp only [bind_ok, liftCause_ok, pure_ok]
  constructor
  · rintro ⟨a, between, ha, x, last, ⟨hx, rfl⟩, rfl, rfl⟩
    obtain ⟨hP, he⟩ := (h x).mp ⟨a, ha, hx⟩
    exact ⟨⟨x, hP, rfl⟩, he⟩
  · rintro ⟨⟨x, hP, rfl⟩, rfl⟩
    obtain ⟨a, ha, hx⟩ := (h x).mpr ⟨hP, rfl⟩
    exact ⟨a, jumps', ha, x, jumps', ⟨hx, rfl⟩, rfl, rfl⟩

theorem readField_value (h : node.bare) :
    Draft.readField t depth path "value" node d jumps = .ok (d', jumps') ↔
      (∃ value, Optional Reads (some node) value ∧ d' = { d with value := some value }) ∧ jumps' = jumps := by
  rw [Draft.readField, if_neg (by decide), if_pos rfl]
  refine readTexts_ok fun value => ?_
  exact readOption_checked (fun _ _ _ _ => readValue_text h) h (fun _ => Reads.not_null) (by rintro _ ⟨⟩)

theorem readField_values (h : node.bare) :
    Draft.readField t (depth + 1) path "values" node d jumps = .ok (d', jumps') ↔
      (∃ values, Optional (SequenceOf Reads) (some node) values ∧ d' = { d with values := some values }) ∧
        jumps' = jumps := by
  rw [Draft.readField, if_neg (by decide), if_neg (by decide), if_pos rfl]
  refine readTexts_ok fun values => ?_
  refine readOption_checked (fun hu jumps jumps' texts => ?_) h (fun _ => SequenceOf.not_null) (by rintro _ ⟨⟩)
  rw [readList_checked (fun _ hn _ _ _ _ => readValue_text hn) h]
  have hw : ¬Unwritten node := fun hw => hu (.unwritten hw)
  simp [hw]

theorem readField_expand (h : node.bare) :
    Draft.readField t depth path "expand" node d jumps = .ok (d', jumps') ↔
      (∃ b, ReadsBoolean node b ∧ d' = { d with expand := some b }) ∧ jumps' = jumps := by
  rw [Draft.readField, if_neg (by decide), if_neg (by decide), if_neg (by decide)]
  simp only [bind_ok, readBoolean_bare h, pure_ok]
  constructor
  · rintro ⟨b, between, ⟨hb, rfl⟩, rfl, rfl⟩
    exact ⟨⟨b, hb, rfl⟩, rfl⟩
  · rintro ⟨⟨b, hb, rfl⟩, rfl⟩
    exact ⟨b, jumps', ⟨hb, rfl⟩, rfl, rfl⟩

end

theorem member?_nil (key : String) : member? [] key = none := rfl

theorem member?_cons_self {e : Node × Node} {key : String} (rest : List (Node × Node))
    (h : scalarText? e.1 = some key.toList) : member? (e :: rest) key = some e.2 := by
  simp [member?, h]

theorem member?_cons_of_ne {e : Node × Node} {key other : String} (rest : List (Node × Node))
    (h : scalarText? e.1 = some key.toList) (hne : key ≠ other) :
    member? (e :: rest) other = member? rest other := by
  have hn : ¬scalarText? e.1 = some other.toList := by
    rw [h, Option.some.injEq, String.toList_inj]
    exact hne
  simp [member?, hn]

theorem member?_eq_none {entries : List (Node × Node)} {key : String} :
    member? entries key = none ↔ some key.toList ∉ entries.map fun e => scalarText? e.1 := by
  rw [member?, Option.map_eq_none_iff, List.find?_eq_none]
  simp

theorem keys_cons {known : List String} {e : Node × Node} {key : String} {rest : List (Node × Node)}
    (h : scalarText? e.1 = some key.toList) :
    Keys known (e :: rest) ↔ key ∈ known ∧ member? rest key = none ∧ Keys known rest := by
  rw [member?_eq_none, ← h]
  constructor
  · rintro ⟨hk, hn⟩
    rw [List.map_cons, List.nodup_cons] at hn
    obtain ⟨key', hm, hk'⟩ := hk e List.mem_cons_self
    rw [h, Option.some.injEq, String.toList_inj] at hk'
    subst hk'
    exact ⟨hm, hn.1, fun e he => hk e (List.mem_cons_of_mem _ he), hn.2⟩
  · rintro ⟨hm, hn, hk, hr⟩
    refine ⟨fun e' he => ?_, ?_⟩
    · rcases List.mem_cons.mp he with rfl | he
      · exact ⟨key, hm, h⟩
      · exact hk e' he
    · rw [List.map_cons, List.nodup_cons]
      exact ⟨hn, hr⟩

theorem keys_nil (known : List String) : Keys known [] :=
  ⟨by simp, by simp⟩

theorem field_none {R : Node → α → Prop} {before after : Option α} :
    Field R none before after ↔ after = before := by
  constructor
  · rintro ⟨⟩
    rfl
  · rintro rfl
    exact .missing _

theorem field_some {R : Node → α → Prop} {before after : Option α} :
    Field R (some node) before after ↔ before = none ∧ ∃ a, R node a ∧ after = some a := by
  constructor
  · rintro ⟨⟩
    exact ⟨rfl, _, ‹_›, rfl⟩
  · rintro ⟨rfl, a, h, rfl⟩
    exact .given h

theorem Field.of_some {R : Node → α → Prop} {n : Option Node} {a : α} {after : Option α}
    (h : Field R n (some a) after) : n = none ∧ after = some a := by
  cases h
  exact ⟨rfl, rfl⟩

inductive Takes (node : Node) (d : Draft) : String → Draft → Prop
  | name {a : String} (hd : d.name = none) (h : ReadsName node a) :
      Takes node d "name" { d with name := some a }
  | value {a : Option String} (hd : d.value = none) (h : Optional Reads (some node) a) :
      Takes node d "value" { d with value := some a }
  | values {a : Option (List String)} (hd : d.values = none) (h : Optional (SequenceOf Reads) (some node) a) :
      Takes node d "values" { d with values := some a }
  | expand {a : Bool} (hd : d.expand = none) (h : ReadsBoolean node a) :
      Takes node d "expand" { d with expand := some a }

theorem fits_nil {d d' : Draft} : Fits [] d d' ↔ d' = d := by
  constructor
  · rintro ⟨-, hn, hv, hvs, he⟩
    rw [member?_nil, field_none] at hn hv hvs he
    cases d
    cases d'
    simp_all
  · rintro rfl
    exact ⟨keys_nil _, .missing _, .missing _, .missing _, .missing _⟩

theorem fits_cons {e : Node × Node} {key : String} {rest : List (Node × Node)} {d d' : Draft}
    (h : scalarText? e.1 = some key.toList) :
    Fits (e :: rest) d d' ↔ ∃ between, Takes e.2 d key between ∧ Fits rest between d' := by
  have hs := member?_cons_self rest h
  have ho : ∀ other, key ≠ other → member? (e :: rest) other = member? rest other :=
    fun other => member?_cons_of_ne rest h
  constructor
  · rintro ⟨hk, hn, hv, hvs, he⟩
    obtain ⟨hm, hr, hk⟩ := (keys_cons h).mp hk
    simp only [Draft.fields, List.mem_cons, List.not_mem_nil, or_false] at hm
    rcases hm with rfl | rfl | rfl | rfl
    · rw [hs, field_some] at hn
      rw [ho _ (by decide)] at hv hvs he
      obtain ⟨hd, a, ha, hn⟩ := hn
      exact ⟨_, .name hd ha, hk, by rw [hr, hn]; exact .missing _, hv, hvs, he⟩
    · rw [hs, field_some] at hv
      rw [ho _ (by decide)] at hn hvs he
      obtain ⟨hd, a, ha, hv⟩ := hv
      exact ⟨_, .value hd ha, hk, hn, by rw [hr, hv]; exact .missing _, hvs, he⟩
    · rw [hs, field_some] at hvs
      rw [ho _ (by decide)] at hn hv he
      obtain ⟨hd, a, ha, hvs⟩ := hvs
      exact ⟨_, .values hd ha, hk, hn, hv, by rw [hr, hvs]; exact .missing _, he⟩
    · rw [hs, field_some] at he
      rw [ho _ (by decide)] at hn hv hvs
      obtain ⟨hd, a, ha, he⟩ := he
      exact ⟨_, .expand hd ha, hk, hn, hv, hvs, by rw [hr, he]; exact .missing _⟩
  · rintro ⟨between, ht, hk, hn, hv, hvs, he⟩
    cases ht with
    | name hd ha =>
      obtain ⟨hr, hn⟩ := hn.of_some
      refine ⟨(keys_cons h).mpr ⟨by decide, hr, hk⟩, ?_, ?_, ?_, ?_⟩
      · rw [hs, hd, hn]
        exact .given ha
      all_goals rwa [ho _ (by decide)]
    | value hd ha =>
      obtain ⟨hr, hv⟩ := hv.of_some
      refine ⟨(keys_cons h).mpr ⟨by decide, hr, hk⟩, ?_, ?_, ?_, ?_⟩
      · rwa [ho _ (by decide)]
      · rw [hs, hd, hv]
        exact .given ha
      all_goals rwa [ho _ (by decide)]
    | values hd ha =>
      obtain ⟨hr, hvs⟩ := hvs.of_some
      refine ⟨(keys_cons h).mpr ⟨by decide, hr, hk⟩, ?_, ?_, ?_, ?_⟩
      · rwa [ho _ (by decide)]
      · rwa [ho _ (by decide)]
      · rw [hs, hd, hvs]
        exact .given ha
      · rwa [ho _ (by decide)]
    | expand hd ha =>
      obtain ⟨hr, he⟩ := he.of_some
      refine ⟨(keys_cons h).mpr ⟨by decide, hr, hk⟩, ?_, ?_, ?_, ?_⟩
      · rwa [ho _ (by decide)]
      · rwa [ho _ (by decide)]
      · rwa [ho _ (by decide)]
      · rw [hs, hd, he]
        exact .given ha

theorem readField_ok {key : String} {d d' : Draft} {depth : Nat} (h : node.bare) (hk : key ∈ Draft.fields) :
    (d.has key = false ∧ Draft.readField t (depth + 1) path key node d jumps = .ok (d', jumps')) ↔
      Takes node d key d' ∧ jumps' = jumps := by
  simp only [Draft.fields, List.mem_cons, List.not_mem_nil, or_false] at hk
  constructor
  · rintro ⟨hd, hr⟩
    rcases hk with rfl | rfl | rfl | rfl
    · obtain ⟨⟨a, ha, rfl⟩, rfl⟩ := (readField_name h).mp hr
      exact ⟨.name (by simpa [Draft.has] using hd) ha, rfl⟩
    · obtain ⟨⟨a, ha, rfl⟩, rfl⟩ := (readField_value h).mp hr
      exact ⟨.value (by simpa [Draft.has] using hd) ha, rfl⟩
    · obtain ⟨⟨a, ha, rfl⟩, rfl⟩ := (readField_values h).mp hr
      exact ⟨.values (by simpa [Draft.has] using hd) ha, rfl⟩
    · obtain ⟨⟨a, ha, rfl⟩, rfl⟩ := (readField_expand h).mp hr
      exact ⟨.expand (by simpa [Draft.has] using hd) ha, rfl⟩
  · rintro ⟨ht, rfl⟩
    cases ht with
    | name hd ha => exact ⟨by simp [Draft.has, hd], (readField_name h).mpr ⟨⟨_, ha, rfl⟩, rfl⟩⟩
    | value hd ha => exact ⟨by simp [Draft.has, hd], (readField_value h).mpr ⟨⟨_, ha, rfl⟩, rfl⟩⟩
    | values hd ha => exact ⟨by simp [Draft.has, hd], (readField_values h).mpr ⟨⟨_, ha, rfl⟩, rfl⟩⟩
    | expand hd ha => exact ⟨by simp [Draft.has, hd], (readField_expand h).mpr ⟨⟨_, ha, rfl⟩, rfl⟩⟩

theorem foldlM_ok {entries : List (Node × Node)} {d d' : Draft} {depth : Nat}
    (hb : ∀ e ∈ entries, e.1.bare ∧ e.2.bare) :
    entries.foldlM (readMember t path Draft.fields Draft.has (Draft.readField t (depth + 1))) d jumps =
      .ok (d', jumps') ↔ Fits entries d d' ∧ jumps' = jumps := by
  induction entries generalizing d jumps with
  | nil => rw [List.foldlM_nil, pure_ok, fits_nil]
  | cons e rest ih =>
    obtain ⟨hkey, hvalue⟩ := hb e List.mem_cons_self
    have hrest := fun f hf => hb f (List.mem_cons_of_mem e hf)
    rw [List.foldlM_cons, bind_ok]
    constructor
    · rintro ⟨between, last, hm, hfold⟩
      obtain ⟨hr, rfl⟩ := (ih hrest).mp hfold
      obtain ⟨key, start, hk, hd, hf⟩ := readMember_ok.mp hm
      obtain ⟨hmem, htext, rfl⟩ := (readKey_bare hkey).mp hk
      obtain ⟨ht, rfl⟩ := (readField_ok hvalue hmem).mp ⟨hd, hf⟩
      exact ⟨(fits_cons htext).mpr ⟨between, ht, hr⟩, rfl⟩
    · rintro ⟨hfits, rfl⟩
      obtain ⟨key, hmem, htext⟩ := hfits.keys.known e List.mem_cons_self
      obtain ⟨between, ht, hr⟩ := (fits_cons htext).mp hfits
      obtain ⟨hd, hf⟩ := (readField_ok hvalue hmem).mpr ⟨ht, rfl⟩
      refine ⟨between, jumps', readMember_ok.mpr ⟨key, jumps', ?_, hd, hf⟩, (ih hrest).mpr ⟨hr, rfl⟩⟩
      exact (readKey_bare hkey).mpr ⟨hmem, htext, rfl⟩

theorem field_join {R : Node → α → Prop} {n : Option Node} {a : Option α} :
    (∃ x, Field (fun node => Optional R (some node)) n none x ∧ x.join = a) ↔ Optional R n a := by
  constructor
  · rintro ⟨x, ⟨⟩ | h, rfl⟩
    · exact .missing
    · exact h
  · intro h
    cases h with
    | missing => exact ⟨none, .missing _, rfl⟩
    | null h => exact ⟨some none, .given (.null h), rfl⟩
    | given h => exact ⟨some (some _), .given (.given h), rfl⟩

theorem field_flag {n : Option Node} {b : Bool} :
    (∃ x, Field ReadsBoolean n none x ∧ x.getD false = b) ↔ Flag n b := by
  constructor
  · rintro ⟨x, ⟨⟩ | h, rfl⟩
    · exact .missing
    · exact .given h
  · intro h
    cases h with
    | missing => exact ⟨none, .missing _, rfl⟩
    | given h => exact ⟨some b, .given h, rfl⟩

theorem finish_ok {d : Draft} {e : Entry} :
    d.finish jumps = .ok (e, jumps') ↔
      (d.name = some e.name ∧ d.value.join = e.value ∧ d.values.join = e.values ∧
        d.expand.getD false = e.expand) ∧ jumps' = jumps := by
  rw [Draft.finish]
  cases d.name with
  | none => simpa using fail_ne_ok
  | some name =>
    dsimp only
    rw [pure_ok]
    obtain ⟨name', value, values, expand⟩ := e
    simp [eq_comm]

theorem isEntry_iff {mark : Mark} {entries : List (Node × Node)} {e : Entry} :
    IsEntry (.mapping mark none entries) e ↔
      ∃ d, Fits entries {} d ∧ d.name = some e.name ∧ d.value.join = e.value ∧ d.values.join = e.values ∧
        d.expand.getD false = e.expand := by
  constructor
  · intro h
    cases h with
    | mapping _ keys hname text value values expand =>
      obtain ⟨v, hv, hve⟩ := field_join.mpr value
      obtain ⟨vs, hvs, hvse⟩ := field_join.mpr values
      obtain ⟨b, hb, hbe⟩ := field_flag.mpr expand
      refine ⟨⟨some e.name, v, vs, b⟩, ⟨keys, ?_, hv, hvs, hb⟩, rfl, hve, hvse, hbe⟩
      rw [hname]
      exact .given text
  · rintro ⟨d, ⟨keys, hn, hv, hvs, hb⟩, hname, hve, hvse, hbe⟩
    rw [hname] at hn
    have hval := field_join.mp ⟨d.value, hv, hve⟩
    have hvals := field_join.mp ⟨d.values, hvs, hvse⟩
    have hflag := field_flag.mp ⟨d.expand, hb, hbe⟩
    generalize hm : member? entries "name" = m at hn
    cases hn with
    | given text => exact .mapping mark keys hm text hval hvals hflag

theorem readEntry_ok {depth : Nat} {e : Entry} (h : node.bare) :
    readEntry t (depth + 2) path node jumps = .ok (e, jumps') ↔ IsEntry node e ∧ jumps' = jumps := by
  rw [readEntry, readRecord_ok]
  constructor
  · rintro ⟨n, between, hf, hr⟩
    rw [follow_bare h, Except.ok.injEq, Prod.mk.injEq] at hf
    obtain ⟨rfl, rfl⟩ := hf
    rcases hr with ⟨-, hr⟩ | ⟨mark, tag, entries, d, last, rfl, hfold, hr⟩
    · exact absurd hr fail_ne_ok
    · rw [Node.bare, Bool.and_eq_true, Option.isNone_iff_eq_none] at h
      obtain ⟨rfl, hb⟩ := h
      obtain ⟨hfits, rfl⟩ := (foldlM_ok (Node.bareEntries_iff.mp hb)).mp hfold
      obtain ⟨hd, rfl⟩ := finish_ok.mp hr
      exact ⟨isEntry_iff.mpr ⟨d, hfits, hd⟩, rfl⟩
  · rintro ⟨he, rfl⟩
    cases node with
    | mapping mark tag entries =>
      have hb := h
      rw [Node.bare, Bool.and_eq_true, Option.isNone_iff_eq_none] at hb
      obtain ⟨rfl, hb⟩ := hb
      obtain ⟨d, hfits, hd⟩ := isEntry_iff.mp he
      refine ⟨_, jumps', follow_bare h, .inr ⟨mark, none, entries, d, jumps', rfl, ?_, ?_⟩⟩
      · exact (foldlM_ok (Node.bareEntries_iff.mp hb)).mpr ⟨hfits, rfl⟩
      · exact finish_ok.mpr ⟨hd, rfl⟩
    | _ => cases he

theorem stands_iff {e : Entry} {p : Param} : Stands e p ↔ e.toParam = .ok p := by
  constructor
  · rintro ⟨⟩ <;> rfl
  · obtain ⟨name, value, values, expand⟩ := e
    intro h
    cases expand <;> cases value <;> cases values <;> cases h
    · exact .list _ _ _
    · exact .single _ _
    · exact .list _ _ _
    · exact .pattern _ _ _
    · exact .pattern _ _ _

theorem readParam_checked {depth : Nat} {p : Param} (h : node.bare) :
    (∃ e, readEntry t (depth + 2) path node jumps = .ok (e, jumps') ∧ e.toParam = .ok p) ↔
      IsParam node p ∧ jumps' = jumps := by
  simp only [readEntry_ok h, ← stands_iff, IsParam]
  constructor
  · rintro ⟨e, ⟨he, rfl⟩, hp⟩
    exact ⟨⟨e, he, hp⟩, rfl⟩
  · rintro ⟨⟨e, he, hp⟩, rfl⟩
    exact ⟨e, ⟨he, rfl⟩, hp⟩

theorem readParams_checked {params : List Param} (h : node.bare) :
    (∃ es, readList t (maxDepth - 1) path node (readEntry t) jumps = .ok (es, jumps') ∧
      es.mapM Entry.toParam = .ok params) ↔ IsList node params ∧ jumps' = jumps := by
  rw [show maxDepth - 1 = 126 + 1 from rfl, readList_checked (fun _ hn _ _ _ _ => readParam_checked hn) h]
  refine and_congr_left fun _ => ?_
  constructor
  · rintro (⟨hu, rfl⟩ | hs)
    · exact .unwritten hu
    · exact .sequence hs
  · rintro (hu | hs)
    · exact .inl ⟨hu, rfl⟩
    · exact .inr hs

theorem readEntries_checked {params : List Param} (h : t.root.bare) :
    (∃ es, readEntries t jumps = .ok (es, jumps') ∧ es.mapM Entry.toParam = .ok params) ↔
      IsDocument t.root params ∧ jumps' = jumps := by
  have hbare : ∀ mark tag key value, t.root = .mapping mark tag [(key, value)] →
      tag = none ∧ key.bare ∧ value.bare := by
    intro mark tag key value hr
    rw [hr] at h
    simpa [Node.bare, Node.bareEntries] using h
  constructor
  · rintro ⟨es, hr, hc⟩
    obtain ⟨n, between, hf, hn⟩ := readItems_ok.mp hr
    rw [follow_bare h, Except.ok.injEq, Prod.mk.injEq] at hf
    obtain ⟨rfl, rfl⟩ := hf
    rcases hn with ⟨hu, rfl, rfl⟩ | ⟨mark, tag, hm, rfl, rfl⟩ | ⟨mark, tag, key, value, last, hm, hk, hl⟩
    · cases hc
      exact ⟨.unwritten ((isUnwritten_iff h).mp hu), rfl⟩
    · cases hc
      rw [hm, Node.bare, Bool.and_eq_true, Option.isNone_iff_eq_none] at h
      rw [hm, h.1]
      exact ⟨.empty mark, rfl⟩
    · obtain ⟨rfl, hkb, hvb⟩ := hbare _ _ _ _ hm
      obtain ⟨-, htext, rfl⟩ := (readKey_bare hkb).mp hk
      obtain ⟨hlist, rfl⟩ := (readParams_checked hvb).mp ⟨es, hl, hc⟩
      rw [hm]
      exact ⟨.params mark htext hlist, rfl⟩
  · rintro ⟨hd, rfl⟩
    generalize hroot : t.root = root at hd
    rw [hroot] at h
    have hf : follow t t.root jumps' = .ok (root, jumps') := by rw [hroot, follow_bare h]
    cases hd with
    | unwritten hu => exact ⟨[], readItems_ok.mpr ⟨_, _, hf, .inl ⟨(isUnwritten_iff h).mpr hu, rfl, rfl⟩⟩, rfl⟩
    | empty mark => exact ⟨[], readItems_ok.mpr ⟨_, _, hf, .inr (.inl ⟨mark, none, rfl, rfl, rfl⟩)⟩, rfl⟩
    | @params mark key value _ htext hlist =>
      obtain ⟨-, hkb, hvb⟩ := hbare _ _ _ _ hroot
      obtain ⟨es, hl, hc⟩ := (readParams_checked hvb).mpr ⟨hlist, rfl⟩
      have hk : readKey t ["params"] .root key jumps' = .ok ("params", jumps') :=
        (readKey_bare hkb).mpr ⟨List.mem_singleton.mpr rfl, htext, rfl⟩
      exact ⟨es, readItems_ok.mpr ⟨_, _, hf, .inr (.inr ⟨mark, none, key, value, _, rfl, hk, hl⟩)⟩, hc⟩

theorem parse_eq_ok_iff_isDocument (source : String) (h : (Text.trim source.toList).isEmpty = false)
    (hb : (treeOf source.toList).root.bare) (d : Document) :
    Document.parse source = .ok d ↔
      (treeOf source.toList).error = none ∧ (treeOf source.toList).more = false ∧
        IsDocument (treeOf source.toList).root d.params := by
  rw [parse_eq_ok h]
  simp only [read_eq_ok]
  constructor
  · rintro ⟨es, ⟨⟨jumps, hr⟩, he, hm⟩, hc⟩
    exact ⟨he, hm, ((readEntries_checked hb).mp ⟨es, hr, hc⟩).1⟩
  · rintro ⟨he, hm, hd⟩
    obtain ⟨es, hr, hc⟩ := (readEntries_checked hb).mpr ⟨hd, rfl⟩
    exact ⟨es, ⟨⟨0, hr⟩, he, hm⟩, hc⟩

def mixedText : String :=
  "params:\n- value: 0x1F\n  name: ~\n- values: [true, 1.50, '1']\n  value: null\n  name: a\n"

theorem parse_eq_ok_iff_isDocument_mixed :
    (Text.trim mixedText.toList).isEmpty = false ∧ (treeOf mixedText.toList).root.bare ∧
      Document.parse mixedText = .ok ⟨[⟨"~", .single "31"⟩, ⟨"a", .list ["true", "1.5", "1"]⟩]⟩ ∧
      IsDocument (treeOf mixedText.toList).root [⟨"~", .single "31"⟩, ⟨"a", .list ["true", "1.5", "1"]⟩] := by
  have h : (Text.trim mixedText.toList).isEmpty = false := by decide +kernel
  have hb : (treeOf mixedText.toList).root.bare := by decide +kernel
  have ho : (Document.parse mixedText).toOption =
      some ⟨[⟨"~", .single "31"⟩, ⟨"a", .list ["true", "1.5", "1"]⟩]⟩ := by decide +kernel
  cases hp : Document.parse mixedText with
  | error report =>
    rw [hp] at ho
    cases ho
  | ok d =>
    rw [hp] at ho
    obtain rfl := Option.some.inj ho
    exact ⟨h, hb, rfl, ((parse_eq_ok_iff_isDocument _ h hb _).mp hp).2.2⟩

end BraceParams.Schema
