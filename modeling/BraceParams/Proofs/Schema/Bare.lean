import BraceParams.Proofs.Schema.Shape

namespace BraceParams.Schema

open Yaml

variable {α β : Type} {t : Tree} {jumps jumps' : Nat} {path : Path} {node : Node}

theorem follow_bare (h : node.bare) : follow t node jumps = .ok (node, jumps) := by
  cases node with
  | scalar | sequence | mapping | nothing | cut => rfl
  | _ => cases h

theorem follow_bind {k : Node → Reader α} (h : node.bare) : (follow t node >>= k) jumps = k node jumps := by
  change Except.bind (follow t node jumps) _ = _
  rw [follow_bare h]
  rfl

theorem reading_bare {r : Node → Reader α} {x : α × Nat} (h : node.bare) :
    reading t path node r jumps = .ok x ↔ r node jumps = .ok x := by
  rw [reading, follow_bind h]
  exact placed_ok

theorem isUnwritten_iff (h : node.bare) : isUnwritten node ↔ Unwritten node := by
  constructor
  · intro hu
    cases node with
    | scalar mark tag text style =>
      simp only [isUnwritten, Bool.and_eq_true, List.isEmpty_iff, decide_eq_true_eq] at hu
      obtain ⟨rfl, rfl⟩ := hu
      obtain rfl : tag = none := by simpa [Node.bare] using h
      exact .plain mark
    | nothing mark => exact .nothing mark
    | _ => cases hu
  · intro hu
    cases hu <;> rfl

theorem scalar_tag {mark : Mark} {tag : Option Octets} {text : List Char} {style : Style}
    (h : (Node.scalar mark tag text style).bare) : tag = none := by
  simpa [Node.bare] using h

theorem readText_bare {expected : Expected} {text : List Char} (h : node.bare) :
    readText t expected path node jumps = .ok (text, jumps') ↔ scalarText? node = some text ∧ jumps' = jumps := by
  rw [readText, reading_bare h]
  cases node with
  | scalar mark tag text' style =>
    rw [pure_ok, scalarText?, Option.some.injEq, eq_comm (a := text)]
  | _ => simpa [scalarText?] using mismatch_ne_ok

theorem readKey_bare {known : List String} {name : String} (h : node.bare) :
    readKey t known path node jumps = .ok (name, jumps') ↔
      name ∈ known ∧ scalarText? node = some name.toList ∧ jumps' = jumps := by
  rw [readKey, reading_bare h, bind_ok]
  constructor
  · rintro ⟨text, between, hr, hn⟩
    obtain ⟨ht, rfl⟩ := (readText_bare h).mp hr
    cases hf : known.find? (·.toList = text) with
    | none =>
      rw [hf] at hn
      exact absurd hn fail_ne_ok
    | some found =>
      rw [hf] at hn
      obtain ⟨rfl, rfl⟩ := pure_ok.mp hn
      have he : name.toList = text := by simpa using List.find?_some hf
      exact ⟨List.mem_of_find?_eq_some hf, by rw [ht, he], rfl⟩
  · rintro ⟨hm, ht, rfl⟩
    refine ⟨name.toList, jumps', (readText_bare h).mpr ⟨ht, rfl⟩, ?_⟩
    have hf : known.find? (·.toList = name.toList) = some name := by
      cases hf : known.find? (·.toList = name.toList) with
      | none =>
        have := List.find?_eq_none.mp hf name hm
        simp at this
      | some found =>
        have he : found.toList = name.toList := by simpa using List.find?_some hf
        rw [String.toList_inj.mp he]
    rw [hf]
    exact pure_ok.mpr ⟨rfl, rfl⟩

theorem readBoolean_bare {b : Bool} (h : node.bare) :
    readBoolean t path node jumps = .ok (b, jumps') ↔ ReadsBoolean node b ∧ jumps' = jumps := by
  rw [readBoolean, reading_bare h]
  constructor
  · intro hr
    cases node with
    | scalar mark tag text style =>
      obtain rfl := scalar_tag h
      cases hb : Scalar.boolean? text with
      | none =>
        simp only [hb] at hr
        exact absurd hr mismatch_ne_ok
      | some b' =>
        simp only [hb] at hr
        split at hr
        · next hs =>
          obtain ⟨rfl, rfl⟩ := pure_ok.mp hr
          obtain rfl : style = .plain := by simpa using hs
          exact ⟨.plain mark hb, rfl⟩
        · exact absurd hr mismatch_ne_ok
    | _ => exact absurd hr mismatch_ne_ok
  · rintro ⟨⟨mark, hb⟩, rfl⟩
    simp only [hb]
    exact pure_ok.mpr ⟨rfl, rfl⟩

theorem isNull_iff {text : List Char} :
    Scalar.isNull text ↔ text ∈ [['~'], "null".toList, "Null".toList, "NULL".toList] := by
  simp [Scalar.isNull]
  tauto

theorem integer?_cases {text : List Char} {s : Scalar} (h : Scalar.integer? text = some s) :
    (∃ n : Int, s = .integer n ∧ -(2 ^ 63) ≤ n ∧ n < 2 ^ 64) ∨ (∃ n, s = .wideUnsigned n) ∨
      ∃ n, s = .wideSigned n := by
  unfold Scalar.integer? at h
  split at h
  · next n _ =>
    split at h
    · next hn =>
      cases h
      refine .inl ⟨n, rfl, by omega, ?_⟩
      have : n < 2 ^ 64 := hn
      omega
    · split at h
      · cases h
        exact .inr (.inl ⟨n, rfl⟩)
      · cases h
  · next n _ hneg =>
    have hn : n ≤ 0 := by
      unfold Scalar.negative? at hneg
      split at hneg
      · obtain ⟨m, hm, rfl⟩ := Option.map_eq_some_iff.mp hneg
        obtain ⟨k, -, hk⟩ := Option.bind_eq_some_iff.mp hm
        cases hk
        omega
      · cases hneg
    split at h
    · next hl =>
      cases h
      have : -((2 ^ 63 : Nat) : Int) ≤ n := hl
      exact .inl ⟨n, rfl, by simpa using this, by omega⟩
    · split at h
      · cases h
        exact .inr (.inr ⟨n, rfl⟩)
      · cases h
  · cases h

theorem ofPlain_cases (text : List Char) :
    (Scalar.ofPlain text = .null ∧ (text = [] ∨ Scalar.isNull text)) ∨
      (text ≠ [] ∧ ¬Scalar.isNull text ∧ ((∃ b, Scalar.ofPlain text = .boolean b) ∨
        (∃ n : Int, Scalar.ofPlain text = .integer n ∧ -(2 ^ 63) ≤ n ∧ n < 2 ^ 64) ∨
        (∃ n, Scalar.ofPlain text = .wideUnsigned n) ∨ (∃ n, Scalar.ofPlain text = .wideSigned n) ∨
        (∃ x, Scalar.ofPlain text = .float x) ∨ Scalar.ofPlain text = .text)) := by
  rw [Scalar.ofPlain]
  split
  · next h =>
    rw [Bool.or_eq_true, List.isEmpty_iff] at h
    exact .inl ⟨rfl, h⟩
  · next h =>
    rw [Bool.or_eq_true, List.isEmpty_iff, not_or] at h
    refine .inr ⟨h.1, h.2, ?_⟩
    split
    · next b _ => exact .inl ⟨b, rfl⟩
    · split
      · next s hs =>
        obtain ⟨n, rfl, hn⟩ | ⟨n, rfl⟩ | ⟨n, rfl⟩ := integer?_cases hs
        · exact .inr (.inl ⟨n, rfl, hn⟩)
        · exact .inr (.inr (.inl ⟨n, rfl⟩))
        · exact .inr (.inr (.inr (.inl ⟨n, rfl⟩)))
      · split
        · exact .inr (.inr (.inr (.inr (.inr rfl))))
        · split
          · next x _ => exact .inr (.inr (.inr (.inr (.inl ⟨x, rfl⟩))))
          · exact .inr (.inr (.inr (.inr (.inr rfl))))

def kindOf (text : List Char) (style : Style) : Scalar :=
  if style = .plain then .ofPlain text else .text

theorem readValue_scalar {depth : Nat} {mark : Mark} {text : List Char} {style : Style} {v : Value} :
    readValue t depth path (.scalar mark none text style) jumps = .ok (v, jumps') ↔
      valueOfScalar text (kindOf text style) = .ok v ∧ jumps' = jumps := by
  rw [readValue, reading_bare rfl]
  simp only [localName?, Option.isSome_none, Bool.false_eq_true, if_false, scalarOf, bind_ok, map_ok,
    liftCause_ok, withTag, Except.ok.injEq]
  constructor
  · rintro ⟨_, _, ⟨rfl, rfl⟩, _, h, rfl⟩
    exact h
  · intro h
    exact ⟨_, _, ⟨rfl, rfl⟩, v, h, rfl⟩

theorem valueOfScalar_text {mark : Mark} {text : List Char} {style : Style} {s : String} :
    (∃ v, valueOfScalar text (kindOf text style) = .ok v ∧ textOf v = .ok s) ↔
      Reads (.scalar mark none text style) s := by
  constructor
  · rintro ⟨v, hv, hs⟩
    by_cases hp : style = .plain
    · subst hp
      rw [kindOf, if_pos rfl] at hv
      obtain ⟨hk, -⟩ | ⟨-, -, ⟨b, hk⟩ | ⟨n, hk, low, high⟩ | ⟨n, hk⟩ | ⟨n, hk⟩ | ⟨x, hk⟩ | hk⟩ :=
        ofPlain_cases text
      all_goals
        rw [hk] at hv
        cases hv
      · cases hs
      · cases b <;> cases hs
        · exact .boolean mark hk
        · exact .boolean mark hk
      · cases hs
        exact .integer mark hk low high
      · cases hs
        exact .float mark hk
      · cases hs
        exact .string mark hk
    · rw [kindOf, if_neg hp] at hv
      cases hv
      cases hs
      exact .unplain mark text hp
  · intro h
    cases h with
    | unplain _ _ hp => exact ⟨_, by rw [kindOf, if_neg hp]; rfl, rfl⟩
    | string _ hk => exact ⟨_, by rw [kindOf, if_pos rfl, hk]; rfl, rfl⟩
    | @boolean _ _ b hk => exact ⟨_, by rw [kindOf, if_pos rfl, hk]; rfl, by cases b <;> rfl⟩
    | integer _ hk => exact ⟨_, by rw [kindOf, if_pos rfl, hk]; rfl, rfl⟩
    | float _ hk => exact ⟨_, by rw [kindOf, if_pos rfl, hk]; rfl, rfl⟩

theorem textOf_ne_ok {depth : Nat} {v : Value} (h : node.bare) (hs : scalarText? node = none)
    (hv : readValue t depth path node jumps = .ok (v, jumps')) (s : String) : textOf v ≠ .ok s := by
  rw [readValue, reading_bare h] at hv
  cases node with
  | scalar => cases hs
  | sequence mark tag items =>
    obtain rfl : tag = none := by
      rw [Node.bare, Bool.and_eq_true, Option.isNone_iff_eq_none] at h
      exact h.1
    cases depth with
    | zero => exact absurd hv throw_ne_ok
    | succ depth =>
      obtain ⟨values, between, -, hv⟩ := bind_ok.mp hv
      obtain ⟨rfl, -⟩ := pure_ok.mp hv
      simp [withTag, localName?, textOf]
  | mapping mark tag entries =>
    obtain rfl : tag = none := by
      rw [Node.bare, Bool.and_eq_true, Option.isNone_iff_eq_none] at h
      exact h.1
    cases depth with
    | zero => exact absurd hv throw_ne_ok
    | succ depth =>
      obtain ⟨values, between, -, hv⟩ := bind_ok.mp hv
      obtain ⟨rfl, -⟩ := pure_ok.mp hv
      simp [withTag, localName?, textOf]
  | nothing mark =>
    obtain ⟨rfl, -⟩ := pure_ok.mp hv
    simp [textOf]
  | _ => exact absurd hv throw_ne_ok

theorem readValue_text {depth : Nat} {s : String} (h : node.bare) :
    (∃ v, readValue t depth path node jumps = .ok (v, jumps') ∧ textOf v = .ok s) ↔
      Reads node s ∧ jumps' = jumps := by
  constructor
  · rintro ⟨v, hr, hs⟩
    cases hn : scalarText? node with
    | none => exact absurd hs (textOf_ne_ok h hn hr s)
    | some text =>
      cases node with
      | scalar mark tag text style =>
        obtain rfl := scalar_tag h
        obtain ⟨hv, rfl⟩ := readValue_scalar.mp hr
        exact ⟨valueOfScalar_text.mp ⟨v, hv, hs⟩, rfl⟩
      | _ => cases hn
  · rintro ⟨hr, rfl⟩
    cases node with
    | scalar mark tag text style =>
      obtain rfl := scalar_tag h
      obtain ⟨v, hv, hs⟩ := valueOfScalar_text.mpr hr
      exact ⟨v, readValue_scalar.mpr ⟨hv, rfl⟩, hs⟩
    | _ => cases hr

section

variable {γ ε : Type} {check : α → Except ε β}

theorem mapM_cons_ok {f : α → Except ε β} {a : α} {as : List α} {bs : List β} :
    (a :: as).mapM f = .ok bs ↔ ∃ b bs', f a = .ok b ∧ as.mapM f = .ok bs' ∧ bs = b :: bs' := by
  rw [List.mapM_cons]
  cases f a with
  | error e => simp [bind, Except.bind]
  | ok b => cases as.mapM f <;> simp [bind, Except.bind, pure, Except.pure, eq_comm]

theorem mapM_checked {r : γ → Reader α} {R : γ → β → Prop} {xs : List γ}
    (h : ∀ x ∈ xs, ∀ jumps jumps' b,
      (∃ a, r x jumps = .ok (a, jumps') ∧ check a = .ok b) ↔ R x b ∧ jumps' = jumps) {bs : List β} :
    (∃ as, xs.mapM r jumps = .ok (as, jumps') ∧ as.mapM check = .ok bs) ↔
      List.Forall₂ R xs bs ∧ jumps' = jumps := by
  induction xs generalizing bs jumps with
  | nil =>
    constructor
    · rintro ⟨as, hr, hc⟩
      obtain ⟨rfl, rfl⟩ := pure_ok.mp hr
      cases hc
      exact ⟨.nil, rfl⟩
    · rintro ⟨h, rfl⟩
      cases h
      exact ⟨[], rfl, rfl⟩
  | cons x xs ih =>
    have hx := h x List.mem_cons_self
    have hxs := fun y hy => h y (List.mem_cons_of_mem x hy)
    rw [List.mapM_cons]
    constructor
    · rintro ⟨as, hr, hc⟩
      obtain ⟨a, between, ha, hr⟩ := bind_ok.mp hr
      obtain ⟨as', last, has, hr⟩ := bind_ok.mp hr
      obtain ⟨rfl, rfl⟩ := pure_ok.mp hr
      obtain ⟨b, bs', hb, hbs, rfl⟩ := mapM_cons_ok.mp hc
      obtain ⟨hR, rfl⟩ := (hx _ _ _).mp ⟨a, ha, hb⟩
      obtain ⟨hRs, rfl⟩ := (ih hxs).mp ⟨as', has, hbs⟩
      exact ⟨.cons hR hRs, rfl⟩
    · rintro ⟨hR, rfl⟩
      cases hR with
      | cons hR hRs =>
        obtain ⟨a, ha, hb⟩ := (hx _ _ _).mpr ⟨hR, rfl⟩
        obtain ⟨as, has, hbs⟩ := (ih hxs).mpr ⟨hRs, rfl⟩
        refine ⟨a :: as, ?_, mapM_cons_ok.mpr ⟨_, _, hb, hbs, rfl⟩⟩
        exact bind_ok.mpr ⟨a, _, ha, bind_ok.mpr ⟨as, _, has, pure_ok.mpr ⟨rfl, rfl⟩⟩⟩

theorem readList_checked {r : Nat → Path → Node → Reader α} {R : Node → β → Prop} {depth : Nat}
    (h : ∀ node : Node, node.bare → ∀ path jumps jumps' b,
      (∃ a, r depth path node jumps = .ok (a, jumps') ∧ check a = .ok b) ↔ R node b ∧ jumps' = jumps)
    (hn : node.bare) {bs : List β} :
    (∃ as, readList t (depth + 1) path node r jumps = .ok (as, jumps') ∧ as.mapM check = .ok bs) ↔
      ((Unwritten node ∧ bs = []) ∨ SequenceOf R node bs) ∧ jumps' = jumps := by
  have hitems : ∀ mark items, node = .sequence mark none items →
      ((∃ as, (items.zipIdx.mapM fun x => r depth (path.item x.2) x.1 : Reader (List α)) jumps =
        .ok (as, jumps') ∧ as.mapM check = .ok bs) ↔ List.Forall₂ R items bs ∧ jumps' = jumps) := by
    rintro mark items rfl
    have hb := Node.bareItems_iff.mp (by simpa [Node.bare] using hn)
    rw [mapM_checked (R := fun x b => R x.1 b) fun x hx => h x.1 (hb x.1 (List.fst_mem_of_mem_zipIdx hx)) _]
    rw [← List.forall₂_map_left_iff, List.zipIdx_map_fst]
  constructor
  · rintro ⟨as, hr, hc⟩
    obtain ⟨n, between, hf, hr⟩ := readList_ok.mp hr
    rw [follow_bare hn, Except.ok.injEq, Prod.mk.injEq] at hf
    obtain ⟨rfl, rfl⟩ := hf
    rcases hr with ⟨hu, rfl, rfl⟩ | ⟨mark, tag, items, rfl, hi⟩
    · cases hc
      exact ⟨.inl ⟨(isUnwritten_iff hn).mp hu, rfl⟩, rfl⟩
    · obtain rfl : tag = none := by
        rw [Node.bare, Bool.and_eq_true, Option.isNone_iff_eq_none] at hn
        exact hn.1
      obtain ⟨hR, rfl⟩ := (hitems mark items rfl).mp ⟨as, hi, hc⟩
      exact ⟨.inr (.items mark hR), rfl⟩
  · rintro ⟨⟨hu, rfl⟩ | ⟨mark, hR⟩, rfl⟩
    · refine ⟨[], readList_ok.mpr ⟨node, jumps', follow_bare hn, .inl ⟨?_, rfl, rfl⟩⟩, rfl⟩
      exact (isUnwritten_iff hn).mpr hu
    · obtain ⟨as, hr, hc⟩ := (hitems mark _ rfl).mpr ⟨hR, rfl⟩
      exact ⟨as, readList_ok.mpr ⟨_, jumps', follow_bare hn, .inr ⟨mark, none, _, rfl, hr⟩⟩, hc⟩

theorem readOption_null {r : Path → Node → Reader α} (h : Null node) :
    readOption t path node r jumps = .ok (none, jumps) := by
  cases h with
  | unwritten hu => cases hu <;> rfl
  | @word mark text hw =>
    have hn : (text.isEmpty || Scalar.isNull text) = true := by rw [isNull_iff.mpr hw, Bool.or_true]
    have hb : (Node.scalar mark none text .plain).bare := rfl
    rw [readOption, follow_bind hb]
    dsimp only
    rw [if_pos hn]
    rfl

theorem readOption_given {r : Path → Node → Reader α} (hn : node.bare) (h : ¬Null node) (hc : node ≠ .cut) :
    readOption t path node r jumps = (some <$> r path node) jumps := by
  rw [readOption, follow_bind hn]
  cases node with
  | scalar mark tag text style =>
    obtain rfl := scalar_tag hn
    cases style with
    | plain =>
      dsimp only
      rw [if_neg]
      rw [Bool.or_eq_true, List.isEmpty_iff, not_or]
      constructor
      · rintro rfl
        exact h (.unwritten (.plain mark))
      · exact fun hw => h (.word mark (isNull_iff.mp hw))
    | _ => rfl
  | nothing mark => exact absurd (.unwritten (.nothing mark)) h
  | cut => exact absurd rfl hc
  | _ => rfl

theorem readOption_checked {r : Path → Node → Reader α} {R : Node → β → Prop}
    (h : ¬Null node → ∀ jumps jumps' b,
      (∃ a, r path node jumps = .ok (a, jumps') ∧ check a = .ok b) ↔ R node b ∧ jumps' = jumps)
    (hn : node.bare) (hnull : ∀ b, R node b → ¬Null node) (hcut : ∀ b, ¬R .cut b) {o : Option β} :
    (∃ a, readOption t path node r jumps = .ok (a, jumps') ∧ a.mapM check = .ok o) ↔
      Optional R (some node) o ∧ jumps' = jumps := by
  by_cases hu : Null node
  · rw [readOption_null hu]
    constructor
    · rintro ⟨a, ha, hc⟩
      cases ha
      cases hc
      exact ⟨.null hu, rfl⟩
    · rintro ⟨ho, rfl⟩
      cases ho with
      | null => exact ⟨none, rfl, rfl⟩
      | given hR => exact absurd hu (hnull _ hR)
  · by_cases hc : node = .cut
    · subst hc
      constructor
      · rintro ⟨a, ha, -⟩
        have ht : (throw (breakFault t) : Reader (Option α)) jumps = .ok (a, jumps') := ha
        exact absurd ht throw_ne_ok
      · rintro ⟨ho, -⟩
        cases ho with
        | null hu' => exact absurd hu' hu
        | given hR => exact absurd hR (hcut _)
    · rw [readOption_given hn hu hc]
      constructor
      · rintro ⟨a, ha, hb⟩
        obtain ⟨a, hr, rfl⟩ := map_ok.mp ha
        cases hx : check a with
        | error e =>
          rw [Option.mapM_some, hx] at hb
          cases hb
        | ok b =>
          rw [Option.mapM_some, hx] at hb
          cases hb
          obtain ⟨hR, rfl⟩ := (h hu _ _ _).mp ⟨a, hr, hx⟩
          exact ⟨.given hR, rfl⟩
      · rintro ⟨ho, rfl⟩
        cases ho with
        | null hu' => exact absurd hu' hu
        | given hR =>
          obtain ⟨a, hr, hx⟩ := (h hu _ _ _).mpr ⟨hR, rfl⟩
          refine ⟨some a, map_ok.mpr ⟨a, hr, rfl⟩, ?_⟩
          rw [Option.mapM_some, hx]
          rfl

end

theorem Null.plain (h : Null node) (hs : scalarText? node ≠ none) :
    ∃ mark text, node = .scalar mark none text .plain ∧ Scalar.ofPlain text = .null := by
  rcases h with ⟨mark | mark⟩ | ⟨mark, hw⟩
  · exact absurd rfl hs
  · exact ⟨mark, [], rfl, rfl⟩
  · refine ⟨mark, _, rfl, ?_⟩
    rw [Scalar.ofPlain, if_pos]
    rw [isNull_iff.mpr hw, Bool.or_true]

theorem Reads.not_null {s : String} (h : Reads node s) : ¬Null node := by
  intro hn
  have hs : scalarText? node ≠ none := by cases h <;> simp [scalarText?]
  obtain ⟨mark, text, rfl, hp⟩ := hn.plain hs
  cases h with
  | unplain _ _ hs => exact hs rfl
  | string _ h | boolean _ h | integer _ h | float _ h =>
    rw [hp] at h
    cases h

theorem SequenceOf.not_null {R : Node → α → Prop} {as : List α} (h : SequenceOf R node as) : ¬Null node := by
  cases h
  rintro ⟨⟨⟩⟩

end BraceParams.Schema
