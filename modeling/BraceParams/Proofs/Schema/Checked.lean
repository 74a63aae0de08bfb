import BraceParams.Proofs.Schema.Success

/-!
Two ways to read a document: all entries first and the checks afterwards, or each entry checked as it is
read. Both accept the same documents. If both fail, the second may tell of an entry where the first
tells of a fault behind that entry.
-/

namespace BraceParams.Schema

open Yaml

inductive Alike : Fault → Fault → Prop
  | refl (f : Fault) : Alike f f
  | expected (found : Found) (place : Option (Mark × Path)) :
      Alike (.data (.invalidType found .rawDocument) place) (.data (.invalidType found .document) place)

inductive Agree {α β : Type} (check : α → Except EntryError β) :
    Except Fault (α × Nat) → Except Fault (β × Nat) → Prop
  | accepted {a : α} {b : β} (jumps : Nat) (h : check a = .ok b) :
      Agree check (.ok (a, jumps)) (.ok (b, jumps))
  | refused {a : α} {e : EntryError} (jumps : Nat) (place : Option (Mark × Path))
      (h : check a = .error e) : Agree check (.ok (a, jumps)) (.error (.data (.entry e) place))
  | overtaken (f : Fault) (e : EntryError) (place : Option (Mark × Path)) :
      Agree check (.error f) (.error (.data (.entry e) place))
  | failed {f g : Fault} (h : Alike f g) : Agree check (.error f) (.error g)

def Refused {α β : Type} (check : α → Except EntryError β) (e : EntryError) :
    Except Fault (α × Nat) → Prop
  | .ok (a, _) => check a = .error e
  | .error _ => True

def Checks {α β : Type} (check : α → Except EntryError β) (r : Reader α) (q : Reader β) : Prop :=
  ∀ jumps, Agree check (r jumps) (q jumps)

section

variable {α β γ δ : Type} {check : α → Except EntryError β} {check' : γ → Except EntryError δ}
  {t : Tree}

theorem Alike.placed {f g : Fault} (mark : Mark) (path : Path) (h : Alike f g) :
    Alike (f.placed mark path) (g.placed mark path) := by
  cases h with
  | refl => exact .refl _
  | expected found place => cases place <;> exact .expected _ _

theorem checks_pure {a : α} {b : β} (h : check a = .ok b) : Checks check (pure a) (pure b) :=
  fun jumps => .accepted jumps h

theorem checks_throw (f : Fault) : Checks check (throw f) (throw f) :=
  fun _ => .failed (.refl f)

theorem checks_mismatch (expected : Expected) (node : Node) :
    Checks check (mismatch t expected node) (mismatch t expected node) := by
  cases node with
  | scalar mark tag text style =>
    rw [mismatch, mismatch]
    cases scalarOf tag text style <;> exact checks_throw _
  | _ => exact checks_throw _

theorem checks_mismatch_document (node : Node) :
    Checks check (mismatch t .rawDocument node) (mismatch t .document node) := by
  cases node with
  | scalar mark tag text style =>
    rw [mismatch, mismatch]
    cases scalarOf tag text style with
    | ok s => exact fun _ => .failed (.expected _ _)
    | error cause => exact checks_throw _
  | sequence | mapping => exact fun _ => .failed (.expected _ _)
  | _ => exact checks_throw _

theorem Checks.placed {r : Reader α} {q : Reader β} (mark : Mark) (path : Path) (h : Checks check r q) :
    Checks check (placed mark path r) (placed mark path q) := by
  intro jumps
  simp only [Schema.placed]
  have hj := h jumps
  revert hj
  generalize r jumps = x
  generalize q jumps = y
  intro hj
  cases hj with
  | accepted _ ha => exact .accepted _ ha
  | refused _ place hr => cases place <;> exact .refused _ _ hr
  | overtaken _ _ place => cases place <;> exact .overtaken _ _ _
  | failed hf => exact .failed (hf.placed mark path)

theorem Checks.after {m : Reader γ} {r : γ → Reader α} {q : γ → Reader β}
    (h : ∀ x, Checks check (r x) (q x)) : Checks check (m >>= r) (m >>= q) := by
  intro jumps
  change Agree check (Except.bind (m jumps) _) (Except.bind (m jumps) _)
  cases m jumps with
  | error f => exact .failed (.refl f)
  | ok x => exact h x.1 x.2

theorem Checks.bind {r : Reader α} {q : Reader β} {k : α → Reader γ} {l : β → Reader δ}
    (h : Checks check r q) (hk : ∀ a b, check a = .ok b → Checks check' (k a) (l b))
    (he : ∀ a e jumps, check a = .error e → Refused check' e (k a jumps)) :
    Checks check' (r >>= k) (q >>= l) := by
  intro jumps
  change Agree check' (Except.bind (r jumps) _) (Except.bind (q jumps) _)
  have hj := h jumps
  revert hj
  generalize r jumps = x
  generalize q jumps = y
  intro hj
  cases hj with
  | @accepted a b jumps ha => exact hk a b ha jumps
  | @refused a e jumps place hr =>
    change Agree check' (k a jumps) (.error (.data (.entry e) place))
    have hc := he a e jumps hr
    cases hx : k a jumps with
    | ok c =>
      rw [hx] at hc
      exact .refused _ _ hc
    | error f => exact .overtaken _ _ _
  | overtaken f e place => exact .overtaken _ _ _
  | failed hf => exact .failed hf

theorem Checks.reading {r : Node → Reader α} {q : Node → Reader β} (path : Path) (node : Node)
    (h : ∀ n, Checks check (r n) (q n)) :
    Checks check (reading t path node r) (reading t path node q) :=
  .after fun n => (h n).placed (nodeMark n) path

theorem refused_mapM {r : γ → Reader α} (xs : List γ) {a : α} {e : EntryError} (jumps : Nat)
    (h : check a = .error e) :
    Refused (List.mapM check) e ((xs.mapM r >>= fun as => pure (a :: as) : Reader (List α)) jumps) := by
  change Refused _ e (Except.bind (xs.mapM r jumps) _)
  cases xs.mapM r jumps with
  | error f => trivial
  | ok x =>
    change List.mapM check (a :: x.1) = .error e
    rw [List.mapM_cons, h]
    rfl

theorem Checks.mapM {r : γ → Reader α} {q : γ → Reader β} (h : ∀ x, Checks check (r x) (q x))
    (xs : List γ) : Checks (List.mapM check) (xs.mapM r) (xs.mapM q) := by
  induction xs with
  | nil => exact checks_pure rfl
  | cons x xs ih =>
    rw [List.mapM_cons, List.mapM_cons]
    refine (h x).bind (fun a b hab => ?_) fun a e jumps hae => refused_mapM xs jumps hae
    refine ih.bind (fun as bs hs => checks_pure ?_) fun as e jumps hs => ?_
    · rw [List.mapM_cons, hab, hs]
      rfl
    · change List.mapM check (a :: as) = .error e
      rw [List.mapM_cons, hab, hs]
      rfl

theorem Checks.readList {r : Nat → Path → Node → Reader α} {q : Nat → Path → Node → Reader β}
    (h : ∀ depth path node, Checks check (r depth path node) (q depth path node)) (depth : Nat)
    (path : Path) (node : Node) :
    Checks (List.mapM check) (readList t depth path node r) (readList t depth path node q) := by
  apply Checks.reading
  intro n
  cases n with
  | sequence mark tag nodes =>
    cases depth with
    | zero => exact checks_throw _
    | succ depth => exact .mapM (fun _ => h _ _ _) _
  | _ =>
    dsimp only
    split
    · exact checks_pure rfl
    · exact checks_mismatch _ _

theorem refused_foldlM {σ τ : Type} {check : σ → Except EntryError τ} {r : σ → γ → Reader σ} {e : EntryError}
    (h : ∀ s x jumps, check s = .error e → Refused check e (r s x jumps)) (xs : List γ) {s : σ}
    (hs : check s = .error e) (jumps : Nat) : Refused check e (xs.foldlM r s jumps) := by
  induction xs generalizing s jumps with
  | nil => exact hs
  | cons x xs ih =>
    rw [List.foldlM_cons]
    change Refused check e (Except.bind (r s x jumps) _)
    have hx := h s x jumps hs
    cases hr : r s x jumps with
    | error f => trivial
    | ok y =>
      rw [hr] at hx
      exact ih hx y.2

theorem Checks.foldlM {σ τ : Type} {check : σ → Except EntryError τ} {r : σ → γ → Reader σ}
    {q : τ → γ → Reader τ} (h : ∀ s s' x, check s = .ok s' → Checks check (r s x) (q s' x))
    (he : ∀ s x e jumps, check s = .error e → Refused check e (r s x jumps)) (xs : List γ) {s : σ} {s' : τ}
    (hs : check s = .ok s') : Checks check (xs.foldlM r s) (xs.foldlM q s') := by
  induction xs generalizing s s' with
  | nil => exact checks_pure hs
  | cons x xs ih =>
    rw [List.foldlM_cons, List.foldlM_cons]
    exact (h s s' x hs).bind (fun _ _ hab => ih hab) fun _ e jumps hae =>
      refused_foldlM (fun s x jumps => he s x e jumps) xs hae jumps

def checkRead (check : α → Except EntryError β) : Option (List α) → Except EntryError (Option (List β))
  | none => .ok none
  | some as => (as.mapM check).map some

theorem checkRead_eq_ok {items : Option (List α)} {items' : Option (List β)}
    (h : checkRead check items = .ok items') :
    (items = none ∧ items' = none) ∨ ∃ as bs, items = some as ∧ items' = some bs ∧ as.mapM check = .ok bs := by
  cases items with
  | none =>
    cases h
    exact .inl ⟨rfl, rfl⟩
  | some as =>
    rw [checkRead] at h
    cases ha : as.mapM check with
    | error e =>
      rw [ha] at h
      cases h
    | ok bs =>
      rw [ha] at h
      cases h
      exact .inr ⟨as, bs, rfl, rfl, ha⟩

theorem checkRead_eq_error {items : Option (List α)} {e : EntryError} (h : checkRead check items = .error e) :
    ∃ as, items = some as ∧ as.mapM check = .error e := by
  cases items with
  | none => cases h
  | some as =>
    rw [checkRead] at h
    cases ha : as.mapM check with
    | error e' =>
      rw [ha] at h
      cases h
      exact ⟨as, rfl, ha⟩
    | ok bs =>
      rw [ha] at h
      cases h

def readParams {α : Type} (t : Tree) (r : Nat → Path → Node → Reader α) :
    Option (List α) → Node × Node → Reader (Option (List α)) :=
  readMember t .root ["params"] (fun items _ => items.isSome)
    fun path _ node _ => some <$> readList t (maxDepth - 1) path node r

theorem readParams_some_ne_ok {r : Nat → Path → Node → Reader α} {as : List α} {entry : Node × Node}
    {jumps : Nat} {x : Option (List α) × Nat} : readParams t r (some as) entry jumps ≠ .ok x := by
  intro h
  obtain ⟨name, between, -, hh, -⟩ := readMember_ok.mp h
  cases hh

theorem Checks.readParams {r : Nat → Path → Node → Reader α} {q : Nat → Path → Node → Reader β}
    (h : ∀ depth path node, Checks check (r depth path node) (q depth path node))
    {items : Option (List α)} {items' : Option (List β)} (hi : checkRead check items = .ok items')
    (entry : Node × Node) :
    Checks (checkRead check) (readParams t r items entry) (readParams t q items' entry) := by
  refine .after fun name => ?_
  obtain ⟨rfl, rfl⟩ | ⟨as, bs, rfl, rfl, -⟩ := checkRead_eq_ok hi
  · have hl := Checks.readList (t := t) h (maxDepth - 1) (Path.root.ofKey entry.1) entry.2
    refine Checks.bind (k := pure ∘ some) (l := pure ∘ some) hl (fun as bs hs => checks_pure ?_) ?_
    · rw [checkRead, hs]
      rfl
    · intro as e jumps hs
      change checkRead check (some as) = .error e
      rw [checkRead, hs]
      rfl
  · exact checks_throw _

theorem Checks.readItems {r : Nat → Path → Node → Reader α} {q : Nat → Path → Node → Reader β}
    (h : ∀ depth path node, Checks check (r depth path node) (q depth path node)) :
    Checks (List.mapM check) (readItems t .rawDocument r) (readItems t .document q) := by
  apply Checks.reading
  intro n
  cases n with
  | mapping mark tag entries =>
    change Checks _ (entries.foldlM (Schema.readParams t r) none >>= fun items => pure (items.getD []))
      (entries.foldlM (Schema.readParams t q) none >>= fun items => pure (items.getD []))
    have hfold : Checks (checkRead check) (entries.foldlM (Schema.readParams t r) none)
        (entries.foldlM (Schema.readParams t q) none) := by
      refine Checks.foldlM (fun _ _ entry hi => .readParams h hi entry) ?_ entries rfl
      intro items entry e jumps hi
      obtain ⟨as, rfl, -⟩ := checkRead_eq_error hi
      cases hx : Schema.readParams t r (some as) entry jumps with
      | error f => trivial
      | ok x => exact absurd hx readParams_some_ne_ok
    refine hfold.bind ?_ ?_
    · intro items items' hi
      obtain ⟨rfl, rfl⟩ | ⟨as, bs, rfl, rfl, hs⟩ := checkRead_eq_ok hi
      · exact checks_pure rfl
      · exact checks_pure hs
    · intro items e jumps hi
      obtain ⟨as, rfl, hs⟩ := checkRead_eq_error hi
      exact hs
  | _ =>
    dsimp only
    split
    · exact checks_pure rfl
    · exact checks_mismatch_document _

end

theorem readParam_checks (t : Tree) (depth : Nat) (path : Path) (node : Node) :
    Checks Entry.toParam (readEntry t depth path node) (readParam t depth path node) := by
  intro jumps
  change Agree _ _ (Except.bind (readEntry t depth path node jumps) _)
  cases readEntry t depth path node jumps with
  | error f => exact .failed (.refl f)
  | ok x =>
    obtain ⟨entry, jumps⟩ := x
    dsimp only [Except.bind]
    cases h : entry.toParam with
    | ok param => exact .accepted jumps h
    | error e => exact .refused jumps none h

def checkAll (entries : List Entry) : Except EntryError Document :=
  (entries.mapM Entry.toParam).map Document.mk

theorem checkAll_of_ok {entries : List Entry} {d : Document} (h : checkAll entries = .ok d) :
    entries.mapM Entry.toParam = .ok d.params := by
  rw [checkAll] at h
  cases hm : entries.mapM Entry.toParam with
  | error e =>
    rw [hm] at h
    cases h
  | ok params =>
    rw [hm] at h
    cases h
    rfl

theorem checkAll_of_error {entries : List Entry} {e : EntryError} (h : checkAll entries = .error e) :
    entries.mapM Entry.toParam = .error e := by
  rw [checkAll] at h
  cases hm : entries.mapM Entry.toParam with
  | error e' =>
    rw [hm] at h
    cases h
    rfl
  | ok params =>
    rw [hm] at h
    cases h

theorem readDocument_checks (t : Tree) : Checks checkAll (readEntries t) (readDocument t) := by
  rw [← bind_pure (readEntries t)]
  refine (Checks.readItems (readParam_checks t)).bind ?_ ?_
  · intro entries params h
    exact checks_pure (by rw [checkAll, h]; rfl)
  · intro entries e jumps h
    change checkAll entries = .error e
    rw [checkAll, h]
    rfl

/-- What `Document.parse` gives, beside what reading with checks on the way gives. -/
inductive Reports (source : String) : Except Report.Diagnostic Document → Except Fault Document → Prop
  | accepted (d : Document) : Reports source (.ok d) (.ok d)
  | refused (e : EntryError) (place : Option (Mark × Path)) (line column : Nat) :
      Reports source (.error (.ofEntryError e line column source)) (.error (.data (.entry e) place))
  | overtaken {f : Fault} (e : EntryError) (place : Option (Mark × Path))
      (h : read source.toList readEntries = .error f) :
      Reports source (.error (.ofFault f source)) (.error (.data (.entry e) place))
  | failed {f g : Fault} (h : Alike f g) (hf : read source.toList readEntries = .error f) :
      Reports source (.error (.ofFault f source)) (.error g)

theorem parse_reports (source : String) (h : (Text.trim source.toList).isEmpty = false) :
    Reports source (Document.parse source) (read source.toList readDocument) := by
  have hc := readDocument_checks (treeOf source.toList) 0
  rw [parse_of_not_blank h]
  revert hc
  cases hr : readEntries (treeOf source.toList) 0 with
  | error f =>
    have hf := read_of_error hr
    rw [hf]
    generalize hq : readDocument (treeOf source.toList) 0 = y
    intro hc
    cases hc with
    | overtaken _ e place =>
      rw [read_of_error hq]
      exact .overtaken e place hf
    | failed ha =>
      rw [read_of_error hq]
      exact .failed ha hf
  | ok x =>
    obtain ⟨entries, jumps⟩ := x
    have hf := read_of_ok hr
    generalize hq : readDocument (treeOf source.toList) 0 = y
    intro hc
    cases hc with
    | accepted _ ha =>
      rw [read_of_ok hq]
      cases hm : remainder (treeOf source.toList) with
      | some f =>
        rw [hm] at hf
        rw [hf]
        exact .failed (.refl f) hf
      | none =>
        rw [hm] at hf
        rw [hf]
        dsimp only [Option.elim]
        rw [checkEntries_of_ok source [] (checkAll_of_ok ha)]
        exact .accepted _
    | refused _ place ha =>
      rw [read_of_error hq]
      cases hm : remainder (treeOf source.toList) with
      | some f =>
        rw [hm] at hf
        rw [hf]
        exact .overtaken _ place hf
      | none =>
        rw [hm] at hf
        obtain ⟨line, column, he⟩ := checkEntries_of_error source [] (checkAll_of_error ha)
        rw [hf]
        dsimp only [Option.elim]
        rw [he]
        exact .refused _ place line column

theorem Reports.ok_iff {source : String} {p : Except Report.Diagnostic Document} {q : Except Fault Document}
    (h : Reports source p q) (d : Document) : p = .ok d ↔ q = .ok d := by
  cases h <;> simp

theorem Reports.error_iff {source : String} {p : Except Report.Diagnostic Document} {q : Except Fault Document}
    (h : Reports source p q) : (∃ report, p = .error report) ↔ ∃ fault, q = .error fault := by
  cases h <;> simp

theorem parse_eq_ok_iff_readDocument (source : String) (h : (Text.trim source.toList).isEmpty = false) :
    (∀ d, Document.parse source = .ok d ↔ read source.toList readDocument = .ok d) ∧
      ((∃ report, Document.parse source = .error report) ↔
        ∃ fault, read source.toList readDocument = .error fault) ∧
      Reports source (Document.parse source) (read source.toList readDocument) := by
  have hr := parse_reports source h
  exact ⟨hr.ok_iff, hr.error_iff, hr⟩

def Fault.refusal? : Fault → Option EntryError
  | .data (.entry e) _ => some e
  | _ => none

theorem parse_eq_ok_iff_readDocument_overtaken :
    (Text.trim "params: [{name: a}, {nam: b}]".toList).isEmpty = false ∧
      (∃ report, Document.parse "params: [{name: a}, {nam: b}]" = .error report ∧
        report.kind = .unknownField) ∧
      ∃ fault, read "params: [{name: a}, {nam: b}]".toList readDocument = .error fault ∧
        fault.refusal? = some (.missingValue "a") := by
  have h : (Text.trim "params: [{name: a}, {nam: b}]".toList).isEmpty = false := by decide +kernel
  obtain ⟨-, hiff, -⟩ := parse_eq_ok_iff_readDocument _ h
  have hk : (error? (Document.parse "params: [{name: a}, {nam: b}]")).map (·.kind) = some .unknownField := by
    decide +kernel
  have hf : (error? (read "params: [{name: a}, {nam: b}]".toList readDocument)).bind Fault.refusal? =
      some (.missingValue "a") := by decide +kernel
  cases hp : Document.parse "params: [{name: a}, {nam: b}]" with
  | ok d =>
    rw [hp] at hk
    cases hk
  | error report =>
    obtain ⟨fault, hq⟩ := hiff.mp ⟨report, hp⟩
    rw [hp] at hk
    rw [hq] at hf
    exact ⟨h, ⟨report, rfl, Option.some.inj hk⟩, fault, hq, hf⟩

end BraceParams.Schema
