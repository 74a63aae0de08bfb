import Mathlib.Data.List.Forall2
import BraceParams.Parse

namespace BraceParams.Schema

open Yaml

variable {α β : Type} {t : Tree} {jumps jumps' : Nat}

def error? {ε : Type} : Except ε α → Option ε
  | .error e => some e
  | .ok _ => none

theorem pure_ok {a b : α} : (pure a : Reader α) jumps = .ok (b, jumps') ↔ b = a ∧ jumps' = jumps := by
  change Except.ok (a, jumps) = .ok (b, jumps') ↔ _
  rw [Except.ok.injEq, Prod.mk.injEq]
  exact and_congr eq_comm eq_comm

theorem bind_ok {r : Reader α} {k : α → Reader β} {b : β} :
    (r >>= k) jumps = .ok (b, jumps') ↔
      ∃ a between, r jumps = .ok (a, between) ∧ k a between = .ok (b, jumps') := by
  change Except.bind (r jumps) _ = _ ↔ _
  cases r jumps with
  | error fault => simp [Except.bind]
  | ok x =>
    obtain ⟨a, between⟩ := x
    simp [Except.bind]

theorem map_ok {r : Reader α} {f : α → β} {b : β} :
    (f <$> r) jumps = .ok (b, jumps') ↔ ∃ a, r jumps = .ok (a, jumps') ∧ f a = b := by
  rw [map_eq_pure_bind, bind_ok]
  constructor
  · rintro ⟨a, between, ha, hb⟩
    obtain ⟨rfl, rfl⟩ := pure_ok.mp hb
    exact ⟨a, ha, rfl⟩
  · rintro ⟨a, ha, rfl⟩
    exact ⟨a, jumps', ha, rfl⟩

theorem throw_ne_ok {fault : Fault} {x : α × Nat} : (throw fault : Reader α) jumps ≠ .ok x := by
  intro h
  cases h

theorem fail_ne_ok {cause : Cause} {x : α × Nat} : (fail cause : Reader α) jumps ≠ .ok x :=
  throw_ne_ok

theorem mismatch_ne_ok {expected : Expected} {node : Node} {x : α × Nat} :
    (mismatch t expected node : Reader α) jumps ≠ .ok x := by
  cases node with
  | scalar mark tag text style =>
    rw [mismatch]
    cases scalarOf tag text style with
    | ok s => exact fail_ne_ok
    | error cause => exact fail_ne_ok
  | _ => exact throw_ne_ok

theorem placed_ok {mark : Mark} {path : Path} {r : Reader α} {x : α × Nat} :
    placed mark path r jumps = .ok x ↔ r jumps = .ok x := by
  rw [placed]
  cases r jumps <;> simp

theorem reading_ok {path : Path} {node : Node} {r : Node → Reader α} {a : α} :
    reading t path node r jumps = .ok (a, jumps') ↔
      ∃ n between, follow t node jumps = .ok (n, between) ∧ r n between = .ok (a, jumps') := by
  simp only [reading, bind_ok, placed_ok]

theorem liftCause_ok {e : Except Cause α} {a : α} :
    liftCause e jumps = .ok (a, jumps') ↔ e = .ok a ∧ jumps' = jumps := by
  cases e with
  | ok b => rw [liftCause, pure_ok, Except.ok.injEq, eq_comm (a := a)]
  | error cause => simpa [liftCause] using fail_ne_ok

def readKey (t : Tree) (known : List String) (path : Path) (key : Node) : Reader String :=
  reading t path key fun key => do
    let name ← readText t .fieldName path key
    match known.find? (·.toList = name) with
    | some name => pure name
    | none => fail (.unknownField name known)

theorem readKey_mem {known : List String} {path : Path} {key : Node} {name : String}
    (h : readKey t known path key jumps = .ok (name, jumps')) : name ∈ known := by
  obtain ⟨n, between, -, h⟩ := reading_ok.mp h
  obtain ⟨text, last, -, h⟩ := bind_ok.mp h
  cases hf : known.find? (·.toList = text) with
  | some found =>
    rw [hf] at h
    obtain ⟨rfl, -⟩ := pure_ok.mp h
    exact List.mem_of_find?_eq_some hf
  | none =>
    rw [hf] at h
    exact absurd h fail_ne_ok

def readMember (t : Tree) (path : Path) (known : List String) (has : α → String → Bool)
    (field : Path → String → Node → α → Reader α) (record : α) (entry : Node × Node) : Reader α := do
  let name ← readKey t known path entry.1
  if has record name then fail (.duplicateField name)
  else field (path.ofKey entry.1) name entry.2 record

theorem readMember_ok {path : Path} {known : List String} {has : α → String → Bool}
    {field : Path → String → Node → α → Reader α} {record after : α} {entry : Node × Node} :
    readMember t path known has field record entry jumps = .ok (after, jumps') ↔
      ∃ name between, readKey t known path entry.1 jumps = .ok (name, between) ∧
        has record name = false ∧
        field (path.ofKey entry.1) name entry.2 record between = .ok (after, jumps') := by
  rw [readMember, bind_ok]
  refine exists_congr fun name => exists_congr fun between => and_congr_right fun _ => ?_
  cases has record name with
  | true => simpa using fail_ne_ok
  | false => simp

theorem readRecord_ok {depth : Nat} {path : Path} {node : Node} {expected : Expected}
    {known : List String} {record : α} {has : α → String → Bool}
    {field : Nat → Path → String → Node → α → Reader α} {finish : α → Reader β} {b : β} :
    readRecord t (depth + 1) path node expected known record has field finish jumps = .ok (b, jumps') ↔
      ∃ n between, follow t node jumps = .ok (n, between) ∧
        ((isUnwritten n ∧ finish record between = .ok (b, jumps')) ∨
          ∃ mark tag entries after last, n = .mapping mark tag entries ∧
            entries.foldlM (readMember t path known has (field depth)) record between =
              .ok (after, last) ∧
            finish after last = .ok (b, jumps')) := by
  rw [readRecord, reading_ok]
  refine exists_congr fun n => exists_congr fun between => and_congr_right fun _ => ?_
  cases n with
  | mapping mark tag entries =>
    change ((entries.foldlM (readMember t path known has (field depth)) record) >>= finish) between =
      .ok (b, jumps') ↔ _
    simp [bind_ok, isUnwritten]
  | _ =>
    dsimp only
    split <;> simp_all [mismatch_ne_ok]

theorem readList_ok {depth : Nat} {path : Path} {node : Node} {r : Nat → Path → Node → Reader α}
    {items : List α} :
    readList t (depth + 1) path node r jumps = .ok (items, jumps') ↔
      ∃ n between, follow t node jumps = .ok (n, between) ∧
        ((isUnwritten n ∧ items = [] ∧ jumps' = between) ∨
          ∃ mark tag nodes, n = .sequence mark tag nodes ∧
            (nodes.zipIdx.mapM fun (item, index) => r depth (path.item index) item : Reader (List α))
              between = .ok (items, jumps')) := by
  rw [readList, reading_ok]
  refine exists_congr fun n => exists_congr fun between => and_congr_right fun _ => ?_
  cases n with
  | sequence mark tag nodes => simp [deeper, isUnwritten]
  | _ =>
    dsimp only
    split <;> simp_all [mismatch_ne_ok, pure_ok]

theorem readItems_ok {expected : Expected} {r : Nat → Path → Node → Reader α} {items : List α} :
    readItems t expected r jumps = .ok (items, jumps') ↔
      ∃ n between, follow t t.root jumps = .ok (n, between) ∧
        ((isUnwritten n ∧ items = [] ∧ jumps' = between) ∨
          (∃ mark tag, n = .mapping mark tag [] ∧ items = [] ∧ jumps' = between) ∨
          ∃ mark tag key value last, n = .mapping mark tag [(key, value)] ∧
            readKey t ["params"] .root key between = .ok ("params", last) ∧
            readList t (maxDepth - 1) (Path.root.ofKey key) value r last = .ok (items, jumps')) := by
  rw [readItems, maxDepth, readRecord_ok]
  refine exists_congr fun n => exists_congr fun between => and_congr_right fun _ => ?_
  constructor
  · rintro (⟨hu, h⟩ | ⟨mark, tag, entries, after, last, rfl, hf, h⟩)
    · exact .inl ⟨hu, pure_ok.mp h⟩
    · obtain ⟨rfl, rfl⟩ := pure_ok.mp h
      match entries with
      | [] =>
        obtain ⟨rfl, rfl⟩ := pure_ok.mp hf
        exact .inr (.inl ⟨mark, tag, rfl, rfl, rfl⟩)
      | (key, value) :: entries =>
        obtain ⟨first, middle, hm, hf⟩ := bind_ok.mp hf
        obtain ⟨name, start, hk, -, hf'⟩ := readMember_ok.mp hm
        obtain ⟨items, hv, rfl⟩ := map_ok.mp hf'
        obtain rfl : name = "params" := List.mem_singleton.mp (readKey_mem hk)
        match entries with
        | [] =>
          obtain ⟨rfl, rfl⟩ := pure_ok.mp hf
          exact .inr (.inr ⟨mark, tag, key, value, start, rfl, hk, hv⟩)
        | e :: entries =>
          obtain ⟨second, middle', hm, -⟩ := bind_ok.mp hf
          obtain ⟨name, start', -, hh, -⟩ := readMember_ok.mp hm
          cases hh
  · rintro (⟨hu, rfl, rfl⟩ | ⟨mark, tag, rfl, rfl, rfl⟩ | ⟨mark, tag, key, value, last, rfl, hk, hv⟩)
    · exact .inl ⟨hu, pure_ok.mpr ⟨rfl, rfl⟩⟩
    · exact .inr ⟨mark, tag, [], none, _, rfl, pure_ok.mpr ⟨rfl, rfl⟩, pure_ok.mpr ⟨rfl, rfl⟩⟩
    · refine .inr ⟨mark, tag, [(key, value)], some items, jumps', rfl, ?_, pure_ok.mpr ⟨rfl, rfl⟩⟩
      refine bind_ok.mpr ⟨some items, jumps', ?_, pure_ok.mpr ⟨rfl, rfl⟩⟩
      exact readMember_ok.mpr ⟨"params", last, hk, rfl, map_ok.mpr ⟨items, hv, rfl⟩⟩

def treeOf (text : List Char) : Tree :=
  Tree.ofEvents (Events.ofTokens (Tokens.ofText text))

def remainder (t : Tree) : Option Fault :=
  match t.error with
  | some b => some (.broken b)
  | none => if t.more then some .moreDocuments else none

theorem remainder_eq_none {t : Tree} : remainder t = none ↔ t.error = none ∧ t.more = false := by
  rw [remainder]
  cases t.error <;> simp

theorem read_of_error {text : List Char} {r : Tree → Reader α} {f : Fault}
    (h : r (treeOf text) 0 = .error f) : read text r = .error f := by
  rw [treeOf] at h
  rw [read, h]

theorem read_of_ok {text : List Char} {r : Tree → Reader α} {a : α} {jumps : Nat}
    (h : r (treeOf text) 0 = .ok (a, jumps)) :
    read text r = (remainder (treeOf text)).elim (.ok a) .error := by
  rw [treeOf] at h
  rw [read, h, remainder, treeOf]
  dsimp only
  generalize Tree.ofEvents _ = t
  cases t.error with
  | some b => rfl
  | none => cases t.more <;> rfl

theorem read_eq_ok {text : List Char} {r : Tree → Reader α} {a : α} :
    read text r = .ok a ↔
      (∃ jumps, r (treeOf text) 0 = .ok (a, jumps)) ∧ (treeOf text).error = none ∧ (treeOf text).more = false := by
  rw [← remainder_eq_none]
  cases h : r (treeOf text) 0 with
  | error f => simp [read_of_error h]
  | ok x =>
    obtain ⟨b, jumps⟩ := x
    rw [read_of_ok h]
    cases remainder (treeOf text) <;> simp

theorem checkEntries_of_ok (source : String) {entries : List Entry} {params : List Param} (seen : List String)
    (h : entries.mapM Entry.toParam = .ok params) : checkEntries source seen entries = .ok params := by
  induction entries generalizing params seen with
  | nil =>
    cases h
    rfl
  | cons entry entries ih =>
    rw [List.mapM_cons] at h
    cases he : entry.toParam with
    | error e =>
      rw [he] at h
      cases h
    | ok param =>
      rw [he] at h
      cases hr : entries.mapM Entry.toParam with
      | error e =>
        rw [hr] at h
        cases h
      | ok rest =>
        rw [hr] at h
        cases h
        rw [checkEntries, he]
        dsimp only
        rw [ih _ hr]
        rfl

theorem checkEntries_of_error (source : String) {entries : List Entry} {e : EntryError} (seen : List String)
    (h : entries.mapM Entry.toParam = .error e) :
    ∃ line column, checkEntries source seen entries = .error (.ofEntryError e line column source) := by
  induction entries generalizing seen with
  | nil => cases h
  | cons entry entries ih =>
    rw [List.mapM_cons] at h
    cases he : entry.toParam with
    | error e' =>
      rw [he] at h
      cases h
      exact ⟨_, _, by rw [checkEntries, he]⟩
    | ok param =>
      rw [he] at h
      cases hr : entries.mapM Entry.toParam with
      | error e' =>
        rw [hr] at h
        cases h
        obtain ⟨line, column, hc⟩ := ih (entry.name :: seen) hr
        refine ⟨line, column, ?_⟩
        rw [checkEntries, he]
        dsimp only
        rw [hc]
        rfl
      | ok rest =>
        rw [hr] at h
        cases h

theorem parse_of_not_blank {source : String} (h : (Text.trim source.toList).isEmpty = false) :
    Document.parse source = match read source.toList readEntries with
      | .error f => .error (.ofFault f source)
      | .ok entries => (checkEntries source [] entries).map Document.mk := by
  rw [Document.parse, h]
  rfl

theorem parse_eq_ok {source : String} (h : (Text.trim source.toList).isEmpty = false) {d : Document} :
    Document.parse source = .ok d ↔
      ∃ entries, read source.toList readEntries = .ok entries ∧ entries.mapM Entry.toParam = .ok d.params := by
  rw [parse_of_not_blank h]
  cases read source.toList readEntries with
  | error f => simp
  | ok entries =>
    dsimp only
    cases hm : entries.mapM Entry.toParam with
    | error e =>
      obtain ⟨line, column, he⟩ := checkEntries_of_error source [] hm
      rw [he]
      simp [hm, Except.map]
    | ok params =>
      rw [checkEntries_of_ok source [] hm]
      obtain ⟨params'⟩ := d
      simp [hm, Except.map]

end BraceParams.Schema
