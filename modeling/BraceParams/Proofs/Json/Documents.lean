import BraceParams.CommandLine
import BraceParams.Proofs.Json.Compact
import BraceParams.Proofs.Schema.Checked
import BraceParams.Proofs.Yaml.RoundTrip

namespace BraceParams.Json

open Schema Yaml

def textNode (s : List Char) : Node :=
  .scalar .start none s .doubleQuoted

mutual

def node : Json → Node
  | string s => textNode s
  | true => .scalar .start none "true".toList .plain
  | array items => .sequence .start none (itemNodes items)
  | object members => .mapping .start none (memberNodes members)

def itemNodes : List Json → List Node
  | [] => []
  | item :: rest => item.node :: itemNodes rest

def memberNodes : List (List Char × Json) → List (Node × Node)
  | [] => []
  | (key, value) :: rest => (textNode key, value.node) :: memberNodes rest

end

def tree (value : Json) : Tree :=
  { root := value.node, anchors := {}, size := 0, error := none, more := Bool.false }

def readDocument? (text : List Char) : Option Document :=
  (read? text).bind fun value => (readDocument value.tree 0).toOption.map Prod.fst

theorem itemNodes_eq_map (items : List Json) : itemNodes items = items.map node := by
  induction items with
  | nil => rfl
  | cons item items ih => rw [itemNodes, ih, List.map_cons]

mutual

theorem node_bare (value : Json) : value.node.bare := by
  cases value with
  | string s => rfl
  | true => rfl
  | array items => exact itemNodes_bare items
  | object members => exact memberNodes_bare members

theorem itemNodes_bare (items : List Json) : Node.bareItems (itemNodes items) := by
  match items with
  | [] => rfl
  | item :: rest =>
    rw [itemNodes, Node.bareItems, node_bare item, itemNodes_bare rest]
    rfl

theorem memberNodes_bare (members : List (List Char × Json)) : Node.bareEntries (memberNodes members) := by
  match members with
  | [] => rfl
  | (key, value) :: rest =>
    rw [memberNodes, Node.bareEntries, node_bare value, memberNodes_bare rest]
    rfl

end

theorem reads_string (s : String) : Schema.Reads (ofString s).node s := by
  have hstyle : Style.doubleQuoted ≠ .plain := by decide
  have h := Schema.Reads.unplain .start s.toList hstyle
  rwa [String.ofList_toList] at h

theorem sequenceOf_array {α : Type} {R : Node → α → Prop} {f : α → Json} (h : ∀ a, R (f a).node a) (as : List α) :
    SequenceOf R (array (as.map f)).node as := by
  rw [node, itemNodes_eq_map, List.map_map]
  refine .items .start ?_
  rw [List.forall₂_map_left_iff, List.forall₂_same]
  exact fun a _ => h a

section

variable {members : List (List Char × Json)} {d d' : Draft}

theorem fits_value {value : Option String} (hd : d.value = none)
    (h : Fits (memberNodes members) { d with value := value.map some } d') :
    Fits (memberNodes (value.toList.map (fun value => ("value".toList, ofString value)) ++ members)) d d' := by
  cases value with
  | none =>
    obtain ⟨name, value, values, expand⟩ := d
    obtain rfl : value = none := hd
    exact h
  | some value => exact (fits_cons rfl).mpr ⟨_, .value hd (.given (reads_string value)), h⟩

theorem fits_values {values : Option (List String)} (hd : d.values = none)
    (h : Fits (memberNodes members) { d with values := values.map some } d') :
    Fits (memberNodes (values.toList.map (fun values => ("values".toList, .array (values.map ofString))) ++ members)) d
      d' := by
  cases values with
  | none =>
    obtain ⟨name, value, values, expand⟩ := d
    obtain rfl : values = none := hd
    exact h
  | some values => exact (fits_cons rfl).mpr ⟨_, .values hd (.given (sequenceOf_array reads_string values)), h⟩

theorem fits_expand (expand : Bool) (hd : d.expand = none) :
    Fits (memberNodes (if expand then [("expand".toList, .true)] else [])) d
      { d with expand := if expand then some Bool.true else none } := by
  cases expand with
  | false =>
    obtain ⟨name, value, values, expand⟩ := d
    obtain rfl : expand = none := hd
    exact fits_nil.mpr rfl
  | true => exact (fits_cons rfl).mpr ⟨_, .expand hd (.plain .start (by decide)), fits_nil.mpr rfl⟩

end

theorem isEntry_ofEntry (e : Entry) : IsEntry (ofEntry e).node e := by
  rw [ofEntry, List.append_assoc, List.cons_append, node, memberNodes]
  apply isEntry_of_fits
  refine (fits_cons rfl).mpr ⟨_, .name rfl rfl, ?_⟩
  exact fits_value rfl (fits_values rfl (fits_expand e.expand rfl))

theorem isParam_ofEntry (p : Param) : IsParam (ofEntry p.toEntry).node p :=
  ⟨p.toEntry, isEntry_ofEntry p.toEntry, stands_iff.mpr p.toParam_toEntry⟩

theorem isDocument_ofDocument (d : Document) : IsDocument (ofDocument d).node d.params :=
  .params .start rfl (.sequence (sequenceOf_array isParam_ofEntry d.params))

end BraceParams.Json

namespace BraceParams.Schema

variable {t : Yaml.Tree} {d : Document}

theorem readDocument_of_isDocument (hb : t.root.bare) (h : IsDocument t.root d.params) (jumps : Nat) :
    readDocument t jumps = .ok (d, jumps) := by
  obtain ⟨es, hr, hc⟩ := (readEntries_checked hb).mpr ⟨h, rfl⟩
  have ha := readDocument_checks t jumps
  have hall : checkAll es = .ok d := by
    rw [checkAll, hc]
    rfl
  rw [hr] at ha
  generalize readDocument t jumps = y at ha ⊢
  cases ha with
  | accepted _ hd => rw [Except.ok.inj (hd.symm.trans hall)]
  | refused _ _ he => cases he.symm.trans hall

end BraceParams.Schema

namespace BraceParams.Json

theorem readDocument?_toJson (d : Document) : readDocument? d.toJson.toList = some d := by
  have hr : Schema.readDocument (ofDocument d).tree 0 = .ok (d, 0) :=
    Schema.readDocument_of_isDocument (node_bare _) (isDocument_ofDocument d) 0
  rw [readDocument?, Document.toJson, String.toList_ofList, read?_compact, Option.bind_some, hr]
  rfl

theorem toJson_injective : Function.Injective Document.toJson := by
  intro d d' h
  have hd := readDocument?_toJson d
  rw [h, readDocument?_toJson] at hd
  exact (Option.some.inj hd).symm

theorem ofQueries_injective : Function.Injective ofQueries := by
  have hquery : Function.Injective ofQuery := by
    rintro ⟨name, value⟩ ⟨name', value'⟩ h
    simpa [ofQuery, ofString, String.toList_inj] using h
  intro queries queries' h
  exact List.map_injective_iff.mpr hquery (Json.array.inj h)

theorem read?_compactQueries (queries : List Query) : read? (compactQueries queries).toList = some (ofQueries queries) := by
  rw [compactQueries, String.toList_ofList, read?_compact]

theorem read?_prettyQueries (queries : List Query) : read? (prettyQueries queries).toList = some (ofQueries queries) := by
  rw [prettyQueries, String.toList_ofList, read?_pretty]

theorem injective_of_read? {write : List Query → String} (h : ∀ queries, read? (write queries).toList = some (ofQueries queries)) :
    Function.Injective write := by
  intro queries queries' he
  have hq := h queries
  rw [he, h queries'] at hq
  exact ofQueries_injective (Option.some.inj hq).symm

theorem lossless :
    (∀ queries : List Query,
      let pairs := Json.array (queries.map fun q =>
        .object [("name".toList, .string q.name.toList), ("value".toList, .string q.value.toList)])
      read? (CommandLine.render queries .json).toList = some pairs ∧
        read? (compactQueries queries).toList = some pairs) ∧
      (∀ d : Document, readDocument? d.toJson.toList = some d) ∧
      Function.Injective (fun queries => CommandLine.render queries .json) ∧
      Function.Injective compactQueries ∧ Function.Injective Document.toJson :=
  ⟨fun queries => ⟨read?_prettyQueries queries, read?_compactQueries queries⟩, readDocument?_toJson,
    injective_of_read? read?_prettyQueries, injective_of_read? read?_compactQueries, toJson_injective⟩

example : (Document.mk [⟨"é\n", .pattern "a\"b"⟩]).toJson =
    "\x7b\"params\":[\x7b\"name\":\"é\\n\",\"value\":\"a\\\"b\",\"expand\":true\x7d]\x7d" := by
  decide +kernel

end BraceParams.Json
