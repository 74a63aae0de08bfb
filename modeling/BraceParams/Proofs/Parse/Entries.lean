import BraceParams.Proofs.Parse.Blank

namespace BraceParams

open Report Schema

structure FirstFailure {α β ε : Type} (f : α → Except ε β) (xs : List α) (k : Nat) (x : α) (e : ε) : Prop where
  element : xs[k]? = some x
  fails : f x = .error e
  before : ∀ y ∈ xs.take k, ∃ b, f y = .ok b

section

variable {α β ε : Type} {f : α → Except ε β} {xs : List α} {k : Nat} {x y : α} {e : ε}

theorem FirstFailure.zero (h : f x = .error e) : FirstFailure f (x :: xs) 0 x e :=
  ⟨rfl, h, by simp⟩

theorem FirstFailure.succ {b : β} (hy : f y = .ok b) (h : FirstFailure f xs k x e) :
    FirstFailure f (y :: xs) (k + 1) x e := by
  refine ⟨h.element, h.fails, fun z hz => ?_⟩
  rcases List.mem_cons.mp hz with rfl | hz
  · exact ⟨b, hy⟩
  · exact h.before z hz

theorem eq_ok_of_toOption {r : Except ε α} (h : r.toOption = some x) : r = .ok x := by
  cases r with
  | error e => cases h
  | ok b => exact congrArg _ (Option.some.inj h)

theorem all_ok_or_firstFailure (f : α → Except ε β) (xs : List α) :
    (∃ bs, List.Forall₂ (fun x b => f x = .ok b) xs bs) ∨ ∃ k x e, FirstFailure f xs k x e := by
  induction xs with
  | nil => exact .inl ⟨[], .nil⟩
  | cons x xs ih =>
    cases hx : f x with
    | error e => exact .inr ⟨0, x, e, .zero hx⟩
    | ok b =>
      rcases ih with ⟨bs, h⟩ | ⟨k, y, e, h⟩
      · exact .inl ⟨b :: bs, .cons hx h⟩
      · exact .inr ⟨k + 1, y, e, h.succ hx⟩

theorem exists_ok_of_forall₂ {bs : List β} (h : List.Forall₂ (fun x b => f x = .ok b) xs bs) :
    ∀ x ∈ xs, ∃ b, f x = .ok b := by
  induction h with
  | nil => simp
  | cons hx _ ih => exact List.forall_mem_cons.mpr ⟨⟨_, hx⟩, ih⟩

theorem FirstFailure.not_all (h : FirstFailure f xs k x e) : ¬∀ x ∈ xs, ∃ b, f x = .ok b := by
  intro hall
  obtain ⟨b, hb⟩ := hall x (List.mem_of_getElem? h.element)
  rw [h.fails] at hb
  cases hb

end

section

variable {source : String} {seen : List String} {entries : List Entry}

theorem checkEntries_of_forall₂ {params : List Param}
    (h : List.Forall₂ (fun e p => Entry.toParam e = .ok p) entries params) :
    checkEntries source seen entries = .ok params := by
  apply checkEntries_of_ok
  induction h with
  | nil => rfl
  | cons h _ ih =>
    rw [List.mapM_cons, h, ih]
    rfl

theorem Entry.name_of_toParam_error {entry : Entry} {e : EntryError} (h : entry.toParam = .error e) :
    e.name = entry.name := by
  obtain ⟨name, value, values, expand⟩ := entry
  rcases expand with _ | _ <;> rcases value with _ | _ <;> rcases values with _ | _ <;> cases h <;> rfl

theorem checkEntries_of_firstFailure {k line column : Nat} {entry : Entry} {e : EntryError}
    (h : FirstFailure Entry.toParam entries k entry e)
    (hp : (nameLine? source.toList entry.name.toList
      (seen.count entry.name + ((entries.take k).map Entry.name).count entry.name)).getD (0, 0) = (line, column)) :
    checkEntries source seen entries = .error (.ofEntryError e line column source) := by
  induction entries generalizing seen k with
  | nil => cases h.element
  | cons first rest ih =>
    cases k with
    | zero =>
      obtain rfl : first = entry := Option.some.inj h.element
      have hn := Entry.name_of_toParam_error h.fails
      rw [List.take_zero, List.map_nil, List.count_nil, Nat.add_zero] at hp
      rw [checkEntries, h.fails]
      dsimp only
      rw [hn, hp]
    | succ k =>
      obtain ⟨param, hparam⟩ := h.before first List.mem_cons_self
      have hrest : FirstFailure Entry.toParam rest k entry e :=
        ⟨h.element, h.fails, fun b hb => h.before b (List.mem_cons_of_mem first hb)⟩
      have hcount : (first.name :: seen).count entry.name + ((rest.take k).map Entry.name).count entry.name =
          seen.count entry.name + (((first :: rest).take (k + 1)).map Entry.name).count entry.name := by
        rw [List.take_succ_cons, List.map_cons, List.count_cons, List.count_cons]
        omega
      rw [checkEntries, hparam]
      dsimp only
      rw [ih hrest (by rw [hcount, hp])]
      rfl

end

theorem parse_of_entries {source : String} {entries : List Entry}
    (h : read source.toList readEntries = .ok entries) :
    Document.parse source = (checkEntries source [] entries).map Document.mk := by
  cases hb : (Text.trim source.toList).isEmpty with
  | true =>
    have hblank := Text.isBlank_of_trim_eq_nil (List.isEmpty_iff.mp hb)
    obtain rfl : entries = [] := entries_of_blank hblank h
    rw [Document.parse, if_pos hb]
    rfl
  | false => rw [parse_of_not_blank hb, h]

theorem parse_of_forall₂ {source : String} {entries : List Entry} {params : List Param}
    (h : read source.toList readEntries = .ok entries)
    (hp : List.Forall₂ (fun e p => Entry.toParam e = .ok p) entries params) :
    Document.parse source = .ok ⟨params⟩ := by
  rw [parse_of_entries h, checkEntries_of_forall₂ hp]
  rfl

theorem parse_of_firstFailure {source : String} {entries : List Entry} {k : Nat} {entry : Entry} {e : EntryError}
    (h : read source.toList readEntries = .ok entries) (hf : FirstFailure Entry.toParam entries k entry e) :
    ∃ line column, Document.parse source = .error (.ofEntryError e line column source) ∧
      (nameLine? source.toList entry.name.toList
        (((entries.take k).map Entry.name).count entry.name)).getD (0, 0) = (line, column) := by
  refine ⟨_, _, ?_, rfl⟩
  rw [parse_of_entries h, checkEntries_of_firstFailure hf (by rw [List.count_nil, Nat.zero_add])]
  rfl

end BraceParams
