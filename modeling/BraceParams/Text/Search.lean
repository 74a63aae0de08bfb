namespace BraceParams.Text

def cut? (needle : List Char) : List Char → Option (List Char × List Char)
  | [] => if needle.isPrefixOf [] then some ([], []) else none
  | c :: r =>
    if needle.isPrefixOf (c :: r) then some ([], (c :: r).drop needle.length)
    else (cut? needle r).map fun (before, after) => (c :: before, after)

def cutLast? (needle : List Char) : List Char → Option (List Char × List Char)
  | [] => if needle.isPrefixOf [] then some ([], []) else none
  | c :: r =>
    match cutLast? needle r with
    | some (before, after) => some (c :: before, after)
    | none =>
      if needle.isPrefixOf (c :: r) then some ([], (c :: r).drop needle.length) else none

def contains (needle s : List Char) : Bool :=
  (cut? needle s).isSome

def before (needle s : List Char) : List Char :=
  match cut? needle s with
  | some (head, _) => head
  | none => s

/-- Replaces from left to right; the first argument counts the characters of an occurrence that are
still to be passed over. -/
def replaceFrom (needle new : List Char) : Nat → List Char → List Char
  | _, [] => []
  | skip + 1, _ :: r => replaceFrom needle new skip r
  | 0, c :: r =>
    if needle.isPrefixOf (c :: r) then new ++ replaceFrom needle new (needle.length - 1) r
    else c :: replaceFrom needle new 0 r

def replace (needle new s : List Char) : List Char :=
  replaceFrom needle new 0 s

def splitFrom (needle : List Char) : Nat → List Char → List (List Char)
  | _, [] => [[]]
  | skip + 1, _ :: r => splitFrom needle skip r
  | 0, c :: r =>
    if needle.isPrefixOf (c :: r) then [] :: splitFrom needle (needle.length - 1) r
    else
      match splitFrom needle 0 r with
      | [] => [[c]]
      | piece :: rest => (c :: piece) :: rest

def split (needle s : List Char) : List (List Char) :=
  splitFrom needle 0 s

def join (separator : List Char) : List (List Char) → List Char
  | [] => []
  | [piece] => piece
  | piece :: rest => piece ++ separator ++ join separator rest

theorem append_of_cut? {needle s head tail : List Char} (h : cut? needle s = some (head, tail)) :
    head ++ needle ++ tail = s := by
  induction s generalizing head with
  | nil =>
    simp only [cut?] at h
    split at h
    · next hp =>
      cases needle with
      | nil => simp_all
      | cons => simp at hp
    · simp at h
  | cons c r ih =>
    simp only [cut?] at h
    split at h
    · next hp =>
      obtain ⟨rest, hr⟩ := List.isPrefixOf_iff_prefix.1 hp
      simp only [← hr, List.drop_left, Option.some.injEq, Prod.mk.injEq] at h
      obtain ⟨rfl, rfl⟩ := h
      simp [hr]
    · obtain ⟨⟨b, a⟩, hb, he⟩ := Option.map_eq_some_iff.1 h
      simp only [Prod.mk.injEq] at he
      obtain ⟨rfl, rfl⟩ := he
      simpa using ih hb

end BraceParams.Text
