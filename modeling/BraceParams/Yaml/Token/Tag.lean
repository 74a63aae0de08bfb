import BraceParams.Text.Hex
import BraceParams.Yaml.Problem
import BraceParams.Yaml.Token

namespace BraceParams.Yaml

def isNameChar (c : Char) : Bool :=
  ('0' ≤ c && c ≤ '9') || ('A' ≤ c && c ≤ 'Z') || ('a' ≤ c && c ≤ 'z') || c = '_' || c = '-'

namespace Anchor

def endsName : List Char → Bool
  | [] => true
  | c :: _ => isBreak c || isGap c || c ∈ ['?', ':', ',', ']', '}', '%', '@', '`']

def read (activity : Activity) (c : Cursor) : Except SyntaxError (List Char × Cursor) :=
  let (name, c') := c.next.span isNameChar
  if name.isEmpty || !endsName c'.rest then
    .error ⟨.anchorName, c'.mark, some (activity, c.mark)⟩
  else .ok (name, c')

end Anchor

namespace Tag

inductive Place where
  | directive
  | node
  deriving DecidableEq, Repr

def Place.activity : Place → Activity
  | directive => .tagDirective
  | node => .tag

def isUriChar (verbatim : Bool) (c : Char) : Bool :=
  isNameChar c ||
    c ∈ [';', '/', '?', ':', '@', '&', '=', '+', '$', '.', '%', '!', '~', '*', '\'', '(', ')'] ||
    (verbatim && c ∈ [',', '[', ']'])

def width? (octet : Nat) : Option Nat :=
  if octet < 0x80 then some 1
  else if octet / 0x20 = 6 then some 2
  else if octet / 0x10 = 0xE then some 3
  else if octet / 8 = 0x1E then some 4
  else none

inductive Mode where
  | char
  | octet (left : Nat)
  | digit (left : Nat) (high : Option Nat) (percent : Mark)
  deriving DecidableEq, Repr

def ofAscii (c : Char) : UInt8 := c.toNat.toUInt8

def readUri (place : Place) (start : Mark) (verbatim : Bool) (octets : Octets) (mode : Mode) (m : Mark) :
    List Char → Except SyntaxError (Octets × Cursor)
  | [] =>
    match mode with
    | .char => .ok (octets.reverse, ⟨m, []⟩)
    | .octet _ => .error ⟨.tagUriOctet, m, some (place.activity, start)⟩
    | .digit _ _ percent => .error ⟨.tagUriOctet, percent, some (place.activity, start)⟩
  | c :: r =>
    match mode with
    | .char =>
      if c = '%' then readUri place start verbatim octets (.digit 0 none m) (m.after c) r
      else if isUriChar verbatim c then
        readUri place start verbatim (ofAscii c :: octets) .char (m.after c) r
      else .ok (octets.reverse, ⟨m, c :: r⟩)
    | .octet left =>
      if c = '%' then readUri place start verbatim octets (.digit left none m) (m.after c) r
      else .error ⟨.tagUriOctet, m, some (place.activity, start)⟩
    | .digit left high percent =>
      match Text.hexValue? c, high with
      | none, _ => .error ⟨.tagUriOctet, percent, some (place.activity, start)⟩
      | some d, none => readUri place start verbatim octets (.digit left (some d) percent) (m.after c) r
      | some d, some h =>
        let octet := 16 * h + d
        match left with
        | 0 =>
          match width? octet with
          | none => .error ⟨.tagUriLead, percent, some (place.activity, start)⟩
          | some width =>
            let mode := if width = 1 then .char else .octet (width - 1)
            readUri place start verbatim (octet.toUInt8 :: octets) mode (m.after c) r
        | left + 1 =>
          if octet / 0x40 = 2 then
            let mode := if left = 0 then .char else .octet left
            readUri place start verbatim (octet.toUInt8 :: octets) mode (m.after c) r
          else .error ⟨.tagUriTrail, percent, some (place.activity, start)⟩

def uri (place : Place) (start : Mark) (verbatim : Bool) (head : List Char) (c : Cursor) :
    Except SyntaxError (Octets × Cursor) := do
  let (octets, c') ← readUri place start verbatim [] .char c.mark c.rest
  if head.isEmpty && octets.isEmpty then
    .error ⟨.tagUri, c'.mark, some (place.activity, start)⟩
  else .ok (((head.drop 1).map ofAscii ++ octets).takeWhile (· ≠ 0), c')

def handle (place : Place) (start : Mark) (c : Cursor) : Except SyntaxError (List Char × Cursor) :=
  if c.head? ≠ some '!' then
    let activity := match place with
      | .directive => Activity.tagHandleScan
      | .node => .tagScan
    .error ⟨.tagBang, c.mark, some (activity, start)⟩
  else
    let (name, c') := c.next.span isNameChar
    if c'.head? = some '!' then .ok ('!' :: name ++ ['!'], c'.next)
    else if place = .directive ∧ name ≠ [] then .error ⟨.tagBang, c'.mark, some (.tagHandle, start)⟩
    else .ok ('!' :: name, c')

def parts (c : Cursor) : Except SyntaxError ((List Char × Octets) × Cursor) := do
  if ['!', '<'].isPrefixOf c.rest then
    let (suffix, c') ← uri .node c.mark true [] (c.skip 2)
    if c'.head? = some '>' then .ok (([], suffix), c'.next)
    else .error ⟨.tagClose, c'.mark, some (.tagScan, c.mark)⟩
  else
    let (name, c') ← handle .node c.mark c
    if name.length > 1 ∧ name.getLast? = some '!' then
      let (suffix, c') ← uri .node c.mark false [] c'
      .ok ((name, suffix), c')
    else
      let (suffix, c') ← uri .node c.mark false name c'
      if suffix.isEmpty then .ok (([], [ofAscii '!']), c') else .ok ((['!'], suffix), c')

def read (inFlow : Bool) (c : Cursor) : Except SyntaxError ((List Char × Octets) × Cursor) := do
  let (tag, c') ← parts c
  if endsWord c'.rest || (inFlow && c'.head? == some ',') then .ok (tag, c')
  else .error ⟨.tagEnd, c'.mark, some (.tagScan, c.mark)⟩

end Tag

end BraceParams.Yaml
