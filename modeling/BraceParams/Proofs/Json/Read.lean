import BraceParams.Json.Write

namespace BraceParams.Json

open Text (hexValue? charOfCode?)

inductive Token where
  | openArray
  | closeArray
  | openObject
  | closeObject
  | comma
  | colon
  | word
  | string (s : List Char)
  deriving DecidableEq, Repr

inductive Mode where
  | between
  | word (left : List Char)
  | text (read : List Char)
  | escape (read : List Char)
  | code (left value : Nat) (read : List Char)

def isSpace (c : Char) : Bool :=
  c = ' ' || c = '\n' || c = '\r' || c = '\t'

def mark? (c : Char) : Option Token :=
  if c = '[' then some .openArray
  else if c = ']' then some .closeArray
  else if c = '{' then some .openObject
  else if c = '}' then some .closeObject
  else if c = ',' then some .comma
  else if c = ':' then some .colon
  else none

def escaped? (c : Char) : Option Char :=
  if c = '"' ∨ c = '\\' ∨ c = '/' then some c
  else if c = 'n' then some '\n'
  else if c = 'r' then some '\r'
  else if c = 't' then some '\t'
  else if c = 'b' then some '\x08'
  else if c = 'f' then some '\x0c'
  else none

def scan : Mode → List Char → Option (List Token)
  | .between, [] => some []
  | _, [] => none
  | .between, c :: r =>
    if isSpace c then scan .between r
    else if c = '"' then scan (.text []) r
    else if c = 't' then scan (.word ['r', 'u', 'e']) r
    else (mark? c).bind fun token => (scan .between r).map (token :: ·)
  | .word left, c :: r =>
    match left with
    | [] => none
    | [last] => if c = last then (scan .between r).map (Token.word :: ·) else none
    | next :: left => if c = next then scan (.word left) r else none
  | .text read, c :: r =>
    if c = '"' then (scan .between r).map (Token.string read.reverse :: ·)
    else if c = '\\' then scan (.escape read) r
    else if c.toNat < 0x20 then none
    else scan (.text (c :: read)) r
  | .escape read, c :: r =>
    if c = 'u' then scan (.code 3 0 read) r
    else (escaped? c).bind fun x => scan (.text (x :: read)) r
  | .code left value read, c :: r =>
    (hexValue? c).bind fun d =>
      match left with
      | left + 1 => scan (.code left (16 * value + d) read) r
      | 0 => (charOfCode? (16 * value + d)).bind fun x => scan (.text (x :: read)) r

mutual

def value? : (fuel : Nat) → List Token → Option (Json × List Token)
  | 0, _ => none
  | _ + 1, .string s :: r => some (.string s, r)
  | _ + 1, .word :: r => some (.true, r)
  | _ + 1, .openArray :: .closeArray :: r => some (.array [], r)
  | fuel + 1, .openArray :: r => (items? fuel r).map fun (items, r) => (.array items, r)
  | _ + 1, .openObject :: .closeObject :: r => some (.object [], r)
  | fuel + 1, .openObject :: r => (members? fuel r).map fun (members, r) => (.object members, r)
  | _ + 1, _ => none

def items? : (fuel : Nat) → List Token → Option (List Json × List Token)
  | 0, _ => none
  | fuel + 1, tokens =>
    match value? fuel tokens with
    | some (item, .comma :: r) => (items? fuel r).map fun (items, r) => (item :: items, r)
    | some (item, .closeArray :: r) => some ([item], r)
    | _ => none

def members? : (fuel : Nat) → List Token → Option (List (List Char × Json) × List Token)
  | fuel + 1, .string key :: .colon :: r =>
    match value? fuel r with
    | some (value, .comma :: r) => (members? fuel r).map fun (members, r) => ((key, value) :: members, r)
    | some (value, .closeObject :: r) => some ([(key, value)], r)
    | _ => none
  | _, _ => none

end

def read? (text : List Char) : Option Json :=
  match (scan .between text).bind fun tokens => value? (tokens.length + 1) tokens with
  | some (value, []) => some value
  | _ => none

end BraceParams.Json
