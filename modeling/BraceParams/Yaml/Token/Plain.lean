import BraceParams.Yaml.Problem
import BraceParams.Yaml.Token.Spacing

namespace BraceParams.Yaml.Plain

def isFlowIndicator (c : Char) : Bool :=
  c = ',' || c = '[' || c = ']' || c = '{' || c = '}'

def stopsAt (inFlow : Bool) (c : Char) (rest : List Char) : Bool :=
  (c = ':' && endsWord rest) || (inFlow && isFlowIndicator c)

def isBadColon (inFlow : Bool) (c : Char) (rest : List Char) : Bool :=
  inFlow && c = ':' &&
    match rest with
    | [] => false
    | d :: _ => d = '?' || isFlowIndicator d

def stopsBefore (inFlow : Bool) (indent : Nat) (m : Mark) (text : List Char) : Bool :=
  (!inFlow && m.column < indent) || startsDocumentMarker m text || text.head? == some '#'

structure Reading where
  text : List Char
  stop : Mark
  atBreak : Bool
  cursor : Cursor

def readFrom (inFlow : Bool) (indent : Nat) (start : Mark) (text : List Char) (stop : Mark)
    (spacing : Spacing) (m : Mark) : List Char → Except SyntaxError Reading
  | [] => .ok ⟨text.reverse, stop, spacing.hasBreak, ⟨m, []⟩⟩
  | c :: r =>
    if isGap c then
      if spacing.hasBreak && m.column < indent && c = '\t' then
        .error ⟨.plainTab, m, some (.plainScalar, start)⟩
      else readFrom inFlow indent start text stop (spacing.pushGap c) (m.after c) r
    else if isBreak c then
      readFrom inFlow indent start text stop (spacing.pushBreak c) (m.after c) r
    else if !spacing.isNone && stopsBefore inFlow indent m (c :: r) then
      .ok ⟨text.reverse, stop, spacing.hasBreak, ⟨m, c :: r⟩⟩
    else if isBadColon inFlow c r then
      .error ⟨.plainColon, m, some (.plainScalar, start)⟩
    else if stopsAt inFlow c r then
      .ok ⟨text.reverse, stop, spacing.hasBreak, ⟨m, c :: r⟩⟩
    else
      readFrom inFlow indent start (c :: (spacing.fold ++ text)) (m.after c) .none (m.after c) r

def read (inFlow : Bool) (indent : Nat) (c : Cursor) : Except SyntaxError Reading :=
  readFrom inFlow indent c.mark [] c.mark .none c.mark c.rest

end BraceParams.Yaml.Plain
