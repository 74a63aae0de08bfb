import BraceParams.Number.Text
import BraceParams.Text.Lines

namespace BraceParams.Report

open Text

def numberText (n : Nat) : List Char :=
  let digits := Number.digitsText n
  List.replicate (4 - digits.length) ' ' ++ digits

def lineRow (marked : Bool) (number : Nat) (line : List Char) : List Char :=
  (if marked then '>' else ' ') :: ' ' :: numberText number ++ " | ".toList ++ line ++ ['\n']

def caretRow (column : Nat) : List Char :=
  "       | ".toList ++ List.replicate (column - 1) ' ' ++ ['^', '\n']

def rows (line column number : Nat) (text : List Char) : List (List Char) :=
  if number = line then
    lineRow true number text :: if 0 < column then [caretRow column] else []
  else [lineRow false number text]

def window (source : List Char) (line around : Nat) : List (Nat × List Char) :=
  let numbered := (lines source).zipIdx.map fun (text, i) => (i + 1, text)
  (numbered.take (line + around)).drop (line - (around + 1))

def excerpt (source : List Char) (line column around : Nat) : List Char :=
  ((window source line around).flatMap fun (number, text) => rows line column number text).flatten

end BraceParams.Report
