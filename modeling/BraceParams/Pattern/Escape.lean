/-!
Escapes in a brace pattern. A backslash and one of `\`, `,`, `{`, `}` after it are an escape pair;
pairs are taken from left to right and do not overlap.
-/

namespace BraceParams.Pattern

def isEscapable (c : Char) : Bool :=
  c = '\\' || c = ',' || c = '{' || c = '}'

/-- The pattern position by position, with `none` for both characters of an escape pair. -/
def live : List Char → List (Option Char)
  | [] => []
  | [c] => [some c]
  | c :: d :: r =>
    if c = '\\' ∧ isEscapable d then none :: none :: live r else some c :: live (d :: r)

def unescape : List Char → List Char
  | [] => []
  | [c] => [c]
  | c :: d :: r =>
    if c = '\\' ∧ isEscapable d then d :: unescape r else c :: unescape (d :: r)

def escape (s : List Char) : List Char :=
  s.flatMap fun c => if isEscapable c then ['\\', c] else [c]

@[simp]
theorem length_live (s : List Char) : (live s).length = s.length := by
  fun_induction live s <;> simp_all

theorem eq_of_getElem?_live {s : List Char} {i : Nat} {c : Char} (h : (live s)[i]? = some (some c)) :
    s[i]? = some c := by
  fun_induction live s generalizing i with
  | case1 => simp at h
  | case2 d => cases i <;> simp_all
  | case3 a d r _ ih =>
    match i with
    | 0 => simp at h
    | 1 => simp at h
    | i + 2 => simpa using ih (by simpa using h)
  | case4 a d r _ ih =>
    cases i with
    | zero => simpa using h
    | succ i => simpa using ih (by simpa using h)

end BraceParams.Pattern
