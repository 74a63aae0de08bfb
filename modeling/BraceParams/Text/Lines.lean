namespace BraceParams.Text

def dropReturn (line : List Char) : List Char :=
  if line.getLast? = some '\r' then line.dropLast else line

/-- Each line with whether a line feed ended it. -/
def rawLines : List Char → List (List Char × Bool)
  | [] => []
  | c :: r =>
    if c = '\n' then ([], true) :: rawLines r
    else
      match rawLines r with
      | [] => [([c], false)]
      | (line, ended) :: rest => (c :: line, ended) :: rest

def lines (s : List Char) : List (List Char) :=
  (rawLines s).map fun (line, ended) => if ended then dropReturn line else line

end BraceParams.Text
