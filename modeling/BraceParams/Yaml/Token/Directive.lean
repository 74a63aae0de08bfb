import BraceParams.Yaml.Token.Tag

namespace BraceParams.Yaml.Directive

def number (start : Mark) (c : Cursor) : Except SyntaxError (Nat × Cursor) :=
  let digits := c.rest.takeWhile Char.isDigit
  if digits.length > 9 then .error ⟨.longVersion, (c.skip 9).mark, some (.versionDirective, start)⟩
  else if digits.isEmpty then .error ⟨.versionNumber, c.mark, some (.versionDirective, start)⟩
  else .ok (digits.foldl (fun n d => 10 * n + (d.toNat - '0'.toNat)) 0, c.skip digits.length)

def version (start : Mark) (c : Cursor) : Except SyntaxError (Token.Kind × Cursor) := do
  let (major, c) ← number start (c.dropWhile isGap)
  if c.head? ≠ some '.' then .error ⟨.versionDot, c.mark, some (.versionDirective, start)⟩
  else
    let (minor, c) ← number start c.next
    .ok (.version major minor, c)

def tagHandle (start : Mark) (c : Cursor) : Except SyntaxError (Token.Kind × Cursor) := do
  let (handle, c) ← Tag.handle .directive start (c.dropWhile isGap)
  if !(c.head?.any isGap) then .error ⟨.directiveBlank, c.mark, some (.tagDirectiveScan, start)⟩
  else
    let (expansion, c) ← Tag.uri .directive start true [] (c.dropWhile isGap)
    if endsWord c.rest then .ok (.tagHandle handle expansion, c)
    else .error ⟨.directiveEnd, c.mark, some (.tagDirectiveScan, start)⟩

def read (c : Cursor) : Except SyntaxError (Token × Cursor) := do
  let start := c.mark
  let (name, c) := c.next.span isNameChar
  if name.isEmpty then .error ⟨.directiveName, c.mark, some (.directive, start)⟩
  else if !endsWord c.rest then .error ⟨.directiveCharacter, c.mark, some (.directive, start)⟩
  else
    let (kind, c) ←
      if name = "YAML".toList then version start c
      else if name = "TAG".toList then tagHandle start c
      else .error ⟨.unknownDirective, c.mark, some (.directive, start)⟩
    let stop := c.mark
    let c := c.dropWhile isGap
    let c := if c.head? = some '#' then c.dropWhile (!isBreak ·) else c
    if endsLine c.rest then .ok (⟨kind, start, stop⟩, c.next)
    else .error ⟨.directiveTail, c.mark, some (.directive, start)⟩

end BraceParams.Yaml.Directive
