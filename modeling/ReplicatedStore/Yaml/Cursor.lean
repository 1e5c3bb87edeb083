/-!
# Places in a text

A YAML text is read with a cursor, which knows the characters ahead, how many were read, and the line
and the column that they lead to. This module has the classes of characters as well.

Main statements:

* `Yaml.Cursor.rest_skip` — skipping leaves the characters behind those skipped.
-/

namespace ReplicatedStore.Yaml

/-- Whether a character ends a line. -/
def isBreak (c : Char) : Bool :=
  c = '\n' || c = '\r' || c = '\u0085' || c = '\u2028' || c = '\u2029'

/-- Whether a character is a space or a tab. -/
def isBlank (c : Char) : Bool := c = ' ' || c = '\t'

/-- Whether a word cannot go on with what is ahead: a blank, a line end, or nothing. -/
def endsWord : List Char → Bool
  | [] => true
  | c :: _ => isBlank c || isBreak c

/-- Whether a character may stand in the name of an anchor or of a tag's handle. -/
def isNameChar (c : Char) : Bool := c.isAlphanum || c = '_' || c = '-'

/-- Whether a character may stand in a text at all. -/
def isAllowed (c : Char) : Bool :=
  let n := c.toNat
  n = 9 || n = 10 || n = 13 || (0x20 ≤ n && n ≤ 0x7E) || n = 0x85 || (0xA0 ≤ n && n ≤ 0xFFFD) ||
    0x10000 ≤ n

/-- Whether three of a character and then the end of a word are ahead. -/
def isMarker (c : Char) : List Char → Bool
  | a :: b :: d :: rest => a = c && b = c && d = c && endsWord rest
  | _ => false

/-- Whether the start or the end of a document is marked here; the caller knows that a line starts. -/
def isDocumentMarker (rest : List Char) : Bool := isMarker '-' rest || isMarker '.' rest

/-- How far a text was read. -/
structure Mark where
  index : Nat := 0
  line : Nat := 0
  column : Nat := 0
  deriving DecidableEq, Repr

/-- One character further in the same line. -/
def Mark.next (m : Mark) : Mark := { m with index := m.index + 1, column := m.column + 1 }

/-- At the start of the next line, after `count` characters that end this one. -/
def Mark.newLine (m : Mark) (count : Nat) : Mark := ⟨m.index + count, m.line + 1, 0⟩

/-- A place in a text. -/
structure Cursor where
  rest : List Char
  mark : Mark := {}
  deriving Repr

namespace Cursor

/-- Some characters further in the same line. -/
def skip (c : Cursor) (count : Nat) : Cursor :=
  { rest := c.rest.drop count
    mark := { c.mark with index := c.mark.index + count, column := c.mark.column + count } }

/-- The characters ahead for which a condition holds, and the place behind them. -/
def span (c : Cursor) (p : Char → Bool) : List Char × Cursor :=
  let word := c.rest.takeWhile p
  (word, c.skip word.length)

/-- The line end ahead, if there is one, as it counts in a text, and the place behind it. -/
def lineEnd (c : Cursor) : List Char × Cursor :=
  match c.rest with
  | '\r' :: '\n' :: rest => (['\n'], ⟨rest, c.mark.newLine 2⟩)
  | b :: rest =>
    if isBreak b then
      ([if b = '\u2028' || b = '\u2029' then b else '\n'], ⟨rest, c.mark.newLine 1⟩)
    else ([], c)
  | [] => ([], c)

/-- The place behind a comment, if one is ahead. -/
def skipComment (c : Cursor) : Cursor :=
  match c.rest with
  | '#' :: _ => (c.span fun x => !isBreak x).2
  | _ => c

theorem rest_skip (c : Cursor) (count : Nat) : (c.skip count).rest = c.rest.drop count := rfl

end Cursor

end ReplicatedStore.Yaml
