import ReplicatedStore.Yaml.Cursor

/-!
# Scalars

A scalar is written plain, between quotes, or as a block of lines. In the first two a single line end
reads as a space, and further ones as themselves; blanks around line ends count for nothing. A literal
block keeps its lines, and a folded block joins those that start with no blank.

A reader gives the text, the place behind it and, for a plain scalar, whether it read on into another
line; nothing if the scalar is malformed.
-/

namespace ReplicatedStore.Yaml

/-- How a scalar is written. -/
inductive Style
  | plain
  | quoted
  | literal
  | folded
  deriving DecidableEq, Repr

/-- A run of blanks and line ends inside a scalar. -/
structure Gap where
  /-- blanks, as long as no line ended -/
  blanks : List Char := []
  /-- whether a line ended -/
  broken : Bool := false
  /-- the first line end -/
  first : List Char := []
  /-- the line ends after the first -/
  others : List Char := []
  /-- whether the line end ahead counts for nothing -/
  swallows : Bool := false
  deriving Repr

namespace Gap

/-- What a gap reads as. -/
def text (g : Gap) : List Char :=
  if !g.broken then g.blanks
  else if g.first = ['\n'] then
    -- one line end joins the lines, and further ones stay
    if g.others = [] then [' '] else g.others
  -- a separator of lines or paragraphs is never joined
  else g.first ++ g.others

/-- The gap with a blank behind it. -/
def addBlank (g : Gap) (c : Char) : Gap :=
  if g.broken then g else { g with blanks := g.blanks ++ [c] }

/-- The gap with a line end behind it. -/
def addBreak (g : Gap) (b : List Char) : Gap :=
  if g.swallows then { g with swallows := false }
  else if g.broken then { g with others := g.others ++ b }
  else { broken := true, first := b }

/-- The text that a character starts, or a gap ends. -/
def ofOption : Option Gap → List Char
  | none => []
  | some g => g.text

end Gap

/-- A line end as it counts in a text. -/
def normalBreak (b : Char) : List Char := [if b = '\u2028' || b = '\u2029' then b else '\n']

/-! ## Plain scalars -/

def isFlowIndicator (c : Char) : Bool := c = ',' || c = '[' || c = ']' || c = '\x7b' || c = '\x7d'

/-- Whether a colon with this behind it is an error in a flow collection. -/
def isMisplacedColon : List Char → Bool
  | c :: _ => isFlowIndicator c || c = '?'
  | [] => false

/-- A plain scalar. `floor` is the column that its further lines have to reach outside of flow
collections; the text is collected in reverse. -/
def plainFrom (flow : Bool) (floor : Nat) (text : List Char) (gap : Option Gap) :
    List Char → Mark → Option (List Char × Cursor × Bool)
  | [], m => some (text.reverse, ⟨[], m⟩, gap.any (·.broken))
  | '\r' :: '\n' :: rest, m =>
    plainFrom flow floor text (some ((gap.getD {}).addBreak ['\n'])) rest (m.newLine 2)
  | c :: rest, m =>
    if isBlank c then
      -- tabs do not indent
      if gap.any (·.broken) && m.column < floor && c = '\t' then none
      else plainFrom flow floor text (some ((gap.getD {}).addBlank c)) rest m.next
    else if isBreak c then
      plainFrom flow floor text (some ((gap.getD {}).addBreak (normalBreak c))) rest (m.newLine 1)
    else
      let stop := some (text.reverse, ⟨c :: rest, m⟩, gap.any (·.broken))
      -- behind a gap: too little indentation, a comment, or the end of the document
      if gap.isSome &&
          ((!flow && m.column < floor) || c = '#' ||
            (m.column = 0 && isDocumentMarker (c :: rest))) then stop
      else if flow && c = ':' && isMisplacedColon rest then none
      -- anywhere: the mark of a value, and in flow collections their own marks
      else if (c = ':' && endsWord rest) || (flow && isFlowIndicator c) then stop
      else plainFrom flow floor (c :: ((Gap.ofOption gap).reverse ++ text)) none rest m.next

/-- The plain scalar at a place. -/
def plain (flow : Bool) (floor : Nat) (c : Cursor) : Option (List Char × Cursor × Bool) :=
  plainFrom flow floor [] none c.rest c.mark

/-! ## Quoted scalars -/

/-- The value of a hexadecimal digit. -/
def hexDigit? (c : Char) : Option Nat :=
  if '0' ≤ c && c ≤ '9' then some (c.toNat - 48)
  else if 'A' ≤ c && c ≤ 'F' then some (c.toNat - 55)
  else if 'a' ≤ c && c ≤ 'f' then some (c.toNat - 87)
  else none

/-- The character whose number has these digits. -/
def numbered? (digits : List Char) : Option Char := do
  let n ← digits.foldlM (fun n c => do return n * 16 + (← hexDigit? c)) 0
  if (0xD800 ≤ n && n ≤ 0xDFFF) || 0x10FFFF < n then none else some (Char.ofNat n)

/-- What a backslash and a character stand for. -/
def escaped? : Char → Option Char
  | '0' => some '\x00'
  | 'a' => some '\x07'
  | 'b' => some '\x08'
  | 't' | '\t' => some '\t'
  | 'n' => some '\n'
  | 'v' => some '\x0b'
  | 'f' => some '\x0c'
  | 'r' => some '\r'
  | 'e' => some '\x1b'
  | ' ' => some ' '
  | '"' => some '"'
  | '/' => some '/'
  | '\\' => some '\\'
  | 'N' => some '\u0085'
  | '_' => some '\u00a0'
  | 'L' => some '\u2028'
  | 'P' => some '\u2029'
  | _ => none

/-- How many digits follow a backslash and a character. -/
def escapeWidth : Char → Nat
  | 'x' => 2
  | 'u' => 4
  | 'U' => 8
  | _ => 0

/-- The character that an escape stands for by what follows the backslash, and how many characters it
takes. -/
def escape? : List Char → Option (Char × Nat)
  | [] => none
  | e :: after =>
    if escapeWidth e = 0 then (escaped? e).map fun x => (x, 1)
    else
      let digits := after.take (escapeWidth e)
      if digits.length < escapeWidth e then none
      else (numbered? digits).map fun x => (x, 1 + escapeWidth e)

/-- The rest of a quoted scalar up to its closing quote. `pending` characters are still to be dropped,
which an escape has taken. -/
def quotedFrom (double : Bool) (text : List Char) (gap : Option Gap) (pending : Nat) :
    List Char → Mark → Option (List Char × Cursor)
  | [], _ => none
  | '\r' :: '\n' :: rest, m =>
    quotedFrom double text (some ((gap.getD {}).addBreak ['\n'])) 0 rest (m.newLine 2)
  | c :: rest, m =>
    if pending ≠ 0 then quotedFrom double text gap (pending - 1) rest m.next
    else if isBlank c then
      quotedFrom double text (some ((gap.getD {}).addBlank c)) 0 rest m.next
    else if isBreak c then
      quotedFrom double text (some ((gap.getD {}).addBreak (normalBreak c))) 0 rest (m.newLine 1)
    -- a quote does not run on into the next document
    else if gap.isSome && m.column = 0 && isDocumentMarker (c :: rest) then none
    else
      let text := (Gap.ofOption gap).reverse ++ text
      if !double && c = '\'' then
        -- two quotes stand for one
        if rest.head? = some '\'' then quotedFrom double ('\'' :: text) none 1 rest m.next
        else some (text.reverse, ⟨rest, m.next⟩)
      else if double && c = '"' then some (text.reverse, ⟨rest, m.next⟩)
      else if double && c = '\\' then
        -- an escaped line end joins the lines without a space
        if rest.head?.any isBreak then
          quotedFrom double text (some { broken := true, swallows := true }) 0 rest m.next
        else
          match escape? rest with
          | some (x, taken) => quotedFrom double (x :: text) none taken rest m.next
          | none => none
      else quotedFrom double (c :: text) none 0 rest m.next

/-- The quoted scalar at a place, whose first character is its quote. -/
def quoted (double : Bool) (c : Cursor) : Option (List Char × Cursor) :=
  let c := c.skip 1
  quotedFrom double [] none 0 c.rest c.mark

/-! ## Block scalars -/

/-- What becomes of the line ends at the end of a block. -/
inductive Chomping
  | strip
  | clip
  | keep
  deriving DecidableEq, Repr

/-- Whether to strip or to keep, as a sign says. -/
def chomping? : Char → Option Chomping
  | '-' => some .strip
  | '+' => some .keep
  | _ => none

/-- The digit that states an indentation. -/
def indentDigit? (c : Char) : Option Nat := if c.isDigit then some (c.toNat - 48) else none

/-- What stands behind the mark of a block: how to chomp, the stated indentation, the place behind
them. -/
def blockHeader (c : Cursor) : Option (Chomping × Nat × Cursor) :=
  match c.rest with
  | a :: rest =>
    -- sign and digit come in either order, and a digit is never zero
    match chomping? a, indentDigit? a with
    | some how, _ =>
      match rest.head?.bind indentDigit? with
      | some 0 => none
      | some n => some (how, n, c.skip 2)
      | none => some (how, 0, c.skip 1)
    | none, some 0 => none
    | none, some n =>
      match rest.head?.bind chomping? with
      | some how => some (how, n, c.skip 2)
      | none => some (.clip, n, c.skip 1)
    | none, none => some (.clip, 0, c)
  | [] => some (.clip, 0, c)

/-- The empty lines ahead. Without an indentation yet, `widest` is the widest column seen. Gives the
line ends, the widest column and the place of the next line's first character. -/
def blockBreaks (indent : Nat) (breaks : List Char) (widest : Nat) :
    List Char → Mark → Option (List Char × Nat × Cursor)
  | [], m => some (breaks, max widest m.column, ⟨[], m⟩)
  | '\r' :: '\n' :: rest, m =>
    blockBreaks indent (breaks ++ ['\n']) (max widest m.column) rest (m.newLine 2)
  | c :: rest, m =>
    if c = ' ' && (indent = 0 || m.column < indent) then
      blockBreaks indent breaks widest rest m.next
    else if c = '\t' && (indent = 0 || m.column < indent) then none
    else if isBreak c then
      blockBreaks indent (breaks ++ normalBreak c) (max widest m.column) rest (m.newLine 1)
    else some (breaks, max widest m.column, ⟨c :: rest, m⟩)

/-- The lines of a block. `lead` is the line end before the line ahead and `breaks` those of the empty
lines after it; `afterBlank` tells whether the line before starts with a blank. `fuel` bounds the
lines. -/
def blockLines (isFolded : Bool) (indent : Nat) :
    (fuel : Nat) → (text lead breaks : List Char) → (afterBlank : Bool) → Cursor →
      Option (List Char × List Char × List Char × Cursor)
  | 0, text, lead, breaks, _, c => some (text, lead, breaks, c)
  | fuel + 1, text, lead, breaks, afterBlank, c =>
    match c.rest with
    | [] => some (text, lead, breaks, c)
    | first :: _ =>
      if c.mark.column ≠ indent then some (text, lead, breaks, c)
      else
        let startsBlank := isBlank first
        -- only a single line end between two lines that start with no blank is folded
        let joined := isFolded && lead = ['\n'] && !afterBlank && !startsBlank
        let text := text ++ (if joined then (if breaks = [] then [' '] else []) else lead) ++ breaks
        let (line, c) := c.span fun x => !isBreak x
        let (lead, c) := c.lineEnd
        match blockBreaks indent [] 0 c.rest c.mark with
        | none => none
        | some (breaks, _, c) =>
          blockLines isFolded indent fuel (text ++ line) lead breaks startsBlank c

/-- The block scalar at a place, whose first character is its mark, inside a block that is indented
by `outer` columns, or by none. -/
def block (isFolded : Bool) (outer : Option Nat) (c : Cursor) : Option (List Char × Cursor) := do
  let (how, stated, c) ← blockHeader (c.skip 1)
  let c := (c.span isBlank).2.skipComment
  if !(c.rest.head?.all isBreak) then none
  let (_, c) := c.lineEnd
  let indent := if stated = 0 then 0 else outer.getD 0 + stated
  let (breaks, widest, c) ← blockBreaks indent [] 0 c.rest c.mark
  let least := match outer with
    | some n => n + 1
    | none => 1
  -- if it is not stated, the first line decides, or a wider empty one before it
  let indent := if indent = 0 then max (max widest least) 1 else indent
  let (text, lead, breaks, c) ← blockLines isFolded indent (c.rest.length + 1) [] [] breaks false c
  let text := if how = .strip then text else text ++ lead
  return (if how = .keep then text ++ breaks else text, c)

end ReplicatedStore.Yaml
