import ReplicatedStore.Yaml.Scalar

/-!
# Tokens

The marks, names and scalars that a YAML text is made of. Indentation shows in tokens that open and
close blocks. A key needs no mark of its own: when a colon comes soon enough in the same line, the
token for a key is put in front of what could be one.

`Token.ofText?` gives the tokens of a text, or nothing if it is malformed.
-/

namespace ReplicatedStore.Yaml

/-- A mark, a name or a scalar. -/
inductive Token
  | version (major minor : Nat)
  | tagHandle (handle stem : List Char)
  | documentStart
  | documentEnd
  | blockSequence
  | blockMapping
  | blockEnd
  | flowSequence
  | flowSequenceEnd
  | flowMapping
  | flowMappingEnd
  | blockEntry
  | flowEntry
  | key
  | value
  | alias (name : List Char)
  | anchor (name : List Char)
  | tag (handle suffix : List Char)
  | scalar (text : List Char) (style : Style)
  | streamEnd
  deriving DecidableEq, Repr

/-- Where a key without a mark may have started. -/
structure KeyPlace where
  /-- the number of the token that would be the key -/
  token : Nat
  mark : Mark
  /-- whether nothing but a key can stand there -/
  required : Bool
  deriving Repr

/-- The state of reading tokens. -/
structure Scan where
  cursor : Cursor
  /-- the columns of the open blocks, the innermost first -/
  blocks : List Nat := []
  /-- for each open flow collection and for what is around them, where a key may have started; the
  innermost first -/
  keys : List (Option KeyPlace) := [none]
  /-- whether a key without a mark may start here -/
  keyAllowed : Bool := true
  tokens : Array Token := #[]
  deriving Repr

namespace Scan

/-- Whether the place is inside a flow collection. -/
def inFlow (s : Scan) : Bool := 1 < s.keys.length

/-- The column that lines inside the innermost block have to reach. -/
def floor (s : Scan) : Nat :=
  match s.blocks with
  | [] => 0
  | n :: _ => n + 1

/-- A token more, and the place behind it. -/
def push (s : Scan) (t : Token) (cursor : Cursor) : Scan :=
  { s with tokens := s.tokens.push t, cursor }

/-- Where a key may have started in the innermost collection. -/
def key? (s : Scan) : Option KeyPlace := s.keys.head?.join

/-- The innermost collection with another place for a key. -/
def setKey (s : Scan) (k : Option KeyPlace) : Scan := { s with keys := k :: s.keys.drop 1 }

/-- No key started here; malformed if one had to. -/
def dropKey (s : Scan) : Option Scan :=
  if s.key?.any (·.required) then none else some (s.setKey none)

/-- What starts here may be a key. -/
def saveKey (s : Scan) : Option Scan :=
  if s.keyAllowed then do
    let s ← s.dropKey
    let m := s.cursor.mark
    -- at the very column of the open block nothing but a key can stand
    let required := !s.inFlow && s.blocks.head? = some m.column
    return s.setKey (some { token := s.tokens.size, mark := m, required })
  else some s

/-- The longest key without a mark. -/
def longestKey : Nat := 1024

/-- A place for a key, unless it is in another line by now or too far away. -/
def freshKey (m : Mark) : Option KeyPlace → Option (Option KeyPlace)
  | none => some none
  | some k =>
    if k.mark.line < m.line || k.mark.index + longestKey < m.index then
      -- a place that had to be a key and can be none any more is an error
      if k.required then none else some none
    else some (some k)

/-- The scan without the places for keys that are out of reach. -/
def dropStale (s : Scan) : Option Scan := do
  return { s with keys := ← s.keys.mapM (freshKey s.cursor.mark) }

/-- A block opens at a column, unless that column is in an open one; its token is put at a number. -/
def openBlock (s : Scan) (column at_ : Nat) (t : Token) : Scan :=
  if s.inFlow || s.blocks.head?.any (column ≤ ·) then s
  else { s with blocks := column :: s.blocks, tokens := s.tokens.insertIdxIfInBounds at_ t }

/-- The blocks that are indented further than a column are closed. -/
def closeBlocks (s : Scan) (column : Nat) : Scan :=
  if s.inFlow then s
  else
    let closed := s.blocks.takeWhile (column < ·)
    { s with
      blocks := s.blocks.drop closed.length
      tokens := s.tokens ++ closed.map fun _ => Token.blockEnd }

def closeAll (s : Scan) : Scan :=
  if s.inFlow then s
  else { s with blocks := [], tokens := s.tokens ++ s.blocks.map fun _ => Token.blockEnd }

/-- The scan at the next token: blanks, comments and line ends count for nothing, but a tab where a
key may start is no blank. `fuel` bounds the lines. -/
def toToken : (fuel : Nat) → Scan → Scan
  | 0, s => s
  | fuel + 1, s =>
    -- a byte order mark is skipped, but only in front of everything
    let c := if s.cursor.mark.index = 0 && s.cursor.rest.head? = some '\uFEFF' then s.cursor.skip 1
      else s.cursor
    let c := (c.span fun x => x = ' ' || ((s.inFlow || !s.keyAllowed) && x = '\t')).2.skipComment
    if c.rest.head?.any isBreak then
      -- outside of flow collections every new line may start with a key
      toToken fuel { s with cursor := c.lineEnd.2, keyAllowed := s.keyAllowed || !s.inFlow }
    else { s with cursor := c }

/-! ## Directives -/

/-- The rest of a line with nothing but blanks and a comment. -/
def emptyLine (c : Cursor) : Option Cursor :=
  let c := (c.span isBlank).2.skipComment
  if c.rest.head?.all isBreak then some c.lineEnd.2 else none

/-- The number ahead, of up to nine digits. -/
def versionNumber (c : Cursor) : Option (Nat × Cursor) :=
  let (digits, c) := c.span Char.isDigit
  if digits = [] || 9 < digits.length then none
  else some (digits.foldl (fun n d => n * 10 + (d.toNat - 48)) 0, c)

/-- The version that a directive states. -/
def versionDirective (c : Cursor) : Option (Token × Cursor) := do
  let (major, c) ← versionNumber (c.span isBlank).2
  if c.rest.head? ≠ some '.' then none
  let (minor, c) ← versionNumber (c.skip 1)
  return (.version major minor, c)

/-- The handle ahead: an exclamation mark, and perhaps a name and another one. -/
def handle (strict : Bool) (c : Cursor) : Option (List Char × Cursor) :=
  if c.rest.head? ≠ some '!' then none
  else
    let (name, c) := (c.skip 1).span isNameChar
    if c.rest.head? = some '!' then some ('!' :: name ++ ['!'], c.skip 1)
    else if strict && name ≠ [] then none
    else some ('!' :: name, c)

/-- Whether a character may stand in a tag; `verbatim` tags take those of flow collections as well. -/
def isTagChar (verbatim : Bool) (c : Char) : Bool :=
  isNameChar c || ";/?:@&=+$.%!~*'()".toList.contains c || (verbatim && ",[]".toList.contains c)

/-- Percent signs undone in a tag; malformed if one is not followed by two digits, or if the octets are
no text. -/
def undoPercent : List Char → Option (List UInt8)
  | '%' :: a :: b :: rest => do
    let x ← hexDigit? a
    let y ← hexDigit? b
    return UInt8.ofNat (x * 16 + y) :: (← undoPercent rest)
  | '%' :: _ => none
  | c :: rest => do return c.toString.toUTF8.toList ++ (← undoPercent rest)
  | [] => some []

def tagText (verbatim : Bool) (c : Cursor) : Option (List Char × Cursor) := do
  let (text, c) := c.span (isTagChar verbatim)
  if text.contains '%' then
    let octets ← undoPercent text
    let s ← String.fromUTF8? octets.toByteArray
    return (s.toList, c)
  else return (text, c)

/-- The handle and the stem that a directive states. -/
def tagDirective (c : Cursor) : Option (Token × Cursor) := do
  let (h, c) ← handle true (c.span isBlank).2
  if !(c.rest.head?.any isBlank) then none
  let (stem, c) ← tagText true (c.span isBlank).2
  if stem = [] || !endsWord c.rest then none
  return (.tagHandle h stem, c)

/-- The directive at a place, whose first character is its mark. -/
def directive (c : Cursor) : Option (Token × Cursor) := do
  let (name, c) := (c.skip 1).span isNameChar
  if name = [] || !endsWord c.rest then none
  let (t, c) ←
    if name = "YAML".toList then versionDirective c
    else if name = "TAG".toList then tagDirective c
    else none
  return (t, ← emptyLine c)

/-! ## Names -/

/-- The name of an anchor or an alias, whose first character is its mark. -/
def anchorName (c : Cursor) : Option (List Char × Cursor) :=
  let (name, c) := (c.skip 1).span isNameChar
  if name = [] || !(endsWord c.rest || c.rest.head?.any fun x => "?:,]\x7d%@`".toList.contains x) then
    none
  else some (name, c)

/-- The tag at a place, whose first character is its mark. -/
def tag (flow : Bool) (c : Cursor) : Option (Token × Cursor) := do
  let (t, c) ← (if (c.rest.drop 1).head? = some '<' then do
      let (suffix, c) ← tagText true (c.skip 2)
      if suffix = [] || c.rest.head? ≠ some '>' then none
      return (Token.tag [] suffix, c.skip 1)
    else do
      let (h, c) ← handle false c
      if h.length ≥ 2 && h.getLast? = some '!' then
        let (suffix, c) ← tagText false c
        if suffix = [] then none
        return (Token.tag h suffix, c)
      else
        let (suffix, c) ← tagText false c
        -- what looked like a handle was the start of the suffix
        let suffix := h.drop 1 ++ suffix
        -- an exclamation mark alone is a tag too
        return (if suffix = [] then Token.tag [] ['!'] else Token.tag ['!'] suffix, c))
  if endsWord c.rest || (flow && c.rest.head? = some ',') then return (t, c) else none

/-! ## One token -/

/-- A directive, or the start or the end of a document. -/
def atMargin (s : Scan) (read : Cursor → Option (Token × Cursor)) : Option Scan := do
  let s ← s.closeAll.dropKey
  let (t, c) ← read s.cursor
  return { s with keyAllowed := false }.push t c

def openFlow (s : Scan) (t : Token) : Option Scan := do
  let s ← s.saveKey
  return { s with keys := none :: s.keys, keyAllowed := true }.push t (s.cursor.skip 1)

def closeFlow (s : Scan) (t : Token) : Option Scan := do
  let s ← s.dropKey
  let keys := if s.inFlow then s.keys.drop 1 else s.keys
  return { s with keys, keyAllowed := false }.push t (s.cursor.skip 1)

/-- A comma. -/
def flowEntry (s : Scan) : Option Scan := do
  let s ← s.dropKey
  return { s with keyAllowed := true }.push .flowEntry (s.cursor.skip 1)

/-- A dash. -/
def blockEntry (s : Scan) : Option Scan := do
  if !s.inFlow && !s.keyAllowed then none
  let s ← (s.openBlock s.cursor.mark.column s.tokens.size .blockSequence).dropKey
  return { s with keyAllowed := true }.push .blockEntry (s.cursor.skip 1)

/-- A question mark. -/
def keyMark (s : Scan) : Option Scan := do
  if !s.inFlow && !s.keyAllowed then none
  let s ← (s.openBlock s.cursor.mark.column s.tokens.size .blockMapping).dropKey
  return { s with keyAllowed := !s.inFlow }.push .key (s.cursor.skip 1)

/-- A colon: what started before it in the same line is a key. -/
def valueMark (s : Scan) : Option Scan :=
  match s.key? with
  | some k =>
    -- the key gets its token in front, and the block of the key in front of that
    let s := { s with tokens := s.tokens.insertIdxIfInBounds k.token .key, keyAllowed := false }
    some (((s.openBlock k.mark.column k.token .blockMapping).setKey none).push .value
      (s.cursor.skip 1))
  | none =>
    if !s.inFlow && !s.keyAllowed then none
    else
      some ({ s.openBlock s.cursor.mark.column s.tokens.size .blockMapping with
        keyAllowed := !s.inFlow }.push .value (s.cursor.skip 1))

/-- A name, a tag or a scalar in one line, which may be a key. -/
def keyLike (s : Scan) (read : Cursor → Option (Token × Cursor)) : Option Scan := do
  let s ← s.saveKey
  let (t, c) ← read s.cursor
  return { s with keyAllowed := false }.push t c

/-- A plain scalar, behind which a key may start if it read on into another line. -/
def plainScalar (s : Scan) : Option Scan := do
  let s ← s.saveKey
  let (text, c, broken) ← plain s.inFlow s.floor s.cursor
  return { s with keyAllowed := broken }.push (.scalar text .plain) c

def blockScalar (s : Scan) (isFolded : Bool) : Option Scan := do
  let s ← s.dropKey
  let (text, c) ← block isFolded s.blocks.head? s.cursor
  return { s with keyAllowed := true }.push (.scalar text (if isFolded then .folded else .literal)) c

/-- Whether a plain scalar starts with what is ahead. -/
def startsPlain (flow : Bool) : List Char → Bool
  | [] => false
  | c :: rest =>
    !(isBlank c || isBreak c || "-?:,[]\x7b\x7d#&*!|>'\"%@`".toList.contains c) ||
      (c = '-' && !(rest.head?.any isBlank)) ||
      (!flow && (c = '?' || c = ':') && !endsWord rest)

def finish (s : Scan) : Option Scan := do
  let s ← s.closeAll.dropKey
  return { s with keyAllowed := false }.push .streamEnd s.cursor

/-- The token that starts with the characters ahead, of which there is at least one. -/
def token (s : Scan) (c : Char) (rest : List Char) : Option Scan :=
  let skipThree (t : Token) (cursor : Cursor) : Option (Token × Cursor) := some (t, cursor.skip 3)
  let isMargin := s.cursor.mark.column = 0
  let opensValue := s.inFlow || endsWord rest
  -- what has a meaning only where a line starts
  if isMargin && c = '%' then s.atMargin directive
  else if isMargin && isMarker '-' (c :: rest) then s.atMargin (skipThree .documentStart)
  else if isMargin && isMarker '.' (c :: rest) then s.atMargin (skipThree .documentEnd)
  -- what has a meaning everywhere
  else if c = '[' then s.openFlow .flowSequence
  else if c = '\x7b' then s.openFlow .flowMapping
  else if c = ']' then s.closeFlow .flowSequenceEnd
  else if c = '\x7d' then s.closeFlow .flowMappingEnd
  else if c = ',' then s.flowEntry
  -- what needs a blank behind it, at least outside of flow collections
  else if c = '-' && endsWord rest then s.blockEntry
  else if c = '?' && opensValue then s.keyMark
  else if c = ':' && opensValue then s.valueMark
  -- names, tags and scalars
  else if c = '*' then s.keyLike fun p => (anchorName p).map fun (n, p) => (.alias n, p)
  else if c = '&' then s.keyLike fun p => (anchorName p).map fun (n, p) => (.anchor n, p)
  else if c = '!' then s.keyLike (tag s.inFlow)
  else if c = '|' && !s.inFlow then s.blockScalar false
  else if c = '>' && !s.inFlow then s.blockScalar true
  else if c = '\'' then s.keyLike fun p => (quoted false p).map fun (t, p) => (.scalar t .quoted, p)
  else if c = '"' then s.keyLike fun p => (quoted true p).map fun (t, p) => (.scalar t .quoted, p)
  else if startsPlain s.inFlow (c :: rest) then s.plainScalar
  else none

/-- All tokens that are left. `fuel` bounds their number. -/
def all : (fuel : Nat) → Scan → Option Scan
  | 0, _ => none
  | fuel + 1, s => do
    let s := toToken (s.cursor.rest.length + 1) s
    let s ← s.dropStale
    let s := s.closeBlocks s.cursor.mark.column
    match s.cursor.rest with
    | [] => s.finish
    -- a token read takes a character at least, so the fuel lasts
    | c :: rest => all fuel (← s.token c rest)

end Scan

def Token.ofText? (text : List Char) : Option (List Token) := do
  if !text.all isAllowed then none
  let text := if text.head? = some '\uFEFF' then text.drop 1 else text
  let s ← Scan.all (text.length + 2) { cursor := ⟨text, {}⟩ }
  return s.tokens.toList

end ReplicatedStore.Yaml
