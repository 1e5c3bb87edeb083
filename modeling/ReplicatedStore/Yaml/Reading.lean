import ReplicatedStore.Document
import ReplicatedStore.Yaml.Literal

/-!
# Reading nodes

Readers that expect a node to be of some kind. Every alias that is followed is taken from a supply, so
that a document whose aliases multiply is refused. A mapping or a sequence may be left out, and a
value that nobody asks for is not looked at.
-/

namespace ReplicatedStore.Yaml

/-- A reader with a supply of aliases to follow; it may refuse. -/
abbrev Reading (α : Type) := StateT Nat Option α

namespace Reading

/-- Refusal. -/
def refuse {α : Type} : Reading α := fun _ => none

/-- A reader of what may be refused. -/
def ofOption {α : Type} : Option α → Reading α
  | some a => pure a
  | none => refuse

/-- Aliases are taken from the supply. -/
def spend (count : Nat) : Reading Unit := fun supply =>
  if count ≤ supply then some ((), supply - count) else none

/-- The node that an alias stands for, or the node itself. -/
def resolved : Node → Reading Node
  | .alias (some n) _ => do
    spend 1
    resolved n
  | .alias none _ => refuse
  | n => pure n

/-- The text of a scalar, however it is written. -/
def text (n : Node) : Reading (List Char) := do
  match ← resolved n with
  | .scalar _ _ t => pure t
  | _ => refuse

def string (n : Node) : Reading String := do return String.ofList (← text n)

def flag (n : Node) : Reading Bool := do
  match ← resolved n with
  | .scalar tag style t => if isLiteral "bool" tag style then ofOption (flag? t) else refuse
  | _ => refuse

/-- The numbers of 64 bits end before this one. -/
def wordLimit : Nat := 0x10000000000000000

/-- The numbers of 64 bits with a sign end below zero at this one. -/
def signedLimit : Nat := 0x8000000000000000

/-- A whole number below a limit. -/
def natural (limit : Nat) (n : Node) : Reading Nat := do
  match ← resolved n with
  | .scalar tag style t =>
    if isLiteral "int" tag style then
      ofOption ((natural? wordLimit t).filter (· < limit))
    else refuse
  | _ => refuse

/-- A value, or nothing where a plain scalar is left out or means nothing. -/
def optional {α : Type} (read : Node → Reading α) (n : Node) : Reading (Option α) := do
  let n ← resolved n
  let isNothing ← (match n with
    | .scalar tag .plain t =>
      match tag with
      | some tag =>
        if tag = standardTag "null" then (if isNull t then pure true else refuse) else pure false
      | none => pure (t = [] || isNull t)
    | _ => pure false : Reading Bool)
  if isNothing then return none else return some (← read n)

/-- The name behind an exclamation mark, if a tag is one. -/
def localTag? : Option (List Char) → Option (List Char)
  | some ('!' :: name) => some name
  | _ => none

/-- One of several words, as a scalar or as a tag with nothing behind it. -/
def choice {α : Type} (choices : List (String × α)) (n : Node) : Reading α := do
  match ← resolved n with
  | .scalar tag style t =>
    match localTag? tag with
    | some name =>
      -- the tag is the word, so nothing may stand behind it
      if style = .plain && (t = [] || isNull t) then
        ofOption (choices.lookup (String.ofList name))
      else refuse
    | none => ofOption (choices.lookup (String.ofList t))
  | _ => refuse

/-- The items of a sequence, each read; none where a plain scalar is left out. -/
def items {α : Type} (read : Node → Reading α) (n : Node) : Reading (List α) := do
  match ← resolved n with
  | .sequence _ list => list.mapM read
  | .scalar _ .plain [] => pure []
  | _ => refuse

/-- The entries of a mapping with their keys as texts; none where a plain scalar is left out. -/
def entries (n : Node) : Reading (List (List Char × Node)) := do
  match ← resolved n with
  | .mapping _ list => list.mapM fun (k, v) => do return (← text k, v)
  | .scalar _ .plain [] => pure []
  | _ => refuse

/-- The value of a field, if there is one; refused if there are several. -/
def field {α : Type} (entries : List (List Char × Node)) (name : String)
    (read : Node → Reading α) : Reading (Option α) := do
  match entries.filter (·.1 = name.toList) with
  | [] => return none
  | [(_, v)] => return some (← read v)
  | _ => refuse

/-- The value of a field, or its default. -/
def fieldOr {α : Type} (entries : List (List Char × Node)) (name : String) (default_ : α)
    (read : Node → Reading α) : Reading α := do
  return (← field entries name read).getD default_

/-- The value of a field that may not be left out. -/
def required {α : Type} (entries : List (List Char × Node)) (name : String)
    (read : Node → Reading α) : Reading α := do
  match ← field entries name read with
  | some a => return a
  | none => refuse

/-! ## Values of any kind -/

/-- What a plain scalar without a tag means. -/
def plainValue (t : List Char) : Option Document :=
  if t = [] || isNull t then some .nothing
  else
    match flag? t with
    | some b => some (.flag b)
    | none =>
      match natural? wordLimit t, negative? signedLimit t with
      | some n, _ => some (.whole n)
      | none, some n => some (.whole (-n))
      | none, none =>
        -- numbers of up to 128 bits are still numbers, but there is no value for them
        if (natural? (wordLimit * wordLimit) t).isSome ||
            (negative? (wordLimit * signedLimit) t).isSome then none
        -- digits behind a leading zero are a text
        else if !hasLeadingZero t && isFraction t then some .fraction
        else some (.text (String.ofList t))

def scalarValue (tag : Option (List Char)) (style : Style) (t : List Char) : Option Document :=
  match tag with
  | none => if style = .plain then plainValue t else some (.text (String.ofList t))
  | some tag =>
    if tag = standardTag "bool" then (flag? t).map .flag
    else if tag = standardTag "int" then
      match natural? wordLimit t, negative? signedLimit t with
      | some n, _ => some (.whole n)
      | none, some n => some (.whole (-n))
      | none, none => none
    else if tag = standardTag "float" then if isFraction t then some .fraction else none
    else if tag = standardTag "null" then if isNull t then some .nothing else none
    else some (.text (String.ofList t))

mutual

/-- What a node means, if it means something: tags of one's own have no meaning, nor has an alias
inside the node that it names. -/
def value : Node → Option Document
  | .scalar tag style t => if (localTag? tag).isSome then none else scalarValue tag style t
  | .sequence tag list => if (localTag? tag).isSome then none else (values list).map .list
  | .mapping tag list => if (localTag? tag).isSome then none else (valuesOfEntries list).map .record
  | .alias (some n) _ => value n
  | .alias none _ => none

/-- What the items of a sequence mean. -/
def values : List Node → Option (List Document)
  | [] => some []
  | n :: rest => do return (← value n) :: (← values rest)

/-- What the entries of a mapping mean; keys that are no texts stand as empty ones. -/
def valuesOfEntries : List (Node × Node) → Option (List (String × Document))
  | [] => some []
  | (k, v) :: rest => do
    let key := match ← value k with
      | .text s => s
      | _ => ""
    return (key, ← value v) :: (← valuesOfEntries rest)

end

/-- How many collections may be nested in each other. -/
def deepest : Nat := 128

/-- A value of any kind, inside of `outer` collections. -/
def any (outer : Nat) (n : Node) : Reading Document := do
  -- all aliases are paid for before anything is unfolded
  spend n.weight.jumps
  if deepest < outer + n.weight.depth then refuse else ofOption (value n)

end Reading

/-- What a reader makes of a text: what it makes of its document, or `none` where there is none.
Each mark and scalar of the document allows for a hundred aliases. -/
def read? {α : Type} (read : Node → Reading α) (text : List Char) : Option (Option α) := do
  match ← Node.ofText? text with
  | none => return none
  | some n =>
    let (a, _) ← (read n).run (100 * n.size)
    return some a

end ReplicatedStore.Yaml
