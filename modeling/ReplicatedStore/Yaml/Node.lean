import ReplicatedStore.Yaml.Token

/-!
# Nodes

A YAML document is a tree of scalars, sequences and mappings. A node may bear a name, under which
aliases stand for it later. An alias holds the node that it stands for, and what following it costs,
so that a document in which aliases multiply can be refused without being unfolded. An alias inside
the node that it names stands for nothing.

`Node.ofText?` gives the document of a text: none if the text holds none, and a failure if it is
malformed or holds several.
-/

namespace ReplicatedStore.Yaml

/-- What it takes to visit a node with all that aliases stand for. -/
structure Weight where
  /-- how many aliases are followed -/
  jumps : Nat := 0
  /-- how many collections are nested in each other -/
  depth : Nat := 0
  deriving DecidableEq, Repr

/-- The weight of nodes side by side. -/
def Weight.beside (a b : Weight) : Weight := ⟨a.jumps + b.jumps, max a.depth b.depth⟩

/-- A tree of values. -/
inductive Node
  | scalar (tag : Option (List Char)) (style : Style) (text : List Char)
  | sequence (tag : Option (List Char)) (items : List Node)
  | mapping (tag : Option (List Char)) (entries : List (Node × Node))
  | alias (target : Option Node) (weight : Weight)
  deriving Repr, Inhabited

namespace Node

/-- A scalar that is left out. -/
def absent : Node := .scalar none .plain []

mutual

/-- What it takes to visit a node. -/
def weight : Node → Weight
  | .scalar .. => {}
  | .sequence _ items =>
    let w := weightOfItems items
    { w with depth := w.depth + 1 }
  | .mapping _ entries =>
    let w := weightOfEntries entries
    { w with depth := w.depth + 1 }
  | .alias _ w => { w with jumps := w.jumps + 1 }

/-- What it takes to visit the items of a sequence. -/
def weightOfItems : List Node → Weight
  | [] => {}
  | n :: rest => (weight n).beside (weightOfItems rest)

/-- What it takes to visit the entries of a mapping. -/
def weightOfEntries : List (Node × Node) → Weight
  | [] => {}
  | (k, v) :: rest => ((weight k).beside (weight v)).beside (weightOfEntries rest)

end

mutual

/-- How many marks and scalars a node is made of: an opening and a closing one for a collection. -/
def size : Node → Nat
  | .scalar .. | .alias .. => 1
  | .sequence _ items => 2 + sizeOfItems items
  | .mapping _ entries => 2 + sizeOfEntries entries

/-- The size of the items of a sequence. -/
def sizeOfItems : List Node → Nat
  | [] => 0
  | n :: rest => size n + sizeOfItems rest

/-- The size of the entries of a mapping. -/
def sizeOfEntries : List (Node × Node) → Nat
  | [] => 0
  | (k, v) :: rest => size k + size v + sizeOfEntries rest

end

end Node

/-! ## Nodes of tokens -/

/-- The tokens ahead, with the nodes that bear names so far; an open one has a name already. -/
structure Build where
  tokens : List Token
  named : List (List Char × Option Node) := []
  handles : List (List Char × List Char) := []

/-- The stems of the handles that need no directive. -/
def defaultHandles : List (List Char × List Char) :=
  [("!!".toList, "tag:yaml.org,2002:".toList), ("!".toList, "!".toList)]

namespace Build

/-- Where a node stands. -/
inductive Place
  | flow
  | block
  /-- a value or a key of a block mapping, where a sequence may stand without indentation -/
  | blockEntry
  deriving DecidableEq, Repr

/-- What is behind the next token. -/
def next (b : Build) : Build := { b with tokens := b.tokens.drop 1 }

/-- The tag that a handle and a suffix make, if the handle is known. -/
def resolve? (b : Build) (handle suffix : List Char) : Option (List Char) :=
  if handle = [] then some suffix else (b.handles.lookup handle).map (· ++ suffix)

/-- Name and tag in front of a node. -/
structure Front where
  name : Option (List Char) := none
  tag : Option (List Char) := none

/-- The name and the tag ahead, in either order. -/
def front (b : Build) : Option (Front × Build) :=
  match b.tokens with
  | .anchor n :: .tag h s :: rest => do
    return ({ name := some n, tag := some (← b.resolve? h s) }, { b with tokens := rest })
  | .tag h s :: .anchor n :: rest => do
    return ({ name := some n, tag := some (← b.resolve? h s) }, { b with tokens := rest })
  | .anchor n :: rest => some ({ name := some n }, { b with tokens := rest })
  | .tag h s :: rest => do
    return ({ tag := some (← b.resolve? h s) }, { b with tokens := rest })
  | _ => some ({}, b)

/-- A name for a node, or for one that is open. -/
def bind (b : Build) (name : Option (List Char)) (node : Option Node) : Build :=
  match name with
  | some n => { b with named := (n, node) :: b.named }
  | none => b

def isNext (b : Build) (p : Token → Bool) : Bool := b.tokens.head?.any p

/-- Tokens that end an entry of a block sequence. -/
def endsItem : Token → Bool
  | .blockEntry | .blockEnd => true
  | _ => false

/-- Tokens that end an entry of a sequence without indentation. -/
def endsLooseItem : Token → Bool
  | .blockEntry | .key | .value | .blockEnd => true
  | _ => false

/-- Tokens that end a key or a value of a block mapping. -/
def endsBlockPart : Token → Bool
  | .key | .value | .blockEnd => true
  | _ => false

/-- Tokens that end a key in a flow sequence. -/
def endsPairKey : Token → Bool
  | .value | .flowEntry | .flowSequenceEnd => true
  | _ => false

/-- Tokens that end a value in a flow sequence. -/
def endsPairValue : Token → Bool
  | .flowEntry | .flowSequenceEnd => true
  | _ => false

/-- Tokens that end a key in a flow mapping. -/
def endsFlowKey : Token → Bool
  | .value | .flowEntry | .flowMappingEnd => true
  | _ => false

/-- Tokens that end a value in a flow mapping. -/
def endsFlowValue : Token → Bool
  | .flowEntry | .flowMappingEnd => true
  | _ => false

/-- The tag of a scalar; a lone exclamation mark is none. -/
def scalarTag (tag : Option (List Char)) : Option (List Char) :=
  if tag = some ['!'] then none else tag

mutual

/-- The node ahead. `fuel` bounds the nodes inside each other, with their parts. -/
def node : (fuel : Nat) → Place → Build → Option (Node × Build)
  | 0, _, _ => none
  | fuel + 1, place, b =>
    match b.tokens with
    | .alias n :: rest => do
      -- a name that nothing bears is an error
      let target ← b.named.lookup n
      let weight := match target with
        | some t => t.weight
        | none => {}
      return (.alias target weight, { b with tokens := rest })
    | _ => do
      let (f, b) ← b.front
      -- inside of what it names a name stands for nothing yet
      let open_ := b.bind f.name none
      let (n, b) ← (match b.tokens with
        | .scalar text style :: _ => some (Node.scalar (scalarTag f.tag) style text, b.next)
        | .flowSequence :: _ => do
          let (items, b) ← flowItems fuel true open_.next
          return (.sequence f.tag items, b)
        | .flowMapping :: _ => do
          let (entries, b) ← flowEntries fuel true open_.next
          return (.mapping f.tag entries, b)
        | .blockEntry :: _ =>
          -- a sequence without indentation stands only in a mapping; elsewhere the node is empty
          if place = .blockEntry then do
            let (items, b) ← looseItems fuel open_
            return (.sequence f.tag items, b)
          else if f.name.isSome || f.tag.isSome then
            some (Node.scalar (scalarTag f.tag) .plain [], b)
          else none
        | .blockSequence :: _ =>
          if place ≠ .flow then do
            let (items, b) ← blockItems fuel open_.next
            return (.sequence f.tag items, b)
          else if f.name.isSome || f.tag.isSome then
            some (Node.scalar (scalarTag f.tag) .plain [], b)
          else none
        | .blockMapping :: _ =>
          if place ≠ .flow then do
            let (entries, b) ← blockEntries fuel open_.next
            return (.mapping f.tag entries, b)
          else if f.name.isSome || f.tag.isSome then
            some (Node.scalar (scalarTag f.tag) .plain [], b)
          else none
        | _ =>
          if f.name.isSome || f.tag.isSome then some (Node.scalar (scalarTag f.tag) .plain [], b)
          else none)
      return (n, b.bind f.name (some n))

/-- A node, or nothing where a token ends it. -/
def part (fuel : Nat) (place : Place) (ends : Token → Bool) (b : Build) : Option (Node × Build) :=
  match fuel with
  | 0 => none
  | fuel + 1 => if b.isNext ends then some (.absent, b) else node fuel place b

/-- The entries of a block sequence up to its end. -/
def blockItems : (fuel : Nat) → Build → Option (List Node × Build)
  | 0, _ => none
  | fuel + 1, b =>
    match b.tokens with
    | .blockEntry :: _ => do
      let (n, b) ← part fuel .block endsItem b.next
      let (rest, b) ← blockItems fuel b
      return (n :: rest, b)
    | .blockEnd :: _ => some ([], b.next)
    | _ => none

/-- The entries of a sequence without indentation. -/
def looseItems : (fuel : Nat) → Build → Option (List Node × Build)
  | 0, _ => none
  | fuel + 1, b =>
    match b.tokens with
    | .blockEntry :: _ => do
      let (n, b) ← part fuel .block endsLooseItem b.next
      let (rest, b) ← looseItems fuel b
      return (n :: rest, b)
    | _ => some ([], b)

/-- The entries of a block mapping up to its end. -/
def blockEntries : (fuel : Nat) → Build → Option (List (Node × Node) × Build)
  | 0, _ => none
  | fuel + 1, b =>
    match b.tokens with
    | .key :: _ => do
      let (k, b) ← part fuel .blockEntry endsBlockPart b.next
      let (v, b) ← (match b.tokens with
        | .value :: _ => part fuel .blockEntry endsBlockPart b.next
        | _ => some (.absent, b))
      let (rest, b) ← blockEntries fuel b
      return ((k, v) :: rest, b)
    | .blockEnd :: _ => some ([], b.next)
    | _ => none

/-- The entries of a flow sequence up to its end; each but the first is behind a comma. -/
def flowItems : (fuel : Nat) → (first : Bool) → Build → Option (List Node × Build)
  | 0, _, _ => none
  | fuel + 1, first, b =>
    match b.tokens with
    | .flowSequenceEnd :: _ => some ([], b.next)
    | t :: _ =>
      if !first && t ≠ .flowEntry then none
      else
        let b := if first then b else b.next
        match b.tokens with
        | .flowSequenceEnd :: _ => some ([], b.next)
        | .key :: _ => do
          let b := b.next
          -- what ends a missing key is taken along with it
          let (k, b) ← (if b.isNext endsPairKey then some (.absent, b.next) else node fuel .flow b)
          let (v, b) ← (match b.tokens with
            | .value :: _ => part fuel .flow endsPairValue b.next
            | _ => some (.absent, b))
          let (rest, b) ← flowItems fuel false b
          -- a pair among the items is a mapping of its own
          return (.mapping none [(k, v)] :: rest, b)
        | _ => do
          let (n, b) ← node fuel .flow b
          let (rest, b) ← flowItems fuel false b
          return (n :: rest, b)
    | [] => none

/-- The entries of a flow mapping up to its end; each but the first is behind a comma. -/
def flowEntries : (fuel : Nat) → (first : Bool) → Build → Option (List (Node × Node) × Build)
  | 0, _, _ => none
  | fuel + 1, first, b =>
    match b.tokens with
    | .flowMappingEnd :: _ => some ([], b.next)
    | t :: _ =>
      if !first && t ≠ .flowEntry then none
      else
        let b := if first then b else b.next
        match b.tokens with
        | .flowMappingEnd :: _ => some ([], b.next)
        | .key :: _ => do
          let (k, b) ← part fuel .flow endsFlowKey b.next
          let (v, b) ← (match b.tokens with
            | .value :: _ => part fuel .flow endsFlowValue b.next
            | _ => some (.absent, b))
          let (rest, b) ← flowEntries fuel false b
          return ((k, v) :: rest, b)
        | _ => do
          let (k, b) ← node fuel .flow b
          let (rest, b) ← flowEntries fuel false b
          return ((k, .absent) :: rest, b)
    | [] => none

end

/-! ## Documents -/

/-- The handles that the directives ahead state, and what is behind them. -/
def directives : (stated : Bool) → (handles : List (List Char × List Char)) → List Token →
    Option (List (List Char × List Char) × List Token)
  | stated, handles, .version major minor :: rest =>
    if stated || major ≠ 1 || (minor ≠ 1 && minor ≠ 2) then none else directives true handles rest
  | stated, handles, .tagHandle h stem :: rest =>
    if (handles.lookup h).isSome then none else directives stated ((h, stem) :: handles) rest
  | _, handles, tokens => some (handles, tokens)

/-- The handles of a document: those that it states, then the default ones. -/
def allHandles (stated : List (List Char × List Char)) : List (List Char × List Char) :=
  stated ++ defaultHandles

/-- Tokens that end a document. -/
def endsDocument : Token → Bool
  | .version .. | .tagHandle .. | .documentStart | .documentEnd | .streamEnd => true
  | _ => false

/-- What follows a document: marks of its end, then the end of the text or directives and the start
of another one. Gives whether there is another one. -/
def hasMore : List Token → Bool
  | [] => false
  | .documentEnd :: rest => hasMore rest
  | .streamEnd :: _ => false
  | _ => true

/-- The first document, if there is one, and the tokens behind it. -/
def document? (tokens : List Token) : Option (Option Node × List Token) :=
  let fuel := 4 * tokens.length + 4
  match tokens with
  | .streamEnd :: _ | [] => some (none, [])
  | t :: _ =>
    -- a document with directives or a mark of its start, or one without either
    if endsDocument t && t ≠ .documentEnd then do
      let (handles, rest) ← directives false [] tokens
      match rest with
      | .documentStart :: rest =>
        let b : Build := { tokens := rest, handles := allHandles handles }
        let (n, b) ← (if b.isNext endsDocument then some (Node.absent, b) else node fuel .block b)
        return (some n, b.tokens)
      | _ => none
    else do
      let (n, b) ← node fuel .block { tokens, handles := allHandles [] }
      return (some n, b.tokens)

end Build

/-- The document of a text; a failure if the text is malformed or holds several. -/
def Node.ofText? (text : List Char) : Option (Option Node) := do
  let tokens ← Token.ofText? text
  let (n, rest) ← Build.document? tokens
  if Build.hasMore rest then none else return n

end ReplicatedStore.Yaml
