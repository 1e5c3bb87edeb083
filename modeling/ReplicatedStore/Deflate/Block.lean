import ReplicatedStore.Deflate.Alphabet

/-!
# Compressed blocks

A compressed stream is a row of blocks, the last of which is marked. A block is stored octets, or
tokens written with the fixed codes, or tokens written with codes that the block states first.
`Deflate.compress` writes stored blocks or one block with the fixed codes; `Deflate.expand?` reads
all three kinds, and refuses what the format does not allow.
-/

namespace ReplicatedStore.Deflate

/-! ## Writing -/

/-- The words of the fixed code for octets, the end mark and lengths. -/
def lengthWords : Array Bits := ((PrefixCode.words Alphabet.fixedLengths).map (·.2)).toArray

/-- The words of the fixed code for distances. -/
def distanceWords : Array Bits := ((PrefixCode.words Alphabet.fixedDistances).map (·.2)).toArray

/-- The bits of a number by its class: the word of the class and the extra bits. -/
def classBits (classes : List NumberClass) (wordOf : Nat → Bits) (n : Nat) : Bits :=
  match Alphabet.classOf? classes n with
  | some (place, c) => wordOf place ++ Bits.ofNat c.extra (n - c.base)
  | none => []

/-- The bits of a token by the fixed codes. -/
def tokenBits : Token → Bits
  | .literal b => lengthWords.getD b.toNat []
  | .copy length distance =>
    classBits Alphabet.lengthClasses
        (fun place => lengthWords.getD (Alphabet.firstLength + place) []) length ++
      classBits Alphabet.distanceClasses (fun place => distanceWords.getD place []) distance

/-- One last block with the fixed codes. -/
def fixedBlock (tokens : List Token) : Bits :=
  -- the mark of a last block, then its kind in two bits
  [true, true, false] ++ tokens.flatMap tokenBits ++ lengthWords.getD Alphabet.endMark []

/-- The most octets that a stored block may hold. -/
def maxStored : Nat := 65535

/-- A stored block, which starts and ends at octet boundaries. -/
def storedBlock (last : Bool) (data : Bytes) : Bytes :=
  -- mark and kind fill an octet; the length is followed by its complement
  (if last then 1 else 0) :: Bytes.toLE 2 data.length ++ Bytes.toLE 2 (maxStored - data.length) ++ data

/-- Stored blocks, after those already written; `fuel` bounds their number. -/
def storeFrom : (fuel : Nat) → (written : List Bytes) → (data : Bytes) → List Bytes
  | 0, written, data => storedBlock true (data.take maxStored) :: written
  | fuel + 1, written, data =>
    if data.length ≤ maxStored then storedBlock true data :: written
    else storeFrom fuel (storedBlock false (data.take maxStored) :: written) (data.drop maxStored)

def store (data : Bytes) : Bytes := (storeFrom (data.length / maxStored) [] data).reverse.flatten

/-- A compressed payload: stored at level zero, with the fixed codes at any other. -/
def compress (level : Nat) (data : Bytes) : Bytes :=
  if level = 0 then store data else Bits.toBytes (fixedBlock (Token.tokenize data))

/-! ## Reading -/

/-- A number of a class: its least member and the extra bits that follow. -/
def readNumber (classes : List NumberClass) (place : Nat) (bits : Bits) : Option (Nat × Bits) := do
  let c ← classes[place]?
  let (offset, rest) ← Bits.takeNat c.extra bits
  return (c.base + offset, rest)

/-- The next token and what follows it; no token at the end mark. -/
def readToken? (lengths distances : PrefixTree) (bits : Bits) : Option (Option Token × Bits) := do
  let (symbol, rest) ← lengths.read bits
  -- an octet for itself, the end, or a copy
  if symbol < Alphabet.endMark then return (some (.literal (UInt8.ofNat symbol)), rest)
  else if symbol = Alphabet.endMark then return (none, rest)
  else
    let (length, rest) ← readNumber Alphabet.lengthClasses (symbol - Alphabet.firstLength) rest
    let (place, rest) ← distances.read rest
    let (distance, rest) ← readNumber Alphabet.distanceClasses place rest
    return (some (.copy length distance), rest)

/-- The tokens of a block up to its end mark, added to the octets before it. -/
def readTokens (lengths distances : PrefixTree) :
    (fuel : Nat) → (out : Array UInt8) → Bits → Option (Array UInt8 × Bits)
  | 0, _, _ => none
  | fuel + 1, out, bits =>
    match readToken? lengths distances bits with
    | none => none
    | some (none, rest) => some (out, rest)
    | some (some t, rest) =>
      match Token.expand? out t with
      | none => none
      | some out => readTokens lengths distances fuel out rest

/-- `count` octets copied from the bits. -/
def readOctets : (count : Nat) → (out : Array UInt8) → Bits → Option (Array UInt8 × Bits)
  | 0, out, bits => some (out, bits)
  | count + 1, out, bits =>
    match Bits.takeNat 8 bits with
    | none => none
    | some (n, rest) => readOctets count (out.push (UInt8.ofNat n)) rest

/-- A stored block after its kind: a length, its complement, and that many octets. -/
def readStored (out : Array UInt8) (bits : Bits) : Option (Array UInt8 × Bits) := do
  let (length, rest) ← Bits.takeNat 16 (Bits.align bits)
  let (complement, rest) ← Bits.takeNat 16 rest
  if length + complement = maxStored then readOctets length out rest else none

/-- The stated word lengths of the code for word lengths, in the order of the block. -/
def readMeta : List Nat → (lengths : Array Nat) → Bits → Option (Array Nat × Bits)
  | [], lengths, bits => some (lengths, bits)
  | symbol :: order, lengths, bits =>
    match Bits.takeNat 3 bits with
    | none => none
    | some (n, rest) => readMeta order (lengths.setIfInBounds symbol n) rest

/-- Word lengths until there are `total`: a length, or a repetition of the last one or of zero. -/
def readLengths (code : PrefixTree) (total : Nat) :
    (fuel : Nat) → (out : Array Nat) → Bits → Option (Array Nat × Bits)
  | 0, _, _ => none
  | fuel + 1, out, bits =>
    if out.size = total then some (out, bits)
    -- a repetition may not go beyond the last symbol
    else if total < out.size then none
    else do
      let (symbol, rest) ← code.read bits
      if symbol < 16 then readLengths code total fuel (out.push symbol) rest
      else if symbol = 16 then
        -- there has to be a length to repeat
        let last ← out.back?
        let (n, rest) ← Bits.takeNat 2 rest
        readLengths code total fuel (out ++ Array.replicate (n + 3) last) rest
      else if symbol = 17 then
        let (n, rest) ← Bits.takeNat 3 rest
        readLengths code total fuel (out ++ Array.replicate (n + 3) 0) rest
      else
        let (n, rest) ← Bits.takeNat 7 rest
        readLengths code total fuel (out ++ Array.replicate (n + 11) 0) rest

/-- The two codes that a block states. The code for word lengths has to be complete. -/
def readCodes (bits : Bits) : Option (PrefixTree × PrefixTree × Bits) := do
  let (lengthCount, rest) ← Bits.takeNat 5 bits
  let (distanceCount, rest) ← Bits.takeNat 5 rest
  let (metaCount, rest) ← Bits.takeNat 4 rest
  let lengthCount := lengthCount + 257
  let distanceCount := distanceCount + 1
  -- the symbols that the fixed codes have beyond these mean nothing
  if 286 < lengthCount ∨ 30 < distanceCount then none
  else
    let (metaLengths, rest) ←
      readMeta (Alphabet.metaOrder.take (metaCount + 4)) (Array.replicate 19 0) rest
    if !PrefixCode.isComplete metaLengths.toList then none
    else
      let metaCode ← PrefixCode.tree? metaLengths.toList
      let total := lengthCount + distanceCount
      -- both codes are stated in one row, so a repetition may run from the first into the second
      let (lengths, rest) ← readLengths metaCode total (total + 1) #[] rest
      let lengths := lengths.toList
      let first ← PrefixCode.tree? (lengths.take lengthCount)
      let second ← PrefixCode.tree? (lengths.drop lengthCount)
      return (first, second, rest)

/-- The tree of the fixed code for octets, the end mark and lengths. -/
def fixedLengthTree : PrefixTree := (PrefixCode.tree? Alphabet.fixedLengths).getD .vacant

/-- The tree of the fixed code for distances. -/
def fixedDistanceTree : PrefixTree := (PrefixCode.tree? Alphabet.fixedDistances).getD .vacant

/-- A block after its two kind bits. -/
def readBody (kind : Nat) (out : Array UInt8) (bits : Bits) : Option (Array UInt8 × Bits) :=
  match kind with
  | 0 => readStored out bits
  -- every token takes a bit at least, so the bits bound the tokens
  | 1 => readTokens fixedLengthTree fixedDistanceTree (bits.length + 1) out bits
  | 2 =>
    match readCodes bits with
    | none => none
    | some (lengths, distances, rest) => readTokens lengths distances (rest.length + 1) out rest
  | _ => none

/-- Blocks up to the last one. -/
def readBlocks : (fuel : Nat) → (out : Array UInt8) → Bits → Option (Array UInt8 × Bits)
  | 0, _, _ => none
  | fuel + 1, out, bits =>
    match bits with
    | [] => none
    | last :: bits =>
      match Bits.takeNat 2 bits with
      | none => none
      | some (kind, rest) =>
        match readBody kind out rest with
        | none => none
        | some (out, rest) => if last then some (out, rest) else readBlocks fuel out rest

/-- The payload of a compressed stream, and the bits after its last block. -/
def expand? (bits : Bits) : Option (Bytes × Bits) :=
  match readBlocks (bits.length + 1) #[] bits with
  | none => none
  | some (out, rest) => some (out.toList, rest)

end ReplicatedStore.Deflate
