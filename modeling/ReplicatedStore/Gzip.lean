import ReplicatedStore.Digest.Crc32
import ReplicatedStore.Deflate.Block

/-!
# Gzip members

A member wraps a compressed payload: a header of ten octets, optional fields, the compressed blocks,
and a trailer with the check value and the length of the payload. `decompress?` reads the first
member; whatever follows its trailer is left alone. Blocks can be chosen in many ways, so what writes
members is an `Encoder`; `compress` is the one of this library.
-/

namespace ReplicatedStore.Gzip

/-- The level used when none is asked for. -/
def defaultLevel : Nat := 6

/-- The hint in the header on how hard the payload was compressed. -/
def effortHint (level : Nat) : UInt8 := if level ≤ 1 then 4 else if 9 ≤ level then 2 else 0

/-- The header that `compress` writes: no optional field, no time, no known system. -/
def header (level : Nat) : Bytes := [0x1F, 0x8B, 8, 0, 0, 0, 0, 0, effortHint level, 0xFF]

/-- The trailer of a payload: its check value and its length modulo 2^32. -/
def trailer (payload : Bytes) : Bytes :=
  Bytes.toLE 4 (Crc32.checksum payload).toNat ++ Bytes.toLE 4 (payload.length % 0x100000000)

def compress (level : Nat) (payload : Bytes) : Bytes :=
  header level ++ Deflate.compress level payload ++ trailer payload

/-- The longest name or comment that a header may carry. -/
def maxText : Nat := 65535

/-- What follows a text that ends with a zero octet, of at most `room` octets. -/
def skipText : (room : Nat) → Bytes → Option Bytes
  | _, [] => none
  | room, b :: rest =>
    if b = 0 then some rest
    else match room with
      | 0 => none
      | room + 1 => skipText room rest

/-- What follows the optional extra field. -/
def skipExtra : Bytes → Option Bytes
  | low :: high :: rest =>
    let length := low.toNat + 256 * high.toNat
    if rest.length < length then none else some (rest.drop length)
  | _ => none

/-- What follows an optional field, which is there only if it is announced. -/
def skipField (announced : Bool) (skip : Bytes → Option Bytes) (rest : Bytes) : Option Bytes :=
  if announced then skip rest else some rest

@[simp] theorem skipField_false (skip : Bytes → Option Bytes) (rest : Bytes) :
    skipField false skip rest = some rest := rfl

@[simp] theorem skipField_true (skip : Bytes → Option Bytes) (rest : Bytes) :
    skipField true skip rest = skip rest := rfl

/-- What follows the check value of a header, which covers all of the member before the value. -/
def skipCheck (member rest : Bytes) : Option Bytes :=
  match rest with
  | low :: high :: behind =>
    let covered := member.take (member.length - rest.length)
    if low.toNat + 256 * high.toNat = (Crc32.checksum covered).toNat % 0x10000 then some behind
    else none
  | _ => none

/-- What follows the header: the magic octets, the method, no reserved flag, and each optional field
that a flag announces. -/
def skipHeader (member : Bytes) : Option Bytes :=
  match member with
  | 0x1F :: 0x8B :: 8 :: flags :: _ :: _ :: _ :: _ :: _ :: _ :: rest => do
    let has (bit : UInt8) : Bool := flags &&& bit ≠ 0
    -- flags that announce no known field are reserved
    if has 0xE0 then none
    else
      -- extra field, name, comment and check value, in this order
      let rest ← skipField (has 4) skipExtra rest
      let rest ← skipField (has 8) (skipText maxText) rest
      let rest ← skipField (has 16) (skipText maxText) rest
      skipField (has 2) (skipCheck member) rest
  | _ => none

/-- The payload of the first member, if it is well formed to its end, and the bits behind its trailer. -/
def readMember? (octets : Bytes) : Option (Bytes × Bits) := do
  let body ← skipHeader octets
  let (payload, rest) ← Deflate.expand? (Bits.ofBytes body)
  -- the trailer starts at the next whole octet
  let (check, rest) ← Bits.takeNat 32 (Bits.align rest)
  let (length, rest) ← Bits.takeNat 32 rest
  if check = (Crc32.checksum payload).toNat ∧ length = payload.length % 0x100000000 then
    some (payload, rest)
  else none

/-- The payload of the first member. What follows the member is not looked at. -/
def decompress? (octets : Bytes) : Option Bytes := (readMember? octets).map (·.1)

/-- The octets are one member of a payload, to the last octet. -/
def Member (octets payload : Bytes) : Prop := readMember? octets = some (payload, [])

/-- Something that writes members. How it codes a payload is its own choice, and may depend on the level
and on the pieces in which the payload is handed over. -/
class Encoder where
  encode : (level : Nat) → (pieces : List Bytes) → Bytes

/-- An encoder that writes one member of its payload on every level, whatever pieces this comes in. -/
class LawfulEncoder [Encoder] : Prop where
  member_encode : ∀ level pieces, Member (Encoder.encode level pieces) pieces.flatten

/-- Whatever the pieces, the payload is tokenized as a whole. -/
instance : Encoder where
  encode level pieces := compress level pieces.flatten

end ReplicatedStore.Gzip
