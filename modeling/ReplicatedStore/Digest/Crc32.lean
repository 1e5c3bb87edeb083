import ReplicatedStore.Bytes

/-!
# CRC-32

The cyclic redundancy check of gzip members: the remainder of the message by the polynomial
`0xEDB88320` (bit-reversed), with an all-ones start and a final complement. `table` holds the
remainders of the 256 single octets, so that `checksum` goes one octet at a time.
-/

namespace ReplicatedStore.Crc32

/-- The generator polynomial, low-order bit first. -/
def polynomial : UInt32 := 0xEDB88320

/-- One bit of the division. -/
def shiftBit (crc : UInt32) : UInt32 :=
  if crc &&& 1 == 1 then (crc >>> 1) ^^^ polynomial else crc >>> 1

def remainder (octet : Nat) : UInt32 :=
  (List.range 8).foldl (fun crc _ => shiftBit crc) (UInt32.ofNat octet)

def table : Array UInt32 := (Array.range 256).map remainder

/-- The check value after one more octet. -/
def update (crc : UInt32) (octet : UInt8) : UInt32 :=
  table.getD ((crc ^^^ octet.toUInt32) &&& 0xFF).toNat 0 ^^^ (crc >>> 8)

def checksum (message : Bytes) : UInt32 :=
  message.foldl update 0xFFFFFFFF ^^^ 0xFFFFFFFF

end ReplicatedStore.Crc32
