/-!
# Bytes

Payloads, stored objects and streams are lists of octets. This module holds the few readings of such
a list that several formats share: hexadecimal text, little- and big-endian numbers, and the UTF-8
reading that replaces what is not valid by U+FFFD.

Main statements:

* `Bytes.ofLE_toLE` — a number that fits its width is read back from its little-endian octets.
* `Bytes.length_toLE` — a little-endian number has exactly the asked width.
-/

namespace ReplicatedStore

/-- A string of octets. -/
abbrev Bytes := List UInt8

namespace Bytes

/-- The UTF-8 octets of a text. -/
def ofText (s : String) : Bytes := s.toUTF8.toList

/-- The text whose UTF-8 octets these are, if they are valid UTF-8. -/
def toText? (b : Bytes) : Option String := String.fromUTF8? b.toByteArray

/-- The `width` low octets of `n`, least significant first. -/
def toLE : (width : Nat) → (n : Nat) → Bytes
  | 0, _ => []
  | width + 1, n => UInt8.ofNat n :: toLE width (n / 256)

/-- The number written by octets, least significant first. -/
def ofLE : Bytes → Nat
  | [] => 0
  | b :: rest => b.toNat + 256 * ofLE rest

/-- The `width` low octets of `n`, most significant first. -/
def toBE (width n : Nat) : Bytes := (toLE width n).reverse

@[simp] theorem length_toLE (width n : Nat) : (toLE width n).length = width := by
  induction width generalizing n with
  | zero => rfl
  | succ width ih => simp [toLE, ih]

theorem ofLE_toLE (width n : Nat) (h : n < 1 <<< (8 * width)) : ofLE (toLE width n) = n := by
  induction width generalizing n with
  | zero =>
    simp only [Nat.mul_zero, Nat.shiftLeft_zero, Nat.lt_one_iff] at h
    simp [toLE, ofLE, h]
  | succ width ih =>
    have hq : n / 256 < 1 <<< (8 * width) := by
      rw [Nat.one_shiftLeft] at h ⊢
      rw [Nat.mul_succ, Nat.pow_add, Nat.mul_comm] at h
      exact Nat.div_lt_of_lt_mul h
    simp only [toLE, ofLE, ih _ hq, UInt8.toNat_ofNat']
    omega

/-- Every octet as two lower-case hexadecimal digits. -/
def toHex (b : Bytes) : String :=
  let digit (n : Nat) : Char := if n < 10 then Char.ofNat (48 + n) else Char.ofNat (87 + n)
  String.ofList (b.flatMap fun x => [digit (x.toNat / 16), digit (x.toNat % 16)])

/-- How many continuation octets follow a leading octet of UTF-8, with the range allowed for the
first of them, and the payload bits of the leading octet. -/
def leading? (b : UInt8) : Option (Nat × UInt8 × UInt8 × Nat) :=
  if 0xC2 ≤ b && b ≤ 0xDF then some (1, 0x80, 0xBF, (b &&& 0x1F).toNat)
  else if b == 0xE0 then some (2, 0xA0, 0xBF, 0)
  else if b == 0xED then some (2, 0x80, 0x9F, 13)
  else if 0xE1 ≤ b && b ≤ 0xEF then some (2, 0x80, 0xBF, (b &&& 0x0F).toNat)
  else if b == 0xF0 then some (3, 0x90, 0xBF, 0)
  else if 0xF1 ≤ b && b ≤ 0xF3 then some (3, 0x80, 0xBF, (b &&& 0x07).toNat)
  else if b == 0xF4 then some (3, 0x80, 0x8F, 4)
  else none

/-- What is still expected of a multi-octet character: octets left, range of the next, value so far. -/
structure PartialChar where
  left : Nat
  low : UInt8
  high : UInt8
  value : Nat

def startChar (out : List Char) (b : UInt8) : List Char × Option PartialChar :=
  if b < 0x80 then (Char.ofNat b.toNat :: out, none)
  else match leading? b with
    | some (left, low, high, value) => (out, some ⟨left, low, high, value⟩)
    | none => ('\uFFFD' :: out, none)

def lossyStep : List Char × Option PartialChar → UInt8 → List Char × Option PartialChar
  | (out, none), b => startChar out b
  | (out, some p), b =>
    if p.low ≤ b && b ≤ p.high then
      let value := p.value * 64 + (b &&& 0x3F).toNat
      if p.left ≤ 1 then (Char.ofNat value :: out, none)
      else (out, some ⟨p.left - 1, 0x80, 0xBF, value⟩)
    else startChar ('\uFFFD' :: out) b

/-- The text of octets read as UTF-8; each longest piece that starts no character is written as one
replacement character U+FFFD. -/
def toTextLossy (b : Bytes) : String :=
  let (out, pending) := b.foldl lossyStep ([], none)
  String.ofList (if pending.isSome then '\uFFFD' :: out else out).reverse

end Bytes

end ReplicatedStore
