import ReplicatedStore.Bytes

/-!
# Bits

The compressed format is a string of bits laid into octets from the least significant bit on.
Numbers are written with their least significant bit first.

Main statements:

* `Bits.takeNat_ofNat` — a number is read back, and what follows it is left over.
* `Bits.length_ofBytes` — octets give eight bits each.
-/

namespace ReplicatedStore

/-- A string of bits. -/
abbrev Bits := List Bool

namespace Bits

/-- The `width` low bits of `n`, least significant first. -/
def ofNat : (width : Nat) → (n : Nat) → Bits
  | 0, _ => []
  | width + 1, n => (n % 2 == 1) :: ofNat width (n / 2)

/-- The number written by bits, least significant first. -/
def toNat : Bits → Nat
  | [] => 0
  | b :: rest => b.toNat + 2 * toNat rest

/-- The bits of octets, in order. -/
def ofBytes (bytes : Bytes) : Bits := bytes.flatMap fun b => ofNat 8 b.toNat

/-- Octets already filled, followed by those that the bits fill; the last one is filled up with zeros. -/
def packInto (out : Array UInt8) : Bits → Array UInt8
  | [] => out
  | b :: rest => packInto (out.push (UInt8.ofNat (toNat (b :: rest.take 7)))) (rest.drop 7)
termination_by bits => bits.length
decreasing_by
  simp only [List.length_drop, List.length_cons]
  omega

/-- The octets that the bits fill. -/
def toBytes (bits : Bits) : Bytes := (packInto #[] bits).toList

/-- The number in the next `width` bits. -/
def takeNat : (width : Nat) → Bits → Option (Nat × Bits)
  | 0, bits => some (0, bits)
  | _ + 1, [] => none
  | width + 1, b :: rest =>
    match takeNat width rest with
    | none => none
    | some (n, rest) => some (b.toNat + 2 * n, rest)

/-- What is left from the next octet boundary on, of bits that fill whole octets to their end. -/
def align (bits : Bits) : Bits := bits.drop (bits.length % 8)

@[simp] theorem length_ofNat (width n : Nat) : (ofNat width n).length = width := by
  induction width generalizing n with
  | zero => rfl
  | succ width ih => simp [ofNat, ih]

@[simp] theorem length_ofBytes (bytes : Bytes) : (ofBytes bytes).length = 8 * bytes.length := by
  induction bytes with
  | nil => rfl
  | cons b rest ih =>
    simp only [ofBytes, List.flatMap_cons, List.length_append, length_ofNat, List.length_cons] at *
    omega

theorem takeNat_ofNat (width n : Nat) (rest : Bits) (h : n < 1 <<< width) :
    takeNat width (ofNat width n ++ rest) = some (n, rest) := by
  induction width generalizing n with
  | zero =>
    simp only [Nat.shiftLeft_zero, Nat.lt_one_iff] at h
    simp [takeNat, ofNat, h]
  | succ width ih =>
    -- without its last bit the number fits into one bit less
    have hHalf : n / 2 < 1 <<< width := by
      rw [Nat.one_shiftLeft] at h ⊢
      rw [Nat.pow_succ] at h
      omega
    simp only [ofNat, List.cons_append, takeNat, ih _ hHalf]
    rcases Nat.mod_two_eq_zero_or_one n with h0 | h1
    · simp [h0]; omega
    · simp [h1]; omega

end Bits

end ReplicatedStore
