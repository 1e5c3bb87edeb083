import ReplicatedStore.Bytes

/-!
# Percent encoding

Octets that may not stand in a part of a URL are written as a percent sign and two hexadecimal
digits. Which ones may stand depends on the part; no part lets an octet beyond ASCII stand.

Main statements:

* `Percent.decode_encodeOctets` — where no percent sign may stand, reading undoes writing.
-/

namespace ReplicatedStore.Percent

def digit (n : Nat) : Char := if n < 10 then Char.ofNat (48 + n) else Char.ofNat (55 + n)

/-- The value of a hexadecimal digit of either case. -/
def digitValue? (c : Char) : Option Nat :=
  if '0' ≤ c && c ≤ '9' then some (c.toNat - 48)
  else if 'A' ≤ c && c ≤ 'F' then some (c.toNat - 55)
  else if 'a' ≤ c && c ≤ 'f' then some (c.toNat - 87)
  else none

/-- One octet: itself if it may stand, else as a percent sign and two digits. -/
def encodeOctet (stands : Char → Bool) (b : UInt8) : List Char :=
  let c := Char.ofNat b.toNat
  if b.toNat < 128 && stands c then [c] else ['%', digit (b.toNat / 16), digit (b.toNat % 16)]

def encodeOctets (stands : Char → Bool) (b : Bytes) : List Char := b.flatMap (encodeOctet stands)

/-- The UTF-8 octets of a text, encoded. -/
def encode (stands : Char → Bool) (s : String) : String :=
  String.ofList (encodeOctets stands (Bytes.ofText s))

/-- The octets that a text stands for. A percent sign that two digits do not follow stands for
itself. -/
def decode : List Char → Bytes
  | '%' :: a :: b :: rest =>
    match digitValue? a, digitValue? b with
    | some x, some y => UInt8.ofNat (x * 16 + y) :: decode rest
    | _, _ => Bytes.ofText "%" ++ decode (a :: b :: rest)
  | c :: rest => Bytes.ofText c.toString ++ decode rest
  | [] => []

/-! ## What may stand -/

/-- Printable ASCII. -/
def isPrintable (c : Char) : Bool := 32 ≤ c.toNat && c.toNat < 127

/-- What may stand in a fragment. -/
def standsInFragment (c : Char) : Bool := isPrintable c && !(" \"<>`".toList.contains c)

/-- What may stand in a path that is read as a whole. -/
def standsInPath (c : Char) : Bool := standsInFragment c && !("#?\x7b\x7d".toList.contains c)

/-- What may stand in one segment of a path. A URL of a special scheme takes a backslash for a
slash. -/
def standsInSegment (special : Bool) (c : Char) : Bool :=
  standsInPath c && c ≠ '/' && c ≠ '%' && !(special && c = '\\')

/-- What may stand in a query. -/
def standsInQuery (special : Bool) (c : Char) : Bool :=
  isPrintable c && !(" \"#<>".toList.contains c) && !(special && c = '\'')

/-- What may stand in a user name or a password. -/
def standsInUser (c : Char) : Bool := standsInPath c && !("/:;=@[\\]^|".toList.contains c)

/-! ## Laws -/

theorem digitValue?_digit {n : Nat} (h : n < 16) : digitValue? (digit n) = some n := by
  revert n
  decide

theorem toUTF8_single_ascii {n : Nat} (h : n < 128) :
    Bytes.ofText (Char.ofNat n).toString = [UInt8.ofNat n] := by
  revert n
  decide +kernel

theorem decode_encodeOctet (stands : Char → Bool) (hPercent : stands '%' = false) (b : UInt8)
    (rest : List Char) : decode (encodeOctet stands b ++ rest) = b :: decode rest := by
  have hLt := b.toNat_lt
  unfold encodeOctet
  simp only
  split
  · rename_i hStands
    simp only [Bool.and_eq_true, decide_eq_true_eq] at hStands
    have hNe : Char.ofNat b.toNat ≠ '%' := fun h => by
      rw [h, hPercent] at hStands
      exact Bool.noConfusion hStands.2
    rw [List.singleton_append, decode.eq_2]
    · rw [toUTF8_single_ascii hStands.1]
      simp
    · intro a b' rest' h
      exact absurd h hNe
  · simp only [List.cons_append, List.nil_append, decode]
    rw [digitValue?_digit (by omega), digitValue?_digit (by omega)]
    have hSame : UInt8.ofNat (b.toNat / 16 * 16 + b.toNat % 16) = b := by
      rw [show b.toNat / 16 * 16 + b.toNat % 16 = b.toNat by omega]
      simp
    simp [hSame]

theorem decode_encodeOctets (stands : Char → Bool) (hPercent : stands '%' = false) (b : Bytes) :
    decode (encodeOctets stands b) = b := by
  induction b with
  | nil => rfl
  | cons x rest ih =>
    simp only [encodeOctets, List.flatMap_cons] at ih ⊢
    rw [decode_encodeOctet stands hPercent, ih]

end ReplicatedStore.Percent
