import ReplicatedStore.Bytes

/-!
# AES-256

The block cipher on 16 octets under a key of 32. The substitution table is computed from the
algebra it stands for (inversion in the field of 256 elements, then an affine map), and `roundTable`
joins substitution and column mixing, so that a round is four table readings a column.
-/

namespace ReplicatedStore.Aes

/-- Multiplication by `x` in the field of 256 elements modulo `x^8 + x^4 + x^3 + x + 1`. -/
def double (a : UInt8) : UInt8 := (a <<< 1) ^^^ (if a &&& 0x80 == 0 then 0 else 0x1B)

/-- The product of two field elements. -/
def multiply (a b : UInt8) : UInt8 :=
  ((List.range 8).foldl (fun (sum, power, b) _ =>
    (if b &&& 1 == 1 then sum ^^^ power else sum, double power, b >>> 1)) ((0 : UInt8), a, b)).1

/-- The multiplicative inverse `a^254`, and zero for zero. -/
def inverse (a : UInt8) : UInt8 :=
  (List.range 253).foldl (fun power _ => multiply power a) a

/-- Rotation to the left of an octet. -/
def rotateLeft (a : UInt8) (n : UInt8) : UInt8 := (a <<< n) ||| (a >>> (8 - n))

def substitute (a : UInt8) : UInt8 :=
  let b := inverse a
  b ^^^ rotateLeft b 1 ^^^ rotateLeft b 2 ^^^ rotateLeft b 3 ^^^ rotateLeft b 4 ^^^ 0x63

def box : Array UInt8 := (Array.range 256).map fun n => substitute (UInt8.ofNat n)

/-- The substitution of an octet, by table. -/
@[inline] def sub (a : UInt8) : UInt8 := box.getD a.toNat 0

/-- Four octets as a word, most significant first. -/
@[inline] def word (a b c d : UInt8) : UInt32 :=
  (a.toUInt32 <<< 24) ||| (b.toUInt32 <<< 16) ||| (c.toUInt32 <<< 8) ||| d.toUInt32

/-- What a substituted octet in the top row adds to its column after mixing. -/
def roundTable : Array UInt32 :=
  box.map fun s => word (double s) s s (double s ^^^ s)

/-- Rotation to the right of a word. -/
@[inline] def rotate (x n : UInt32) : UInt32 := (x >>> n) ||| (x <<< (32 - n))

/-- The octet of a word that `shift` bits stand below. -/
@[inline] def octet (w : UInt32) (shift : UInt32) : UInt8 := (w >>> shift).toUInt8

/-- A word with each octet substituted. -/
def subWord (w : UInt32) : UInt32 :=
  word (sub (octet w 24)) (sub (octet w 16)) (sub (octet w 8)) (sub (octet w 0))

/-- The big-endian word at an octet position of a list. -/
def wordOf (b : Bytes) (i : Nat) : UInt32 :=
  word (b.getD i 0) (b.getD (i + 1) 0) (b.getD (i + 2) 0) (b.getD (i + 3) 0)

/-- The 60 words of round keys expanded from a key. -/
def expandKey (key : Bytes) : Array UInt32 :=
  let first := (Array.range 8).map fun i => wordOf key (4 * i)
  ((List.range 52).foldl (fun (w, constant) n =>
    let i := n + 8
    let previous := w.getD (i - 1) 0
    let (mixed, next) :=
      -- every eighth word is rotated, substituted and marked, and the fourth after it substituted
      if i % 8 = 0 then
        (subWord (rotate previous 24) ^^^ (constant.toUInt32 <<< 24), double constant)
      else if i % 8 = 4 then (subWord previous, constant)
      else (previous, constant)
    (w.push (w.getD (i - 8) 0 ^^^ mixed), next)) (first, (1 : UInt8))).1

/-- One mixed column, from the four columns that give it an octet each. -/
@[inline] def column (a b c d key : UInt32) : UInt32 :=
  roundTable.getD (octet a 24).toNat 0 ^^^ rotate (roundTable.getD (octet b 16).toNat 0) 8 ^^^
    rotate (roundTable.getD (octet c 8).toNat 0) 16 ^^^
    rotate (roundTable.getD (octet d 0).toNat 0) 24 ^^^ key

/-- One column of the last round, which does not mix. -/
@[inline] def lastColumn (a b c d key : UInt32) : UInt32 :=
  word (sub (octet a 24)) (sub (octet b 16)) (sub (octet c 8)) (sub (octet d 0)) ^^^ key

/-- A block as four columns. -/
structure Block where
  a : UInt32
  b : UInt32
  c : UInt32
  d : UInt32

/-- The inner rounds `round`, …, 13 and the last one. -/
def rounds (keys : Array UInt32) : (left : Nat) → (round : Nat) → (a b c d : UInt32) → Block
  | 0, r, a, b, c, d =>
    ⟨lastColumn a b c d (keys.getD (4 * r) 0), lastColumn b c d a (keys.getD (4 * r + 1) 0),
      lastColumn c d a b (keys.getD (4 * r + 2) 0), lastColumn d a b c (keys.getD (4 * r + 3) 0)⟩
  | left + 1, r, a, b, c, d =>
    rounds keys left (r + 1) (column a b c d (keys.getD (4 * r) 0))
      (column b c d a (keys.getD (4 * r + 1) 0)) (column c d a b (keys.getD (4 * r + 2) 0))
      (column d a b c (keys.getD (4 * r + 3) 0))

/-- A block encrypted under expanded round keys. -/
def encryptBlock (keys : Array UInt32) (x : Block) : Block :=
  rounds keys 13 1 (x.a ^^^ keys.getD 0 0) (x.b ^^^ keys.getD 1 0) (x.c ^^^ keys.getD 2 0)
    (x.d ^^^ keys.getD 3 0)

def Block.bytes (x : Block) : Bytes :=
  [octet x.a 24, octet x.a 16, octet x.a 8, octet x.a 0,
   octet x.b 24, octet x.b 16, octet x.b 8, octet x.b 0,
   octet x.c 24, octet x.c 16, octet x.c 8, octet x.c 0,
   octet x.d 24, octet x.d 16, octet x.d 8, octet x.d 0]

@[simp] theorem Block.length_bytes (x : Block) : x.bytes.length = 16 := rfl

end ReplicatedStore.Aes
