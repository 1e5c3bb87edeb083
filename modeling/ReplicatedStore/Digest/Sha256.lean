import ReplicatedStore.Bytes

/-!
# SHA-256

The digest of a message of any length: the message is padded to whole blocks of 64 octets, and each
block drives 64 rounds over a state of eight words. The digest of a passphrase is the key of the
cipher, and the digest of a payload identifies it.

Main statement: `Sha256.length_digest` — a digest always has 32 octets.
-/

namespace ReplicatedStore.Sha256

/-- The integer part of the `k`-th root of `n`, by binary search below `high`. -/
def rootBelow (k n : Nat) : (fuel low high : Nat) → Nat
  | 0, low, _ => low
  | fuel + 1, low, high =>
    if high ≤ low + 1 then low
    else
      let middle := (low + high) / 2
      if middle ^ k ≤ n then rootBelow k n fuel middle high else rootBelow k n fuel low middle

/-- The first 32 bits of the fraction of the `k`-th root of `p`. -/
def rootFraction (k p : Nat) : UInt32 :=
  UInt32.ofNat (rootBelow k (p <<< (32 * k)) 48 0 0x10000000000)

/-- The first 64 primes. -/
def primes : List Nat :=
  (List.range 312).filter fun n => 2 ≤ n && (List.range n).all fun d => d < 2 || n % d ≠ 0

/-- The round constants: fractions of the cube roots of the first 64 primes. -/
def roundConstants : Array UInt32 := (primes.map (rootFraction 3)).toArray

/-- The working state: eight words. -/
structure State where
  a : UInt32
  b : UInt32
  c : UInt32
  d : UInt32
  e : UInt32
  f : UInt32
  g : UInt32
  h : UInt32

/-- The words of a state in order. -/
def State.words (s : State) : List UInt32 := [s.a, s.b, s.c, s.d, s.e, s.f, s.g, s.h]

/-- The start: fractions of the square roots of the first eight primes. -/
def initial : State where
  a := rootFraction 2 2
  b := rootFraction 2 3
  c := rootFraction 2 5
  d := rootFraction 2 7
  e := rootFraction 2 11
  f := rootFraction 2 13
  g := rootFraction 2 17
  h := rootFraction 2 19

/-- Rotation to the right. -/
@[inline] def rotate (x : UInt32) (n : UInt32) : UInt32 := (x >>> n) ||| (x <<< (32 - n))

/-- The big-endian word at an octet position. -/
@[inline] def wordAt (data : ByteArray) (i : Nat) : UInt32 :=
  ((data.get! i).toUInt32 <<< 24) ||| ((data.get! (i + 1)).toUInt32 <<< 16) |||
    ((data.get! (i + 2)).toUInt32 <<< 8) ||| (data.get! (i + 3)).toUInt32

/-- One more word of the message schedule. -/
def extend (w : Array UInt32) : Array UInt32 :=
  let n := w.size
  let x := w.getD (n - 15) 0
  let y := w.getD (n - 2) 0
  let s0 := rotate x 7 ^^^ rotate x 18 ^^^ (x >>> 3)
  let s1 := rotate y 17 ^^^ rotate y 19 ^^^ (y >>> 10)
  w.push (w.getD (n - 16) 0 + s0 + w.getD (n - 7) 0 + s1)

/-- The 64 words that a block feeds to the rounds. -/
def schedule (data : ByteArray) (start : Nat) : Array UInt32 :=
  let first := (Array.range 16).map fun i => wordAt data (start + 4 * i)
  (List.range 48).foldl (fun w _ => extend w) first

/-- One round. -/
def round (w : Array UInt32) (s : State) (i : Nat) : State :=
  let s1 := rotate s.e 6 ^^^ rotate s.e 11 ^^^ rotate s.e 25
  let choice := (s.e &&& s.f) ^^^ ((~~~ s.e) &&& s.g)
  let t1 := s.h + s1 + choice + roundConstants.getD i 0 + w.getD i 0
  let s0 := rotate s.a 2 ^^^ rotate s.a 13 ^^^ rotate s.a 22
  let majority := (s.a &&& s.b) ^^^ (s.a &&& s.c) ^^^ (s.b &&& s.c)
  ⟨t1 + (s0 + majority), s.a, s.b, s.c, s.d + t1, s.e, s.f, s.g⟩

def compress (data : ByteArray) (s : State) (block : Nat) : State :=
  let w := schedule data (64 * block)
  let t := (List.range 64).foldl (round w) s
  ⟨s.a + t.a, s.b + t.b, s.c + t.c, s.d + t.d, s.e + t.e, s.f + t.f, s.g + t.g, s.h + t.h⟩

/-- The message with its delimiter bit, zeros, and its length in bits, a whole number of blocks. -/
def padded (message : Bytes) : Bytes :=
  let zeros := (119 - message.length % 64) % 64
  message ++ (0x80 :: List.replicate zeros 0) ++ Bytes.toBE 8 (8 * message.length)

/-- The octets of a word, most significant first. -/
def wordBytes (w : UInt32) : Bytes :=
  [(w >>> 24).toUInt8, (w >>> 16).toUInt8, (w >>> 8).toUInt8, w.toUInt8]

/-- The SHA-256 digest of a message. -/
def digest (message : Bytes) : Bytes :=
  let data := (padded message).toByteArray
  let final := (List.range (data.size / 64)).foldl (compress data) initial
  final.words.flatMap wordBytes

@[simp] theorem length_digest (message : Bytes) : (digest message).length = 32 := by
  simp [digest, State.words, wordBytes]

end ReplicatedStore.Sha256
