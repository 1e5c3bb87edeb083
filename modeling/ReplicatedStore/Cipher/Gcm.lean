import ReplicatedStore.Cipher.Aes

/-!
# Counter mode with an authentication tag

AES-256-GCM without associated data. A text is combined with the keystream of the counter blocks
that follow the nonce's first one, and the result is authenticated by a tag of 16 octets: the
polynomial hash of the ciphertext under the encrypted zero block, masked by the first counter block.

Main statements:

* `Gcm.combine_combine` — combining twice with one keystream gives the text back.
* `Gcm.decrypt?_encrypt` — what is encrypted is decrypted again.
* `Gcm.decrypt?_eq_some_iff` — octets are decrypted exactly when they are the encrypted form of
  what is returned.
-/

namespace ReplicatedStore.Gcm

/-- How many octets a tag has. -/
def tagLength : Nat := 16

/-- A field element of 128 bits: the first and the second half. -/
structure Element where
  high : UInt64
  low : UInt64

/-- The product in the field of the polynomial hash: bits are taken from the most significant one
on, and the second factor is halved modulo `x^128 + x^7 + x^2 + x + 1` at each. -/
def multiplyFrom : (bits : Nat) → (xHigh xLow zHigh zLow vHigh vLow : UInt64) → Element
  | 0, _, _, zHigh, zLow, _, _ => ⟨zHigh, zLow⟩
  | bits + 1, xHigh, xLow, zHigh, zLow, vHigh, vLow =>
    -- the most significant bit left of the first factor
    let taken := xHigh >>> 63 == 1
    let zHigh' := if taken then zHigh ^^^ vHigh else zHigh
    let zLow' := if taken then zLow ^^^ vLow else zLow
    -- halving pushes out a bit, which comes back as the rest of the modulus
    let carry : UInt64 := if vLow &&& 1 == 1 then 0xE100000000000000 else 0
    multiplyFrom bits ((xHigh <<< 1) ||| (xLow >>> 63)) (xLow <<< 1) zHigh' zLow'
      ((vHigh >>> 1) ^^^ carry) ((vLow >>> 1) ||| (vHigh <<< 63))

/-- The product of two field elements. -/
def multiply (x y : Element) : Element := multiplyFrom 128 x.high x.low 0 0 y.high y.low

/-- A partly filled block of the hash: the sum so far, the octets taken, and how many they are. -/
structure Absorber where
  sum : Element
  high : UInt64
  low : UInt64
  count : Nat

/-- The absorber after a full block. -/
def Absorber.close (h : Element) (s : Absorber) : Absorber :=
  ⟨multiply ⟨s.sum.high ^^^ s.high, s.sum.low ^^^ s.low⟩ h, 0, 0, 0⟩

/-- The absorber after one more octet. -/
def Absorber.push (h : Element) (s : Absorber) (b : UInt8) : Absorber :=
  let next : Absorber :=
    if s.count < 8 then { s with high := (s.high <<< 8) ||| b.toUInt64, count := s.count + 1 }
    else { s with low := (s.low <<< 8) ||| b.toUInt64, count := s.count + 1 }
  if next.count = 16 then next.close h else next

/-- A partly filled block filled up with zeros, and closed; an empty one is left alone. -/
def Absorber.flush (h : Element) (s : Absorber) : Absorber :=
  if s.count = 0 then s
  else (List.replicate (16 - s.count) (0 : UInt8)).foldl (Absorber.push h) s

/-- The polynomial hash of a ciphertext and the block of the two lengths in bits. -/
def hash (h : Element) (ciphertext : Bytes) : Element :=
  let body := (ciphertext.foldl (Absorber.push h) ⟨⟨0, 0⟩, 0, 0, 0⟩).flush h
  let lengths := UInt64.ofNat (8 * ciphertext.length)
  multiply ⟨body.sum.high, body.sum.low ^^^ lengths⟩ h

/-- The counter block `n` of a nonce of 12 octets. -/
def counterBlock (nonce : Bytes) (n : Nat) : Aes.Block :=
  ⟨Aes.wordOf nonce 0, Aes.wordOf nonce 4, Aes.wordOf nonce 8, UInt32.ofNat n⟩

/-- At least `length` octets of keystream, from the second counter block on. -/
def keystream (keys : Array UInt32) (nonce : Bytes) (length : Nat) : Bytes :=
  (List.range ((length + 15) / 16)).flatMap fun i =>
    -- the first counter block masks the tag
    (Aes.encryptBlock keys (counterBlock nonce (i + 2))).bytes

/-- A text combined octet by octet with its keystream. -/
def combine (keys : Array UInt32) (nonce text : Bytes) : Bytes :=
  List.zipWith (· ^^^ ·) text (keystream keys nonce text.length)

/-- The element written in a block. -/
def elementOf (x : Aes.Block) : Element :=
  ⟨(x.a.toUInt64 <<< 32) ||| x.b.toUInt64, (x.c.toUInt64 <<< 32) ||| x.d.toUInt64⟩

/-- The authentication tag of a ciphertext. -/
def tag (keys : Array UInt32) (nonce ciphertext : Bytes) : Bytes :=
  let s := hash (elementOf (Aes.encryptBlock keys ⟨0, 0, 0, 0⟩)) ciphertext
  let mask := Aes.encryptBlock keys (counterBlock nonce 1)
  Aes.Block.bytes
    ⟨(s.high >>> 32).toUInt32 ^^^ mask.a, s.high.toUInt32 ^^^ mask.b,
      (s.low >>> 32).toUInt32 ^^^ mask.c, s.low.toUInt32 ^^^ mask.d⟩

/-- The ciphertext and the tag of a text. -/
def encrypt (key nonce text : Bytes) : Bytes :=
  let keys := Aes.expandKey key
  let ciphertext := combine keys nonce text
  ciphertext ++ tag keys nonce ciphertext

/-- The text of a ciphertext with its tag, if the tag is the right one. -/
def decrypt? (key nonce sealed : Bytes) : Option Bytes :=
  if sealed.length < tagLength then none
  else
    let keys := Aes.expandKey key
    let ciphertext := sealed.take (sealed.length - tagLength)
    if tag keys nonce ciphertext = sealed.drop (sealed.length - tagLength) then
      some (combine keys nonce ciphertext)
    else none

/-! ## Laws -/

@[simp] theorem length_tag (keys : Array UInt32) (nonce ciphertext : Bytes) :
    (tag keys nonce ciphertext).length = tagLength := rfl

theorem length_keystream (keys : Array UInt32) (nonce : Bytes) (n : Nat) :
    (keystream keys nonce n).length = 16 * ((n + 15) / 16) := by
  simp [keystream, List.length_flatMap, List.map_const', Nat.mul_comm]

@[simp] theorem length_combine (keys : Array UInt32) (nonce text : Bytes) :
    (combine keys nonce text).length = text.length := by
  simp only [combine, List.length_zipWith, length_keystream]
  omega

private theorem zipWith_xor_zipWith_xor (xs ks : Bytes) (h : xs.length ≤ ks.length) :
    List.zipWith (· ^^^ ·) (List.zipWith (· ^^^ ·) xs ks) ks = xs := by
  induction xs generalizing ks with
  | nil => simp
  | cons x xs ih =>
    cases ks with
    | nil => simp at h
    | cons k ks =>
      simp only [List.length_cons, Nat.add_le_add_iff_right] at h
      rw [List.zipWith_cons_cons, List.zipWith_cons_cons, ih ks h, UInt8.xor_assoc, UInt8.xor_self,
        UInt8.xor_zero]

theorem combine_combine (keys : Array UInt32) (nonce text : Bytes) :
    combine keys nonce (combine keys nonce text) = text := by
  have h : text.length ≤ (keystream keys nonce text.length).length := by
    rw [length_keystream]; omega
  unfold combine
  rw [show (List.zipWith (· ^^^ ·) text (keystream keys nonce text.length)).length = text.length
    from length_combine keys nonce text]
  exact zipWith_xor_zipWith_xor _ _ h

@[simp] theorem length_encrypt (key nonce text : Bytes) :
    (encrypt key nonce text).length = text.length + tagLength := by
  simp [encrypt]

theorem decrypt?_encrypt (key nonce text : Bytes) :
    decrypt? key nonce (encrypt key nonce text) = some text := by
  simp [decrypt?, encrypt, combine_combine]

theorem decrypt?_eq_some_iff (key nonce sealed text : Bytes) :
    decrypt? key nonce sealed = some text ↔ sealed = encrypt key nonce text := by
  constructor
  · intro h
    unfold decrypt? at h
    split at h
    · contradiction
    · simp only [Option.ite_none_right_eq_some, Option.some.injEq] at h
      obtain ⟨hTag, hText⟩ := h
      subst hText
      simp only [encrypt, combine_combine, hTag, List.take_append_drop]
  · rintro rfl
    exact decrypt?_encrypt key nonce text

end ReplicatedStore.Gcm
