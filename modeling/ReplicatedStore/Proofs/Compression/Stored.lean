import ReplicatedStore.Proofs.Compression.RoundTrip

/-!
# Stored payloads

At level zero a payload is cut into stored blocks of at most 65535 octets, the last of which is marked.
A stored block lies at octet boundaries on both ends, so reading one takes its octets and nothing of what
stands behind. The induction is on the bound on the number of blocks, which is also the number of rounds
that reading needs.

Main results:

* `Deflate.readBlocks_storedBlock` — one stored block.
* `Deflate.expand?_store` — a stored payload is read back, up to the end of its last block.
-/

namespace ReplicatedStore.Deflate

/-! ## One block -/

theorem readOctets_ofBytes (data : Bytes) (out : Array UInt8) (rest : Bits) :
    readOctets data.length out (Bits.ofBytes data ++ rest) = some (out ++ data.toArray, rest) := by
  induction data generalizing out with
  | nil => simp [readOctets, Bits.ofBytes]
  | cons b data ih =>
    have hOctet : b.toNat < 1 <<< 8 := b.toNat_lt
    have hSplit : Bits.ofBytes (b :: data) ++ rest =
        Bits.ofNat 8 b.toNat ++ (Bits.ofBytes data ++ rest) := by
      rw [← List.append_assoc]
      rfl
    rw [List.length_cons, readOctets, hSplit, Bits.takeNat_ofNat _ _ _ hOctet]
    simp only [UInt8.ofNat_toNat, ih]
    simp

/-- The length, its complement, and the octets, from the next boundary on. -/
theorem readStored_ofBytes {data : Bytes} (h : data.length ≤ maxStored) {n : Nat} (hn : n < 8)
    (out : Array UInt8) (behind : Bytes) :
    readStored out (List.replicate n false ++ Bits.ofBytes
      (Bytes.toLE 2 data.length ++ Bytes.toLE 2 (maxStored - data.length) ++ data ++ behind)) =
      some (out ++ data.toArray, Bits.ofBytes behind) := by
  have hBound : maxStored < 1 <<< 16 := by decide
  have hLength : data.length < 1 <<< 16 := by omega
  have hComplement : maxStored - data.length < 1 <<< 16 := by omega
  have hSum : data.length + (maxStored - data.length) = maxStored := by omega
  rw [readStored, Bits.align_replicate_append hn]
  simp only [List.append_assoc, Bits.ofBytes_append, Bits.ofBytes_toLE, Nat.reduceMul]
  rw [Bits.takeNat_ofNat _ _ _ hLength]
  simp only [Option.bind_eq_bind, Option.bind_some]
  rw [Bits.takeNat_ofNat _ _ _ hComplement]
  simp only [Option.bind_some]
  rw [if_pos hSum, readOctets_ofBytes]

theorem readBlocks_storedBlock {data : Bytes} (h : data.length ≤ maxStored) (last : Bool)
    (rounds : Nat) (out : Array UInt8) (behind : Bytes) :
    readBlocks (rounds + 1) out (Bits.ofBytes (storedBlock last data ++ behind)) =
      if last then some (out ++ data.toArray, Bits.ofBytes behind)
      else readBlocks rounds (out ++ data.toArray) (Bits.ofBytes behind) := by
  -- the mark and the kind, and five bits that fill the octet
  have hHead : Bits.ofBytes (storedBlock last data ++ behind) =
      last :: false :: false :: (List.replicate 5 false ++ Bits.ofBytes
        (Bytes.toLE 2 data.length ++ Bytes.toLE 2 (maxStored - data.length) ++ data ++ behind)) := by
    cases last <;> rfl
  have hKind (bits : Bits) : Bits.takeNat 2 (false :: false :: bits) = some (0, bits) := rfl
  rw [hHead, readBlocks, hKind]
  simp only [readBody]
  rw [readStored_ofBytes h (by decide)]

/-! ## A row of blocks -/

theorem storeFrom_eq_append (fuel : Nat) (written : List Bytes) (data : Bytes) :
    storeFrom fuel written data = storeFrom fuel [] data ++ written := by
  induction fuel generalizing written data with
  | zero => rfl
  | succ fuel ih =>
    rw [storeFrom, storeFrom]
    split
    · rfl
    · rw [ih, ih [_], List.append_assoc, List.singleton_append]

/-- The blocks in the order in which they are written. -/
def storedRow (fuel : Nat) (data : Bytes) : Bytes := (storeFrom fuel [] data).reverse.flatten

theorem storedRow_of_le {data : Bytes} (h : data.length ≤ maxStored) (fuel : Nat) :
    storedRow fuel data = storedBlock true data := by
  cases fuel with
  | zero => simp [storedRow, storeFrom, List.take_of_length_le h]
  | succ fuel => simp [storedRow, storeFrom, h]

theorem storedRow_succ {data : Bytes} (h : maxStored < data.length) (fuel : Nat) :
    storedRow (fuel + 1) data =
      storedBlock false (data.take maxStored) ++ storedRow fuel (data.drop maxStored) := by
  rw [storedRow, storeFrom, if_neg (Nat.not_le_of_lt h), storeFrom_eq_append]
  simp [storedRow]

theorem readBlocks_storedRow {fuel : Nat} {data : Bytes} (hFuel : data.length ≤ maxStored * (fuel + 1))
    {rounds : Nat} (hRounds : fuel < rounds) (out : Array UInt8) (behind : Bytes) :
    readBlocks rounds out (Bits.ofBytes (storedRow fuel data ++ behind)) =
      some (out ++ data.toArray, Bits.ofBytes behind) := by
  induction fuel generalizing data rounds out with
  | zero =>
    obtain ⟨rounds, rfl⟩ : ∃ n, rounds = n + 1 := ⟨rounds - 1, by omega⟩
    have hShort : data.length ≤ maxStored := by omega
    rw [storedRow_of_le hShort, readBlocks_storedBlock hShort]
    rfl
  | succ fuel ih =>
    obtain ⟨rounds, rfl⟩ : ∃ n, rounds = n + 1 := ⟨rounds - 1, by omega⟩
    rcases Nat.lt_or_ge maxStored data.length with hLong | hShort
    -- a full block and the rest of the payload, or the last block
    · have hFront : (data.take maxStored).length ≤ maxStored := by
        rw [List.length_take]
        exact Nat.min_le_left ..
      have hBack : (data.drop maxStored).length ≤ maxStored * (fuel + 1) := by
        rw [List.length_drop, Nat.sub_le_iff_le_add]
        exact hFuel
      rw [storedRow_succ hLong, List.append_assoc, readBlocks_storedBlock hFront, if_neg Bool.false_ne_true,
        ih hBack (Nat.lt_of_succ_lt_succ hRounds), Array.append_assoc]
      simp
    · rw [storedRow_of_le hShort, readBlocks_storedBlock hShort]
      rfl

theorem length_storedBlock (last : Bool) (data : Bytes) :
    data.length ≤ (storedBlock last data).length := by
  simp only [storedBlock, List.length_append]
  omega

/-- Nothing is lost, so the bits of a row are more than its blocks. -/
theorem length_le_length_storedRow {fuel : Nat} {data : Bytes}
    (hFuel : data.length ≤ maxStored * (fuel + 1)) : data.length ≤ (storedRow fuel data).length := by
  induction fuel generalizing data with
  | zero =>
    rw [storedRow_of_le (by omega)]
    exact length_storedBlock true data
  | succ fuel ih =>
    rcases Nat.lt_or_ge maxStored data.length with hLong | hShort
    · have hFront := length_storedBlock false (data.take maxStored)
      have hBack : (data.drop maxStored).length ≤ (storedRow fuel (data.drop maxStored)).length := by
        apply ih
        rw [List.length_drop, Nat.sub_le_iff_le_add]
        exact hFuel
      rw [List.length_take] at hFront
      rw [List.length_drop] at hBack
      rw [storedRow_succ hLong, List.length_append]
      omega
    · rw [storedRow_of_le hShort]
      exact length_storedBlock true data

theorem expand?_store (data behind : Bytes) :
    expand? (Bits.ofBytes (store data ++ behind)) = some (data, Bits.ofBytes behind) := by
  have hFuel : data.length ≤ maxStored * (data.length / maxStored + 1) := by
    have := Nat.lt_mul_div_succ data.length (show 0 < maxStored by decide)
    omega
  have hRounds : data.length / maxStored <
      (Bits.ofBytes (storedRow (data.length / maxStored) data ++ behind)).length + 1 := by
    have hLength := length_le_length_storedRow hFuel
    have hBlocks := Nat.div_le_self data.length maxStored
    rw [Bits.length_ofBytes, List.length_append]
    omega
  rw [expand?, store, ← storedRow, readBlocks_storedRow hFuel hRounds]
  simp

end ReplicatedStore.Deflate
