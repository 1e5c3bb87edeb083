import ReplicatedStore.Pipeline.Step
import ReplicatedStore.Proofs.Compression.Lookahead
import ReplicatedStore.Proofs.Compression.Stored

/-!
# A member says where it ends

Octets are a member of a payload if reading them gives the payload and leaves nothing over. Since reading
does not look ahead, such octets give the payload whatever stands behind them, and no octet of them can be
missing: if a front part gave a payload, the rest would be left over.

What compression writes is a member of its payload, on every level, so the encoder of this library is lawful.

Main results:

* `Gzip.Member.decompress?_append`, `Gzip.Member.decompress?_of_isPrefix` — octets behind a member, and its
  front parts.
* `Gzip.member_compress` — what compression writes.
* `Gzip.members_delimit_themselves` — the same for the steps of a pipeline.
-/

namespace ReplicatedStore

namespace Gzip

/-! ## Members in general -/

theorem Member.decompress?_append {octets payload : Bytes} (h : Member octets payload) (junk : Bytes) :
    decompress? (octets ++ junk) = some payload := by
  rw [decompress?, readMember?_append h junk]
  rfl

/-- A member that lacks an octet at its end is not read at all. -/
theorem Member.decompress?_of_isPrefix {octets payload front : Bytes} (h : Member octets payload)
    (hFront : front <+: octets) (hCut : front ≠ octets) : decompress? front = none := by
  obtain ⟨missing, rfl⟩ := hFront
  rw [decompress?]
  cases hRead : readMember? front with
  | none => rfl
  | some found =>
    -- what is missing in front would be left over of the whole
    have hWhole := readMember?_append hRead missing
    rw [h, Option.some.injEq, Prod.mk.injEq] at hWhole
    have hNone : (Bits.ofBytes missing).length = 0 := by
      rw [(List.append_eq_nil_iff.1 hWhole.2.symm).2, List.length_nil]
    rw [Bits.length_ofBytes] at hNone
    have hMissing : missing = [] := List.length_eq_zero_iff.1 (by omega)
    exact absurd (by rw [hMissing, List.append_nil]) hCut

/-! ## What compression writes -/

theorem skipHeader_header (level : Nat) (rest : Bytes) :
    skipHeader (header level ++ rest) = some rest := by
  simp [header, skipHeader]

/-- Header, compressed blocks and trailer make a member, if the blocks end where the trailer starts. -/
theorem member_of_expand? {level n : Nat} (hn : n < 8) {blocks payload : Bytes}
    (hBlocks : Deflate.expand? (Bits.ofBytes (blocks ++ trailer payload)) =
      some (payload, List.replicate n false ++ Bits.ofBytes (trailer payload))) :
    Member (header level ++ blocks ++ trailer payload) payload := by
  have hCheck : (Crc32.checksum payload).toNat < 1 <<< 32 := (Crc32.checksum payload).toNat_lt
  have hLength : payload.length % 0x100000000 < 1 <<< 32 := Nat.mod_lt _ (by decide)
  rw [Member, readMember?, List.append_assoc, skipHeader_header]
  simp only [Option.bind_eq_bind, Option.bind_some]
  rw [hBlocks]
  simp only [Option.bind_some]
  rw [Bits.align_replicate_append hn, trailer, Bits.ofBytes_append, Bits.ofBytes_toLE,
    Bits.takeNat_ofNat _ _ _ hCheck]
  simp only [Option.bind_some]
  rw [Bits.ofBytes_toLE, ← List.append_nil (Bits.ofNat _ _), Bits.takeNat_ofNat _ _ _ hLength]
  simp

theorem member_compress (level : Nat) (payload : Bytes) : Member (compress level payload) payload := by
  rw [compress, Deflate.compress]
  split
  · -- stored blocks end at an octet boundary
    exact member_of_expand? (n := 0) (by decide) (Deflate.expand?_store payload _)
  · have hPad : Bits.padding (Deflate.fixedBlock (Token.tokenize payload)).length < 8 :=
      Nat.mod_lt _ (by decide)
    apply member_of_expand? hPad
    rw [Bits.ofBytes_append, Bits.ofBytes_toBytes, List.append_assoc, Deflate.expand?_fixedBlock]

instance : LawfulEncoder where
  member_encode level pieces := member_compress level pieces.flatten

end Gzip

/-! ## Steps of a pipeline -/

namespace Gzip

/-- The octets give the payload whatever stands behind them, and nothing if any of them is missing. -/
structure Delimits (octets payload : Bytes) : Prop where
  followed : ∀ junk, Buffer.decompress (octets ++ junk) = .ok payload
  cut : ∀ front, front <+: octets → front ≠ octets → Buffer.decompress front = .error .decompression

theorem Member.delimits {octets payload : Bytes} (h : Member octets payload) :
    Delimits octets payload where
  followed junk := by rw [Buffer.decompress, h.decompress?_append junk]
  cut front hFront hCut := by rw [Buffer.decompress, h.decompress?_of_isPrefix hFront hCut]

/-- **Compressed streams delimit themselves.** What compression writes on any level, from a buffer or from
a stream, gives its payload whatever stands behind it, and no proper front part of it gives anything, the
empty one included. This holds of every member, whoever wrote it. Decompression of a buffer and of a stream
agree on all octets, and fail in one way only. -/
theorem members_delimit_themselves [Encoder] [LawfulEncoder] :
    (∀ level payload, (∃ octets, Buffer.compress level payload = .ok octets ∧ Delimits octets payload) ∧
      ∀ nonce, ∃ output octets, (WriteStep.compress level).apply nonce (.ofBytes payload) = .ok output ∧
        output.stream = .ofBytes octets ∧ Delimits octets payload) ∧
    (∀ octets payload, Member octets payload → Delimits octets payload) ∧
    ∀ octets,
      (∃ payload, Buffer.decompress octets = .ok payload ∧
        ReadStep.decompress.apply (.ofBytes octets) = .ok (.ofBytes payload)) ∨
      (Buffer.decompress octets = .error .decompression ∧
        ReadStep.decompress.apply (.ofBytes octets) = .error .decompression) := by
  refine ⟨fun level payload => ⟨?_, fun nonce => ?_⟩, fun _ _ => Member.delimits, fun octets => ?_⟩
  · obtain ⟨octets, hWritten, hMember⟩ := Buffer.exists_member_of_compress level payload
    exact ⟨octets, hWritten, hMember.delimits⟩
  · obtain ⟨output, octets, hWritten, hStream, hMember⟩ :=
      WriteStep.exists_member_of_compress level nonce payload
    exact ⟨output, octets, hWritten, hStream, hMember.delimits⟩
  · rw [ReadStep.decompress_ofBytes]
    cases hFound : Buffer.decompress octets with
    | ok payload => exact .inl ⟨payload, rfl, rfl⟩
    | error e => exact .inr (by simp [Buffer.eq_decompression_of_decompress hFound, Except.map])

/-- Three octets, with one more octet behind their member and with one octet missing. -/
theorem members_delimit_themselves_octets : ∃ octets, Buffer.compress 6 [7, 7, 8] = .ok octets ∧
    Buffer.decompress (octets ++ [0]) = .ok [7, 7, 8] ∧
    Buffer.decompress octets.dropLast = .error .decompression ∧
    ReadStep.decompress.apply (.ofBytes octets.dropLast) = .error .decompression := by
  obtain ⟨hWrites, -, hAgree⟩ := members_delimit_themselves
  obtain ⟨octets, hWritten, hDelimits⟩ := (hWrites 6 [7, 7, 8]).1
  have hShorter : octets.dropLast ≠ octets := by
    obtain rfl := Except.ok.inj hWritten
    decide +kernel
  have hCut := hDelimits.cut _ (List.dropLast_prefix octets) hShorter
  refine ⟨octets, hWritten, hDelimits.followed [0], hCut, ?_⟩
  obtain ⟨payload, hRead, -⟩ | ⟨-, hRead⟩ := hAgree octets.dropLast
  · rw [hCut] at hRead
    contradiction
  · exact hRead

end Gzip

end ReplicatedStore
