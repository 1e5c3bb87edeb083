import ReplicatedStore.Pipeline.Codec
import ReplicatedStore.Proofs.Compression.Members

/-!
# What decryption accepts

An encrypted object is opened exactly if encryption can have written it: it starts with a nonce, and what
follows is the sealed form of a text under that nonce. Octets without room for a nonce are too short, and
all others are refused as forged. Decompression behind decryption changes nothing in this, it only reads
what was opened.

Main results:

* `Envelope.unwrap_eq_ok_iff_take` and `Envelope.unwrap_eq_forged_iff` — the envelopes that are opened, and
  those that are not.
* `ReadStep.opens_unwrap` — the same rule in the words of a pipeline.
* `Codec.opens_exactly` — the codecs of encrypted backends, with and without compression.
-/

namespace ReplicatedStore

/-! ## Envelopes -/

namespace Envelope

theorem length_wrap (passphrase : String) (nonce : Nonce) (text : Bytes) :
    (wrap passphrase nonce text).length = text.length + 28 := by
  rw [wrap, List.length_append, nonce.length_octets, Gcm.length_encrypt, nonceLength, Gcm.tagLength]
  omega

/-- The nonce stands in front. -/
theorem take_wrap (passphrase : String) (nonce : Nonce) (text : Bytes) :
    (wrap passphrase nonce text).take nonceLength = nonce.octets := by
  rw [wrap, ← nonce.length_octets, List.take_left]

/-- An envelope is opened if what follows its nonce is the sealed form of the text under that nonce. -/
theorem unwrap_eq_ok_iff_take (passphrase : String) (envelope text : Bytes) :
    unwrap passphrase envelope = .ok text ↔ nonceLength ≤ envelope.length ∧
      envelope = envelope.take nonceLength ++
        Gcm.encrypt (keyOf passphrase) (envelope.take nonceLength) text := by
  rw [unwrap_eq_ok_iff]
  constructor
  · rintro ⟨nonce, rfl⟩
    refine ⟨?_, by rw [take_wrap, wrap]⟩
    rw [length_wrap, nonceLength]
    omega
  · rintro ⟨hLong, hSealed⟩
    exact ⟨⟨envelope.take nonceLength, by rw [List.length_take]; omega⟩, hSealed⟩

/-- No envelope is written twice, neither from another text nor under another nonce. -/
theorem wrap_inj {passphrase : String} {nonce nonce' : Nonce} {text text' : Bytes}
    (h : wrap passphrase nonce text = wrap passphrase nonce' text') : nonce = nonce' ∧ text = text' := by
  have hNonce : nonce.octets = nonce'.octets := by
    rw [← take_wrap passphrase nonce text, h, take_wrap]
  have hText : unwrap passphrase (wrap passphrase nonce text) = .ok text' := by
    rw [h, unwrap_wrap]
  rw [unwrap_wrap] at hText
  exact ⟨Nonce.ext hNonce, Except.ok.inj hText⟩

/-- All envelopes with a nonce that are not opened are forged. -/
theorem unwrap_eq_forged_iff (passphrase : String) (envelope : Bytes) :
    unwrap passphrase envelope = .error .forged ↔
      nonceLength ≤ envelope.length ∧ ∀ text, unwrap passphrase envelope ≠ .ok text := by
  cases h : unwrap passphrase envelope with
  | ok text => simp
  | error refusal =>
    cases refusal with
    | tooShort length =>
      obtain ⟨hShort, -⟩ := (unwrap_eq_tooShort_iff ..).1 h
      simp [Nat.not_le_of_lt hShort]
    | forged =>
      -- octets without room for a nonce would have been too short
      have hLong : nonceLength ≤ envelope.length := Nat.le_of_not_lt fun hShort => by
        have hTooShort := (unwrap_eq_tooShort_iff passphrase envelope _).2 ⟨hShort, rfl⟩
        rw [h] at hTooShort
        cases hTooShort
      simp [hLong]

end Envelope

/-! ## Steps -/

/-- How octets are opened under a passphrase. -/
structure Opens (passphrase : String) (content : Bytes) (result : Except EncodingError Bytes) :
    Prop where
  /-- only octets without room for a nonce are too short -/
  tooShort : ∀ length least, result = .error (.ciphertextTooShort length least) ↔
    content.length < 12 ∧ length = content.length ∧ least = 12
  /-- a text is found behind its nonce, in the form sealed under the digest of the passphrase -/
  opened : ∀ text, result = .ok text ↔ 12 ≤ content.length ∧ content = content.take 12 ++
    Gcm.encrypt (Sha256.digest (Bytes.ofText passphrase)) (content.take 12) text
  /-- this is the same as having been written by encryption under some nonce -/
  written : ∀ text, result = .ok text ↔ ∃ nonce output,
    (WriteStep.encrypt passphrase).apply nonce (.ofBytes text) = .ok output ∧
      output.stream = .ofBytes content
  /-- nonce and tag are all that is added to a text -/
  length : ∀ text, result = .ok text → content.length = text.length + 28
  /-- there is no other text that the octets could have been written from -/
  unique : ∀ text text' nonce nonce', content = Envelope.wrap passphrase nonce text →
    content = Envelope.wrap passphrase nonce' text' → text = text' ∧ nonce = nonce'
  /-- all other octets are refused alike -/
  refused : result = .error .decryption ↔ 12 ≤ content.length ∧ ∀ text, content ≠ content.take 12 ++
    Gcm.encrypt (Sha256.digest (Bytes.ofText passphrase)) (content.take 12) text
  /-- and there is no other way to fail -/
  failure : ∀ e, result = .error e → e = .ciphertextTooShort content.length 12 ∨ e = .decryption

namespace ReadStep

theorem unwrap_eq_ok_iff (passphrase : String) (content text : Bytes) :
    unwrap passphrase content = .ok text ↔ Envelope.unwrap passphrase content = .ok text := by
  unfold unwrap
  split <;> simp_all

theorem unwrap_eq_tooShort_iff (passphrase : String) (content : Bytes) (length least : Nat) :
    unwrap passphrase content = .error (.ciphertextTooShort length least) ↔
      content.length < nonceLength ∧ length = content.length ∧ least = nonceLength := by
  rw [← and_assoc, ← Envelope.unwrap_eq_tooShort_iff passphrase content length]
  cases hResult : Envelope.unwrap passphrase content with
  | ok text => simp [unwrap, hResult]
  | error refusal => cases refusal <;> simp [unwrap, hResult, eq_comm]

theorem unwrap_eq_decryption_iff (passphrase : String) (content : Bytes) :
    unwrap passphrase content = .error .decryption ↔
      Envelope.unwrap passphrase content = .error .forged := by
  unfold unwrap
  split <;> simp_all

theorem opens_unwrap (passphrase : String) (content : Bytes) :
    Opens passphrase content (unwrap passphrase content) where
  tooShort := unwrap_eq_tooShort_iff passphrase content
  opened text := (unwrap_eq_ok_iff ..).trans (Envelope.unwrap_eq_ok_iff_take ..)
  written text := by
    rw [unwrap_eq_ok_iff, Envelope.unwrap_eq_ok_iff]
    constructor
    · rintro ⟨nonce, rfl⟩
      exact ⟨nonce, _, rfl, rfl⟩
    · rintro ⟨nonce, output, hApply, hStream⟩
      obtain rfl := Except.ok.inj hApply
      exact ⟨nonce, congrArg Stream.content hStream.symm⟩
  length text hText := by
    obtain ⟨nonce, rfl⟩ := (Envelope.unwrap_eq_ok_iff ..).1 ((unwrap_eq_ok_iff ..).1 hText)
    exact Envelope.length_wrap ..
  unique text text' nonce nonce' hHere hThere :=
    (Envelope.wrap_inj (hHere.symm.trans hThere)).symm
  refused := by
    rw [unwrap_eq_decryption_iff, Envelope.unwrap_eq_forged_iff]
    refine and_congr_right fun hLong => forall_congr' fun text => not_congr ?_
    rw [Envelope.unwrap_eq_ok_iff_take]
    exact and_iff_right hLong
  failure e he := by
    cases hResult : Envelope.unwrap passphrase content with
    | ok text => simp [unwrap, hResult] at he
    | error refusal =>
      cases refusal with
      | tooShort length =>
        obtain ⟨-, rfl⟩ := (Envelope.unwrap_eq_tooShort_iff ..).1 hResult
        simp only [unwrap, hResult, Except.error.injEq] at he
        exact .inl he.symm
      | forged =>
        simp only [unwrap, hResult, Except.error.injEq] at he
        exact .inr he.symm

end ReadStep

/-! ## Codecs -/

namespace ReadChain

/-- A chain that only decrypts. -/
theorem decode_decrypt (passphrase : String) (content : Bytes) :
    (decode ⟨[.decrypt passphrase]⟩ content).result = ReadStep.unwrap passphrase content := by
  simp only [decode, isEmpty, List.isEmpty_cons, Bool.false_eq_true, if_false, apply, applyFrom,
    ReadStep.decrypt, Stream.readAll_ofBytes]
  cases ReadStep.unwrap passphrase content <;> rfl

/-- A chain that decrypts and then decompresses. -/
theorem decode_decrypt_decompress (passphrase : String) (content : Bytes) :
    (decode ⟨[.decrypt passphrase, .decompress]⟩ content).result =
      match ReadStep.unwrap passphrase content with
      | .error e => .error e
      | .ok text => Buffer.decompress text := by
  simp only [decode, isEmpty, List.isEmpty_cons, Bool.false_eq_true, if_false, apply, applyFrom,
    ReadStep.decrypt, Stream.readAll_ofBytes]
  cases ReadStep.unwrap passphrase content with
  | error e => rfl
  | ok text =>
    simp only [Except.map, ReadStep.decompress, Stream.ofBytes, Buffer.decompress]
    cases Gzip.decompress? text <;> rfl

end ReadChain

/-- A chain that only encrypts. -/
theorem WriteChain.encode_encrypt (nonces : Nat → Nonce) (passphrase : String) (text : Bytes) :
    (encode nonces ⟨[.encrypt passphrase]⟩ text).result =
      .ok (Envelope.wrap passphrase (nonces 0) text) := rfl

namespace Codec

/-- **Decryption accepts exactly what encryption can write.** Under every passphrase that is not empty,
octets are too short, opened, or refused by one rule (`Opens`), which holds of the step that decrypts and
of a backend that only encrypts; such a backend decodes what it can have encoded, and nothing else. A
backend that compresses as well fails by the same rule, and otherwise gives what decompression makes of
the opened octets, which is a payload or the failure of decompression. -/
theorem opens_exactly [Gzip.Encoder] (passphrase : String) (hPassphrase : passphrase ≠ "") (isMain : Bool) :
    (∀ content, Opens passphrase content (ReadStep.unwrap passphrase content)) ∧
    (∃ codec, ofProperties ⟨isMain, .aes256, .none, some passphrase⟩ = .ok codec ∧ ∀ content,
      Opens passphrase content (codec.read.decode content).result ∧
      ∀ text, (codec.read.decode content).result = .ok text ↔
        ∃ nonces, (codec.write.encode nonces text).result = .ok content) ∧
    ∃ codec, ofProperties ⟨isMain, .aes256, .gzip, some passphrase⟩ = .ok codec ∧ ∀ content,
      ((codec.read.decode content).result =
        match ReadStep.unwrap passphrase content with
        | .error e => .error e
        | .ok text => Buffer.decompress text) ∧
      ∀ e, (codec.read.decode content).result = .error e →
        e = .ciphertextTooShort content.length 12 ∨ e = .decryption ∨ e = .decompression := by
  have hOpens := ReadStep.opens_unwrap passphrase
  have hKey (compression : Compression) :
      (⟨isMain, .aes256, compression, some passphrase⟩ : Properties).usableKey? = some passphrase :=
    if_neg hPassphrase
  have hPlain : ofProperties ⟨isMain, .aes256, .none, some passphrase⟩ =
      .ok ⟨⟨[.encrypt passphrase]⟩, ⟨[.decrypt passphrase]⟩⟩ := by
    simp only [ofProperties, hKey]
    rfl
  have hPacked : ofProperties ⟨isMain, .aes256, .gzip, some passphrase⟩ =
      .ok ⟨⟨[.compress Gzip.defaultLevel, .encrypt passphrase]⟩,
        ⟨[.decrypt passphrase, .decompress]⟩⟩ := by
    simp only [ofProperties, hKey]
    rfl
  refine ⟨hOpens, ⟨_, hPlain, fun content => ?_⟩, _, hPacked, fun content => ⟨?_, fun e he => ?_⟩⟩
  · rw [ReadChain.decode_decrypt]
    refine ⟨hOpens content, fun text => ?_⟩
    rw [ReadStep.unwrap_eq_ok_iff, Envelope.unwrap_eq_ok_iff]
    simp only [WriteChain.encode_encrypt, Except.ok.injEq]
    constructor
    · rintro ⟨nonce, rfl⟩
      exact ⟨fun _ => nonce, rfl⟩
    · rintro ⟨nonces, rfl⟩
      exact ⟨nonces 0, rfl⟩
  · exact ReadChain.decode_decrypt_decompress passphrase content
  · rw [ReadChain.decode_decrypt_decompress] at he
    cases hOpened : ReadStep.unwrap passphrase content with
    | error refusal =>
      simp only [hOpened, Except.error.injEq] at he
      obtain rfl | rfl := (hOpens content).failure refusal hOpened
      · exact .inl he.symm
      · exact .inr (.inl he.symm)
    | ok text =>
      simp only [hOpened, Buffer.decompress] at he
      split at he
      · cases he
      · exact .inr (.inr (Except.error.inj he).symm)

/-- Under one letter: eleven octets are too short, and a nonce alone is forged, also for a backend that
compresses. -/
theorem opens_exactly_letter :
    "k" ≠ "" ∧
    ReadStep.unwrap "k" (List.replicate 11 7) = .error (.ciphertextTooShort 11 12) ∧
    ReadStep.unwrap "k" (List.replicate 12 0) = .error .decryption ∧
    ∃ codec, ofProperties ⟨true, .aes256, .gzip, some "k"⟩ = .ok codec ∧
      (codec.read.decode (List.replicate 12 0)).result = .error .decryption := by
  have hKey : "k" ≠ "" := by decide
  obtain ⟨hOpens, -, codec, hCodec, hDecode⟩ := opens_exactly "k" hKey true
  have hForged : ReadStep.unwrap "k" (List.replicate 12 0) = .error .decryption := by
    cases hResult : ReadStep.unwrap "k" (List.replicate 12 0) with
    | ok text =>
      have hLength := (hOpens _).length text hResult
      rw [List.length_replicate] at hLength
      omega
    | error e =>
      obtain rfl | rfl := (hOpens _).failure e hResult
      · have hShort := ((hOpens _).tooShort _ _).1 hResult
        simp at hShort
      · rfl
  refine ⟨hKey, ((hOpens _).tooShort 11 12).2 (by decide), hForged, codec, hCodec, ?_⟩
  rw [(hDecode _).1, hForged]

end Codec

end ReplicatedStore
