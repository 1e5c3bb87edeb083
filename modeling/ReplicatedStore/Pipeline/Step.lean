import ReplicatedStore.Cipher.Envelope
import ReplicatedStore.Gzip
import ReplicatedStore.Pipeline.EncodingError
import ReplicatedStore.Pipeline.Stream

/-!
# Steps of a pipeline

A step turns a stream into another or fails. A writing step may hold on to something until the
outcome has been consumed (`holds`); such holdings are released by the pipeline. A reading step
undoes a writing step. Compression is also there for buffers, outside of any pipeline.

Main statements:

* `WriteStep.exists_member_of_compress` — compression writes one member.
* `ReadStep.decrypt_encrypt` and `ReadStep.decrypt_eq_ok_iff` — decryption accepts exactly what
  encryption gives.
-/

namespace ReplicatedStore

/-- What a writing step leaves: its stream, and whether it holds on to something. -/
structure StepOutput where
  stream : Stream
  holds : Bool := false

/-- A step on the way into a backend. The nonce is fresh for each run of the step. -/
structure WriteStep where
  name : String
  apply : Nonce → Stream → Except EncodingError StepOutput

/-- A step on the way out of a backend. -/
structure ReadStep where
  name : String
  apply : Stream → Except EncodingError Stream

namespace Buffer

/-- A buffer as a gzip member. It is handed to the encoder in one piece. -/
def compress [Gzip.Encoder] (level : Nat) (data : Bytes) : Except EncodingError Bytes :=
  .ok (Gzip.Encoder.encode level [data])

/-- The payload of the first gzip member in a buffer. -/
def decompress (data : Bytes) : Except EncodingError Bytes :=
  match Gzip.decompress? data with
  | some payload => .ok payload
  | none => .error .decompression

/-- A buffer is decompressed or not, there is one failure. -/
theorem eq_decompression_of_decompress {data : Bytes} {e : EncodingError}
    (h : decompress data = .error e) : e = .decompression := by
  unfold decompress at h
  split at h
  · contradiction
  · exact (Except.error.inj h).symm

/-- A buffer is always compressed, and into a member. -/
theorem exists_member_of_compress [Gzip.Encoder] [Gzip.LawfulEncoder] (level : Nat) (data : Bytes) :
    ∃ octets, compress level data = .ok octets ∧ Gzip.Member octets data :=
  ⟨_, rfl, by simpa using Gzip.LawfulEncoder.member_encode level [data]⟩

end Buffer

namespace WriteStep

/-- The stream is copied into the encoder piece by piece. -/
def compress [Gzip.Encoder] (level : Nat) : WriteStep where
  name := "gzip-compress"
  apply _ input :=
    match input.readAll with
    | .error reason => .error (.compression reason)
    | .ok content =>
      .ok { stream := .ofBytes (Gzip.Encoder.encode level (Stream.pieces content)) }

def encrypt (passphrase : String) : WriteStep where
  name := "aes-gcm-encrypt"
  apply nonce input :=
    match input.readAll with
    | .error reason => .error (.stream reason)
    | .ok content => .ok { stream := .ofBytes (Envelope.wrap passphrase nonce content) }

/-- A stream that ends is compressed into a member. -/
theorem exists_member_of_compress [Gzip.Encoder] [Gzip.LawfulEncoder] (level : Nat) (nonce : Nonce)
    (content : Bytes) :
    ∃ output octets, (compress level).apply nonce (.ofBytes content) = .ok output ∧
      output.stream = .ofBytes octets ∧ Gzip.Member octets content := by
  have hMember := Gzip.LawfulEncoder.member_encode level (Stream.pieces content)
  rw [Stream.flatten_pieces] at hMember
  exact ⟨_, _, rfl, rfl, hMember⟩

end WriteStep

namespace ReadStep

/-- The text in an envelope, or the failure of a pipeline. -/
def unwrap (passphrase : String) (content : Bytes) : Except EncodingError Bytes :=
  match Envelope.unwrap passphrase content with
  | .ok text => .ok text
  | .error (.tooShort length) => .error (.ciphertextTooShort length nonceLength)
  | .error .forged => .error .decryption

def decrypt (passphrase : String) : ReadStep where
  name := "aes-gcm-decrypt"
  apply input :=
    match input.readAll with
    | .error reason => .error (.stream reason)
    | .ok content => (unwrap passphrase content).map .ofBytes

/-- Decompression of the first gzip member. A stream that breaks off after the member's end is read
no further, and one that breaks off before it holds no complete member. -/
def decompress : ReadStep where
  name := "gzip-decompress"
  apply input :=
    match Gzip.decompress? input.content with
    | some payload => .ok (.ofBytes payload)
    | none => .error .decompression

/-- A stream that ends is decompressed as a buffer with its octets. -/
theorem decompress_ofBytes (content : Bytes) :
    decompress.apply (.ofBytes content) = (Buffer.decompress content).map .ofBytes := by
  simp only [decompress, Buffer.decompress, Stream.ofBytes]
  cases Gzip.decompress? content <;> rfl

theorem decrypt_eq_ok_iff (passphrase : String) (content : Bytes) (output : Stream) :
    (decrypt passphrase).apply (.ofBytes content) = .ok output ↔
      ∃ nonce text, output = .ofBytes text ∧ content = Envelope.wrap passphrase nonce text := by
  simp only [decrypt, Stream.readAll_ofBytes, unwrap]
  constructor
  · intro h
    split at h
    -- the only case in which something comes out
    · rename_i text hText
      obtain ⟨nonce, hWrap⟩ := (Envelope.unwrap_eq_ok_iff _ _ _).1 hText
      exact ⟨nonce, text, (Except.ok.inj h).symm, hWrap⟩
    · contradiction
    · contradiction
  · rintro ⟨nonce, text, rfl, rfl⟩
    simp [Envelope.unwrap_wrap, Except.map]

theorem decrypt_encrypt (passphrase : String) (nonce : Nonce) (text : Bytes) (output : StepOutput)
    (h : (WriteStep.encrypt passphrase).apply nonce (.ofBytes text) = .ok output) :
    (decrypt passphrase).apply output.stream = .ok (.ofBytes text) := by
  simp only [WriteStep.encrypt, Stream.readAll_ofBytes, Except.ok.injEq] at h
  subst h
  exact (decrypt_eq_ok_iff _ _ _).2 ⟨nonce, text, rfl, rfl⟩

end ReadStep

end ReplicatedStore
