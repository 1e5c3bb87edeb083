import ReplicatedStore.Backend.Memory
import ReplicatedStore.Proofs.Pipeline.Lossless

/-!
# What is encoded is decoded again

Steps that undo each other one by one make chains that undo each other, also where a writing step may
refuse a payload: then what was not refused is decoded again. Properties that ask for encryption
without a key are refused, all others get a codec that gives back every payload. A backend in memory
encodes and decodes away from its objects, so a call may find other objects when it is finished than
when it began; what it stores and gives back is the same.

Main results:

* `ReadChain.decode_of_encode` — chains of steps of which each undoes what its partner did.
* `Memory.content_complete_get` — a backend in memory gives back what it was given, whatever has become
  of its other objects between the moments of a call.
* `Codec.round_trip` — the chains, the codecs that properties ask for, and the calls.
-/

namespace ReplicatedStore

/-! ## Steps that may refuse -/

namespace ReadStep

/-- What the writing step makes of a payload, unless it refuses, the reading step turns into the
payload again. -/
def Reverts (r : ReadStep) (w : WriteStep) : Prop :=
  ∀ nonce payload output, w.apply nonce (.ofBytes payload) = .ok output →
    ∃ content, output.stream = .ofBytes content ∧ r.apply (.ofBytes content) = .ok (.ofBytes payload)

/-- A step that undoes another is one that reverts it, where the other never refuses. -/
theorem undoes_iff (r : ReadStep) (w : WriteStep) :
    r.Undoes w ↔
      r.Reverts w ∧ ∀ nonce payload, ∃ output, w.apply nonce (.ofBytes payload) = .ok output := by
  constructor
  · intro h
    refine ⟨fun nonce payload output hApply => ?_, fun nonce payload => ?_⟩
    · obtain ⟨output', content, hApply', hStream, hRead⟩ := h nonce payload
      cases hApply.symm.trans hApply'
      exact ⟨content, hStream, hRead⟩
    · obtain ⟨output, _, hApply, _⟩ := h nonce payload
      exact ⟨output, hApply⟩
  · rintro ⟨hReverts, hTotal⟩ nonce payload
    obtain ⟨output, hApply⟩ := hTotal nonce payload
    obtain ⟨content, hStream, hRead⟩ := hReverts nonce payload output hApply
    exact ⟨output, content, hApply, hStream, hRead⟩

end ReadStep

namespace ReadChain

/-- A run of steps that may refuse, and the run of the steps that revert them. -/
theorem applyFrom_of_reverts {writes : List WriteStep} {reads : List ReadStep}
    (h : List.Forall₂ (fun w r => ReadStep.Reverts r w) writes reads) {nonces : Nat → Nonce}
    {position : Nat} {guard : Guard} {payload : Bytes} {output : Stream} {held : Guard}
    (hWrite : (WriteChain.applyFrom nonces position guard (.ofBytes payload) writes).result =
      .ok (output, held)) :
    ∃ content, output = .ofBytes content ∧
      ∀ start, (applyFrom start (.ofBytes content) reads.reverse).result = .ok (.ofBytes payload) := by
  -- from the first step on; the last step to write is the first one to read
  induction h generalizing position guard payload with
  | nil =>
    cases hWrite
    exact ⟨payload, rfl, fun _ => rfl⟩
  | @cons w r writes reads hStep _ ih =>
    rw [WriteChain.applyFrom] at hWrite
    cases hApply : w.apply (nonces position) (.ofBytes payload) with
    | error e => simp [hApply] at hWrite
    | ok middle =>
      obtain ⟨between, hStream, hUndo⟩ := hStep _ _ _ hApply
      simp only [hApply, Traced.after, hStream] at hWrite
      obtain ⟨content, hOutput, hRead⟩ := ih hWrite
      refine ⟨content, hOutput, fun start => ?_⟩
      rw [List.reverse_cons, result_applyFrom_append, hRead]
      simp only [applyFrom, hUndo]
      rfl

/-- What a chain of steps has made of a payload is decoded by the chain of the steps that revert them,
the last one first. -/
theorem decode_of_encode {writes : List WriteStep} {reads : List ReadStep}
    (h : List.Forall₂ (fun w r => ReadStep.Reverts r w) writes reads) {nonces : Nat → Nonce}
    {payload content : Bytes}
    (hEncode : (WriteChain.encode nonces ⟨writes⟩ payload).result = .ok content) :
    (decode ⟨reads.reverse⟩ content).result = .ok payload := by
  cases h with
  | nil =>
    cases hEncode
    rfl
  | @cons w r writes reads hStep hRest =>
    have hSome : (⟨w :: writes⟩ : WriteChain).isEmpty = false := rfl
    simp only [WriteChain.encode, hSome, Bool.false_eq_true, if_false, WriteChain.apply] at hEncode
    cases hRun : (WriteChain.applyFrom nonces 0 [] (.ofBytes payload) (w :: writes)).result with
    | error e => simp [hRun] at hEncode
    | ok pair =>
      obtain ⟨output, held⟩ := pair
      obtain ⟨found, rfl, hRead⟩ := applyFrom_of_reverts (.cons hStep hRest) hRun
      have hFound : found = content := by simpa [hRun] using hEncode
      subst hFound
      have hReads : (r :: reads).reverse.isEmpty = false := by simp
      simp only [decode, isEmpty, hReads, apply, hRead, Bool.false_eq_true, if_false,
        Stream.readAll_ofBytes]

end ReadChain

/-! ## Calls of a backend in memory -/

namespace Memory

/-- How a call ends: one that waits goes on in the memory as it is then. -/
def complete (codec : Codec) (later : Memory) : Memory × Begun → Memory × Outcome
  | (m, .over o) => (m, o)
  | (_, .waiting _ held) => finish codec later held

/-- A payload that can be encoded is stored in its encoded form, if the container is there when the
call is finished. -/
theorem complete_put {codec : Codec} {nonces : Nat → Nonce} {a : Address} {data content : Bytes}
    {m later : Memory} (hEncode : (codec.write.encode nonces data).result = .ok content)
    (hNow : a.container ∈ m.containers) (hLater : a.container ∈ later.containers) :
    (complete codec later (begin codec nonces m (.put a data))).2 = .answered .done ∧
      (complete codec later (begin codec nonces m (.put a data))).1.objects.get? a = some content := by
  by_cases hEmpty : codec.write.isEmpty = true
  · simp [begin, hEncode, hEmpty, complete, place_eq _ _ _ hNow]
  · simp [begin, hEncode, hEmpty, complete, finish, place_eq _ _ _ hLater]

/-- A stored content is decoded, whatever the memory is when the call is finished. -/
theorem complete_get {codec : Codec} {a : Address} {content : Bytes} {m : Memory}
    (hStored : m.objects.get? a = some content) (nonces : Nat → Nonce) (later : Memory) :
    (complete codec later (begin codec nonces m (.get a))).2 = decoded codec content := by
  by_cases hEmpty : codec.read.isEmpty = true
  · simp [begin, hStored, hEmpty, complete]
  · simp [begin, hStored, hEmpty, complete, finish]

/-- What was put is what is read, as long as the stored content is there. -/
theorem content_complete_get {codec : Codec} (hCodec : codec.Lossless) {a : Address} {m later : Memory}
    (hNow : a.container ∈ m.containers) (hLater : a.container ∈ later.containers)
    (nonces : Nat → Nonce) (data : Bytes) :
    ∃ written content, complete codec later (begin codec nonces m (.put a data)) =
        (written, .answered .done) ∧ written.objects.get? a = some content ∧
      ∀ nonces' (reading after : Memory), reading.objects.get? a = some content →
        (complete codec after (begin codec nonces' reading (.get a))).2 = .answered (.content data) := by
  obtain ⟨content, hEncode, hDecode⟩ := hCodec nonces data
  obtain ⟨hDone, hStored⟩ := complete_put hEncode hNow hLater
  refine ⟨_, content, Prod.ext rfl hDone, hStored, fun nonces' reading after hReading => ?_⟩
  rw [complete_get hReading, decoded, hDecode]

end Memory

/-! ## The codecs of properties -/

namespace Properties

/-- A key is missing if it is absent or empty. -/
theorem lacksKey_iff (p : Properties) :
    p.lacksKey = true ↔ p.encryption = .aes256 ∧ (p.key = none ∨ p.key = some "") := by
  have hUsable : p.usableKey? = none ↔ p.key = none ∨ p.key = some "" := by
    unfold usableKey?
    cases p.key with
    | none => simp
    | some key => simp
  simp [lacksKey, hUsable]

end Properties

namespace Codec

/-- **Pipelines give back what they were given.** Take reading steps each of which turns what its
writing step makes of any octets into those octets again. Then the chain of the reading steps, the last
one first, decodes everything that the chain of the writing steps has encoded, and it encodes every
payload if no writing step refuses one. A codec is refused exactly if encryption is asked for and the
key is absent or empty, and then for the missing key. All other properties get a codec that gives back
every payload under all nonces, in one go as well as in the calls of a backend in memory, which wait
for the encoding and the decoding while other calls change what the memory holds. Whatever writes the
gzip members, it is enough that they are members of what they are written from. -/
theorem round_trip [Gzip.Encoder] [Gzip.LawfulEncoder] :
    (∀ writes reads, List.Forall₂ (fun w r => ReadStep.Reverts r w) writes reads →
      ∀ nonces payload,
        (∀ content, (WriteChain.encode nonces ⟨writes⟩ payload).result = .ok content →
          (ReadChain.decode ⟨reads.reverse⟩ content).result = .ok payload) ∧
        ((∀ w ∈ writes, ∀ nonce input, ∃ output, w.apply nonce (.ofBytes input) = .ok output) →
          ∃ content, (WriteChain.encode nonces ⟨writes⟩ payload).result = .ok content)) ∧
    ∀ p : Properties,
      (∀ e, ofProperties p = .error e ↔
        e = .missingKey ∧ p.encryption = .aes256 ∧ (p.key = none ∨ p.key = some "")) ∧
      ∀ codec, ofProperties p = .ok codec →
        (∀ nonces payload, ∃ content, (codec.write.encode nonces payload).result = .ok content ∧
          (codec.read.decode content).result = .ok payload) ∧
        ∀ (a : Address) (m later : Memory), a.container ∈ m.containers →
          a.container ∈ later.containers → ∀ nonces payload, ∃ written content,
            Memory.complete codec later (Memory.begin codec nonces m (.put a payload)) =
              (written, .answered .done) ∧ written.objects.get? a = some content ∧
            ∀ nonces' (reading after : Memory), reading.objects.get? a = some content →
              (Memory.complete codec after (Memory.begin codec nonces' reading (.get a))).2 =
                .answered (.content payload) := by
  refine ⟨fun writes reads hReverts nonces payload => ⟨fun content => ?_, fun hTotal => ?_⟩,
    fun p => ⟨fun e => ?_, fun codec hCodec => ⟨lossless_of_ofProperties hCodec, ?_⟩⟩⟩
  · exact ReadChain.decode_of_encode hReverts
  · -- steps that never refuse and are reverted are undone
    have hUndoes : List.Forall₂ (fun w r => ReadStep.Undoes r w) writes reads := by
      refine List.forall₂_iff_get.2 ⟨hReverts.length_eq, fun i hWrites hReads => ?_⟩
      refine (ReadStep.undoes_iff _ _).2 ⟨hReverts.get hWrites hReads, ?_⟩
      exact hTotal _ (List.get_mem writes ⟨i, hWrites⟩)
    obtain ⟨content, hEncode, _⟩ := ReadChain.decode_of_undoes hUndoes nonces payload
    exact ⟨content, hEncode⟩
  · rw [ofProperties_eq_error_iff, Properties.lacksKey_iff]
  · intro a m later hNow hLater nonces payload
    exact Memory.content_complete_get (lossless_of_ofProperties hCodec) hNow hLater nonces payload

/-- Three octets through compression and encryption, a key that is empty, and an empty object whose
container is all that is left when its reading is finished. -/
theorem round_trip_gzip_aes :
    (∃ content,
      (WriteChain.encode .ofNat ⟨[.compress 6, .encrypt "k"]⟩ [1, 2, 3]).result = .ok content ∧
      (ReadChain.decode ⟨[.decrypt "k", .decompress]⟩ content).result = .ok [1, 2, 3]) ∧
    ofProperties { encryption := .aes256, key := some "" } = .error .missingKey ∧
    ∃ codec, ofProperties { encryption := .aes256, compression := .gzip, key := some "k" } = .ok codec ∧
      ∃ written content,
        Memory.complete codec (.ofContainers ["docs"])
          (Memory.begin codec .ofNat (.ofContainers ["docs", "logs"]) (.put ⟨"docs", "a.txt"⟩ [])) =
            (written, .answered .done) ∧
        written.objects.get? ⟨"docs", "a.txt"⟩ = some content ∧
        (Memory.complete codec (.ofContainers ["docs"])
          (Memory.begin codec .ofNat written (.get ⟨"docs", "a.txt"⟩))).2 = .answered (.content []) := by
  have hCompress := (ReadStep.undoes_iff .decompress (.compress 6)).1
    (ReadStep.decompress_undoes_compress 6)
  have hEncrypt := (ReadStep.undoes_iff _ _).1 (ReadStep.decrypt_undoes_encrypt "k")
  refine ⟨?_, ?_, _, rfl, ?_⟩
  · obtain ⟨hDecode, hEncode⟩ := round_trip.1 [.compress 6, .encrypt "k"] [.decompress, .decrypt "k"]
      (.cons hCompress.1 (.cons hEncrypt.1 .nil)) .ofNat [1, 2, 3]
    obtain ⟨content, hContent⟩ := hEncode (by simpa using ⟨hCompress.2, hEncrypt.2⟩)
    exact ⟨content, hContent, hDecode content hContent⟩
  · exact ((round_trip.2 { encryption := .aes256, key := some "" }).1 _).2 ⟨rfl, rfl, .inr rfl⟩
  · obtain ⟨written, content, hPut, hStored, hGet⟩ :=
      ((round_trip.2 { encryption := .aes256, compression := .gzip, key := some "k" }).2 _ rfl).2
        ⟨"docs", "a.txt"⟩ (.ofContainers ["docs", "logs"]) (.ofContainers ["docs"]) (by decide)
        (by decide) .ofNat []
    exact ⟨written, content, hPut, hStored, hGet .ofNat written (.ofContainers ["docs"]) hStored⟩

end Codec

end ReplicatedStore
