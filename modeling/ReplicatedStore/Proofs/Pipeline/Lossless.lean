import Mathlib.Data.List.Forall2
import ReplicatedStore.Pipeline.Codec
import ReplicatedStore.Proofs.Compression.Members

/-!
# Pipelines lose nothing

A reading step undoes a writing step if it finds every payload again in what the writing step makes
of it, under every nonce. A reading chain whose steps undo those of a writing chain one by one, in the
opposite order, undoes the writing chain as a whole. The chains that properties ask for are of this
kind, so a backend gives back what it was given.

Main results:

* `ReadStep.decompress_undoes_compress`, `ReadStep.decrypt_undoes_encrypt` — the two pairs of steps.
* `ReadChain.decode_of_undoes` — chains of steps that undo each other.
* `Codec.lossless_of_ofProperties` — every codec that properties ask for is lossless.
-/

namespace ReplicatedStore

namespace ReadStep

/-- Whatever the writing step makes of a payload, the reading step finds the payload again. -/
def Undoes (r : ReadStep) (w : WriteStep) : Prop :=
  ∀ nonce payload, ∃ output content, w.apply nonce (.ofBytes payload) = .ok output ∧
    output.stream = .ofBytes content ∧ r.apply (.ofBytes content) = .ok (.ofBytes payload)

theorem decompress_undoes_compress [Gzip.Encoder] [Gzip.LawfulEncoder] (level : Nat) :
    decompress.Undoes (.compress level) := by
  intro nonce payload
  obtain ⟨output, octets, hWritten, hStream, hMember⟩ :=
    WriteStep.exists_member_of_compress level nonce payload
  have hFound := hMember.decompress?_append []
  rw [List.append_nil] at hFound
  exact ⟨output, octets, hWritten, hStream, by simp [decompress, Stream.ofBytes, hFound]⟩

theorem decrypt_undoes_encrypt (passphrase : String) :
    (decrypt passphrase).Undoes (.encrypt passphrase) := by
  intro nonce payload
  refine ⟨_, Envelope.wrap passphrase nonce payload, rfl, rfl, ?_⟩
  exact decrypt_encrypt passphrase nonce payload _ rfl

end ReadStep

namespace ReadChain

/-- A chain is run by running its first steps, then the others. -/
theorem result_applyFrom_append (position : Nat) (input : Stream) (first rest : List ReadStep) :
    (applyFrom position input (first ++ rest)).result =
      match (applyFrom position input first).result with
      | .error e => .error e
      | .ok output => (applyFrom (position + first.length) output rest).result := by
  induction first generalizing position input with
  | nil => rfl
  | cons step first ih =>
    rw [List.cons_append, applyFrom, applyFrom]
    cases hStep : step.apply input with
    | error e => rfl
    | ok output =>
      simp only [Traced.after]
      rw [ih, List.length_cons, Nat.add_assoc, Nat.add_comm 1]

/-- Steps that undo each other one by one undo each other as chains, the last one first. -/
theorem applyFrom_of_undoes {writes : List WriteStep} {reads : List ReadStep}
    (h : List.Forall₂ (fun w r => ReadStep.Undoes r w) writes reads) (nonces : Nat → Nonce)
    (position : Nat) (guard : Guard) (payload : Bytes) :
    ∃ content held, (WriteChain.applyFrom nonces position guard (.ofBytes payload) writes).result =
        .ok (.ofBytes content, held) ∧
      ∀ start, (applyFrom start (.ofBytes content) reads.reverse).result =
        .ok (.ofBytes payload) := by
  induction h generalizing position guard payload with
  | nil => exact ⟨payload, guard, rfl, fun _ => rfl⟩
  | @cons w r writes reads hStep _ ih =>
    obtain ⟨output, middle, hApply, hStream, hUndo⟩ := hStep (nonces position) payload
    obtain ⟨content, held, hWrite, hRead⟩ :=
      ih (position + 1) (if output.holds then position :: guard else guard) middle
    refine ⟨content, held, ?_, ?_⟩
    · rw [WriteChain.applyFrom, hApply]
      simp only [hStream]
      exact hWrite
    · intro start
      rw [List.reverse_cons, result_applyFrom_append, hRead]
      simp only [applyFrom, hUndo]
      rfl

/-- What a writing chain makes of a payload is decoded again by a chain that undoes it. -/
theorem decode_of_undoes {writes : List WriteStep} {reads : List ReadStep}
    (h : List.Forall₂ (fun w r => ReadStep.Undoes r w) writes reads) (nonces : Nat → Nonce)
    (payload : Bytes) :
    ∃ content, (WriteChain.encode nonces ⟨writes⟩ payload).result = .ok content ∧
      (decode ⟨reads.reverse⟩ content).result = .ok payload := by
  cases hWrites : writes with
  | nil =>
    subst hWrites
    cases h
    exact ⟨payload, rfl, rfl⟩
  | cons w rest =>
    obtain ⟨content, held, hWrite, hRead⟩ := applyFrom_of_undoes h nonces 0 [] payload
    have hReads : reads.reverse.isEmpty = false := by
      have hLength := h.length_eq
      rw [hWrites] at hLength
      cases reads with
      | nil => simp at hLength
      | cons r reads => simp
    refine ⟨content, ?_, ?_⟩
    · rw [← hWrites]
      have hSteps : (⟨writes⟩ : WriteChain).isEmpty = false := by
        simp [WriteChain.isEmpty, hWrites]
      simp [WriteChain.encode, hSteps, WriteChain.apply, hWrite]
    · simp [decode, isEmpty, hReads, apply, hRead]

end ReadChain

namespace Codec

/-- What is written is read again, under every supply of nonces. -/
def Lossless (c : Codec) : Prop :=
  ∀ nonces payload, ∃ content, (c.write.encode nonces payload).result = .ok content ∧
    (c.read.decode content).result = .ok payload

theorem lossless_of_ofProperties [Gzip.Encoder] [Gzip.LawfulEncoder] {p : Properties} {c : Codec}
    (h : ofProperties p = .ok c) : c.Lossless := by
  have hCompress : ReadStep.decompress.Undoes (.compress Gzip.defaultLevel) :=
    ReadStep.decompress_undoes_compress _
  -- the steps of the codec in the order of writing
  have hSteps : ∃ writes reads, List.Forall₂ (fun w r => ReadStep.Undoes r w) writes reads ∧
      c = ⟨⟨writes⟩, ⟨reads.reverse⟩⟩ := by
    unfold ofProperties at h
    cases hEncryption : p.encryption with
    | none =>
      rw [hEncryption] at h
      by_cases hGzip : (p.compression == .gzip) = true
      · simp only [hGzip, if_true, Except.ok.injEq] at h
        exact ⟨_, _, .cons hCompress .nil, h.symm⟩
      · simp only [hGzip, Bool.false_eq_true, if_false, Except.ok.injEq] at h
        exact ⟨_, _, .nil, h.symm⟩
    | aes256 =>
      rw [hEncryption] at h
      cases hKey : p.usableKey? with
      | none => simp [hKey] at h
      | some key =>
        have hEncrypt := ReadStep.decrypt_undoes_encrypt key
        by_cases hGzip : (p.compression == .gzip) = true
        · simp only [hKey, hGzip, if_true, Except.ok.injEq] at h
          exact ⟨_, _, .cons hCompress (.cons hEncrypt .nil), h.symm⟩
        · simp only [hKey, hGzip, Bool.false_eq_true, if_false, Except.ok.injEq] at h
          exact ⟨_, _, .cons hEncrypt .nil, h.symm⟩
  obtain ⟨writes, reads, hUndoes, rfl⟩ := hSteps
  exact fun nonces payload => ReadChain.decode_of_undoes hUndoes nonces payload

end Codec

end ReplicatedStore
