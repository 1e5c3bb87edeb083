import ReplicatedStore.Digest.Sha256
import ReplicatedStore.Cipher.Gcm

/-!
# Envelopes

An encrypted object is a nonce of 12 octets, the ciphertext, and its tag, under the SHA-256 digest of
a passphrase.

Main statements:

* `Envelope.unwrap_eq_ok_iff` — a text is found exactly in its own envelopes, one for each nonce.
* `Envelope.unwrap_eq_tooShort_iff` — only octets without room for a nonce are too short.
-/

namespace ReplicatedStore

/-- How many octets a nonce has. -/
def nonceLength : Nat := 12

/-- A number used once: what makes two encryptions of one text differ. -/
structure Nonce where
  octets : Bytes
  length_octets : octets.length = nonceLength

namespace Nonce

/-- The nonce that writes a number, modulo 2^96, most significant octet first. -/
def ofNat (n : Nat) : Nonce := ⟨Bytes.toBE nonceLength n, by simp [Bytes.toBE]⟩

instance : Inhabited Nonce := ⟨ofNat 0⟩

@[ext] theorem ext {a b : Nonce} (h : a.octets = b.octets) : a = b := by
  cases a; cases b; simp_all

end Nonce

namespace Envelope

/-- Why octets are no envelope. -/
inductive Refusal
  | tooShort (length : Nat)
  | forged
  deriving DecidableEq, Repr

/-- The cipher key of a passphrase. -/
def keyOf (passphrase : String) : Bytes := Sha256.digest (Bytes.ofText passphrase)

def wrap (passphrase : String) (nonce : Nonce) (text : Bytes) : Bytes :=
  nonce.octets ++ Gcm.encrypt (keyOf passphrase) nonce.octets text

def unwrap (passphrase : String) (envelope : Bytes) : Except Refusal Bytes :=
  if envelope.length < nonceLength then .error (.tooShort envelope.length)
  else
    match Gcm.decrypt? (keyOf passphrase) (envelope.take nonceLength) (envelope.drop nonceLength) with
    | some text => .ok text
    | none => .error .forged

theorem unwrap_eq_tooShort_iff (passphrase : String) (envelope : Bytes) (n : Nat) :
    unwrap passphrase envelope = .error (.tooShort n) ↔
      envelope.length < nonceLength ∧ n = envelope.length := by
  unfold unwrap
  split
  · rename_i h
    simp only [Except.error.injEq, Refusal.tooShort.injEq, h, true_and]
    exact eq_comm
  · rename_i h
    split <;> simp [h]

theorem unwrap_wrap (passphrase : String) (nonce : Nonce) (text : Bytes) :
    unwrap passphrase (wrap passphrase nonce text) = .ok text := by
  have hTake : (wrap passphrase nonce text).take nonceLength = nonce.octets := by
    rw [wrap, ← nonce.length_octets, List.take_left]
  have hDrop : (wrap passphrase nonce text).drop nonceLength =
      Gcm.encrypt (keyOf passphrase) nonce.octets text := by
    rw [wrap, ← nonce.length_octets, List.drop_left]
  have hLong : ¬ (wrap passphrase nonce text).length < nonceLength := by
    rw [wrap, List.length_append, nonce.length_octets]
    omega
  simp [unwrap, hLong, hTake, hDrop, Gcm.decrypt?_encrypt]

theorem unwrap_eq_ok_iff (passphrase : String) (envelope text : Bytes) :
    unwrap passphrase envelope = .ok text ↔ ∃ nonce, envelope = wrap passphrase nonce text := by
  constructor
  · intro h
    unfold unwrap at h
    split at h
    · contradiction
    · rename_i hLong
      split at h
      -- the cipher accepts only what it gives, and the nonce is the one in front
      · rename_i found hFound
        obtain rfl := Except.ok.inj h
        refine ⟨⟨envelope.take nonceLength, by rw [List.length_take]; omega⟩, ?_⟩
        rw [Gcm.decrypt?_eq_some_iff] at hFound
        rw [wrap, ← hFound, List.take_append_drop]
      · contradiction
  · rintro ⟨nonce, rfl⟩
    exact unwrap_wrap passphrase nonce text

end Envelope

end ReplicatedStore
