import ReplicatedStore.Backend.Properties
import ReplicatedStore.Pipeline.Chain

/-!
# The codec of a backend

The pair of chains that a backend's properties ask for: compression before encryption on the way in,
decryption before decompression on the way out.

Main statements:

* `Codec.ofProperties_eq_error_iff` — a codec is refused exactly when encryption lacks its key.
-/

namespace ReplicatedStore

/-- The two chains of a backend. -/
structure Codec where
  write : WriteChain
  read : ReadChain

namespace Codec

/-- The chains that properties ask for. -/
def ofProperties [Gzip.Encoder] (p : Properties) : Except EncodingError Codec :=
  let compression := p.compression == .gzip
  let compress := if compression then [WriteStep.compress Gzip.defaultLevel] else []
  let decompress := if compression then [ReadStep.decompress] else []
  match p.encryption with
  | .none => .ok ⟨⟨compress⟩, ⟨decompress⟩⟩
  | .aes256 =>
    match p.usableKey? with
    | none => .error .missingKey
    | some key => .ok ⟨⟨compress ++ [.encrypt key]⟩, ⟨.decrypt key :: decompress⟩⟩

theorem ofProperties_eq_error_iff [Gzip.Encoder] (p : Properties) (e : EncodingError) :
    ofProperties p = .error e ↔ e = .missingKey ∧ p.lacksKey = true := by
  unfold ofProperties Properties.lacksKey
  cases hEncryption : p.encryption with
  | none => simp
  | aes256 =>
    cases hKey : p.usableKey? with
    | none => simpa using eq_comm
    | some key => simp

end Codec

end ReplicatedStore
