/-!
# Failures of encoding and decoding

What can go wrong in a step of a pipeline. `EncodingError.message` words each failure.
-/

namespace ReplicatedStore

/-- Why a payload could not be encoded or decoded. -/
inductive EncodingError
  /-- the stream to compress broke off -/
  | compression (reason : String)
  /-- the octets are no complete gzip member -/
  | decompression
  | encryption (reason : String)
  | ciphertextTooShort (length nonceLength : Nat)
  /-- the tag does not belong to the ciphertext -/
  | decryption
  | missingKey
  /-- a stream broke off while it was read -/
  | stream (reason : String)
  | worker (reason : String)
  deriving DecidableEq, Repr

namespace EncodingError

def message : EncodingError → String
  | compression reason => "gzip compression failed: " ++ reason
  | decompression => "gzip decompression failed: corrupt gzip stream"
  | encryption reason => "encryption failed: " ++ reason
  | ciphertextTooShort length nonceLength =>
    s!"invalid ciphertext: {length} bytes is shorter than the {nonceLength}-byte nonce"
  | decryption => "decryption failed: authentication tag mismatch or corrupted ciphertext"
  | missingKey => "AES256 encryption requested without an encryption key"
  | stream reason => "failed to read transform stream: " ++ reason
  | worker reason => "transform worker failed: " ++ reason

/-- What lies behind a failure, if something does. -/
def cause? : EncodingError → Option String
  | compression reason => some reason
  | decompression => some "corrupt gzip stream"
  | stream reason => some reason
  | _ => none

end EncodingError

end ReplicatedStore
