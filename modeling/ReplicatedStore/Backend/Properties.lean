import ReplicatedStore.Document

/-!
# Properties of a backend

What is fixed when a backend is built: whether it takes writes, and how its objects are encoded. The
key never leaves the program: neither `Properties.document` nor `Properties.summary` holds it.

Main statements:

* `Properties.document_withKey` and `Properties.summary_withKey` — what is shown of properties does
  not depend on what the key is.
-/

namespace ReplicatedStore

/-- The encryption of stored objects. -/
inductive Encryption
  | none
  | aes256
  deriving DecidableEq, Repr, Inhabited

/-- The compression of stored objects. -/
inductive Compression
  | none
  | gzip
  deriving DecidableEq, Repr, Inhabited

namespace Encryption

/-- The word for an encryption in settings. -/
def word : Encryption → String
  | none => "none"
  | aes256 => "aes256"

/-- The name of an encryption in listings. -/
def title : Encryption → String
  | none => "None"
  | aes256 => "Aes256"

def choices : List (String × Encryption) := [("none", none), ("aes256", aes256)]

end Encryption

namespace Compression

/-- The word for a compression in settings. -/
def word : Compression → String
  | none => "none"
  | gzip => "gzip"

/-- The name of a compression in listings. -/
def title : Compression → String
  | none => "None"
  | gzip => "Gzip"

def choices : List (String × Compression) := [("none", none), ("gzip", gzip)]

end Compression

/-- What is fixed when a backend is built. -/
structure Properties where
  /-- main backends take writes, the others are replicas that are only read -/
  isMain : Bool := false
  encryption : Encryption := .none
  compression : Compression := .none
  key : Option String := none
  deriving DecidableEq, Repr, Inhabited

namespace Properties

/-- The key to encrypt under, if there is one that is not empty. -/
def usableKey? (p : Properties) : Option String :=
  match p.key with
  | some key => if key = "" then none else some key
  | none => none

/-- Whether objects are to be encrypted without a key. -/
def lacksKey (p : Properties) : Bool := p.encryption == .aes256 && p.usableKey?.isNone

def withKey (p : Properties) (key : Option String) : Properties := { p with key }

/-- The properties as written out, without the key. -/
def document (p : Properties) : Document :=
  .record [("is_main_instance", .flag p.isMain), ("save_encrypt", .text p.encryption.word),
    ("save_compress", .text p.compression.word)]

/-- The properties in one line, with a mark in place of the key. -/
def summary (p : Properties) : String :=
  let shown := if p.key.isSome then "Some(\"<redacted>\")" else "None"
  "ConnectionProperties \x7b is_main_instance: " ++ toString p.isMain ++ ", save_encrypt: " ++
    p.encryption.title ++ ", save_compress: " ++ p.compression.title ++ ", encrypt_key: " ++ shown ++
    " \x7d"

/-! ## Reading -/

/-- A choice by its word, or by a record of its word with nothing in it. -/
def readChoice? {α : Type} (choices : List (String × α)) : Document → Option α
  | .text word => choices.lookup word
  -- a choice holds nothing, so its record has an empty value
  | .record [(word, .nothing)] => choices.lookup word
  | _ => none

/-- The properties from one document for each field, in order; a missing one has its default. -/
def ofParts? (isMain encryption compression key : Option Document) : Option Properties := do
  let isMain ← match isMain with
    | none => some false
    | some (.flag b) => some b
    | some _ => none
  let encryption ← match encryption with
    | none => some Encryption.none
    | some d => readChoice? Encryption.choices d
  let compression ← match compression with
    | none => some Compression.none
    | some d => readChoice? Compression.choices d
  let key ← match key with
    | none => some none
    | some .nothing => some none
    | some (.text k) => some (some k)
    | some _ => none
  return { isMain, encryption, compression, key }

/-- The properties that a document states: a record of fields, or the fields in order in a list. -/
def ofDocument? : Document → Option Properties
  | .record fields =>
    ofParts? (Document.field? "is_main_instance" fields) (Document.field? "save_encrypt" fields)
      (Document.field? "save_compress" fields) (Document.field? "encrypt_key" fields)
  | .list items => if 4 < items.length then none else ofParts? items[0]? items[1]? items[2]? items[3]?
  | _ => none

theorem document_withKey (p : Properties) (key : Option String) :
    (p.withKey key).document = p.document := rfl

theorem summary_withKey (p : Properties) (key other : String) :
    (p.withKey (some key)).summary = (p.withKey (some other)).summary := rfl

end Properties

end ReplicatedStore
