import ReplicatedStore.Duration
import ReplicatedStore.Pipeline.EncodingError

/-!
# Failures of store operations

A backend fails with a chain of links, from what it was doing to the root cause. The client labels
such a failure with the backend and the operation, and folds the failures of several backends into
one.

Main statements:

* `StoreError.aggregate_eq_none_iff` — several backends are fine together exactly when none failed.
-/

namespace ReplicatedStore

/-- An operation of the client. -/
inductive Operation
  | put
  | get
  | remove
  /-- whether any backend holds the object -/
  | holds
  deriving DecidableEq, Repr

/-- The name of an operation in error texts. -/
def Operation.label : Operation → String
  | put => "PutObject"
  | get => "GetObject"
  | remove => "RemoveObject"
  | holds => "ExistsObject"

/-- One link in the chain of a failure. -/
inductive Link
  | said (text : String)
  | encoding (error : EncodingError)
  /-- the operating system refused; the text is its own -/
  | system (text : String)
  /-- an exchange with an HTTP peer broke off -/
  | exchange
  /-- a settings text is not well formed -/
  | document
  deriving DecidableEq, Repr

def Link.message : Link → String
  | said text => text
  | encoding error => error.message
  | system text => text
  | exchange => "HTTP exchange failed"
  | document => "malformed YAML document"

/-- A failure of a backend or of loading settings: its links, outermost first. -/
structure Failure where
  links : List Link
  deriving DecidableEq, Repr

namespace Failure

/-- A failure with a text and nothing behind it. -/
def said (text : String) : Failure := ⟨[.said text]⟩

/-- A failure with what was being done put in front. -/
def within (text : String) (f : Failure) : Failure := ⟨.said text :: f.links⟩

/-- A refusal of the operating system while something was done. -/
def refused (text : String) (reason : String) : Failure := ⟨[.said text, .system reason]⟩

def encoding (error : EncodingError) : Failure := ⟨[.encoding error]⟩

def texts (f : Failure) : List String := f.links.map Link.message

/-- The whole chain in one text. -/
def message (f : Failure) : String := ": ".intercalate f.texts

/-- The text of the outermost link. -/
def headline (f : Failure) : String := f.texts.headD ""

end Failure

/-- Why an operation of the client failed. -/
inductive StoreError
  | noMainBackend (operation : Operation)
  | noBackends
  | missingEncryptionKey (owner : String)
  | invalidConfig (reason : Failure)
  | backend (name : String) (operation : Operation) (failure : Failure)
  | allFailed (operation : Operation) (total : Nat) (errors : List StoreError)
  | partialFailure (operation : Operation) (failed total : Nat) (errors : List StoreError)
  /-- every backend that was read from failed -/
  | allReadsFailed (errors : List StoreError)
  /-- the task that ran a backend's call came to an abnormal end -/
  | worker (operation : Operation) (reason : String)
  | timeout (operation : Operation) (after : Duration)
  /-- the payload's stream broke off -/
  | unreadable (reason : Link)
  | encoding (error : EncodingError)
  deriving Repr, Inhabited

namespace StoreError

mutual

def message : StoreError → String
  | noMainBackend operation =>
    s!"no main backend configured for {operation.label} operation"
  | noBackends => "no backends configured"
  | missingEncryptionKey owner =>
    s!"backend '{owner}' requests AES256 encryption but no encryption key is configured"
  | invalidConfig reason => "invalid configuration: " ++ reason.message
  | backend name operation failure =>
    s!"{operation.label} failed on backend '{name}': {failure.message}"
  | allFailed operation total errors =>
    s!"{operation.label} failed on all {total} backends: " ++ "; ".intercalate (messages errors)
  | partialFailure operation failed total errors =>
    s!"{operation.label} partially failed on {failed}/{total} backends: " ++
      "; ".intercalate (messages errors)
  | allReadsFailed errors =>
    "all clients failed to get the object: " ++ "; ".intercalate (messages errors)
  | worker operation reason => s!"{operation.label} worker terminated abnormally: {reason}"
  | timeout operation after => s!"{operation.label} timed out after {after.text}"
  | unreadable reason => "failed to read input stream: " ++ reason.message
  | encoding error => error.message

def messages : List StoreError → List String
  | [] => []
  | e :: rest => message e :: messages rest

end

/-- The texts of what lies behind a failure, one behind the other. -/
def causes : StoreError → List String
  | backend _ _ failure => failure.texts
  | unreadable reason => [reason.message]
  | encoding error => error.cause?.toList
  | _ => []

/-- The failures of several backends of `total` as one; none if there are no failures. A single
backend reports its own failure. -/
def aggregate (operation : Operation) (total : Nat) (errors : List StoreError) : Option StoreError :=
  match errors, total with
  | [], _ => none
  | [e], 1 => some e
  | errors, total =>
    some (if total ≤ errors.length then allFailed operation total errors
      else partialFailure operation errors.length total errors)

/-- Whether some backends failed, but not all. -/
def isPartial : StoreError → Bool
  | partialFailure .. => true
  | _ => false

/-- Whether the failure arose before any backend was reached. -/
def isConfiguration : StoreError → Bool
  | noMainBackend _ | noBackends | missingEncryptionKey _ | invalidConfig _ => true
  | _ => false

theorem aggregate_eq_none_iff (operation : Operation) (total : Nat) (errors : List StoreError) :
    aggregate operation total errors = none ↔ errors = [] := by
  unfold aggregate
  split
  · simp
  · simp
  · rename_i hNil _
    simpa using hNil

end StoreError

end ReplicatedStore
