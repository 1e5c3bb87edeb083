import ReplicatedStore.Backend.Properties

/-!
# Settings of a backend

What a configuration says about one backend: its name, its properties, and where it keeps objects.
-/

namespace ReplicatedStore

/-- Where a backend is to keep its objects. -/
inductive StorageSettings
  | memory (containers : List String)
  | filesystem (base : String) (createContainers : Bool)
  | http (url : String) (token : Option String) (timeoutSeconds : Nat)
  deriving DecidableEq, Repr

namespace StorageSettings

/-- The word for a kind of storage. -/
def word : StorageSettings → String
  | memory _ => "memory"
  | filesystem .. => "filesystem"
  | http .. => "http"

/-- The settings as fields, their kind first. -/
def fields : StorageSettings → List (String × Document)
  | memory containers =>
    [("type", .text "memory"), ("containers", .list (containers.map .text))]
  | filesystem base createContainers =>
    [("type", .text "filesystem"), ("base_path", .text base),
      ("create_containers", .flag createContainers)]
  | http url token timeoutSeconds =>
    [("type", .text "http"), ("url", .text url),
      ("api_token", match token with
        | some t => .text t
        | none => .nothing),
      ("timeout_seconds", .whole timeoutSeconds)]

end StorageSettings

/-- The settings of one backend. -/
structure BackendSettings where
  name : String
  properties : Properties := {}
  kind : StorageSettings
  deriving DecidableEq, Repr

/-- The settings as written out, without the key. -/
def BackendSettings.document (s : BackendSettings) : Document :=
  .record ([("name", .text s.name), ("properties", s.properties.document)] ++ s.kind.fields)

end ReplicatedStore
