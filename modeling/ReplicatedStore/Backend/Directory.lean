import ReplicatedStore.Backend.Request
import ReplicatedStore.Disk.Basic
import ReplicatedStore.Pipeline.Codec

/-!
# Backends in a directory

Each container is a directory below the base, and each object a file below its container; a name may
lead through further directories. Container and name have to be plain paths, which lead downwards
only.

Main statements:

* `Directory.objectPath_eq_ok_iff` — an object has a path exactly when container and name are
  plain.
-/

namespace ReplicatedStore

/-- A backend in a directory. -/
structure Directory where
  base : String
  /-- whether a write makes a container that is missing -/
  createContainers : Bool := false
  deriving DecidableEq, Repr

namespace Directory

/-- The failure of a path that is not plain. -/
def invalidPath (name : String) : Failure := .said s!"invalid object path '{name}'"

/-- The failure of a write into a container that does not exist. -/
def noContainer (container : String) : Failure := .said s!"container '{container}' does not exist"

/-- The failure of an action that the disk refuses. -/
def refused (doing : String) (r : Refusal) : Failure := .refused doing r.message

/-- The failure of a write that was under way. -/
def spoilt (m : Mishap) : Failure :=
  refused (if m.late then "Failed to flush data" else "Failed to write data") m.refusal

def containerPath (d : Directory) (container : String) : Except Failure String :=
  if Path.isPlain container then .ok (Path.join d.base container)
  else .error (invalidPath container)

def objectPath (d : Directory) (a : Address) : Except Failure String :=
  match d.containerPath a.container with
  | .error f => .error f
  | .ok container =>
    if Path.isPlain a.name then .ok (Path.join container a.name) else .error (invalidPath a.name)

/-- Directories are made, or why not. -/
def makeAll (disk : Disk) (doing path : String) : Disk × Option Failure :=
  let (disk, refusal) := disk.makeDirectories path
  (disk, refusal.map (refused doing))

/-- The base directory is made if nothing is there. -/
def prepare (d : Directory) (disk : Disk) : Disk × Option Failure :=
  if disk.isThere d.base then (disk, none)
  else makeAll disk "Failed to create base directory" d.base

/-- A container is made. -/
def createContainer (d : Directory) (disk : Disk) (container : String) : Disk × Option Failure :=
  match d.containerPath container with
  | .error f => (disk, some f)
  | .ok path => makeAll disk s!"Failed to create container: {path}" path

/-- The container of a write is there, or is made. -/
def needContainer (d : Directory) (disk : Disk) (container : String) : Disk × Option Failure :=
  match d.containerPath container with
  | .error f => (disk, some f)
  | .ok path =>
    -- a file in place of a container counts as missing
    if disk.isDirectory path then (disk, none)
    else if d.createContainers then makeAll disk "Failed to create container directory" path
    else (disk, some (noContainer container))

/-- The directory of an object is there, or is made. -/
def needParent (disk : Disk) (path : String) : Disk × Option Failure :=
  match Path.parent? path with
  | none => (disk, none)
  | some parent => makeAll disk "Failed to create object directory" parent

/-- A payload is encoded and written. -/
def put (d : Directory) (codec : Codec) (nonces : Nat → Nonce) (disk : Disk) (a : Address)
    (data : Bytes) : Disk × Outcome :=
  match d.needContainer disk a.container with
  | (disk, some f) => (disk, .failed f)
  | (disk, none) =>
    match d.objectPath a with
    | .error f => (disk, .failed f)
    | .ok path =>
      -- directories are made before the payload is encoded, and stay if that fails
      match needParent disk path with
      | (disk, some f) => (disk, .failed f)
      | (disk, none) =>
        match (codec.write.encode nonces data).result with
        | .error e => (disk, .failed (.encoding e))
        | .ok content =>
          match disk.write path content with
          | .error r => (disk, .failed (refused s!"Failed to create file: {path}" r))
          -- what is in the file by then stays
          | .ok (disk, some m) => (disk, .failed (spoilt m))
          | .ok (disk, none) => (disk, .answered .done)

/-- A file is read and decoded. -/
def get (d : Directory) (codec : Codec) (disk : Disk) (a : Address) : Outcome :=
  match d.objectPath a with
  | .error f => .failed f
  | .ok path =>
    match disk.read path with
    | .error r => .failed (refused s!"Failed to read file: {path}" r)
    | .ok content =>
      match (codec.read.decode content).result with
      | .ok data => .answered (.content data)
      | .error e => .failed (.encoding e)

def remove (d : Directory) (disk : Disk) (a : Address) : Disk × Outcome :=
  match d.objectPath a with
  | .error f => (disk, .failed f)
  | .ok path =>
    match disk.remove path with
    | .error r => (disk, .failed (refused s!"Failed to remove file: {path}" r))
    | .ok disk => (disk, .answered .done)

def holds (d : Directory) (disk : Disk) (a : Address) : Outcome :=
  match d.objectPath a with
  | .error f => .failed f
  | .ok path =>
    match disk.stat path with
    | .ok node => .answered (.presence (!node.isDirectory))
    -- only an absence is an answer; any other refusal is a failure
    | .error .missing => .answered (.presence false)
    | .error r => .failed (refused "Failed to stat object" r)

/-- A whole call. -/
def call (d : Directory) (codec : Codec) (nonces : Nat → Nonce) (disk : Disk) :
    Request → Disk × Outcome
  | .put a data => d.put codec nonces disk a data
  | .get a => (disk, d.get codec disk a)
  | .remove a => d.remove disk a
  | .holds a => (disk, d.holds disk a)

/-- Why a call fails before it turns to the disk. -/
def objection? (d : Directory) (disk : Disk) : Request → Option Failure
  | .put a _ =>
    match d.containerPath a.container with
    | .error f => some f
    | .ok path =>
      if disk.isDirectory path then
        match d.objectPath a with
        | .error f => some f
        | .ok _ => none
      else if d.createContainers then none
      else some (noContainer a.container)
  | r =>
    match d.objectPath r.address with
    | .error f => some f
    | .ok _ => none

/-- A call begins; all that concerns files is done when it is finished. -/
def begin (d : Directory) (disk : Disk) (r : Request) : Begun :=
  match d.objection? disk r with
  | some f => .over (.failed f)
  | none => .waiting .zero (.request r)

/-- The name of the file that a check writes and removes. -/
def checkName : String := ".health_check_test"

/-- Whether files can be written and removed below the base. -/
def check (d : Directory) (disk : Disk) : Disk × Bool :=
  let path := Path.join d.base checkName
  if disk.isDirectory d.base then
    match disk.write path (Bytes.ofText "test") with
    | .error _ => (disk, false)
    | .ok (disk, mishap) =>
      -- nothing is flushed, so what shows only then is not noticed
      if mishap.any fun m => !m.late then (disk, false)
      else
        match disk.remove path with
        -- a file that was written but cannot be removed is well enough
        | .error _ => (disk, true)
        | .ok disk => (disk, true)
  else (disk, false)

theorem objectPath_eq_ok_iff (d : Directory) (a : Address) :
    (∃ path, d.objectPath a = .ok path) ↔
      Path.isPlain a.container = true ∧ Path.isPlain a.name = true := by
  unfold objectPath containerPath
  by_cases hContainer : Path.isPlain a.container = true
  · by_cases hName : Path.isPlain a.name = true <;> simp [hContainer, hName]
  · simp [hContainer]

end Directory

end ReplicatedStore
