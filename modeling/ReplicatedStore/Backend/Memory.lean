import ReplicatedStore.Backend.Objects
import ReplicatedStore.Backend.Request
import ReplicatedStore.Pipeline.Codec

/-!
# Backends in memory

Objects are kept in encoded form in containers, which have to exist before something is put into
them. A read copies the stored octets first and decodes the copy later; a write stores what was
encoded before. With empty chains a call is over at once.

Main statements:

* `Memory.place_eq` and `Memory.drop_eq` — when a content is stored and when an object is dropped.
-/

namespace ReplicatedStore

/-- Containers and the encoded objects in them. -/
structure Memory where
  containers : List String := []
  objects : Objects := {}
  deriving DecidableEq, Repr

namespace Memory

/-- The failure of a call into a container that does not exist. -/
def noContainer (a : Address) : Failure := .said s!"container '{a.container}' does not exist"

/-- The failure of a call that needs an object that is not there. -/
def notFound (a : Address) : Failure := .said s!"object '{a.container}/{a.name}' not found"

def hasContainer (m : Memory) (container : String) : Bool := m.containers.contains container

/-- The memory with one more container, if it did not exist. -/
def createContainer (m : Memory) (container : String) : Memory :=
  if m.hasContainer container then m else { m with containers := m.containers ++ [container] }

/-- A memory with containers and nothing in them. -/
def ofContainers (containers : List String) : Memory :=
  containers.foldl createContainer {}

def place (m : Memory) (a : Address) (content : Bytes) : Memory × Outcome :=
  if m.hasContainer a.container then
    ({ m with objects := m.objects.insert a content }, .answered .done)
  else (m, .failed (noContainer a))

def drop (m : Memory) (a : Address) : Memory × Outcome :=
  if m.hasContainer a.container then
    match m.objects.get? a with
    | some _ => ({ m with objects := m.objects.erase a }, .answered .done)
    | none => (m, .failed (notFound a))
  else (m, .failed (noContainer a))

def decoded (codec : Codec) (content : Bytes) : Outcome :=
  match (codec.read.decode content).result with
  | .ok data => .answered (.content data)
  | .error e => .failed (.encoding e)

def begin (codec : Codec) (nonces : Nat → Nonce) (m : Memory) : Request → Memory × Begun
  | .put a data =>
    match (codec.write.encode nonces data).result with
    | .error e => (m, .over (.failed (.encoding e)))
    | .ok content =>
      -- nothing was awaited, so the container is looked at in the same moment
      if codec.write.isEmpty then
        let (m, o) := m.place a content
        (m, .over o)
      else (m, .waiting .zero (.encoded a content))
  | .get a =>
    -- a container that does not exist has no objects either
    match m.objects.get? a with
    | none => (m, .over (.failed (notFound a)))
    | some content =>
      if codec.read.isEmpty then (m, .over (decoded codec content))
      else (m, .waiting .zero (.stored content))
  | .remove a =>
    let (m, o) := m.drop a
    (m, .over o)
  | .holds a => (m, .over (.answered (.presence (m.objects.get? a).isSome)))

/-- A call that has begun is finished. -/
def finish (codec : Codec) (m : Memory) : Held → Memory × Outcome
  | .encoded a content => m.place a content
  | .stored content => (m, decoded codec content)
  | .request r | .numbered r _ => (m, .failed (notFound r.address))

theorem place_eq (m : Memory) (a : Address) (content : Bytes) (h : a.container ∈ m.containers) :
    m.place a content = ({ m with objects := m.objects.insert a content }, .answered .done) := by
  simp [place, hasContainer, h]

theorem drop_eq (m : Memory) (a : Address) (content : Bytes) (h : a.container ∈ m.containers)
    (hObject : m.objects.get? a = some content) :
    m.drop a = ({ m with objects := m.objects.erase a }, .answered .done) := by
  simp [drop, hasContainer, h, hObject]

end Memory

end ReplicatedStore
