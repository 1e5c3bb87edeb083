import ReplicatedStore.Backend.Directory
import ReplicatedStore.Backend.Memory
import ReplicatedStore.Backend.Remote
import ReplicatedStore.Backend.Script
import ReplicatedStore.Backend.Settings

/-!
# Backends

A backend has a name, properties, and a place where it keeps objects. Backends share a world: a disk,
a server, a supply of nonces that never runs out, and a record of what was asked of scripted ones.

Main statements:

* `World.length_backends_begin` and `World.length_backends_finish` — calls neither add nor remove
  backends.
-/

namespace ReplicatedStore

/-- Where a backend keeps its objects. -/
inductive Storage
  | memory (codec : Codec) (content : Memory)
  | directory (codec : Codec) (place : Directory)
  | gateway (codec : Codec) (peer : Gateway)
  | scripted (script : Script)

/-- The word for a kind of storage. -/
def Storage.kind : Storage → String
  | memory .. => "memory"
  | directory .. => "filesystem"
  | gateway .. => "http"
  | scripted _ => "mock"

/-- A backend. -/
structure Backend where
  name : String
  properties : Properties := {}
  storage : Storage

namespace Backend

variable [Gzip.Encoder]

/-- The codec that properties ask for. -/
def codecFor (name : String) (p : Properties) : Except StoreError Codec :=
  match Codec.ofProperties p with
  | .ok codec => .ok codec
  | .error .missingKey => .error (.missingEncryptionKey name)
  | .error e => .error (.encoding e)

def ofSettings (s : BackendSettings) : Except StoreError Backend :=
  match codecFor s.name s.properties with
  | .error e => .error e
  | .ok codec =>
    match s.kind with
    | .memory containers =>
      .ok ⟨s.name, s.properties, .memory codec (.ofContainers containers)⟩
    | .filesystem base createContainers =>
      .ok ⟨s.name, s.properties, .directory codec { base, createContainers }⟩
    | .http url token _ =>
      match Gateway.ofSettings s.name url token with
      | .ok peer => .ok ⟨s.name, s.properties, .gateway codec peer⟩
      | .error e => .error e

/-- The backends that settings describe, in order; the first that is refused refuses all. -/
def allOfSettings (settings : List BackendSettings) : Except StoreError (List Backend) :=
  settings.mapM ofSettings

end Backend

/-- A call of a scripted backend. -/
structure ScriptedCall where
  backend : String
  request : Request
  deriving DecidableEq, Repr

/-- What backends share, and the backends. -/
structure World where
  backends : List Backend := []
  disk : Disk := {}
  /-- how many nonces were drawn -/
  draws : Nat := 0
  nonceAt : Nat → Nonce := .ofNat
  server : Server := .unreachable
  /-- all that was sent, the last first -/
  sent : List HttpRequest := []
  /-- all calls of scripted backends, the last first -/
  calls : List ScriptedCall := []

namespace World

/-- A supply of nonces that starts at the next one. -/
def supply (w : World) : Nat → Nonce := fun i => w.nonceAt (w.draws + i)

/-- The world after one nonce was drawn for each step of a chain. -/
def drawn (w : World) (c : WriteChain) : World := { w with draws := w.draws + c.steps.length }

/-- The world with a backend's storage changed. -/
def store (w : World) (position : Nat) (b : Backend) (storage : Storage) : World :=
  { w with backends := w.backends.set position { b with storage } }

/-- The failure of a call of a backend that is not there. -/
def nobody : Outcome := .failed (.said "no such backend")

def exchange (w : World) (message : HttpRequest) : World × Exchange :=
  ({ w with sent := message :: w.sent }, w.server.reply w.sent message)

/-- A call of a backend begins. -/
def begin (w : World) (position : Nat) (r : Request) : World × Begun :=
  match w.backends[position]? with
  | none => (w, .over nobody)
  | some b =>
    match b.storage with
    | .memory codec content =>
      let (content, begun) := content.begin codec w.supply r
      ((w.store position b (.memory codec content)).drawn codec.write, begun)
    -- a directory turns to the disk when the call is finished
    | .directory _ place => (w, place.begin w.disk r)
    | .gateway _ _ => (w, .waiting .zero (.request r))
    | .scripted script =>
      let (script, begun) := script.begin r
      ({ w.store position b (.scripted script) with calls := ⟨b.name, r⟩ :: w.calls }, begun)

/-- A call of a backend that has begun is finished. -/
def finish (w : World) (position : Nat) (held : Held) : World × Outcome :=
  match w.backends[position]? with
  | none => (w, nobody)
  | some b =>
    match b.storage, held with
    | .memory codec content, held =>
      let (content, o) := content.finish codec held
      (w.store position b (.memory codec content), o)
    | .directory codec place, .request r =>
      let (disk, o) := place.call codec w.supply w.disk r
      ({ w with disk }.drawn codec.write, o)
    | .gateway codec peer, .request r =>
      -- what cannot be encoded is not sent
      match peer.message codec w.supply r with
      | .error e => (w, .failed (.encoding e))
      | .ok message =>
        let (w, reply) := (w.drawn codec.write).exchange message
        (w, Gateway.outcome codec message reply)
    | .scripted script, .numbered r number =>
      let (script, o) := script.finish r number
      (w.store position b (.scripted script), o)
    | _, _ => (w, nobody)

/-- A whole call of a backend with nothing else between its moments. -/
def call (w : World) (position : Nat) (r : Request) : World × Outcome :=
  match w.begin position r with
  | (w, .over o) => (w, o)
  | (w, .waiting _ held) => w.finish position held

/-- A backend is made ready for use. -/
def prepare (w : World) (b : Backend) : World × Option Failure :=
  match b.storage with
  | .directory _ place =>
    let (disk, failure) := place.prepare w.disk
    ({ w with disk }, failure)
  | _ => (w, none)

/-- Whether a backend is well. -/
def check (w : World) (b : Backend) : World × Bool :=
  match b.storage with
  | .directory _ place =>
    let (disk, well) := place.check w.disk
    ({ w with disk }, well)
  | .gateway _ peer =>
    let (w, reply) := w.exchange peer.checkMessage
    (w, Gateway.isWell reply)
  | _ => (w, true)

/-- A container is created where containers are. -/
def createContainer (w : World) (position : Nat) (container : String) : World × Option Failure :=
  match w.backends[position]? with
  | none => (w, none)
  | some b =>
    match b.storage with
    | .memory codec content =>
      (w.store position b (.memory codec (content.createContainer container)), none)
    | .directory _ place =>
      let (disk, failure) := place.createContainer w.disk container
      ({ w with disk }, failure)
    | _ => (w, none)

@[simp] theorem length_backends_store (w : World) (position : Nat) (b : Backend) (s : Storage) :
    (w.store position b s).backends.length = w.backends.length := by
  simp [store]

@[simp] theorem backends_drawn (w : World) (c : WriteChain) : (w.drawn c).backends = w.backends := rfl

theorem length_backends_begin (w : World) (position : Nat) (r : Request) :
    (w.begin position r).1.backends.length = w.backends.length := by
  unfold begin
  split
  · rfl
  · split <;> simp

theorem length_backends_finish (w : World) (position : Nat) (held : Held) :
    (w.finish position held).1.backends.length = w.backends.length := by
  unfold finish
  split
  · rfl
  · split
    · simp
    · simp
    · split
      · rfl
      · simp [exchange]
    · simp
    · rfl

end World

end ReplicatedStore
