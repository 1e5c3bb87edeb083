import ReplicatedStore.Session.Run
import ReplicatedStore.Settings.Basic

/-!
# Setting up a session

A session is set up from settings: all backends are built, made ready in order, and the cache is
configured. The first failure ends it; what was done to the disk before stays.
-/

namespace ReplicatedStore.Session

/-- The failure of a backend that cannot be made ready. -/
def unready (b : Backend) (f : Failure) : StoreError :=
  .invalidConfig ⟨match f.links with
    | .said text :: rest => .said s!"backend '{b.name}': {text}" :: rest
    | links => .said s!"backend '{b.name}'" :: links⟩

/-- Backends are made ready in order. -/
def prepareAll (w : World) : List Backend → World × Option StoreError
  | [] => (w, none)
  | b :: rest =>
    match w.prepare b with
    | (w, some f) => (w, some (unready b f))
    | (w, none) => prepareAll w rest

/-- The session that settings describe, in a world that has no backends yet. -/
def ofSettings [Gzip.Encoder] (w : World) (s : Settings) : World × Except StoreError Session :=
  match Backend.allOfSettings s.backends with
  | .error e => (w, .error e)
  | .ok backends =>
    let w := { w with backends }
    match prepareAll w backends with
    | (w, some e) => (w, .error e)
    | (w, none) =>
      let session := ofWorld w s.client.replication s.client.balancing
      (w, .ok { session with
        timeout := s.client.timeout
        watched := session.watched.configure session.now s.cache.options })

end ReplicatedStore.Session
