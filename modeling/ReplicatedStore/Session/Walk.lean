import ReplicatedStore.Session.ReadOrder

/-!
# Walks

A walk asks backends one after the other until one of them decides. It fetches a content from the
first backend that gives it, probes for the first that holds an object, or places a payload in the
first that takes it. Failures on the way are noted in order.

Main statements:

* `Walk.goFrom_nil` — a walk with nobody left to ask is decided by the failures noted.
-/

namespace ReplicatedStore

/-- What a walk is for. -/
inductive Search
  | fetch
  | probe
  | place (data : Bytes)
  deriving DecidableEq, Repr

/-- A walk under way. -/
structure Walk where
  search : Search
  address : Address
  /-- how many backends the walk is over -/
  total : Nat
  /-- how many of them it has behind it -/
  passed : Nat := 0
  /-- what went wrong at those, in order -/
  errors : List StoreError := []
  /-- those ahead, by their positions -/
  todo : List Nat
  deriving Repr

/-- How a walk ends. -/
inductive WalkEnd
  /-- an answer, and how many backends were passed before the one that gave it -/
  | found (passed : Nat) (a : Answer)
  | lost (e : StoreError)
  | crashed (reason : String)
  deriving Repr

/-- What becomes of a walk when it is set going. -/
inductive WalkState
  | over (e : WalkEnd)
  /-- the first backend ahead has begun a call that is to be finished after a delay -/
  | suspended (walk : Walk) (delay : Duration) (held : Held)
  deriving Repr

namespace Walk

/-- A walk that is about to start. -/
def ofOrder (search : Search) (address : Address) (todo : List Nat) : Walk :=
  { search, address, total := todo.length, todo }

def request (w : Walk) : Request :=
  match w.search with
  | .fetch => .get w.address
  | .probe => .holds w.address
  | .place data => .put w.address data

/-- The end of a walk on which nobody decided. -/
def exhausted (w : Walk) : WalkEnd :=
  match w.search with
  | .fetch => .lost (if w.errors.isEmpty then .noBackends else .allReadsFailed w.errors)
  | .probe =>
    -- one backend that answered outweighs those that failed
    if w.errors.length < w.total then .found w.passed (.presence false)
    else
      match StoreError.aggregate .holds w.total w.errors with
      | some e => .lost e
      | none => .found w.passed (.presence false)
  | .place _ =>
    match StoreError.aggregate .put w.total w.errors with
    | some e => .lost e
    | none => .lost (.noMainBackend .put)

/-- The walk with one more backend behind it, and its failure noted if there was one. -/
def pass (w : Walk) (error : Option StoreError) : Walk :=
  { w with passed := w.passed + 1, errors := w.errors ++ error.toList }

/-- What an outcome at a backend means: the walk ends, or goes on. -/
def weigh (w : Walk) (name : String) : Outcome → WalkEnd ⊕ Walk
  | .crashed reason => .inl (.crashed reason)
  | .failed f => .inr (w.pass (some (.backend name w.request.operation f)))
  -- a backend without the object decides nothing
  | .answered (.presence false) => .inr (w.pass none)
  | .answered a => .inl (.found w.passed a)

/-- The walk goes on over backends ahead as long as their calls are over at once. -/
def goFrom (world : World) (w : Walk) : List Nat → World × WalkState
  | [] => (world, .over w.exhausted)
  | b :: rest =>
    match world.begin b w.request with
    | (world, .waiting delay held) => (world, .suspended { w with todo := b :: rest } delay held)
    | (world, .over o) =>
      match w.weigh (world.nameOf b) o with
      | .inl e => (world, .over e)
      | .inr w => goFrom world w rest

def go (world : World) (w : Walk) : World × WalkState := goFrom world w w.todo

/-- The call of the first backend ahead is finished, and the walk goes on. -/
def resume (world : World) (w : Walk) (held : Held) : World × WalkState :=
  match w.todo with
  | [] => (world, .over w.exhausted)
  | b :: rest =>
    let (world, o) := world.finish b held
    match w.weigh (world.nameOf b) o with
    | .inl e => (world, .over e)
    | .inr w => goFrom world w rest

theorem goFrom_nil (world : World) (w : Walk) : goFrom world w [] = (world, .over w.exhausted) := rfl

end Walk

end ReplicatedStore
