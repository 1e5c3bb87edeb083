import ReplicatedStore.Cache.Watched
import ReplicatedStore.Session.FanOut
import ReplicatedStore.Session.Walk

/-!
# Sessions

A session is a client of several backends: it writes to all mains, reads through a cache, and bounds
each operation by a deadline if it is told to. Its state is the world of its backends, the cache, the
clock, and all that is under way: operations that callers wait for, and fan-outs, some of which nobody
waits for. `Session.submit` starts an operation, which runs up to where it has to wait.

In synchronous replication a write fans out to all mains. In asynchronous replication it is placed in
the first main that takes it, and then fans out to the others in the background.
-/

namespace ReplicatedStore

/-- How writes reach the mains. -/
inductive Replication
  | sync
  | async
  deriving DecidableEq, Repr, Inhabited

namespace Replication

def word : Replication → String
  | sync => "sync"
  | async => "async"

def choices : List (String × Replication) := [("sync", sync), ("async", async)]

end Replication

/-- What a caller asks of a session. -/
inductive Order
  | request (r : Request)
  /-- wait for the background writes launched so far -/
  | wait
  /-- wait for them, then stop the validation of the cache -/
  | shutdown
  deriving DecidableEq, Repr

/-- How an order ends. -/
inductive Ended
  | returned (result : Except StoreError Answer)
  | crashed (reason : String)
  deriving Repr

/-- What an order that is under way waits for. -/
inductive Activity
  | walking (walk : Walk) (due : Duration) (held : Held)
  /-- the fan-out with this number -/
  | joining (fan : Nat)
  /-- the fan-outs with these numbers -/
  | draining (fans : List Nat)
  deriving Repr

/-- An order under way. -/
structure Running where
  ticket : Nat
  order : Order
  deadline : Option Duration := none
  activity : Activity
  deriving Repr

/-- A client of several backends, with all that is under way. -/
structure Session where
  world : World := {}
  replication : Replication := .sync
  timeout : Option Duration := none
  readOrder : ReadOrder := {}
  watched : WatchedCache := {}
  /-- which entries each validation pass picks -/
  picks : Picks := .first
  now : Duration := .zero
  /-- all fan-outs that were started, by their numbers -/
  fans : List FanOut := []
  /-- the numbers of the background writes that nobody has waited for yet -/
  launched : List Nat := []
  running : List Running := []
  /-- how many orders were submitted -/
  tickets : Nat := 0
  ended : List (Nat × Ended) := []

namespace Session

/-- A session over the backends of a world. -/
def ofWorld (world : World) (replication : Replication) (strategy : Balancing) : Session :=
  { world, replication, readOrder := { strategy, groups := world.readGroups } }

/-- Whether the fan-out with a number has nothing left to do. -/
def isFinished (s : Session) (fan : Nat) : Bool := (s.fans[fan]?).all (·.isFinished)

/-- How many background writes are still under way, of those that nobody has waited for yet. -/
def pendingReplications (s : Session) : Nat := s.launched.countP fun fan => !s.isFinished fan

/-- How an order ended, if it did. -/
def ended? (s : Session) (ticket : Nat) : Option Ended := s.ended.lookup ticket

/-- The order with a ticket, if it is under way. -/
def running? (s : Session) (ticket : Nat) : Option Running :=
  s.running.find? (·.ticket == ticket)

/-- An order ends. -/
def finish (s : Session) (ticket : Nat) (e : Ended) : Session :=
  { s with
    running := s.running.filter (·.ticket != ticket)
    ended := (ticket, e) :: s.ended }

/-- An order ends with a result. -/
def return_ (s : Session) (ticket : Nat) (result : Except StoreError Answer) : Session :=
  s.finish ticket (.returned result)

/-- An order waits for something from now on. -/
def suspend (s : Session) (r : Running) : Session :=
  { s with running := s.running.filter (·.ticket != r.ticket) ++ [r] }

/-- When an order that starts now has to be finished. -/
def deadline (s : Session) : Option Duration := s.timeout.map (s.now + ·)

/-- The cache forgets an object if a result tells that a backend changed. -/
def settle (s : Session) (a : Address) (result : Except StoreError Answer) : Session :=
  match result with
  | .ok _ => { s with watched := s.watched.invalidate a.key }
  | .error e => if e.isPartial then { s with watched := s.watched.invalidate a.key } else s

/-- A fan-out is started, with the next number. -/
def fanOut (s : Session) (f : FanOut) : Session := { s with fans := s.fans ++ [f] }

/-- A request goes to backends in the background. Background writes that are finished are forgotten. -/
def replicate (s : Session) (r : Request) (backends : List Nat) : Session :=
  if backends.isEmpty then s
  else
    { s.fanOut (.ofBackends r backends true) with
      launched := s.launched.filter (fun fan => !s.isFinished fan) ++ [s.fans.length] }

/-- An order whose walk ended ends. -/
def endWalk (s : Session) (ticket : Nat) (r : Request) (e : WalkEnd) : Session :=
  match e with
  | .crashed reason => s.finish ticket (.crashed reason)
  | .lost error =>
    let s := match r with
      | .put a _ => s.settle a (.error error)
      | _ => s
    s.return_ ticket (.error error)
  | .found passed answer =>
    match r, answer with
    | .get a, .content data =>
      { s with watched := s.watched.store s.now a.key data }.return_ ticket (.ok answer)
    | .put a _, answer =>
      -- the main that took the payload is left out of the background writes
      ((s.replicate r (s.world.mains.eraseIdx passed)).settle a (.ok answer)).return_ ticket
        (.ok answer)
    | _, answer => s.return_ ticket (.ok answer)

/-- A walk was set going for an order. -/
def followWalk (s : Session) (ticket : Nat) (r : Request) (deadline : Option Duration) :
    World × WalkState → Session
  | (world, .over e) => { s with world }.endWalk ticket r e
  | (world, .suspended walk delay held) =>
    { s with world }.suspend
      { ticket, order := .request r, deadline, activity := .walking walk (s.now + delay) held }

/-- A walk starts for an order. -/
def startWalk (s : Session) (ticket : Nat) (r : Request) (walk : Walk) : Session :=
  s.followWalk ticket r s.deadline (walk.go s.world)

/-- An order whose fan-out is finished ends. -/
def endFan (s : Session) (ticket : Nat) (r : Request) (f : FanOut) : Session :=
  let result : Except StoreError Answer :=
    match f.verdict with
    | none => .ok .done
    | some e => .error e
  (s.settle r.address result).return_ ticket result

/-- A fan-out over the mains starts for an order. -/
def startFan (s : Session) (ticket : Nat) (r : Request) : Session :=
  (s.fanOut (.ofBackends r s.world.mains false)).suspend
    { ticket, order := .request r, deadline := s.deadline, activity := .joining s.fans.length }

def lookup (s : Session) (a : Address) : Option Bytes × Session :=
  let (found, watched) := s.watched.lookup s.now a.key
  (found, { s with watched })

/-- A request starts under a ticket. -/
def startRequest (s : Session) (ticket : Nat) (r : Request) : Session :=
  match r with
  | .get a =>
    match s.lookup a with
    | (some data, s) => s.return_ ticket (.ok (.content data))
    | (none, s) =>
      if s.world.backends.isEmpty then s.return_ ticket (.error .noBackends)
      else
        -- only a read that turns to backends moves their order on
        let (backends, readOrder) := s.readOrder.claim
        { s with readOrder }.startWalk ticket r (.ofOrder .fetch a backends)
  | .holds a =>
    match s.lookup a with
    | (some _, s) => s.return_ ticket (.ok (.presence true))
    | (none, s) =>
      if s.world.backends.isEmpty then s.return_ ticket (.error .noBackends)
      -- a check goes through the groups as they stand and leaves the turns alone
      else s.startWalk ticket r (.ofOrder .probe a s.world.readGroups.flatten)
  | .put a data =>
    if s.world.mains.isEmpty then s.return_ ticket (.error (.noMainBackend .put))
    else
      match s.replication with
      | .sync => s.startFan ticket r
      | .async => s.startWalk ticket r (.ofOrder (.place data) a s.world.mains)
  | .remove _ =>
    if s.world.mains.isEmpty then s.return_ ticket (.error (.noMainBackend .remove))
    else s.startFan ticket r

/-- An order that waited for background writes ends. -/
def endDrain (s : Session) (ticket : Nat) (order : Order) : Session :=
  let s := match order with
    | .shutdown => { s with watched := s.watched.stop }
    | _ => s
  s.return_ ticket (.ok .done)

/-- The background writes launched so far are waited for, and forgotten. -/
def startDrain (s : Session) (ticket : Nat) (order : Order) : Session :=
  -- they are forgotten at once, so that nobody else waits for them
  let fans := s.launched
  let s := { s with launched := [] }
  if fans.all s.isFinished then s.endDrain ticket order
  else s.suspend { ticket, order, activity := .draining fans }

/-- A caller asks something; the order starts under the next ticket. -/
def submit (s : Session) (order : Order) : Session :=
  let ticket := s.tickets
  let s := { s with tickets := ticket + 1 }
  match order with
  | .request r => s.startRequest ticket r
  | .wait | .shutdown => s.startDrain ticket order

/-- A caller asks to write what a stream gives. The stream is read first, unless there is no main. -/
def submitStream (s : Session) (a : Address) (input : Stream) (failure : String → Link) : Session :=
  let refuse (e : StoreError) : Session :=
    { s with tickets := s.tickets + 1 }.return_ s.tickets (.error e)
  -- without a main the stream is not even read
  if s.world.mains.isEmpty then refuse (.noMainBackend .put)
  else
    match input.readAll with
    | .error reason => refuse (.unreadable (failure reason))
    | .ok data => s.submit (.request (.put a data))

end Session

end ReplicatedStore
