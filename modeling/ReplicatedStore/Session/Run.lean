import ReplicatedStore.Session.Event

/-!
# Runs on a clock

On a clock that moves only when nothing else can happen, the order of events is settled: of all that
may happen the earliest comes first, and at one instant what is finished is joined first, then walks
go on, then deadlines pass, then queued branches begin, then running ones are finished, those due
longest first. `Session.perform` runs an order to its end, `Session.settled` runs all that is ready,
and `Session.advanced` lets time pass.
-/

namespace ReplicatedStore

/-- An event with the time at which it comes, and its rank among those of one instant. -/
structure Scheduled where
  time : Duration
  rank : Nat
  due : Duration
  event : Event
  deriving Repr

/-- Whether an event comes before another; of equals the one named first does. -/
def Scheduled.isBefore (a b : Scheduled) : Bool :=
  if a.time = b.time then
    if a.rank = b.rank then a.due ≤ b.due else a.rank < b.rank
  else a.time ≤ b.time

def Scheduled.first? : List Scheduled → Option Scheduled
  | [] => none
  | e :: rest =>
    match first? rest with
    | none => some e
    | some other => if e.isBefore other then some e else some other

namespace Session

/-- A time that has passed is now. -/
def atLeastNow (s : Session) (time : Duration) : Duration := if time ≤ s.now then s.now else time

/-- The events that concern an order under way. -/
def eventsOfOrder (s : Session) (r : Running) : List Scheduled :=
  -- the ranks at one instant: joins 0, walks 1, deadlines 2; then branches, queued 3 and running 4
  let own := match r.activity with
    | .walking _ due _ => [⟨s.atLeastNow due, 1, due, .resume r.ticket⟩]
    | .joining fan => if s.isFinished fan then [⟨s.now, 0, s.now, .join r.ticket⟩] else []
    | .draining fans =>
      if fans.all s.isFinished then [⟨s.now, 0, s.now, .join r.ticket⟩] else []
  match r.deadline with
  | some deadline => own ++ [⟨s.atLeastNow deadline, 2, deadline, .expire r.ticket⟩]
  | none => own

/-- The event that concerns a branch, if one does. -/
def eventOfBranch? (s : Session) (fan branch : Nat) (b : Branch) : Option Scheduled :=
  match b.state with
  | .queued => some ⟨s.now, 3, s.now, .start fan branch⟩
  | .running due _ => some ⟨s.atLeastNow due, 4, due, .complete fan branch⟩
  | .finished | .dropped => none

/-- The events that concern a fan-out. -/
def eventsOfFan (s : Session) (fan : Nat) (f : FanOut) : List Scheduled :=
  f.branches.zipIdx.filterMap fun (b, i) => s.eventOfBranch? fan i b

def events (s : Session) : List Scheduled :=
  s.running.flatMap s.eventsOfOrder ++
    s.fans.zipIdx.flatMap fun (f, i) => s.eventsOfFan i f

/-- How many events can be to come of a branch. -/
def branchWork (b : Branch) : Nat :=
  match b.state with
  | .queued => 2
  | .running .. => 1
  | .finished | .dropped => 0

/-- How many events can be to come of a fan-out. -/
def fanWork (f : FanOut) : Nat := f.branches.foldr (branchWork · + ·) 0

/-- How many events can be to come of an order, with those of the background writes it may launch. -/
def orderWork (r : Running) : Nat :=
  match r.activity with
  -- an event for each backend ahead, and two for each main that the background may turn to
  | .walking walk _ _ => walk.todo.length + 2 * walk.total + 1
  | .joining _ | .draining _ => 1

/-- A bound on the number of events to come, unless more orders are submitted. -/
def work (s : Session) : Nat :=
  s.running.foldr (orderWork · + ·) 0 + s.fans.foldr (fanWork · + ·) 0

/-- Events happen in their order until a condition holds, as far as they come by a limit. -/
def drive (stop : Session → Bool) (limit : Option Duration) : (fuel : Nat) → Session → Session
  | 0, s => s
  | fuel + 1, s =>
    if stop s then s
    else
      match Scheduled.first? s.events with
      | none => s
      | some e =>
        -- the first event is the earliest, so nothing else comes by the limit either
        if limit.any (· < e.time) then s
        else
          match (s.tick e.time).step? e.event with
          | none => s
          | some s => drive stop limit fuel s

/-- All that is ready happens, without the clock moving. -/
def settled (s : Session) : Session := drive (fun _ => false) (some s.now) s.work s

/-- Time passes, and all happens that comes by its end. -/
def advanced (s : Session) (by_ : Duration) : Session :=
  let time := s.now + by_
  (drive (fun _ => false) (some time) s.work s).tick time

/-- The order submitted last runs to its end. -/
def completed (s : Session) : Session × Option Ended :=
  let ticket := s.tickets - 1
  let s := drive (fun s => (s.ended? ticket).isSome) none s.work s
  (s, s.ended? ticket)

/-- An order is submitted and runs to its end. -/
def perform (s : Session) (order : Order) : Session × Option Ended := (s.submit order).completed

end Session

end ReplicatedStore
