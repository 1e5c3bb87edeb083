import ReplicatedStore.Session.Basic

/-!
# Events

What may happen next in a session: a walk's call is due, a deadline has passed, a queued branch
begins, a running branch is due, or an order finds what it waited for finished. `Session.step?` says
what each event leads to, and whether it may happen at all. Which of several events comes first is
left open here.

Main statements:

* `Session.now_step` — events happen without the clock moving.
-/

namespace ReplicatedStore

/-- What may happen next. -/
inductive Event
  /-- the call that an order's walk waits for is finished -/
  | resume (ticket : Nat)
  /-- the deadline of an order has passed -/
  | expire (ticket : Nat)
  /-- a queued branch of a fan-out begins -/
  | start (fan branch : Nat)
  /-- a running branch of a fan-out is finished -/
  | complete (fan branch : Nat)
  /-- an order finds the fan-outs finished that it waits for -/
  | join (ticket : Nat)
  deriving DecidableEq, Repr

namespace Session

/-- The session with a fan-out changed. -/
def modifyFan (s : Session) (fan : Nat) (change : FanOut → FanOut) : Session :=
  { s with fans := s.fans.modify fan change }

/-- What an order's walk comes to when its call is finished. -/
def resume? (s : Session) (ticket : Nat) : Option Session := do
  let r ← s.running? ticket
  match r.order, r.activity with
  | .request request, .walking walk due held =>
    if due ≤ s.now then
      some (s.followWalk ticket request r.deadline (walk.resume s.world held))
    else none
  | _, _ => none

/-- What an order comes to when its deadline has passed: its calls are dropped. -/
def expire? (s : Session) (ticket : Nat) : Option Session := do
  let r ← s.running? ticket
  let deadline ← r.deadline
  match r.order, s.timeout with
  | .request request, some after =>
    if deadline ≤ s.now then
      -- a fan-out is given up with its order, and so is the call that a walk waits for
      let s := match r.activity with
        | .joining fan => s.modifyFan fan (·.cancel)
        | _ => s
      some (s.return_ ticket (.error (.timeout request.operation after)))
    else none
  | _, _ => none

/-- A queued branch begins. -/
def start? (s : Session) (fan branch : Nat) : Option Session := do
  let f ← s.fans[fan]?
  let b ← f.branches[branch]?
  match b.state with
  | .queued =>
    match s.world.begin b.backend f.request with
    | (world, .waiting delay held) =>
      some ({ s with world }.modifyFan fan (·.setState branch (.running (s.now + delay) held)))
    | (world, .over o) =>
      some ({ s with world }.modifyFan fan (·.complete branch (world.nameOf b.backend) o))
  | _ => none

/-- A running branch that is due is finished. -/
def complete? (s : Session) (fan branch : Nat) : Option Session := do
  let f ← s.fans[fan]?
  let b ← f.branches[branch]?
  match b.state with
  | .running due held =>
    if due ≤ s.now then
      let (world, o) := s.world.finish b.backend held
      some ({ s with world }.modifyFan fan (·.complete branch (world.nameOf b.backend) o))
    else none
  | _ => none

/-- An order ends because the fan-outs that it waits for are finished. -/
def join? (s : Session) (ticket : Nat) : Option Session := do
  let r ← s.running? ticket
  match r.order, r.activity with
  | .request request, .joining fan => do
    let f ← s.fans[fan]?
    if f.isFinished then some (s.endFan ticket request f) else none
  -- waiting for background writes tells nothing of how they went
  | order, .draining fans => if fans.all s.isFinished then some (s.endDrain ticket order) else none
  | _, _ => none

/-- What an event leads to, if it may happen. -/
def step? (s : Session) : Event → Option Session
  | .resume ticket => s.resume? ticket
  | .expire ticket => s.expire? ticket
  | .start fan branch => s.start? fan branch
  | .complete fan branch => s.complete? fan branch
  | .join ticket => s.join? ticket

/-- The clock moves on to a time, with all passes of validation that are due by then. -/
def tick (s : Session) (time : Duration) : Session :=
  if time ≤ s.now then s
  else { s with now := time, watched := s.watched.passesUntil s.picks time }

/-! ## The clock stands still -/

theorem now_settle (s : Session) (a : Address) (result : Except StoreError Answer) :
    (s.settle a result).now = s.now := by
  unfold settle
  split
  · rfl
  · split <;> rfl

theorem now_replicate (s : Session) (r : Request) (backends : List Nat) :
    (s.replicate r backends).now = s.now := by
  unfold replicate
  split <;> rfl

theorem now_endWalk (s : Session) (ticket : Nat) (r : Request) (e : WalkEnd) :
    (s.endWalk ticket r e).now = s.now := by
  unfold endWalk
  split
  · rfl
  · cases r <;> simp [return_, finish, now_settle]
  · split <;> simp [return_, finish, now_settle, now_replicate]

theorem now_followWalk (s : Session) (ticket : Nat) (r : Request) (deadline : Option Duration)
    (state : World × WalkState) : (s.followWalk ticket r deadline state).now = s.now := by
  rcases state with ⟨world, e | ⟨walk, delay, held⟩⟩
  · simp [followWalk, now_endWalk]
  · rfl

theorem now_endFan (s : Session) (ticket : Nat) (r : Request) (f : FanOut) :
    (s.endFan ticket r f).now = s.now := by
  simp [endFan, return_, finish, now_settle]

theorem now_endDrain (s : Session) (ticket : Nat) (order : Order) :
    (s.endDrain ticket order).now = s.now := by
  cases order <;> rfl

theorem now_step {s t : Session} {e : Event} (h : s.step? e = some t) : t.now = s.now := by
  cases e with
  | resume ticket =>
    simp only [step?, resume?, Option.bind_eq_bind, Option.bind_eq_some_iff] at h
    obtain ⟨r, -, h⟩ := h
    split at h
    · split at h
      · cases h
        exact now_followWalk ..
      · contradiction
    · contradiction
  | expire ticket =>
    simp only [step?, expire?, Option.bind_eq_bind, Option.bind_eq_some_iff] at h
    obtain ⟨r, -, deadline, -, h⟩ := h
    split at h
    · split at h
      · cases h
        simp only [return_, finish]
        split <;> rfl
      · contradiction
    · contradiction
  | start fan branch =>
    simp only [step?, start?, Option.bind_eq_bind, Option.bind_eq_some_iff] at h
    obtain ⟨f, -, b, -, h⟩ := h
    split at h
    · split at h <;> (cases h; rfl)
    · contradiction
  | complete fan branch =>
    simp only [step?, complete?, Option.bind_eq_bind, Option.bind_eq_some_iff] at h
    obtain ⟨f, -, b, -, h⟩ := h
    split at h
    · split at h
      · cases h
        rfl
      · contradiction
    · contradiction
  | join ticket =>
    simp only [step?, join?, Option.bind_eq_bind, Option.bind_eq_some_iff] at h
    obtain ⟨r, -, h⟩ := h
    split at h
    · simp only [Option.bind_eq_some_iff] at h
      obtain ⟨f, -, h⟩ := h
      split at h
      · cases h
        exact now_endFan ..
      · contradiction
    · split at h
      · cases h
        exact now_endDrain ..
      · contradiction
    · contradiction

end Session

end ReplicatedStore
