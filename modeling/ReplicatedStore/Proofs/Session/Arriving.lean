import ReplicatedStore.Proofs.Session.Mindful
import ReplicatedStore.Proofs.Session.Taking

/-!
# Writes that arrive

A write arrives at a backend when its call there is answered, be it the call of a branch of a fan-out
or one that a walk makes. What a backend holds at an address is up to what has arrived there: it is what
the last write to arrive has left, and if none has, it is what it was. This holds whatever else goes on
in a session, and in whatever order writes were asked for.

Main results:

* `Session.arrives_of_move?` — what a move does to an object is told by what arrives with it.
* `Session.object_of_run?` — after a run an object is what the last write to arrive has left.
-/

namespace ReplicatedStore

/-- Who has a write made: an order that places it, or a fan-out. -/
inductive Writer
  | order (ticket : Nat)
  | fan (number : Nat)
  deriving DecidableEq, Repr

/-- A write that was answered by a backend. -/
structure Arrival where
  writer : Writer
  backend : Nat
  request : Request
  deriving DecidableEq, Repr

/-- Whether a write has arrived at a backend and an address. -/
def Arrival.IsAt (b : Nat) (a : Address) (x : Arrival) : Prop :=
  x.backend = b ∧ x.request.address = a

instance (b : Nat) (a : Address) : DecidablePred (Arrival.IsAt b a) :=
  fun x => inferInstanceAs (Decidable (x.backend = b ∧ x.request.address = a))

/-- What arrives with an outcome of a call. -/
def Arrival.of? (writer : Writer) (r : Request) (call : Nat × Outcome) : Option Arrival :=
  if call.2.isAnswered = true ∧ r.isWrite = true then some ⟨writer, call.1, r⟩ else none

/-- The calls that a walk makes for an order in one go. -/
structure Going where
  ticket : Nat
  request : Request
  trail : Trail

/-- What arrives with the calls of a walk. -/
def Going.arrivals (g : Going) : List Arrival :=
  g.trail.outcomes.filterMap (Arrival.of? (.order g.ticket) g.request)

namespace Session

/-- The walk of a new order to place a payload. -/
def placement (s : Session) (a : Address) (data : Bytes) : Going :=
  { ticket := s.tickets
    request := .put a data
    trail := (Walk.ofOrder (.place data) a s.world.mains).trailFrom s.world s.world.mains }

/-- What a move lets a walk call for its order: of walks that start, only those that place a payload
are followed here. -/
def going? (s : Session) : Move → Option Going
  | .submit (.request (.put a data)) =>
    if s.replication = .async then some (s.placement a data) else none
  | .submitStream a input _ =>
    match input.readAll with
    | .ok data => if s.replication = .async then some (s.placement a data) else none
    | .error _ => none
  | .event (.resume ticket) => do
    let p ← s.running? ticket
    match p.activity with
    | .walking walk _ held => some ⟨ticket, walk.request, walk.trailAfter s.world held⟩
    | _ => none
  | _ => none

/-- What arrives with an event of a branch. -/
def branchArrival? (s : Session) (fan : Nat) (m : Move) : Option Arrival := do
  let (branch, o) ← s.outcome? fan m
  let f ← s.fans[fan]?
  let b ← f.branches[branch]?
  Arrival.of? (.fan fan) f.request (b.backend, o)

/-- What arrives with a move. -/
def arrivals (s : Session) (m : Move) : List Arrival :=
  match m with
  | .event (.start fan _) | .event (.complete fan _) => (s.branchArrival? fan m).toList
  | _ => (s.going? m).toList.flatMap Going.arrivals

/-- What arrives at a backend and an address in a run, in order. -/
def arrivalsAt (b : Nat) (a : Address) : Session → List Move → List Arrival
  | _, [] => []
  | s, m :: rest =>
    (s.arrivals m).filter (fun x => decide (x.IsAt b a)) ++
      match s.move? m with
      | none => []
      | some t => arrivalsAt b a t rest

/-- What has become of the object of a backend at an address when writes have arrived. -/
structure Arrives (s t : Session) (b : Nat) (a : Address) (arrived : List Arrival) : Prop where
  taken : ∀ x ∈ arrived, x.IsAt b a → t.world.HasTaken b x.request
  quiet : (∀ x ∈ arrived, ¬ x.IsAt b a) → t.world.objectAt? b a = s.world.objectAt? b a

variable {s t : Session} {b : Nat} {a : Address} {m : Move} {r : Request} {writer : Writer}
  {outcomes : List (Nat × Outcome)}

theorem of?_eq_some {p : Nat × Outcome} {x : Arrival} : Arrival.of? writer r p = some x ↔
    p.2.isAnswered = true ∧ r.isWrite = true ∧ x = ⟨writer, p.1, r⟩ := by
  rw [Arrival.of?, Option.ite_none_right_eq_some, Option.some.injEq, and_assoc, eq_comm (b := x)]

theorem isAt_of_lands {p : Nat × Outcome} (h : World.Lands p.1 r p.2 b a) (writer : Writer) :
    ∃ x, Arrival.of? writer r p = some x ∧ x.IsAt b a :=
  ⟨⟨writer, p.1, r⟩, of?_eq_some.mpr ⟨h.1, h.2.1, rfl⟩, h.2.2⟩

theorem lands_of_isAt {p : Nat × Outcome} {x : Arrival} (hOf : Arrival.of? writer r p = some x)
    (hAt : x.IsAt b a) : World.Lands p.1 r p.2 b a ∧ x.request = r := by
  obtain ⟨hAnswered, hWrite, rfl⟩ := of?_eq_some.mp hOf
  exact ⟨⟨hAnswered, hWrite, hAt⟩, rfl⟩

theorem arrivals_of_concernsFan {fan : Nat} (hFan : ConcernsFan fan m) :
    s.arrivals m = (s.branchArrival? fan m).toList := by
  cases hFan <;> rfl

/-- A write arrives with a branch of a fan-out, or with the walk of an order. -/
theorem mem_arrivals_cases {x : Arrival} (hx : x ∈ s.arrivals m) :
    (∃ fan, ConcernsFan fan m ∧ s.branchArrival? fan m = some x ∧ x.writer = .fan fan) ∨
      ∃ g, s.going? m = some g ∧ x ∈ g.arrivals ∧ x.writer = .order g.ticket := by
  have hBranch {fan : Nat} (hMem : x ∈ (s.branchArrival? fan m).toList) :
      s.branchArrival? fan m = some x ∧ x.writer = .fan fan := by
    rw [Option.mem_toList] at hMem
    refine ⟨hMem, ?_⟩
    simp only [branchArrival?, Option.bind_eq_bind, Option.bind_eq_some_iff] at hMem
    obtain ⟨p, -, f, -, c, -, hOf⟩ := hMem
    rw [(of?_eq_some.mp hOf).2.2]
  unfold arrivals at hx
  split at hx
  · exact .inl ⟨_, .start _, hBranch hx⟩
  · exact .inl ⟨_, .complete _, hBranch hx⟩
  · obtain ⟨g, hg, hMem⟩ := List.mem_flatMap.mp hx
    obtain ⟨p, -, hOf⟩ := List.mem_filterMap.mp hMem
    refine .inr ⟨g, Option.mem_toList.mp hg, hMem, ?_⟩
    rw [(of?_eq_some.mp hOf).2.2]

/-- What arrives is a write. -/
theorem isWrite_of_mem_arrivals {x : Arrival} (hx : x ∈ s.arrivals m) : x.request.isWrite = true := by
  rcases mem_arrivals_cases hx with ⟨fan, -, hBranch, -⟩ | ⟨g, -, hIn, -⟩
  · simp only [branchArrival?, Option.bind_eq_bind, Option.bind_eq_some_iff] at hBranch
    obtain ⟨p, -, f, -, c, -, hOf⟩ := hBranch
    obtain ⟨-, hWrite, rfl⟩ := of?_eq_some.mp hOf
    exact hWrite
  · obtain ⟨p, -, hOf⟩ := List.mem_filterMap.mp hIn
    obtain ⟨-, hWrite, rfl⟩ := of?_eq_some.mp hOf
    exact hWrite

/-- What arrives is told by the outcomes of calls. -/
theorem arrives_of_receives (h : s.world.Receives b a r outcomes t.world) (writer : Writer) :
    Arrives s t b a (outcomes.filterMap (Arrival.of? writer r)) := by
  constructor
  · intro x hx hAt
    obtain ⟨p, hp, hOf⟩ := List.mem_filterMap.mp hx
    obtain ⟨hLands, hRequest⟩ := lands_of_isAt hOf hAt
    rw [hRequest]
    exact h.taken p hp hLands
  · intro hNone
    refine h.quiet fun p hp hLands => ?_
    obtain ⟨x, hOf, hAt⟩ := isAt_of_lands hLands writer
    exact hNone x (List.mem_filterMap.mpr ⟨p, hp, hOf⟩) hAt

theorem arrives_of_quiet (h : t.world.objectAt? = s.world.objectAt?) (b : Nat) (a : Address) :
    Arrives s t b a [] :=
  ⟨fun x hx => absurd hx List.not_mem_nil, fun _ => by rw [h]⟩

/-! ## What moves do to the world -/

theorem world_replicate (s : Session) (r : Request) (backends : List Nat) :
    (s.replicate r backends).world = s.world := by
  unfold replicate
  split <;> rfl

theorem world_endWalk (s : Session) (ticket : Nat) (r : Request) (e : WalkEnd) :
    (s.endWalk ticket r e).world = s.world := by
  unfold endWalk
  split
  · rfl
  · cases r with
    | put a data => exact world_settle ..
    | get a => rfl
    | remove a => rfl
    | holds a => rfl
  · split
    · rfl
    · exact (world_settle ..).trans (world_replicate ..)
    · rfl

theorem world_followWalk (s : Session) (ticket : Nat) (r : Request) (deadline : Option Duration)
    (state : World × WalkState) : (s.followWalk ticket r deadline state).world = state.1 := by
  rcases state with ⟨v, e | ⟨walk, delay, held⟩⟩
  · exact world_endWalk ..
  · rfl

theorem world_endDrain (s : Session) (ticket : Nat) (order : Order) :
    (s.endDrain ticket order).world = s.world := by
  cases order <;> rfl

theorem world_startDrain (s : Session) (ticket : Nat) (order : Order) :
    (s.startDrain ticket order).world = s.world := by
  unfold startDrain
  simp only
  split
  · exact world_endDrain ..
  · rfl

/-- A walk that asks for a read leaves all objects alone. -/
theorem objectAt?_startWalk (s : Session) (ticket : Nat) {r : Request} {walk : Walk}
    (hRequest : walk.request.isWrite = false) :
    (s.startWalk ticket r walk).world.objectAt? = s.world.objectAt? := by
  rw [startWalk, world_followWalk]
  exact Walk.objectAt?_goFrom walk walk.todo fun p _ => .read hRequest

/-- What arrives when a payload is to be put. -/
theorem arrives_put (hApart : s.world.Apart b a) (c : Address) (data : Bytes) :
    Arrives s (s.submit (.request (.put c data))) b a
      ((s.going? (.submit (.request (.put c data)))).toList.flatMap Going.arrivals) := by
  -- without mains nobody is called, and a fan-out has only been started
  by_cases hMains : s.world.mains = []
  · have hNone : (s.going? (.submit (.request (.put c data)))).toList.flatMap Going.arrivals = [] := by
      simp only [going?, placement, hMains, Walk.trailFrom]
      split <;> rfl
    rw [submit_of_mains_eq_nil rfl hMains, hNone]
    exact arrives_of_quiet (by rfl) b a
  by_cases hFans : s.fansOut (.put c data) = true
  · have hSync : s.replication = .sync := by simpa [fansOut] using hFans
    have hNone : (s.going? (.submit (.request (.put c data)))).toList.flatMap Going.arrivals = [] := by
      simp [going?, hSync]
    rw [submit_of_fansOut hFans hMains, hNone]
    exact arrives_of_quiet (by rfl) b a
  · have hAsync := (s.fansOut_or_placed rfl).resolve_left hFans
    have hGoing : (s.going? (.submit (.request (.put c data)))).toList.flatMap Going.arrivals =
        (s.placement c data).arrivals := by
      simp [going?, hAsync.1]
    rw [submit_of_placed (Bool.eq_false_iff.mpr hFans) hMains, hGoing]
    refine arrives_of_receives ?_ _
    rw [world_followWalk]
    exact Walk.receives_goFrom hApart (.ofOrder (.place data) c s.world.mains) s.world.mains

/-- What any other order does to the world when it is asked for. -/
theorem objectAt?_submit {order : Order} (h : ∀ c data, order ≠ .request (.put c data)) :
    (s.submit order).world.objectAt? = s.world.objectAt? := by
  cases order with
  | wait => exact congrArg World.objectAt? (world_startDrain ..)
  | shutdown => exact congrArg World.objectAt? (world_startDrain ..)
  | request r =>
    cases r with
    | put c data => exact absurd rfl (h c data)
    | remove c =>
      simp only [submit, startRequest]
      split <;> rfl
    | get c =>
      have hLooked : (Session.lookup { s with tickets := s.tickets + 1 } c).2.world = s.world := rfl
      simp only [submit, startRequest]
      split
      · rename_i hFound
        rw [hFound] at hLooked
        exact congrArg World.objectAt? hLooked
      · rename_i hFound
        rw [hFound] at hLooked
        split
        · exact congrArg World.objectAt? hLooked
        · exact (objectAt?_startWalk _ _ rfl).trans (congrArg World.objectAt? hLooked)
    | holds c =>
      have hLooked : (Session.lookup { s with tickets := s.tickets + 1 } c).2.world = s.world := rfl
      simp only [submit, startRequest]
      split
      · rename_i hFound
        rw [hFound] at hLooked
        exact congrArg World.objectAt? hLooked
      · rename_i hFound
        rw [hFound] at hLooked
        split
        · exact congrArg World.objectAt? hLooked
        · exact (objectAt?_startWalk _ _ rfl).trans (congrArg World.objectAt? hLooked)

/-! ## Moves -/

theorem arrivals_eq_nil (hEvent : ∀ e, m ≠ .event e) (hPut : ∀ c data, m ≠ .submit (.request (.put c data)))
    (hStream : ∀ c input failure, m ≠ .submitStream c input failure) : s.arrivals m = [] := by
  cases m with
  | event e => exact absurd rfl (hEvent e)
  | submitStream c input failure => exact absurd rfl (hStream c input failure)
  | submit order =>
    cases order with
    | wait => rfl
    | shutdown => rfl
    | request r =>
      cases r with
      | put c data => exact absurd rfl (hPut c data)
      | get c => rfl
      | remove c => rfl
      | holds c => rfl
  | tick time => rfl
  | cache order => rfl
  | fill key data => rfl

/-- What an event of a branch does to an object. -/
theorem arrives_of_concernsFan (h : s.Mindful) (hApart : s.world.Apart b a) {fan : Nat}
    (hFan : ConcernsFan fan m) (hMove : s.move? m = some t) :
    Arrives s t b a (s.branchArrival? fan m).toList := by
  -- a call comes to its outcome and that is all that arrives, or it waits and nothing does
  have hCall {branch : Nat} {f : FanOut} {c : Branch} {o : Outcome} (hf : s.fans[fan]? = some f)
      (hc : f.branches[branch]? = some c) (hOutcome : s.outcome? fan m = some (branch, o))
      (hComes : s.world.ComesTo c.backend f.request o t.world) :
      Arrives s t b a (s.branchArrival? fan m).toList := by
    have hArrives := arrives_of_receives (World.receives_singleton hApart hComes) (.fan fan)
    have hSame : (s.branchArrival? fan m).toList =
        [(c.backend, o)].filterMap (Arrival.of? (.fan fan) f.request) := by
      simp only [branchArrival?, hOutcome, hf, hc, Option.bind_eq_bind, Option.bind_some]
      cases hOf : Arrival.of? (.fan fan) f.request (c.backend, o) <;> simp [hOf]
    rw [hSame]
    exact hArrives
  cases hFan with
  | start branch =>
    obtain ⟨f, c, hf, hc, hQueued, hCase⟩ := start?_eq_some hMove
    rcases hCase with ⟨v, delay, held, hBegin, rfl⟩ | ⟨v, o, hBegin, rfl⟩
    · have hNone : s.outcome? fan (.event (.start fan branch)) = none := by
        simp [outcome?, hf, hc, hBegin]
      have hNothing : (s.branchArrival? fan (.event (.start fan branch))).toList = [] := by
        simp [branchArrival?, hNone]
      rw [hNothing]
      exact arrives_of_quiet (World.pauses_begin hBegin).quiet b a
    · exact hCall hf hc (by simp [outcome?, hf, hc, hBegin]) (.begin hBegin)
  | complete branch =>
    obtain ⟨f, c, due, held, hf, hc, hRunning, -, rfl⟩ := complete?_eq_some hMove
    have hKeeps := h.fans f (List.mem_of_getElem? hf) c (List.mem_of_getElem? hc) due held hRunning
    have hOutcome : s.outcome? fan (.event (.complete fan branch)) =
        some (branch, (s.world.finish c.backend held).2) := by
      simp [outcome?, hf, hc, hRunning]
    exact hCall hf hc hOutcome (.finish hKeeps rfl)

/-- What arrives with a move tells what it does to an object. -/
theorem arrives_of_move? (h : s.Mindful) (hApart : s.world.Apart b a) (hMove : s.move? m = some t) :
    Arrives s t b a (s.arrivals m) := by
  cases m with
  | tick time =>
    cases hMove
    obtain ⟨watched, now, hEq⟩ : ∃ watched now, s.tick time = { s with watched, now } := by
      unfold tick
      split
      · exact ⟨s.watched, s.now, rfl⟩
      · exact ⟨_, _, rfl⟩
    rw [hEq]
    exact arrives_of_quiet (by rfl) b a
  | cache order =>
    cases hMove
    exact arrives_of_quiet (by rfl) b a
  | fill key data =>
    cases hMove
    exact arrives_of_quiet (by rfl) b a
  | submit order =>
    cases hMove
    by_cases hPut : ∃ c data, order = .request (.put c data)
    · obtain ⟨c, data, rfl⟩ := hPut
      exact arrives_put hApart c data
    · have hNot : ∀ c data, order ≠ .request (.put c data) := fun c data hEq => hPut ⟨c, data, hEq⟩
      have hNothing : s.arrivals (.submit order) = [] :=
        arrivals_eq_nil (fun _ => nofun) (fun c data hEq => hNot c data (Move.submit.inj hEq))
          fun _ _ _ => nofun
      rw [hNothing]
      exact arrives_of_quiet (objectAt?_submit hNot) b a
  | submitStream c input failure =>
    cases hMove
    unfold submitStream
    simp only [arrivals, going?]
    cases hRead : input.readAll with
    | error reason =>
      simp only
      split <;> exact arrives_of_quiet (by rfl) b a
    | ok data =>
      simp only
      split
      · rename_i hEmpty
        have hMains : s.world.mains = [] := by simpa using hEmpty
        have hNone : (if s.replication = .async then some (s.placement c data) else none).toList.flatMap
            Going.arrivals = [] := by
          simp only [placement, hMains, Walk.trailFrom]
          split <;> rfl
        rw [hNone]
        exact arrives_of_quiet (by rfl) b a
      · exact arrives_put hApart c data
  | event e =>
    cases e with
    | start fan branch => exact arrives_of_concernsFan h hApart (.start branch) hMove
    | complete fan branch => exact arrives_of_concernsFan h hApart (.complete branch) hMove
    | expire ticket =>
      obtain ⟨p, deadline, request, after, -, -, -, -, rfl⟩ := expire?_eq_some hMove
      refine arrives_of_quiet ?_ b a
      show (s.giveUp p.activity).world.objectAt? = _
      rw [giveUp_eq]
    | join ticket =>
      obtain ⟨p, -, ⟨request, fan, f, -, -, -, -, rfl⟩ | ⟨fans, -, -, rfl⟩⟩ := join?_eq_some hMove
      · exact arrives_of_quiet (by rw [world_endFan]) b a
      · exact arrives_of_quiet (by rw [world_endDrain]) b a
    | resume ticket =>
      obtain ⟨p, request, walk, due, held, hp, hOrder, hActivity, -, rfl⟩ := resume?_eq_some hMove
      obtain ⟨hRequest, c, rest, hTodo, hKeeps⟩ :=
        h.running p (mem_of_running? hp).1 request walk due held hOrder hActivity
      rw [← hRequest] at hKeeps
      have hGoing : s.arrivals (.event (.resume ticket)) =
          (walk.trailAfter s.world held).outcomes.filterMap
            (Arrival.of? (.order ticket) walk.request) := by
        simp [arrivals, going?, hp, hActivity, Going.arrivals]
      rw [hGoing]
      refine arrives_of_receives ?_ _
      rw [world_followWalk]
      exact Walk.receives_resume hApart hTodo hKeeps

/-! ## Runs -/

theorem arrivalsAt_cons {rest : List Move} (hMove : s.move? m = some t) :
    arrivalsAt b a s (m :: rest) =
      (s.arrivals m).filter (fun x => decide (x.IsAt b a)) ++ arrivalsAt b a t rest := by
  rw [arrivalsAt, hMove]

theorem arrivalsAt_append {first : List Move} (hRun : s.run? first = some t) (rest : List Move) :
    arrivalsAt b a s (first ++ rest) = arrivalsAt b a s first ++ arrivalsAt b a t rest := by
  induction first generalizing s with
  | nil =>
    rw [run?, Option.some.injEq] at hRun
    rw [hRun]
    rfl
  | cons m first ih =>
    obtain ⟨u, hMove, hTail⟩ := run?_cons_eq_some.mp hRun
    rw [List.cons_append, arrivalsAt_cons hMove, arrivalsAt_cons hMove, ih hTail, List.append_assoc]

/-- What has arrived in a run has arrived with one of its moves. -/
theorem exists_of_mem_arrivalsAt {moves : List Move} {x : Arrival} (hx : x ∈ arrivalsAt b a s moves) :
    ∃ (u : Session) (m : Move), x ∈ u.arrivals m ∧ x.IsAt b a := by
  induction moves generalizing s with
  | nil => exact absurd hx List.not_mem_nil
  | cons m rest ih =>
    rw [arrivalsAt] at hx
    rcases List.mem_append.mp hx with hHere | hLater
    · obtain ⟨hMem, hAt⟩ := List.mem_filter.mp hHere
      exact ⟨s, m, hMem, by simpa using hAt⟩
    · split at hLater
      · exact absurd hLater List.not_mem_nil
      · exact ih hLater

/-- After a run an object is what the last write to arrive has left; if none has, it is what it was. -/
theorem object_of_run? {moves : List Move} (h : s.Mindful) (hApart : s.world.Apart b a)
    (hRun : s.run? moves = some t) :
    (∀ x, (arrivalsAt b a s moves).getLast? = some x → t.world.HasTaken b x.request) ∧
      (arrivalsAt b a s moves = [] → t.world.objectAt? b a = s.world.objectAt? b a) := by
  -- what has arrived in one move stays unless something arrives in the others
  induction moves generalizing s with
  | nil =>
    rw [run?, Option.some.injEq] at hRun
    subst hRun
    refine ⟨fun x hx => ?_, fun _ => rfl⟩
    contradiction
  | cons m rest ih =>
    obtain ⟨u, hMove, hRest⟩ := run?_cons_eq_some.mp hRun
    have hFrame := (goesOn_of_move? hMove).frame
    obtain ⟨hTaken, hQuiet⟩ := ih (mindful_of_move? h hMove) (hApart.of_frame_eq hFrame) hRest
    have hArrives := arrives_of_move? h hApart hMove
    have hNone (hNil : (s.arrivals m).filter (fun x => decide (x.IsAt b a)) = []) :
        u.world.objectAt? b a = s.world.objectAt? b a := by
      refine hArrives.quiet fun x hx hAt => ?_
      have hNot := List.filter_eq_nil_iff.mp hNil x hx
      exact hNot (decide_eq_true hAt)
    rw [arrivalsAt_cons hMove]
    constructor
    · intro x hx
      cases hLater : arrivalsAt b a u rest with
      | nil =>
        rw [hLater, List.append_nil] at hx
        have hMem := List.mem_filter.mp (List.mem_of_getLast? hx)
        have hAt : x.IsAt b a := by simpa using hMem.2
        have hSame := hQuiet hLater
        rw [← hAt.2] at hSame
        exact (hArrives.taken x hMem.1 hAt).of_objectAt?_eq (goesOn_of_run? hRest).frame hSame
      | cons y more =>
        rw [hLater, List.getLast?_append_of_ne_nil _ (List.cons_ne_nil y more), ← hLater] at hx
        exact hTaken x hx
    · intro hNil
      obtain ⟨hHere, hLater⟩ := List.append_eq_nil_iff.mp hNil
      exact (hQuiet hLater).trans (hNone hHere)

end Session

end ReplicatedStore
