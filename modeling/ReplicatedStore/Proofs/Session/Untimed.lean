import ReplicatedStore.Proofs.Session.OnClock

/-!
# Sessions without deadlines

Deadlines bear on nothing but when orders are given up. A session whose orders have lost their deadlines
does what it would do anyway, event by event, and shows no event but for those deadlines less.

Main results:

* `Session.untimed_submit`, `Session.step?_untimed` — orders and events go on as they would.
* `Session.events_untimed`, `Session.events_cases` — what is due without deadlines.
* `Session.OnClock.untimed` — a run in which nobody is given up is one without deadlines.
-/

namespace ReplicatedStore

/-- An order under way that is never given up. -/
def Running.untimed (p : Running) : Running := { p with deadline := none }

/-- Whether a move lets something go on or time pass, and gives no order up. -/
def Move.isPatient : Move → Bool
  | event (.expire _) => false
  | event _ | tick _ => true
  | submit _ | submitStream .. | cache _ | fill .. => false

namespace Session

/-- A session in which no order is given up. -/
def untimed (s : Session) : Session :=
  { s with timeout := none, running := s.running.map Running.untimed }

variable {s t u : Session} {ticket : Nat} {moves : List Move} {e : Event}

/-! ## Orders -/

theorem filter_untimed (l : List Running) (ticket : Nat) :
    (l.filter (·.ticket != ticket)).map Running.untimed =
      (l.map Running.untimed).filter (·.ticket != ticket) := by
  rw [List.filter_map]
  rfl

theorem untimed_finish (s : Session) (ticket : Nat) (e : Ended) :
    (s.finish ticket e).untimed = s.untimed.finish ticket e := by
  simp [untimed, finish, filter_untimed]

theorem untimed_return (s : Session) (ticket : Nat) (result : Except StoreError Answer) :
    (s.return_ ticket result).untimed = s.untimed.return_ ticket result :=
  untimed_finish ..

theorem untimed_suspend (s : Session) (p : Running) :
    (s.suspend p).untimed = s.untimed.suspend p.untimed := by
  simp [untimed, suspend, filter_untimed, Running.untimed]

theorem untimed_settle (s : Session) (a : Address) (result : Except StoreError Answer) :
    (s.settle a result).untimed = s.untimed.settle a result := by
  unfold settle
  split
  · rfl
  · split <;> rfl

theorem untimed_replicate (s : Session) (r : Request) (backends : List Nat) :
    (s.replicate r backends).untimed = s.untimed.replicate r backends := by
  unfold replicate
  split <;> rfl

theorem untimed_endWalk (s : Session) (ticket : Nat) (r : Request) (e : WalkEnd) :
    (s.endWalk ticket r e).untimed = s.untimed.endWalk ticket r e := by
  unfold endWalk
  split
  · exact untimed_finish ..
  · cases r with
    | put a data => simp only [untimed_return, untimed_settle]
    | get a => exact untimed_return ..
    | remove a => exact untimed_return ..
    | holds a => exact untimed_return ..
  · split
    · exact untimed_return ..
    · simp only [untimed_return, untimed_settle, untimed_replicate]
      rfl
    · exact untimed_return ..

theorem untimed_followWalk (s : Session) (ticket : Nat) (r : Request) (deadline : Option Duration)
    (state : World × WalkState) :
    (s.followWalk ticket r deadline state).untimed = s.untimed.followWalk ticket r none state := by
  rcases state with ⟨world, e | ⟨walk, delay, held⟩⟩
  · exact untimed_endWalk ..
  · exact untimed_suspend ..

theorem untimed_startFan (s : Session) (ticket : Nat) (r : Request) :
    (s.startFan ticket r).untimed = s.untimed.startFan ticket r :=
  untimed_suspend ..

theorem untimed_endFan (s : Session) (ticket : Nat) (r : Request) (f : FanOut) :
    (s.endFan ticket r f).untimed = s.untimed.endFan ticket r f := by
  simp only [endFan, untimed_return, untimed_settle]

theorem untimed_endDrain (s : Session) (ticket : Nat) (order : Order) :
    (s.endDrain ticket order).untimed = s.untimed.endDrain ticket order := by
  cases order <;> exact untimed_return ..

theorem untimed_startWalk (s : Session) (ticket : Nat) (r : Request) (walk : Walk) :
    (s.startWalk ticket r walk).untimed = s.untimed.startWalk ticket r walk :=
  untimed_followWalk ..

theorem untimed_startRequest (s : Session) (ticket : Nat) (r : Request) :
    (s.startRequest ticket r).untimed = s.untimed.startRequest ticket r := by
  cases r with
  | get a =>
    have hLookup : s.untimed.lookup a = ((s.lookup a).1, (s.lookup a).2.untimed) := rfl
    unfold startRequest
    simp only [hLookup]
    cases hFound : s.lookup a with
    | mk found v =>
      cases found with
      | some data => exact untimed_return ..
      | none =>
        show untimed (if v.world.backends.isEmpty then _ else _) =
          if v.world.backends.isEmpty then _ else _
        split
        · exact untimed_return ..
        · exact untimed_startWalk ..
  | holds a =>
    have hLookup : s.untimed.lookup a = ((s.lookup a).1, (s.lookup a).2.untimed) := rfl
    unfold startRequest
    simp only [hLookup]
    cases hFound : s.lookup a with
    | mk found v =>
      cases found with
      | some data => exact untimed_return ..
      | none =>
        show untimed (if v.world.backends.isEmpty then _ else _) =
          if v.world.backends.isEmpty then _ else _
        split
        · exact untimed_return ..
        · exact untimed_startWalk ..
  | put a data =>
    unfold startRequest
    show untimed (if s.world.mains.isEmpty then _ else _) = if s.world.mains.isEmpty then _ else _
    split
    · exact untimed_return ..
    · have hSame : s.untimed.replication = s.replication := rfl
      rw [hSame]
      cases s.replication with
      | sync => exact untimed_startFan ..
      | async => exact untimed_startWalk ..
  | remove a =>
    unfold startRequest
    show untimed (if s.world.mains.isEmpty then _ else _) = if s.world.mains.isEmpty then _ else _
    split
    · exact untimed_return ..
    · exact untimed_startFan ..

theorem untimed_submit (s : Session) (r : Request) :
    (s.submit (.request r)).untimed = s.untimed.submit (.request r) :=
  untimed_startRequest ..

/-! ## Events -/

theorem running?_untimed (s : Session) (ticket : Nat) :
    s.untimed.running? ticket = (s.running? ticket).map Running.untimed := by
  simp only [running?, untimed, List.find?_map]
  rfl

theorem isFinished_untimed (s : Session) : s.untimed.isFinished = s.isFinished := rfl

theorem untimed_resume? (s : Session) (ticket : Nat) :
    s.untimed.resume? ticket = (s.resume? ticket).map untimed := by
  simp only [resume?, running?_untimed]
  cases s.running? ticket with
  | none => rfl
  | some p =>
    rcases p with ⟨number, order, deadline, activity⟩
    cases order with
    | wait => rfl
    | shutdown => rfl
    | request r =>
      cases activity with
      | joining fan => rfl
      | draining fans => rfl
      | walking walk due held =>
        show (if due ≤ s.now then _ else none) = Option.map untimed (if due ≤ s.now then _ else none)
        split
        · exact congrArg some (untimed_followWalk ..).symm
        · rfl

theorem untimed_start? (s : Session) (fan branch : Nat) :
    s.untimed.start? fan branch = (s.start? fan branch).map untimed := by
  have hFans : s.untimed.fans = s.fans := rfl
  simp only [start?, hFans]
  cases s.fans[fan]? with
  | none => rfl
  | some f =>
    simp only [Option.bind_eq_bind, Option.bind_some]
    cases f.branches[branch]? with
    | none => rfl
    | some b =>
      simp only [Option.bind_some]
      cases b.state with
      | queued =>
        have hWorld : s.untimed.world = s.world := rfl
        simp only [hWorld]
        cases hBegin : s.world.begin b.backend f.request with
        | mk world begun => cases begun <;> rfl
      | running due held => rfl
      | finished => rfl
      | dropped => rfl

theorem untimed_complete? (s : Session) (fan branch : Nat) :
    s.untimed.complete? fan branch = (s.complete? fan branch).map untimed := by
  have hFans : s.untimed.fans = s.fans := rfl
  simp only [complete?, hFans]
  cases s.fans[fan]? with
  | none => rfl
  | some f =>
    simp only [Option.bind_eq_bind, Option.bind_some]
    cases f.branches[branch]? with
    | none => rfl
    | some b =>
      simp only [Option.bind_some]
      cases b.state with
      | running due held =>
        show (if due ≤ s.now then _ else none) = Option.map untimed (if due ≤ s.now then _ else none)
        split <;> rfl
      | queued => rfl
      | finished => rfl
      | dropped => rfl

theorem untimed_join? (s : Session) (ticket : Nat) :
    s.untimed.join? ticket = (s.join? ticket).map untimed := by
  simp only [join?, running?_untimed]
  cases s.running? ticket with
  | none => rfl
  | some p =>
    rcases p with ⟨number, order, deadline, activity⟩
    cases activity with
    | walking walk due held => cases order <;> rfl
    | joining fan =>
      cases order with
      | wait => rfl
      | shutdown => rfl
      | request r =>
        show (do let f ← s.fans[fan]?; if f.isFinished then _ else none) =
          Option.map untimed (do let f ← s.fans[fan]?; if f.isFinished then _ else none)
        cases s.fans[fan]? with
        | none => rfl
        | some f =>
          simp only [Option.bind_eq_bind, Option.bind_some]
          split
          · exact congrArg some (untimed_endFan ..).symm
          · rfl
    | draining fans =>
      have hEnds : (if fans.all s.isFinished then some (s.untimed.endDrain ticket order) else none) =
          Option.map untimed (if fans.all s.isFinished then some (s.endDrain ticket order) else none) := by
        split
        · exact congrArg some (untimed_endDrain ..).symm
        · rfl
      cases order <;> exact hEnds

/-- Without deadlines every event does what it would do, but for those by which orders are given up. -/
theorem step?_untimed (s : Session) (hNot : ∀ ticket, e ≠ .expire ticket) :
    s.untimed.step? e = (s.step? e).map untimed := by
  cases e with
  | expire ticket => exact absurd rfl (hNot ticket)
  | resume ticket => exact untimed_resume? s ticket
  | start fan branch => exact untimed_start? s fan branch
  | complete fan branch => exact untimed_complete? s fan branch
  | join ticket => exact untimed_join? s ticket

theorem expire?_untimed (s : Session) (ticket : Nat) : s.untimed.step? (.expire ticket) = none := by
  simp only [step?, expire?, running?_untimed]
  cases s.running? ticket <;> rfl

theorem untimed_tick (s : Session) (time : Duration) :
    (s.tick time).untimed = s.untimed.tick time := by
  unfold tick
  show untimed (if time ≤ s.now then s else _) = if time ≤ s.now then _ else _
  split <;> rfl

theorem move?_untimed {m : Move} (h : m.isPatient = true) :
    s.untimed.move? m = (s.move? m).map untimed := by
  cases m with
  | tick time => exact congrArg some (untimed_tick s time).symm
  | event e =>
    refine step?_untimed s fun ticket hExpires => ?_
    rw [hExpires] at h
    contradiction
  | submit order => contradiction
  | submitStream a input failure => contradiction
  | cache order => contradiction
  | fill key data => contradiction

theorem run?_untimed (h : ∀ m ∈ moves, m.isPatient = true) :
    s.untimed.run? moves = (s.run? moves).map untimed := by
  induction moves generalizing s with
  | nil => rfl
  | cons m rest ih =>
    obtain ⟨hFirst, hRest⟩ := List.forall_mem_cons.mp h
    simp only [run?, move?_untimed hFirst]
    cases s.move? m with
    | none => rfl
    | some t => exact ih hRest

/-- Orders return without deadlines as they would. -/
theorem returns_untimed_iff {e : Ended} (h : ∀ m ∈ moves, m.isPatient = true) :
    s.untimed.Returns ticket moves t e ↔ ∃ u, t = u.untimed ∧ s.Returns ticket moves u e := by
  constructor
  · rintro ⟨hRun, hEnded, hOpen⟩
    rw [run?_untimed h, Option.map_eq_some_iff] at hRun
    obtain ⟨u, hRun, rfl⟩ := hRun
    refine ⟨u, rfl, hRun, hEnded, fun before after v hMoves hAfter hBefore => ?_⟩
    refine hOpen before after v.untimed hMoves hAfter ?_
    rw [run?_untimed fun m hm => h m (hMoves ▸ List.mem_append_left _ hm), hBefore]
    rfl
  · rintro ⟨u, rfl, hRun, hEnded, hOpen⟩
    refine ⟨?_, hEnded, fun before after v hMoves hAfter hBefore => ?_⟩
    · rw [run?_untimed h, hRun]
      rfl
    · rw [run?_untimed fun m hm => h m (hMoves ▸ List.mem_append_left _ hm),
        Option.map_eq_some_iff] at hBefore
      obtain ⟨w, hBefore, rfl⟩ := hBefore
      exact hOpen before after w hMoves hAfter hBefore

/-! ## What is due -/

/-- With its deadline an order shows one event more. -/
theorem eventsOfOrder_eq (s : Session) (p : Running) :
    s.eventsOfOrder p = s.untimed.eventsOfOrder p.untimed ++
      match p.deadline with
      | some deadline => [⟨s.atLeastNow deadline, 2, deadline, .expire p.ticket⟩]
      | none => [] := by
  rcases p with ⟨number, order, deadline, activity⟩
  cases deadline with
  | none => exact (List.append_nil _).symm
  | some d => rfl

/-- Without deadlines everything else is due that was. -/
theorem events_untimed (s : Session) :
    s.untimed.events = s.events.filter fun x => (Move.event x.event).isPatient := by
  have hOrder (p : Running) : (s.eventsOfOrder p).filter (fun x => (Move.event x.event).isPatient) =
      s.untimed.eventsOfOrder p.untimed := by
    have hOwn : (s.untimed.eventsOfOrder p.untimed).filter (fun x => (Move.event x.event).isPatient) =
        s.untimed.eventsOfOrder p.untimed := by
      rcases p with ⟨number, order, deadline, activity⟩
      cases activity with
      | walking walk due held => rfl
      | joining fan =>
        show List.filter _ (if s.isFinished fan then _ else _) = if s.isFinished fan then _ else _
        split <;> rfl
      | draining fans =>
        show List.filter _ (if fans.all s.isFinished then _ else _) =
          if fans.all s.isFinished then _ else _
        split <;> rfl
    rw [eventsOfOrder_eq, List.filter_append, hOwn]
    split
    · exact List.append_nil _
    · exact List.append_nil _
  unfold events
  rw [List.filter_append, List.filter_flatMap]
  refine congrArg₂ (· ++ ·) ?_ (List.filter_eq_self.mpr fun x hx => ?_).symm
  · simp only [hOrder]
    show (s.running.map Running.untimed).flatMap s.untimed.eventsOfOrder = _
    rw [List.flatMap_map]
  · obtain ⟨⟨f, fan⟩, -, hx⟩ := List.mem_flatMap.mp hx
    obtain ⟨⟨b, branch⟩, -, hx⟩ := List.mem_filterMap.mp hx
    simp only [eventOfBranch?] at hx
    split at hx <;> cases hx <;> rfl

theorem mem_events_of_untimed {x : Scheduled} (h : x ∈ s.untimed.events) : x ∈ s.events := by
  rw [events_untimed] at h
  exact (List.mem_filter.mp h).1

theorem work_untimed (s : Session) : s.untimed.work = s.work := by
  simp only [work, untimed, List.foldr_map]
  rfl

/-- What is due is due without deadlines too, or it is a deadline. -/
theorem events_cases {x : Scheduled} (h : x ∈ s.events) : x ∈ s.untimed.events ∨
    ∃ p ∈ s.running, ∃ deadline, p.deadline = some deadline ∧
      x = ⟨s.atLeastNow deadline, 2, deadline, .expire p.ticket⟩ := by
  rcases List.mem_append.mp h with hOrder | hFan
  · obtain ⟨p, hp, hx⟩ := List.mem_flatMap.mp hOrder
    rw [eventsOfOrder_eq] at hx
    rcases List.mem_append.mp hx with hOwn | hDeadline
    · exact .inl (List.mem_append_left _ (List.mem_flatMap.mpr
        ⟨p.untimed, List.mem_map_of_mem hp, hOwn⟩))
    · split at hDeadline
      · rename_i deadline hSome
        exact .inr ⟨p, hp, deadline, hSome, List.mem_singleton.mp hDeadline⟩
      · contradiction
  · exact .inl (List.mem_append_right _ hFan)

/-- A run on a clock in which nobody is given up is one without deadlines. -/
theorem OnClock.untimed (h : OnClock s moves t) (hPatient : ∀ m ∈ moves, m.isPatient = true) :
    OnClock s.untimed moves t.untimed := by
  induction h with
  | nil s => exact .nil _
  | event hEvent _ ih =>
    obtain ⟨hFirst, hRest⟩ := List.forall_mem_cons.mp hPatient
    refine .event ?_ (ih hRest)
    exact (move?_untimed hFirst).trans (congrArg _ hEvent)
  | tick hDue _ ih =>
    obtain ⟨-, hRest⟩ := List.forall_mem_cons.mp hPatient
    refine .tick (fun x hx => hDue x (mem_events_of_untimed hx)) ?_
    rw [← untimed_tick]
    exact ih hRest

/-- No order is given up on a clock without deadlines. -/
theorem OnClock.isPatient (h : OnClock s.untimed moves t) : ∀ m ∈ moves, m.isPatient = true := by
  generalize hStart : s.untimed = v at h
  induction h generalizing s with
  | nil v => exact fun m hm => absurd hm List.not_mem_nil
  | @event v w u x rest hEvent _ ih =>
    subst hStart
    have hPatient : Move.isPatient (.event x) = true := by
      cases x with
      | expire ticket =>
        rw [expire?_untimed] at hEvent
        contradiction
      | _ => rfl
    -- what comes next has no deadlines either
    have hNext := (move?_untimed (s := s) hPatient).symm.trans hEvent
    rw [Option.map_eq_some_iff] at hNext
    obtain ⟨w, -, hSame⟩ := hNext
    exact List.forall_mem_cons.mpr ⟨hPatient, ih hSame⟩
  | tick _ _ ih =>
    subst hStart
    exact List.forall_mem_cons.mpr ⟨rfl, ih (untimed_tick ..)⟩

end Session

end ReplicatedStore
