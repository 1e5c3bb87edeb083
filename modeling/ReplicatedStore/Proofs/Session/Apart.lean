import ReplicatedStore.Proofs.Session.Moves

/-!
# What moves leave alone

Every move is about one order at most: the order ends, or it waits for something from then on, and the
fan-outs that are there stay as they are, with new ones behind them. Only the events of a branch, and
a deadline that passes, change a fan-out. So an order that a move does not concern is left alone by
it, and so is a fan-out that nobody but its own order joins.

Main results:

* `Session.advances_startRequest`, `Session.advances_followWalk` — what an order may do to the session.
* `Session.sound_of_reachable` — tickets and fan-outs are numbered in order.
* `Session.leavesOrder_of_move?`, `Session.leavesFan_of_move?` — what a move does not concern stays.
-/

namespace ReplicatedStore

namespace Session

/-- What stays the same in a session as long as it lasts. -/
structure SameClient (s t : Session) : Prop where
  frame : t.world.frame = s.world.frame
  timeout : t.timeout = s.timeout
  replication : t.replication = s.replication

theorem SameClient.refl (s : Session) : s.SameClient s := ⟨rfl, rfl, rfl⟩

theorem SameClient.trans {s t u : Session} (h : s.SameClient t) (h' : t.SameClient u) :
    s.SameClient u :=
  ⟨h'.frame.trans h.frame, h'.timeout.trans h.timeout, h'.replication.trans h.replication⟩

/-- Whether a session comes from another without any order being touched. -/
structure Calm (s t : Session) : Prop extends SameClient s t where
  running : t.running = s.running
  ended : t.ended = s.ended
  tickets : t.tickets = s.tickets
  fans : ∃ more, t.fans = s.fans ++ more

/-- Whether a session comes from another by what happens to the order with a ticket: it ends, or it
waits for something, which is none of the fan-outs that were there before. -/
structure Advances (ticket : Nat) (s t : Session) : Prop extends SameClient s t where
  order : (∃ e, t.running = s.running.filter (·.ticket != ticket) ∧ t.ended = (ticket, e) :: s.ended) ∨
    ∃ r, r.ticket = ticket ∧
      (∀ fan, r.activity = .joining fan → s.fans.length ≤ fan ∧ fan < t.fans.length) ∧
      t.running = s.running.filter (·.ticket != ticket) ++ [r] ∧ t.ended = s.ended
  tickets : t.tickets = s.tickets
  fans : ∃ more, t.fans = s.fans ++ more

namespace Calm

theorem refl (s : Session) : s.Calm s := ⟨SameClient.refl s, rfl, rfl, rfl, [], by simp⟩

theorem trans {s t u : Session} (h : s.Calm t) (h' : t.Calm u) : s.Calm u := by
  refine ⟨h.toSameClient.trans h'.toSameClient, h'.running.trans h.running, h'.ended.trans h.ended,
    h'.tickets.trans h.tickets, ?_⟩
  obtain ⟨more, hMore⟩ := h.fans
  obtain ⟨others, hOthers⟩ := h'.fans
  exact ⟨more ++ others, by rw [hOthers, hMore, List.append_assoc]⟩

theorem finish {s t : Session} (h : s.Calm t) (ticket : Nat) (e : Ended) :
    Advances ticket s (t.finish ticket e) := by
  refine ⟨h.toSameClient.trans ⟨rfl, rfl, rfl⟩, .inl ⟨e, ?_, ?_⟩, h.tickets, h.fans⟩
  · show t.running.filter _ = _
    rw [h.running]
  · show (ticket, e) :: t.ended = _
    rw [h.ended]

theorem suspend {s t : Session} (h : s.Calm t) {ticket : Nat} {r : Running}
    (hTicket : r.ticket = ticket)
    (hFan : ∀ fan, r.activity = .joining fan → s.fans.length ≤ fan ∧ fan < t.fans.length) :
    Advances ticket s (t.suspend r) := by
  refine ⟨h.toSameClient.trans ⟨rfl, rfl, rfl⟩, .inr ⟨r, hTicket, hFan, ?_, ?_⟩, h.tickets, h.fans⟩
  · show t.running.filter _ ++ [r] = _
    rw [h.running, hTicket]
  · exact h.ended

theorem advances {s t u : Session} {ticket : Nat} (h : s.Calm t) (h' : Advances ticket t u) :
    Advances ticket s u := by
  obtain ⟨more, hMore⟩ := h.fans
  have hLength : s.fans.length ≤ t.fans.length := by rw [hMore, List.length_append]; omega
  have hOrder := h'.order
  rw [h.running, h.ended] at hOrder
  refine ⟨h.toSameClient.trans h'.toSameClient, ?_, h'.tickets.trans h.tickets, ?_⟩
  · rcases hOrder with hEnds | ⟨r, hTicket, hFan, hRunning, hEnded⟩
    · exact .inl hEnds
    · refine .inr ⟨r, hTicket, fun fan hJoins => ?_, hRunning, hEnded⟩
      have := hFan fan hJoins
      omega
  · obtain ⟨others, hOthers⟩ := h'.fans
    exact ⟨more ++ others, by rw [hOthers, hMore, List.append_assoc]⟩

end Calm

/-! ## What orders do -/

theorem calm_of_world {s : Session} {world : World} (h : world.frame = s.world.frame) :
    s.Calm { s with world } := ⟨⟨h, rfl, rfl⟩, rfl, rfl, rfl, [], by simp⟩

theorem calm_of_watched (s : Session) (watched : WatchedCache) : s.Calm { s with watched } :=
  ⟨⟨rfl, rfl, rfl⟩, rfl, rfl, rfl, [], by simp⟩

theorem calm_settle (s : Session) (a : Address) (result : Except StoreError Answer) :
    s.Calm (s.settle a result) := by
  unfold settle
  split
  · exact calm_of_watched s _
  · split
    · exact calm_of_watched s _
    · exact Calm.refl s

theorem calm_replicate (s : Session) (r : Request) (backends : List Nat) :
    s.Calm (s.replicate r backends) := by
  unfold replicate
  split
  · exact Calm.refl s
  · exact ⟨⟨rfl, rfl, rfl⟩, rfl, rfl, rfl, [_], rfl⟩

theorem advances_endWalk (s : Session) (ticket : Nat) (r : Request) (e : WalkEnd) :
    Advances ticket s (s.endWalk ticket r e) := by
  unfold endWalk
  split
  · exact (Calm.refl s).finish ticket _
  · cases r with
    | put a data => exact (calm_settle s a _).finish ticket _
    | get a => exact (Calm.refl s).finish ticket _
    | remove a => exact (Calm.refl s).finish ticket _
    | holds a => exact (Calm.refl s).finish ticket _
  · split
    · exact (calm_of_watched s _).finish ticket _
    · exact ((calm_replicate s _ _).trans (calm_settle ..)).finish ticket _
    · exact (Calm.refl s).finish ticket _

theorem frame_goFrom (world : World) (walk : Walk) (ahead : List Nat) :
    (walk.goFrom world ahead).1.frame = world.frame := by
  induction ahead generalizing world walk with
  | nil => rfl
  | cons b rest ih =>
    have hBegin := World.frame_begin world b walk.request
    unfold Walk.goFrom
    split
    · rename_i hCall
      rwa [hCall] at hBegin
    · rename_i later o hCall
      rw [hCall] at hBegin
      split
      · exact hBegin
      · rw [ih, hBegin]

theorem frame_resume (world : World) (walk : Walk) (held : Held) :
    (walk.resume world held).1.frame = world.frame := by
  unfold Walk.resume
  split
  · rfl
  · rename_i b rest _
    have hFinish := World.frame_finish world b held
    simp only
    split
    · exact hFinish
    · rw [frame_goFrom, hFinish]

theorem advances_followWalk (s : Session) (ticket : Nat) (r : Request) (deadline : Option Duration)
    {state : World × WalkState} (h : state.1.frame = s.world.frame) :
    Advances ticket s (s.followWalk ticket r deadline state) := by
  rcases state with ⟨world, e | ⟨walk, delay, held⟩⟩
  · exact (calm_of_world h).advances (advances_endWalk _ ticket r e)
  · refine (calm_of_world h).suspend rfl ?_
    intro fan hJoins
    contradiction

theorem advances_startWalk (s : Session) (ticket : Nat) (r : Request) (walk : Walk) :
    Advances ticket s (s.startWalk ticket r walk) :=
  advances_followWalk s ticket r s.deadline (frame_goFrom ..)

theorem advances_startFan (s : Session) (ticket : Nat) (r : Request) :
    Advances ticket s (s.startFan ticket r) := by
  have hStarted : s.Calm (s.fanOut (.ofBackends r s.world.mains false)) :=
    ⟨⟨rfl, rfl, rfl⟩, rfl, rfl, rfl, [_], rfl⟩
  refine hStarted.suspend rfl ?_
  intro fan hJoins
  cases hJoins
  simp [fanOut]

theorem advances_startRequest (s : Session) (ticket : Nat) (r : Request) :
    Advances ticket s (s.startRequest ticket r) := by
  cases r with
  | get a =>
    have hLookup : s.Calm (s.lookup a).2 := calm_of_watched s _
    unfold startRequest
    simp only
    split
    · rename_i data t hFound
      rw [hFound] at hLookup
      exact hLookup.finish ticket _
    · rename_i t hFound
      rw [hFound] at hLookup
      split
      · exact hLookup.finish ticket _
      · -- a turn is taken even if the walk is over at once
        have hOrder : t.Calm { t with readOrder := t.readOrder.claim.2 } :=
          ⟨⟨rfl, rfl, rfl⟩, rfl, rfl, rfl, [], by simp⟩
        exact (hLookup.trans hOrder).advances (advances_startWalk ..)
  | holds a =>
    have hLookup : s.Calm (s.lookup a).2 := calm_of_watched s _
    unfold startRequest
    simp only
    split
    · rename_i data t hFound
      rw [hFound] at hLookup
      exact hLookup.finish ticket _
    · rename_i t hFound
      rw [hFound] at hLookup
      split
      · exact hLookup.finish ticket _
      · exact hLookup.advances (advances_startWalk ..)
  | put a data =>
    unfold startRequest
    simp only
    split
    · exact (Calm.refl s).finish ticket _
    · split
      · exact advances_startFan s ticket _
      · exact advances_startWalk s ticket _ _
  | remove a =>
    unfold startRequest
    simp only
    split
    · exact (Calm.refl s).finish ticket _
    · exact advances_startFan s ticket _

theorem advances_endDrain (s : Session) (ticket : Nat) (order : Order) :
    Advances ticket s (s.endDrain ticket order) := by
  cases order with
  | shutdown => exact (calm_of_watched s _).finish ticket _
  | request r => exact (Calm.refl s).finish ticket _
  | wait => exact (Calm.refl s).finish ticket _

theorem advances_startDrain (s : Session) (ticket : Nat) (order : Order) :
    Advances ticket s (s.startDrain ticket order) := by
  have hForgotten : s.Calm { s with launched := [] } := ⟨⟨rfl, rfl, rfl⟩, rfl, rfl, rfl, [], by simp⟩
  unfold startDrain
  simp only
  split
  · exact hForgotten.advances (advances_endDrain ..)
  · refine hForgotten.suspend rfl ?_
    intro fan hJoins
    contradiction

/-- A new order gets the next ticket. -/
theorem advances_submit (s : Session) (order : Order) :
    Advances s.tickets { s with tickets := s.tickets + 1 } (s.submit order) := by
  cases order with
  | request r => exact advances_startRequest ..
  | wait => exact advances_startDrain ..
  | shutdown => exact advances_startDrain ..

theorem advances_submitStream (s : Session) (a : Address) (input : Stream)
    (failure : String → Link) :
    Advances s.tickets { s with tickets := s.tickets + 1 } (s.submitStream a input failure) := by
  unfold submitStream
  simp only
  split
  · exact (Calm.refl _).finish s.tickets _
  · split
    · exact (Calm.refl _).finish s.tickets _
    · exact advances_submit s _

theorem advances_endFan (s : Session) (ticket : Nat) (r : Request) (f : FanOut) :
    Advances ticket s (s.endFan ticket r f) := (calm_settle s _ _).finish ticket _

theorem advances_resume? {s t : Session} {ticket : Nat} (h : s.resume? ticket = some t) :
    Advances ticket s t := by
  obtain ⟨r, request, walk, due, held, -, -, -, -, rfl⟩ := resume?_eq_some h
  exact advances_followWalk s ticket request r.deadline (frame_resume ..)

theorem advances_join? {s t : Session} {ticket : Nat} (h : s.join? ticket = some t) :
    Advances ticket s t := by
  obtain ⟨r, -, ⟨request, fan, f, -, -, -, -, rfl⟩ | ⟨fans, -, -, rfl⟩⟩ := join?_eq_some h
  · exact advances_endFan s ticket request f
  · exact advances_endDrain s ticket r.order

theorem advances_expire? {s t : Session} {ticket : Nat} (h : s.expire? ticket = some t) :
    ∃ r, s.running? ticket = some r ∧ Advances ticket (s.giveUp r.activity) t := by
  obtain ⟨r, deadline, request, after, hr, -, -, -, rfl⟩ := expire?_eq_some h
  exact ⟨r, hr, (Calm.refl _).finish ticket _⟩

/-! ## What moves do not concern -/

/-- Whether tickets and fan-outs are numbered in order. -/
structure Sound (s : Session) : Prop where
  running : ∀ r ∈ s.running, r.ticket < s.tickets
  ended : ∀ e ∈ s.ended, e.1 < s.tickets
  fans : ∀ r ∈ s.running, ∀ fan, r.activity = .joining fan → fan < s.fans.length

/-- Whether a session goes on from another as the same client. -/
structure GoesOn (s t : Session) : Prop extends SameClient s t where
  tickets : s.tickets ≤ t.tickets
  fans : s.fans.length ≤ t.fans.length

/-- Whether an order is left alone. -/
structure LeavesOrder (ticket : Nat) (s t : Session) : Prop where
  running : t.running? ticket = s.running? ticket
  ended : t.ended? ticket = s.ended? ticket

/-- Whether a fan-out is left alone, and nobody new joins it. -/
structure LeavesFan (fan : Nat) (s t : Session) : Prop where
  branches : t.fans[fan]? = s.fans[fan]?
  joiners : ∀ r ∈ t.running, r.activity = .joining fan → r ∈ s.running

namespace Advances

variable {ticket : Nat} {s t : Session}

theorem leavesOrder (h : Advances ticket s t) {other : Nat} (hOther : other ≠ ticket) :
    LeavesOrder other s t := by
  rcases h.order with ⟨e, hRunning, hEnded⟩ | ⟨r, hTicket, -, hRunning, hEnded⟩
  · constructor
    · rw [running?, hRunning]
      exact find?_filter_ticket hOther
    · rw [ended?, hEnded]
      exact ended?_cons_of_ne e hOther
  · constructor
    · have hNot : (r.ticket == other) = false := by
        rw [hTicket]
        simpa using fun hEq => hOther hEq.symm
      rw [running?, hRunning, List.find?_append, find?_filter_ticket hOther, List.find?_singleton,
        hNot]
      simp [running?]
    · rw [ended?, hEnded, ended?]

theorem leavesFan (h : Advances ticket s t) {fan : Nat} (hFan : fan < s.fans.length) :
    LeavesFan fan s t := by
  constructor
  · obtain ⟨more, hMore⟩ := h.fans
    rw [hMore, List.getElem?_append_left hFan]
  · intro r hr hJoins
    rcases h.order with ⟨e, hRunning, -⟩ | ⟨new, -, hNew, hRunning, -⟩
    · rw [hRunning] at hr
      exact (List.mem_filter.mp hr).1
    · rw [hRunning, List.mem_append, List.mem_singleton] at hr
      rcases hr with hr | rfl
      · exact (List.mem_filter.mp hr).1
      · -- what is new joins a fan-out that is new
        have := hNew fan hJoins
        omega

theorem length_fans (h : Advances ticket s t) : s.fans.length ≤ t.fans.length := by
  obtain ⟨more, hMore⟩ := h.fans
  rw [hMore, List.length_append]
  omega

theorem goesOn (h : Advances ticket s t) : GoesOn s t :=
  ⟨h.toSameClient, Nat.le_of_eq h.tickets.symm, h.length_fans⟩

theorem sound (h : Advances ticket s t) (hs : s.Sound) (hTicket : ticket < s.tickets) : t.Sound := by
  have hLength := h.length_fans
  have hTickets := h.tickets
  -- the order has ended, or it is still under way with its own ticket; all others stay as they are
  rcases h.order with ⟨e, hRunning, hEnded⟩ | ⟨new, hNewTicket, hNew, hRunning, hEnded⟩
  · refine ⟨fun r hr => ?_, fun e he => ?_, fun r hr fan hJoins => ?_⟩
    · rw [hRunning] at hr
      have := hs.running r (List.mem_filter.mp hr).1
      omega
    · rw [hEnded, List.mem_cons] at he
      rcases he with rfl | he
      · show ticket < t.tickets
        omega
      · have := hs.ended e he
        omega
    · rw [hRunning] at hr
      have := hs.fans r (List.mem_filter.mp hr).1 fan hJoins
      omega
  · refine ⟨fun r hr => ?_, fun e he => ?_, fun r hr fan hJoins => ?_⟩
    · rw [hRunning, List.mem_append, List.mem_singleton] at hr
      rcases hr with hr | rfl
      · have := hs.running r (List.mem_filter.mp hr).1
        omega
      · omega
    · rw [hEnded] at he
      have := hs.ended e he
      omega
    · rw [hRunning, List.mem_append, List.mem_singleton] at hr
      rcases hr with hr | rfl
      · have := hs.fans r (List.mem_filter.mp hr).1 fan hJoins
        omega
      · exact (hNew fan hJoins).2

end Advances

/-- Whether a move is about the order with a ticket. -/
inductive ConcernsOrder (ticket : Nat) : Move → Prop
  | resume : ConcernsOrder ticket (.event (.resume ticket))
  | expire : ConcernsOrder ticket (.event (.expire ticket))
  | join : ConcernsOrder ticket (.event (.join ticket))

/-- Whether a move is about a branch of a fan-out. -/
inductive ConcernsFan (fan : Nat) : Move → Prop
  | start (branch : Nat) : ConcernsFan fan (.event (.start fan branch))
  | complete (branch : Nat) : ConcernsFan fan (.event (.complete fan branch))

/-- A new order goes its way in a session that has given out its ticket. -/
theorem Sound.taken {s : Session} (h : s.Sound) : { s with tickets := s.tickets + 1 }.Sound := by
  refine ⟨fun r hr => ?_, fun e he => ?_, h.fans⟩
  · exact Nat.lt_succ_of_lt (h.running r hr)
  · exact Nat.lt_succ_of_lt (h.ended e he)

theorem fans_giveUp {s : Session} {activity : Activity} {fan : Nat} (h : activity ≠ .joining fan) :
    (s.giveUp activity).fans[fan]? = s.fans[fan]? := by
  cases activity with
  | joining other =>
    have hOther : other ≠ fan := fun hEq => h (by rw [hEq])
    exact List.getElem?_modify_ne _ _ hOther
  | walking walk due held => rfl
  | draining fans => rfl

theorem length_fans_giveUp (s : Session) (activity : Activity) :
    (s.giveUp activity).fans.length = s.fans.length := by
  cases activity with
  | joining fan => exact List.length_modify ..
  | walking walk due held => rfl
  | draining fans => rfl

theorem giveUp_eq (s : Session) (activity : Activity) :
    s.giveUp activity = { s with fans := (s.giveUp activity).fans } := by
  cases activity <;> rfl

/-- The events of a branch change its fan-out and the world, and nothing else. -/
theorem start?_eq_modifyFan {s t : Session} {fan branch : Nat} (h : s.start? fan branch = some t) :
    ∃ world change, world.frame = s.world.frame ∧ t = { s with world }.modifyFan fan change := by
  obtain ⟨f, b, -, -, -, ⟨world, delay, held, hBegin, rfl⟩ | ⟨world, o, hBegin, rfl⟩⟩ :=
    start?_eq_some h
  · refine ⟨world, _, ?_, rfl⟩
    rw [← World.frame_begin s.world b.backend f.request, hBegin]
  · refine ⟨world, _, ?_, rfl⟩
    rw [← World.frame_begin s.world b.backend f.request, hBegin]

theorem complete?_eq_modifyFan {s t : Session} {fan branch : Nat}
    (h : s.complete? fan branch = some t) :
    ∃ world change, world.frame = s.world.frame ∧ t = { s with world }.modifyFan fan change := by
  obtain ⟨f, b, due, held, -, -, -, -, rfl⟩ := complete?_eq_some h
  exact ⟨_, _, World.frame_finish .., rfl⟩

/-- What moves can do, as far as orders and fan-outs go. -/
inductive Shape (s t : Session) : Move → Prop
  /-- an order that is under way goes on or ends -/
  | order {m : Move} {ticket : Nat} {r : Running} (hr : s.running? ticket = some r)
      (h : Advances ticket s t) (hOrder : ConcernsOrder ticket m) : Shape s t m
  /-- an order is given up with its fan-out -/
  | expire {ticket : Nat} {r : Running} (hr : s.running? ticket = some r)
      (h : Advances ticket (s.giveUp r.activity) t) : Shape s t (.event (.expire ticket))
  | branch {m : Move} {fan : Nat} {world : World} {change : FanOut → FanOut}
      (hFrame : world.frame = s.world.frame) (h : t = { s with world }.modifyFan fan change)
      (hFan : ConcernsFan fan m) : Shape s t m
  /-- a new order starts -/
  | submit {m : Move} (h : Advances s.tickets { s with tickets := s.tickets + 1 } t) : Shape s t m
  /-- only the cache changes, and the time -/
  | rest {m : Move} {now : Duration} {watched : WatchedCache} (h : t = { s with now, watched }) :
      Shape s t m

theorem shape_of_move? {s t : Session} {m : Move} (h : s.move? m = some t) : Shape s t m := by
  -- one case for each kind of move; events of orders and of branches are told apart
  cases m with
  | submit order =>
    cases h
    exact .submit (advances_submit s order)
  | submitStream a input failure =>
    cases h
    exact .submit (advances_submitStream s a input failure)
  | tick time =>
    cases h
    unfold tick
    split
    · exact .rest rfl
    · exact .rest rfl
  | cache order =>
    cases h
    exact .rest rfl
  | fill key data =>
    cases h
    exact .rest rfl
  | event e =>
    cases e with
    | resume ticket =>
      obtain ⟨r, _, _, _, _, hr, -⟩ := resume?_eq_some h
      exact .order hr (advances_resume? h) .resume
    | join ticket =>
      obtain ⟨r, hr, -⟩ := join?_eq_some h
      exact .order hr (advances_join? h) .join
    | expire ticket =>
      obtain ⟨r, hr, hAdvances⟩ := advances_expire? h
      exact .expire hr hAdvances
    | start fan branch =>
      obtain ⟨world, change, hFrame, hEq⟩ := start?_eq_modifyFan h
      exact .branch hFrame hEq (.start branch)
    | complete fan branch =>
      obtain ⟨world, change, hFrame, hEq⟩ := complete?_eq_modifyFan h
      exact .branch hFrame hEq (.complete branch)

variable {s t : Session} {m : Move}

theorem goesOn_giveUp (s : Session) (activity : Activity) : GoesOn s (s.giveUp activity) := by
  refine ⟨?_, ?_, Nat.le_of_eq (length_fans_giveUp s activity).symm⟩
  · rw [giveUp_eq]
    exact ⟨rfl, rfl, rfl⟩
  · have hTickets : (s.giveUp activity).tickets = s.tickets := by rw [giveUp_eq]
    exact Nat.le_of_eq hTickets.symm

theorem GoesOn.trans {u : Session} (h : GoesOn s t) (h' : GoesOn t u) : GoesOn s u :=
  ⟨h.toSameClient.trans h'.toSameClient, Nat.le_trans h.tickets h'.tickets,
    Nat.le_trans h.fans h'.fans⟩

theorem goesOn_of_move? (hMove : s.move? m = some t) : GoesOn s t := by
  cases shape_of_move? hMove with
  | order hr h hOrder => exact h.goesOn
  | expire hr h => exact (goesOn_giveUp s _).trans h.goesOn
  | branch hFrame h hFan =>
    rw [h]
    exact ⟨⟨hFrame, rfl, rfl⟩, Nat.le_refl _, Nat.le_of_eq (List.length_modify ..).symm⟩
  | submit h =>
    have hTickets : t.tickets = s.tickets + 1 := h.tickets
    exact ⟨⟨h.frame, h.timeout, h.replication⟩, by omega, h.length_fans⟩
  | rest h =>
    rw [h]
    exact ⟨⟨rfl, rfl, rfl⟩, Nat.le_refl _, Nat.le_refl _⟩

theorem goesOn_of_run? {moves : List Move} (hRun : s.run? moves = some t) : GoesOn s t := by
  refine run?_induction (P := GoesOn s) hRun ⟨SameClient.refl s, Nat.le_refl _, Nat.le_refl _⟩ ?_
  intro a b m hGoesOn hNext
  exact hGoesOn.trans (goesOn_of_move? hNext)

theorem Sound.giveUp (hs : s.Sound) (activity : Activity) : (s.giveUp activity).Sound := by
  have hLength := length_fans_giveUp s activity
  rw [giveUp_eq] at hLength ⊢
  refine ⟨hs.running, hs.ended, fun r hr fan hJoins => ?_⟩
  have := hs.fans r hr fan hJoins
  show fan < (s.giveUp activity).fans.length
  simp only at hLength
  omega

theorem sound_of_move? (hs : s.Sound) (hMove : s.move? m = some t) : t.Sound := by
  cases shape_of_move? hMove with
  | order hr h hOrder =>
    obtain ⟨hMem, rfl⟩ := mem_of_running? hr
    exact h.sound hs (hs.running _ hMem)
  | expire hr h =>
    obtain ⟨hMem, rfl⟩ := mem_of_running? hr
    refine h.sound (hs.giveUp _) ?_
    rw [giveUp_eq]
    exact hs.running _ hMem
  | @branch _ other world change hFrame h hFan =>
    subst h
    refine ⟨hs.running, hs.ended, fun r hr fan hJoins => ?_⟩
    have hLength : (s.fans.modify other change).length = s.fans.length := List.length_modify ..
    exact Nat.lt_of_lt_of_eq (hs.fans r hr fan hJoins) hLength.symm
  | submit h => exact h.sound hs.taken (Nat.lt_succ_self _)
  | rest h =>
    subst h
    exact ⟨hs.running, hs.ended, hs.fans⟩

theorem sound_of_run? {moves : List Move} (hs : s.Sound) (h : s.run? moves = some t) : t.Sound :=
  run?_induction h hs fun hSound hNext => sound_of_move? hSound hNext

theorem sound_of_reachable (h : s.Reachable) : s.Sound := by
  obtain ⟨world, replication, strategy, timeout, picks, moves, hRun⟩ := h
  refine sound_of_run? ⟨?_, ?_, ?_⟩ hRun
  · intro r hr
    simp [ofWorld] at hr
  · intro e he
    simp [ofWorld] at he
  · intro r hr
    simp [ofWorld] at hr

theorem Reachable.run? {moves : List Move} (h : s.Reachable) (hRun : s.run? moves = some t) :
    t.Reachable := by
  obtain ⟨world, replication, strategy, timeout, picks, before, hBefore⟩ := h
  exact ⟨world, replication, strategy, timeout, picks, before ++ moves,
    (run?_append hBefore moves).trans hRun⟩

/-- An order that was given out stays as it is in a move that does not concern it. -/
theorem leavesOrder_of_move? {ticket : Nat} (hTicket : ticket < s.tickets)
    (hOther : ¬ ConcernsOrder ticket m) (hMove : s.move? m = some t) : LeavesOrder ticket s t := by
  cases shape_of_move? hMove with
  | @order _ other r hr h hOrder =>
    refine h.leavesOrder fun hEq => hOther ?_
    rwa [hEq]
  | @expire other r hr h =>
    have hLeaves := h.leavesOrder fun hEq => hOther (hEq ▸ .expire)
    rw [giveUp_eq] at hLeaves
    exact ⟨hLeaves.running, hLeaves.ended⟩
  | branch hFrame h hFan =>
    subst h
    exact ⟨rfl, rfl⟩
  | submit h =>
    have hLeaves := h.leavesOrder (Nat.ne_of_lt hTicket)
    exact ⟨hLeaves.running, hLeaves.ended⟩
  | rest h =>
    subst h
    exact ⟨rfl, rfl⟩

/-- A fan-out that is there stays as it is in a move that concerns neither it nor the order that
joins it. -/
theorem leavesFan_of_move? {ticket fan : Nat} (hFan : fan < s.fans.length)
    (hJoiners : ∀ r ∈ s.running, r.activity = .joining fan → r.ticket = ticket)
    (hOther : ¬ ConcernsOrder ticket m) (hOtherFan : ¬ ConcernsFan fan m)
    (hMove : s.move? m = some t) : LeavesFan fan s t := by
  cases shape_of_move? hMove with
  | order hr h hOrder => exact h.leavesFan hFan
  | @expire other r hr h =>
    obtain ⟨hMem, hr⟩ := mem_of_running? hr
    -- the order that is given up is another one, so it joins another fan-out
    have hActivity : r.activity ≠ .joining fan := fun hJoins =>
      hOther (by rw [← hJoiners r hMem hJoins, hr]; exact .expire)
    have hLeaves : LeavesFan fan (s.giveUp r.activity) t :=
      h.leavesFan (by rw [length_fans_giveUp]; exact hFan)
    have hSame := fans_giveUp (s := s) hActivity
    rw [giveUp_eq] at hLeaves
    exact ⟨hLeaves.branches.trans hSame, hLeaves.joiners⟩
  | @branch _ other world change hFrame h hConcerns =>
    have hNe : other ≠ fan := fun hEq => hOtherFan (by rwa [← hEq])
    subst h
    refine ⟨?_, fun r hr _ => hr⟩
    exact List.getElem?_modify_ne _ _ hNe
  | submit h =>
    have hLeaves := h.leavesFan hFan
    exact ⟨hLeaves.branches, hLeaves.joiners⟩
  | rest h =>
    subst h
    exact ⟨rfl, fun r hr _ => hr⟩

/-- A branch goes on only of a fan-out on which something is left to do. -/
theorem exists_open_of_concernsFan {fan : Nat} (h : ConcernsFan fan m) (hMove : s.move? m = some t) :
    ∃ f, s.fans[fan]? = some f ∧ f.isFinished = false := by
  have hOpen {f : FanOut} {j : Nat} {b : Branch} (hb : f.branches[j]? = some b)
      (hNot : b.isOver = false) : f.isFinished = false := by
    refine Bool.eq_false_iff.mpr fun hFinished => ?_
    rw [List.all_eq_true.mp hFinished b (List.mem_of_getElem? hb)] at hNot
    contradiction
  cases h with
  | start branch =>
    obtain ⟨f, b, hf, hb, hQueued, -⟩ := start?_eq_some hMove
    exact ⟨f, hf, hOpen hb (by simp [Branch.isOver, hQueued])⟩
  | complete branch =>
    obtain ⟨f, b, due, held, hf, hb, hRunning, -⟩ := complete?_eq_some hMove
    exact ⟨f, hf, hOpen hb (by simp [Branch.isOver, hRunning])⟩

/-- What a move of an order comes to whose walk waits for a call. -/
inductive WalkStep (s t : Session) (ticket : Nat) (r : Request) (deadline : Option Duration) (walk : Walk)
    (held : Held) : Move → Prop
  /-- the call is finished, and the walk goes on -/
  | resumes (h : t = s.followWalk ticket r deadline (walk.resume s.world held)) :
      WalkStep s t ticket r deadline walk held (.event (.resume ticket))
  /-- the order is given up -/
  | expires (hDeadline : deadline ≠ none) (after : Duration)
      (h : t = s.return_ ticket (.error (.timeout r.operation after))) :
      WalkStep s t ticket r deadline walk held (.event (.expire ticket))

theorem walkStep_of_move? {ticket : Nat} {r : Request} {deadline : Option Duration} {walk : Walk}
    {due : Duration} {held : Held}
    (hOrder : s.running? ticket =
      some { ticket, order := .request r, deadline, activity := .walking walk due held })
    (hOwn : ConcernsOrder ticket m) (hMove : s.move? m = some t) :
    WalkStep s t ticket r deadline walk held m := by
  cases hOwn with
  | resume =>
    obtain ⟨p, request, walk', due', held', hp, hRequest, hActivity, -, rfl⟩ := resume?_eq_some hMove
    rw [hOrder] at hp
    cases hp
    cases hRequest
    cases hActivity
    exact .resumes rfl
  | expire =>
    obtain ⟨p, due', request, after, hp, hDeadline, hRequest, -, rfl⟩ := expire?_eq_some hMove
    rw [hOrder] at hp
    cases hp
    cases hRequest
    refine .expires ?_ after rfl
    rw [show deadline = some due' from hDeadline]
    exact Option.some_ne_none due'
  | join =>
    -- it waits for no fan-out
    obtain ⟨p, hp, ⟨request, fan, f, -, hActivity, -⟩ | ⟨fans, hActivity, -⟩⟩ := join?_eq_some hMove
    · rw [hOrder] at hp
      cases hp
      contradiction
    · rw [hOrder] at hp
      cases hp
      contradiction

end Session

end ReplicatedStore
