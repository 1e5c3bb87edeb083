import ReplicatedStore.Proofs.Session.Resting

/-!
# Turns

An order has its turn when it is submitted and with each of its own events. In its turn it ends or waits
for something, and starts one fan-out at most, for what it was asked. A fan-out that it starts and does
not join is launched; launched fan-outs that it takes over it waits for. A fan-out that is there remains
what it is: it changes in branches that are not over, and so does not reopen when it is finished.

Main results:

* `Session.turn_of_move?` — all that a move does to orders, to fan-outs and to the cache.
* `Session.kin_of_move?`, `Session.isFinished_of_run?` — what remains of a fan-out.
-/

namespace ReplicatedStore

/-- Whether an order that does this waits for a fan-out to be finished. -/
def Activity.Awaits (activity : Activity) (fan : Nat) : Prop :=
  match activity with
  | walking .. => False
  | joining other => other = fan
  | draining fans => fan ∈ fans

/-- What a move asks of a session. What a stream gives is not known before it is read. -/
inductive Move.Asks : Move → Order → Prop
  | submit (order : Order) : Asks (.submit order) order
  | stream (a : Address) (input : Stream) (failure : String → Link) (data : Bytes) :
      Asks (.submitStream a input failure) (.request (.put a data))

namespace FanOut

/-- What remains of a fan-out as it goes on. -/
structure Kin (f g : FanOut) : Prop where
  request : g.request = f.request
  backends : g.branches.map (·.backend) = f.branches.map (·.backend)
  stays : ∀ (j : Nat) b, f.branches[j]? = some b → b.isOver = true → g.branches[j]? = some b

variable {f g h : FanOut}

theorem Kin.refl (f : FanOut) : Kin f f := ⟨rfl, rfl, fun _ _ hb _ => hb⟩

theorem Kin.trans (hKin : Kin f g) (hKin' : Kin g h) : Kin f h :=
  ⟨hKin'.request.trans hKin.request, hKin'.backends.trans hKin.backends, fun j b hb hOver =>
    hKin'.stays j b (hKin.stays j b hb hOver) hOver⟩

/-- A fan-out that is finished stays so. -/
theorem Kin.isFinished (hKin : Kin f g) (hFinished : f.isFinished = true) : g.isFinished = true := by
  refine List.all_eq_true.mpr fun c hc => ?_
  obtain ⟨j, hj⟩ := List.getElem?_of_mem hc
  have hBackend : (f.branches.map (·.backend))[j]? = some c.backend := by
    rw [← hKin.backends, List.getElem?_map, hj]
    rfl
  rw [List.getElem?_map, Option.map_eq_some_iff] at hBackend
  obtain ⟨b, hb, -⟩ := hBackend
  have hOver : b.isOver = true := List.all_eq_true.mp hFinished b (List.mem_of_getElem? hb)
  rw [hKin.stays j b hb hOver, Option.some.injEq] at hj
  rwa [← hj]

theorem kin_setState {branch : Nat} {b : Branch} (hb : f.branches[branch]? = some b)
    (hOpen : b.isOver = false) (state : BranchState) : Kin f (f.setState branch state) := by
  refine ⟨rfl, backends_setState .., fun j c hc hOver => ?_⟩
  have hNe : branch ≠ j := by
    rintro rfl
    rw [hb, Option.some.injEq] at hc
    rw [hc, hOver] at hOpen
    contradiction
  rw [getElem?_setState_of_ne _ hNe, hc]

theorem kin_complete {branch : Nat} {b : Branch} (hb : f.branches[branch]? = some b)
    (hOpen : b.isOver = false) (name : String) (o : Outcome) : Kin f (f.complete branch name o) :=
  have hKin := kin_setState hb hOpen .finished
  ⟨hKin.request, hKin.backends, hKin.stays⟩

theorem kin_cancel (f : FanOut) : Kin f f.cancel := by
  refine ⟨rfl, ?_, fun j b hb hOver => ?_⟩
  · simp only [cancel, List.map_map]
    refine List.map_congr_left fun b _ => ?_
    simp only [Function.comp]
    split <;> rfl
  · simp only [cancel, List.getElem?_map, hb, Option.map_some, if_pos hOver]

end FanOut

namespace Session

/-- Whether a fan-out was launched, or an order waits for it. -/
def Attends (s : Session) (fan : Nat) : Prop :=
  fan ∈ s.launched ∨ ∃ p ∈ s.running, p.activity.Awaits fan

/-- What an order does in its turn. -/
structure Turns (ticket : Nat) (o : Order) (s t : Session) : Prop where
  /-- it ends, or it waits for something; nobody waits for background writes with a deadline -/
  running : (∃ e, t.running = s.running.filter (·.ticket != ticket) ∧
      t.ended = (ticket, e) :: s.ended) ∨
    ∃ p, p.ticket = ticket ∧ p.order = o ∧
      (∀ fans, p.activity = .draining fans → p.deadline = none) ∧
      t.running = s.running.filter (·.ticket != ticket) ++ [p] ∧ t.ended = s.ended
  /-- it starts no fan-out, or one for what it was asked, that is launched or joined -/
  fans : t.fans = s.fans ∨ ∃ r backends detached, o = .request r ∧
    t.fans = s.fans ++ [.ofBackends r backends detached] ∧ t.Attends s.fans.length
  launched : ∀ fan ∈ s.launched, s.isFinished fan = false → t.Attends fan
  /-- what it puts into the cache was asked for -/
  entries : ∀ e ∈ t.watched.cache.entries, e ∈ s.watched.cache.entries ∨
    ∃ a, o = .request (.get a) ∧ e.key = a.key
  groups : t.readOrder.groups = s.readOrder.groups

/-- What is done in a turn before the order ends or waits. -/
structure Still (o : Order) (s t : Session) : Prop where
  running : t.running = s.running
  ended : t.ended = s.ended
  fans : t.fans = s.fans
  launched : t.launched = s.launched
  entries : ∀ e ∈ t.watched.cache.entries, e ∈ s.watched.cache.entries ∨
    ∃ a, o = .request (.get a) ∧ e.key = a.key
  groups : t.readOrder.groups = s.readOrder.groups

variable {s t u : Session} {ticket fan : Nat} {o : Order} {m : Move}

theorem isFinished_eq_of_fans (h : t.fans = s.fans) (fan : Nat) :
    t.isFinished fan = s.isFinished fan := by
  rw [isFinished, isFinished, h]

namespace Still

theorem refl (o : Order) (s : Session) : Still o s s :=
  ⟨rfl, rfl, rfl, rfl, fun _ he => .inl he, rfl⟩

theorem trans (h : Still o s t) (h' : Still o t u) : Still o s u := by
  refine ⟨h'.running.trans h.running, h'.ended.trans h.ended, h'.fans.trans h.fans,
    h'.launched.trans h.launched, fun e he => ?_, h'.groups.trans h.groups⟩
  rcases h'.entries e he with hOld | hNew
  · exact h.entries e hOld
  · exact .inr hNew

/-- Something else than orders, fan-outs and entries has changed. -/
theorem of_watched (o : Order) (s : Session) {watched : WatchedCache}
    (h : watched.cache.entries ⊆ s.watched.cache.entries) : Still o s { s with watched } :=
  ⟨rfl, rfl, rfl, rfl, fun _ he => .inl (h he), rfl⟩

theorem turns (h : Still o s t) (h' : Turns ticket o t u) : Turns ticket o s u := by
  have hRunning := h'.running
  have hFans := h'.fans
  rw [h.running, h.ended] at hRunning
  rw [h.fans] at hFans
  refine ⟨hRunning, hFans, fun fan hFan hOpen => ?_, fun e he => ?_, h'.groups.trans h.groups⟩
  · refine h'.launched fan (h.launched ▸ hFan) ?_
    rw [isFinished_eq_of_fans h.fans, hOpen]
  · rcases h'.entries e he with hOld | hNew
    · exact h.entries e hOld
    · exact .inr hNew

end Still

/-! ## Ends and waits -/

theorem turns_finish (s : Session) (ticket : Nat) (o : Order) (e : Ended) :
    Turns ticket o s (s.finish ticket e) :=
  ⟨.inl ⟨e, rfl, rfl⟩, .inl rfl, fun _ hFan _ => .inl hFan, fun _ he => .inl he, rfl⟩

theorem turns_suspend (s : Session) {p : Running} (hTicket : p.ticket = ticket) (hOrder : p.order = o)
    (hPatient : ∀ fans, p.activity = .draining fans → p.deadline = none) :
    Turns ticket o s (s.suspend p) := by
  refine ⟨.inr ⟨p, hTicket, hOrder, hPatient, ?_, rfl⟩, .inl rfl, fun _ hFan _ => .inl hFan,
    fun _ he => .inl he, rfl⟩
  rw [← hTicket]
  rfl

theorem still_settle (o : Order) (s : Session) (a : Address) (result : Except StoreError Answer) :
    Still o s (s.settle a result) := by
  unfold settle
  split
  · exact .of_watched o s (Cache.entries_erase_subset ..)
  · split
    · exact .of_watched o s (Cache.entries_erase_subset ..)
    · exact .refl o s

/-- An order that leaves a request to the background ends. -/
theorem turns_replicate (s : Session) (ticket : Nat) (a : Address) (r : Request) (backends : List Nat)
    (result : Except StoreError Answer) :
    Turns ticket (.request r) s (((s.replicate r backends).settle a result).return_ ticket result) := by
  have hSettled := still_settle (.request r) (s.replicate r backends) a result
  unfold replicate at hSettled ⊢
  split
  · rename_i hNone
    rw [if_pos hNone] at hSettled
    exact hSettled.turns (turns_finish ..)
  · rename_i hSome
    rw [if_neg hSome] at hSettled
    refine ⟨.inl ⟨.returned result, ?_, ?_⟩, .inr ⟨r, backends, true, rfl, hSettled.fans, .inl ?_⟩,
      fun fan hFan hOpen => .inl ?_, hSettled.entries, hSettled.groups⟩
    · exact congrArg (List.filter (·.ticket != ticket)) hSettled.running
    · exact congrArg ((ticket, Ended.returned result) :: ·) hSettled.ended
    · show s.fans.length ∈ (Session.settle _ a result).launched
      rw [hSettled.launched]
      exact List.mem_append_right _ (List.mem_singleton_self _)
    · -- what is not finished has not been forgotten
      show fan ∈ (Session.settle _ a result).launched
      rw [hSettled.launched]
      exact List.mem_append_left _ (List.mem_filter.mpr ⟨hFan, by simp [hOpen]⟩)

theorem turns_endWalk (s : Session) (ticket : Nat) (r : Request) (e : WalkEnd) :
    Turns ticket (.request r) s (s.endWalk ticket r e) := by
  unfold endWalk
  split
  · exact turns_finish ..
  · cases r with
    | put a data => exact (still_settle _ s a _).turns (turns_finish ..)
    | get a => exact turns_finish ..
    | remove a => exact turns_finish ..
    | holds a => exact turns_finish ..
  · split
    · rename_i a data
      have hStored : Still (.request (.get a)) s { s with watched := s.watched.store s.now a.key data } := by
        refine ⟨rfl, rfl, rfl, rfl, fun e he => ?_, rfl⟩
        rcases Cache.mem_store he with hOld | ⟨hNew, -⟩
        · exact .inl hOld
        · exact .inr ⟨a, rfl, hNew⟩
      exact hStored.turns (turns_finish ..)
    · exact turns_replicate ..
    · exact turns_finish ..

theorem turns_followWalk (s : Session) (ticket : Nat) (r : Request) (deadline : Option Duration)
    (state : World × WalkState) : Turns ticket (.request r) s (s.followWalk ticket r deadline state) := by
  rcases state with ⟨world, e | ⟨walk, delay, held⟩⟩
  · have hCalled : Still (.request r) s { s with world } :=
      ⟨rfl, rfl, rfl, rfl, fun _ he => .inl he, rfl⟩
    exact hCalled.turns (turns_endWalk ..)
  · have hCalled : Still (.request r) s { s with world } :=
      ⟨rfl, rfl, rfl, rfl, fun _ he => .inl he, rfl⟩
    exact hCalled.turns (turns_suspend _ rfl rfl fun fans hDrains => nomatch hDrains)

theorem turns_startFan (s : Session) (ticket : Nat) (r : Request) :
    Turns ticket (.request r) s (s.startFan ticket r) := by
  have hJoins : Turns ticket (.request r) (s.fanOut (.ofBackends r s.world.mains false))
      (s.startFan ticket r) := turns_suspend _ rfl rfl fun fans hDrains => nomatch hDrains
  refine ⟨hJoins.running, .inr ⟨r, s.world.mains, false, rfl, rfl, .inr ?_⟩,
    fun _ hFan _ => .inl hFan, hJoins.entries, rfl⟩
  exact ⟨_, List.mem_append_right _ (List.mem_singleton_self _), rfl⟩

theorem turns_startRequest (s : Session) (ticket : Nat) (r : Request) :
    Turns ticket (.request r) s (s.startRequest ticket r) := by
  have hLooked (a : Address) : Still (.request r) s (s.lookup a).2 :=
    .of_watched _ s (Cache.entries_lookup_subset ..)
  cases r with
  | get a =>
    have hStill := hLooked a
    unfold startRequest
    simp only
    split
    · rename_i hFound
      rw [hFound] at hStill
      exact hStill.turns (turns_finish ..)
    · rename_i v hFound
      rw [hFound] at hStill
      split
      · exact hStill.turns (turns_finish ..)
      · -- a claim moves the cursor on and leaves the groups
        have hClaimed : Still (.request (.get a)) v { v with readOrder := v.readOrder.claim.2 } := by
          refine ⟨rfl, rfl, rfl, rfl, fun _ he => .inl he, ?_⟩
          show v.readOrder.claim.2.groups = v.readOrder.groups
          unfold ReadOrder.claim
          split
          · rfl
          · rfl
          · split <;> simp_all
        exact (hStill.trans hClaimed).turns (turns_followWalk ..)
  | holds a =>
    have hStill := hLooked a
    unfold startRequest
    simp only
    split
    · rename_i hFound
      rw [hFound] at hStill
      exact hStill.turns (turns_finish ..)
    · rename_i v hFound
      rw [hFound] at hStill
      split
      · exact hStill.turns (turns_finish ..)
      · exact hStill.turns (turns_followWalk ..)
  | put a data =>
    unfold startRequest
    simp only
    split
    · exact turns_finish ..
    · split
      · exact turns_startFan ..
      · exact turns_followWalk ..
  | remove a =>
    unfold startRequest
    simp only
    split
    · exact turns_finish ..
    · exact turns_startFan ..

theorem turns_endDrain (s : Session) (ticket : Nat) (order : Order) :
    Turns ticket order s (s.endDrain ticket order) := by
  cases order with
  | shutdown =>
    have hStopped : Still .shutdown s { s with watched := s.watched.stop } :=
      .of_watched _ s fun _ he => he
    exact hStopped.turns (turns_finish ..)
  | request r => exact turns_finish ..
  | wait => exact turns_finish ..

theorem turns_startDrain (s : Session) (ticket : Nat) (order : Order) :
    Turns ticket order s (s.startDrain ticket order) := by
  unfold startDrain
  simp only
  split
  · rename_i hAll
    have hEnds := turns_endDrain { s with launched := [] } ticket order
    refine ⟨hEnds.running, hEnds.fans, fun fan hFan hOpen => ?_, hEnds.entries, hEnds.groups⟩
    -- all that was launched is finished
    have hFinished : s.isFinished fan = true := List.all_eq_true.mp hAll fan hFan
    rw [hOpen] at hFinished
    contradiction
  · refine ⟨.inr ⟨_, rfl, rfl, fun _ _ => rfl, rfl, rfl⟩, .inl rfl, fun fan hFan _ => .inr ?_,
      fun _ he => .inl he, rfl⟩
    exact ⟨_, List.mem_append_right _ (List.mem_singleton_self _), hFan⟩

theorem turns_submit (s : Session) (order : Order) : Turns s.tickets order s (s.submit order) := by
  have hTaken : Still order s { s with tickets := s.tickets + 1 } :=
    ⟨rfl, rfl, rfl, rfl, fun _ he => .inl he, rfl⟩
  cases order with
  | request r => exact hTaken.turns (turns_startRequest _ s.tickets r)
  | wait => exact hTaken.turns (turns_startDrain _ s.tickets .wait)
  | shutdown => exact hTaken.turns (turns_startDrain _ s.tickets .shutdown)

/-! ## Moves -/

/-- What moves can do, as far as orders, fan-outs and the cache go. -/
inductive Turn (s t : Session) : Move → Prop
  /-- an order that is under way goes on or ends; what it has waited for is finished -/
  | order {m : Move} {ticket : Nat} {p : Running} (hp : s.running? ticket = some p)
      (hOrder : ConcernsOrder ticket m)
      (hDone : ∀ fan, p.activity.Awaits fan → s.isFinished fan = true)
      (h : Turns ticket p.order s t) : Turn s t m
  /-- an order is given up with its fan-out -/
  | expire {ticket : Nat} {p : Running} {e : Ended} (hp : s.running? ticket = some p)
      (hDeadline : p.deadline ≠ none) (h : t = (s.giveUp p.activity).finish ticket e) :
      Turn s t (.event (.expire ticket))
  | branch {m : Move} {fan : Nat} {f : FanOut} {world : World} {change : FanOut → FanOut}
      (hFan : ConcernsFan fan m) (hf : s.fans[fan]? = some f) (hKin : f.Kin (change f))
      (h : t = { s with world }.modifyFan fan change) : Turn s t m
  /-- a new order starts -/
  | submit {m : Move} {o : Order} (hAsks : m.Asks o) (h : Turns s.tickets o s t) : Turn s t m
  /-- only the cache changes, and the time; only who fills the cache adds something to it -/
  | rest {m : Move} {now : Duration} {watched : WatchedCache} (h : t = { s with now, watched })
      (hEntries : ∀ e ∈ watched.cache.entries, e ∈ s.watched.cache.entries ∨ m = .fill e.key e.data) :
      Turn s t m

theorem isOver_eq_false_of_queued {b : Branch} (h : b.state = .queued) : b.isOver = false := by
  simp [Branch.isOver, h]

theorem isOver_eq_false_of_running {b : Branch} {due : Duration} {held : Held}
    (h : b.state = .running due held) : b.isOver = false := by
  simp [Branch.isOver, h]

theorem turn_of_move? (hMove : s.move? m = some t) : Turn s t m := by
  cases m with
  | submit order =>
    cases hMove
    exact .submit (.submit order) (turns_submit s order)
  | submitStream a input failure =>
    cases hMove
    have hTaken (data : Bytes) : Still (.request (.put a data)) s { s with tickets := s.tickets + 1 } :=
      ⟨rfl, rfl, rfl, rfl, fun _ he => .inl he, rfl⟩
    unfold submitStream
    simp only
    split
    · exact .submit (.stream a input failure []) ((hTaken []).turns (turns_finish ..))
    · split
      · exact .submit (.stream a input failure []) ((hTaken []).turns (turns_finish ..))
      · exact .submit (.stream a input failure _) (turns_submit s _)
  | tick time =>
    cases hMove
    obtain ⟨watched, now, hEq, hEntries⟩ := tick_eq s time
    exact .rest hEq fun _ he => .inl (hEntries he)
  | cache order =>
    cases hMove
    exact .rest rfl fun _ he => .inl (entries_apply_subset order s.watched s.now he)
  | fill key data =>
    cases hMove
    refine .rest rfl fun e he => ?_
    rcases Cache.mem_store he with hOld | ⟨rfl, rfl⟩
    · exact .inl hOld
    · exact .inr rfl
  | event e =>
    cases e with
    | resume ticket =>
      obtain ⟨p, request, walk, due, held, hp, hOrder, hActivity, -, rfl⟩ := resume?_eq_some hMove
      refine .order hp .resume (fun fan hAwaits => ?_) ?_
      · rw [hActivity] at hAwaits
        exact hAwaits.elim
      · rw [hOrder]
        exact turns_followWalk ..
    | expire ticket =>
      obtain ⟨p, deadline, request, after, hp, hDeadline, -, -, rfl⟩ := expire?_eq_some hMove
      refine .expire hp ?_ rfl
      rw [hDeadline]
      exact Option.some_ne_none deadline
    | start fan branch =>
      obtain ⟨f, b, hf, hb, hQueued, ⟨world, delay, held, -, rfl⟩ | ⟨world, o, -, rfl⟩⟩ :=
        start?_eq_some hMove
      · exact .branch (.start branch) hf (FanOut.kin_setState hb (isOver_eq_false_of_queued hQueued) _) rfl
      · exact .branch (.start branch) hf (FanOut.kin_complete hb (isOver_eq_false_of_queued hQueued) ..) rfl
    | complete fan branch =>
      obtain ⟨f, b, due, held, hf, hb, hRunning, -, rfl⟩ := complete?_eq_some hMove
      exact .branch (.complete branch) hf
        (FanOut.kin_complete hb (isOver_eq_false_of_running hRunning) ..) rfl
    | join ticket =>
      obtain ⟨p, hp, ⟨request, other, f, hOrder, hActivity, hf, hFinished, rfl⟩ |
        ⟨fans, hActivity, hFinished, rfl⟩⟩ := join?_eq_some hMove
      · refine .order hp .join (fun fan hAwaits => ?_) ?_
        · rw [hActivity] at hAwaits
          obtain rfl : other = fan := hAwaits
          rw [isFinished, hf, Option.all_some, hFinished]
        · rw [hOrder]
          exact (still_settle ..).turns (turns_finish ..)
      · refine .order hp .join (fun fan hAwaits => ?_) (turns_endDrain ..)
        rw [hActivity] at hAwaits
        exact List.all_eq_true.mp hFinished fan hAwaits

/-! ## Who is under way -/

theorem mem_filter_ticket {p : Running} (hp : p ∈ s.running) (hNe : p.ticket ≠ ticket) :
    p ∈ s.running.filter (·.ticket != ticket) :=
  List.mem_filter.mpr ⟨hp, by simpa using hNe⟩

theorem ticket_ne_of_mem_filter {p : Running} (hp : p ∈ s.running.filter (·.ticket != ticket)) :
    p ∈ s.running ∧ p.ticket ≠ ticket := by
  obtain ⟨hMem, hNe⟩ := List.mem_filter.mp hp
  exact ⟨hMem, by simpa using hNe⟩

/-- Of the orders under way a turn leaves the others alone. -/
theorem Turns.mem_running (h : Turns ticket o s t) {p : Running} (hp : p ∈ t.running) :
    p ∈ s.running ∧ p.ticket ≠ ticket ∨ p.ticket = ticket ∧ p.order = o := by
  rcases h.running with ⟨e, hRunning, -⟩ | ⟨q, hTicket, hOrder, -, hRunning, -⟩
  · rw [hRunning] at hp
    exact .inl (ticket_ne_of_mem_filter hp)
  · rw [hRunning, List.mem_append, List.mem_singleton] at hp
    rcases hp with hOld | rfl
    · exact .inl (ticket_ne_of_mem_filter hOld)
    · exact .inr ⟨hTicket, hOrder⟩

theorem Turns.mem_running_of_ne (h : Turns ticket o s t) {p : Running} (hp : p ∈ s.running)
    (hNe : p.ticket ≠ ticket) : p ∈ t.running := by
  have hMem := mem_filter_ticket hp hNe
  rcases h.running with ⟨e, hRunning, -⟩ | ⟨q, -, -, -, hRunning, -⟩
  · rw [hRunning]
    exact hMem
  · rw [hRunning]
    exact List.mem_append_left _ hMem

/-- An order that goes on after a move was under way before, or the move has asked for it. -/
theorem mem_running_of_move? (hMove : s.move? m = some t) {p : Running} (hp : p ∈ t.running) :
    (∃ q ∈ s.running, q.order = p.order) ∨ m.Asks p.order := by
  cases turn_of_move? hMove with
  | order hq hOrder hDone h =>
    rcases h.mem_running hp with ⟨hOld, -⟩ | ⟨-, hSame⟩
    · exact .inl ⟨p, hOld, rfl⟩
    · exact .inl ⟨_, (mem_of_running? hq).1, hSame.symm⟩
  | submit hAsks h =>
    rcases h.mem_running hp with ⟨hOld, -⟩ | ⟨-, hSame⟩
    · exact .inl ⟨p, hOld, rfl⟩
    · exact .inr (hSame ▸ hAsks)
  | @expire ticket q e hq hDeadline h =>
    rw [giveUp_eq] at h
    have hRunning : t.running = s.running.filter (·.ticket != ticket) := by rw [h]; rfl
    rw [hRunning] at hp
    exact .inl ⟨p, (ticket_ne_of_mem_filter hp).1, rfl⟩
  | branch hFan hf hKin h =>
    subst h
    exact .inl ⟨p, hp, rfl⟩
  | rest h =>
    subst h
    exact .inl ⟨p, hp, rfl⟩

/-- An entry of the cache after a move was there before, or who makes the move has put it there, or an
order to get it was under way or was asked for by the move. -/
theorem mem_entries_of_move? (hMove : s.move? m = some t) {e : CacheEntry}
    (he : e ∈ t.watched.cache.entries) :
    e ∈ s.watched.cache.entries ∨ m = .fill e.key e.data ∨ ∃ a, e.key = Address.key a ∧
      ((∃ p ∈ s.running, p.order = .request (.get a)) ∨ m.Asks (.request (.get a))) := by
  cases turn_of_move? hMove with
  | order hp hOrder hDone h =>
    rcases h.entries e he with hOld | ⟨a, hSame, hKey⟩
    · exact .inl hOld
    · exact .inr (.inr ⟨a, hKey, .inl ⟨_, (mem_of_running? hp).1, hSame⟩⟩)
  | submit hAsks h =>
    rcases h.entries e he with hOld | ⟨a, rfl, hKey⟩
    · exact .inl hOld
    · exact .inr (.inr ⟨a, hKey, .inr hAsks⟩)
  | expire hp hDeadline h =>
    rw [giveUp_eq] at h
    subst h
    exact .inl he
  | branch hFan hf hKin h =>
    subst h
    exact .inl he
  | rest h hEntries =>
    subst h
    rcases hEntries e he with hOld | hFills
    · exact .inl hOld
    · exact .inr (.inl hFills)

/-- The groups in which backends are read stay what they are. -/
theorem groups_of_move? (hMove : s.move? m = some t) : t.readOrder.groups = s.readOrder.groups := by
  cases turn_of_move? hMove with
  | order hp hOrder hDone h => exact h.groups
  | submit hAsks h => exact h.groups
  | expire hp hDeadline h =>
    rw [giveUp_eq] at h
    subst h
    rfl
  | branch hFan hf hKin h =>
    subst h
    rfl
  | rest h =>
    subst h
    rfl

/-! ## Fan-outs that go on -/

theorem kin_of_turns {k : Nat} {f : FanOut} (h : Turns ticket o s t) (hf : s.fans[k]? = some f) :
    ∃ g, t.fans[k]? = some g ∧ f.Kin g := by
  have hLt := (List.getElem?_eq_some_iff.mp hf).1
  rcases h.fans with hSame | ⟨r, backends, detached, -, hFans, -⟩
  · exact ⟨f, hSame ▸ hf, .refl f⟩
  · rw [hFans]
    exact ⟨f, (List.getElem?_append_left hLt).trans hf, .refl f⟩

theorem kin_giveUp {k : Nat} {f : FanOut} (activity : Activity) (hf : s.fans[k]? = some f) :
    ∃ g, (s.giveUp activity).fans[k]? = some g ∧ f.Kin g := by
  by_cases hJoins : activity = .joining k
  · subst hJoins
    exact ⟨f.cancel, getElem?_modifyFan_self hf _, FanOut.kin_cancel f⟩
  · exact ⟨f, (fans_giveUp hJoins).trans hf, .refl f⟩

/-- A fan-out goes on as what it is. -/
theorem kin_of_move? {k : Nat} {f : FanOut} (hMove : s.move? m = some t) (hf : s.fans[k]? = some f) :
    ∃ g, t.fans[k]? = some g ∧ f.Kin g := by
  cases turn_of_move? hMove with
  | order hp hOrder hDone h => exact kin_of_turns h hf
  | submit hAsks h => exact kin_of_turns h hf
  | @expire ticket p e hp hDeadline h =>
    rw [h]
    exact kin_giveUp p.activity hf
  | @branch _ fan g world change hFan hg hKin h =>
    subst h
    by_cases hEq : fan = k
    · subst hEq
      rw [hg, Option.some.injEq] at hf
      subst hf
      exact ⟨change g, getElem?_modifyFan_self (s := { s with world }) hg change, hKin⟩
    · exact ⟨f, (List.getElem?_modify_ne _ _ hEq).trans hf, .refl f⟩
  | rest h =>
    subst h
    exact ⟨f, hf, .refl f⟩

theorem kin_of_run? {k : Nat} {f : FanOut} {moves : List Move} (hRun : s.run? moves = some t)
    (hf : s.fans[k]? = some f) : ∃ g, t.fans[k]? = some g ∧ f.Kin g := by
  refine run?_induction (P := fun s => ∃ g, s.fans[k]? = some g ∧ f.Kin g) hRun ⟨f, hf, .refl f⟩ ?_
  rintro a b m ⟨g, hg, hKin⟩ hMove
  obtain ⟨g', hg', hKin'⟩ := kin_of_move? hMove hg
  exact ⟨g', hg', hKin.trans hKin'⟩

/-- A fan-out that is there and is finished stays so. -/
theorem isFinished_of_run? {moves : List Move} (hRun : s.run? moves = some t)
    (hFan : fan < s.fans.length) (hFinished : s.isFinished fan = true) : t.isFinished fan = true := by
  have hf : s.fans[fan]? = some s.fans[fan] := List.getElem?_eq_getElem hFan
  obtain ⟨g, hg, hKin⟩ := kin_of_run? hRun hf
  rw [isFinished, hf, Option.all_some] at hFinished
  rw [isFinished, hg, Option.all_some]
  exact hKin.isFinished hFinished

theorem isFinished_of_move? (hMove : s.move? m = some t) (hFan : fan < s.fans.length)
    (hFinished : s.isFinished fan = true) : t.isFinished fan = true :=
  isFinished_of_run? (run?_singleton hMove) hFan hFinished

/-- Only what is there can be unfinished. -/
theorem lt_of_isFinished_eq_false (h : s.isFinished fan = false) : fan < s.fans.length := by
  by_contra hNot
  rw [isFinished, List.getElem?_eq_none (Nat.le_of_not_lt hNot)] at h
  contradiction

/-! ## What is served -/

/-- Whether all orders under way, and all fan-outs from a number on, are for requests of a kind. -/
structure AllFor (P : Request → Prop) (n : Nat) (s : Session) : Prop where
  running : ∀ p ∈ s.running, ∀ r, p.order = .request r → P r
  fans : ∀ (k : Nat) f, n ≤ k → s.fans[k]? = some f → P f.request

/-- A fan-out that is started by a move is for a request of an order that was under way, or for one
that the move has asked. -/
theorem request_of_move? {k : Nat} {g : FanOut} (hMove : s.move? m = some t)
    (hNew : s.fans.length ≤ k) (hg : t.fans[k]? = some g) :
    (∃ p ∈ s.running, p.order = .request g.request) ∨ m.Asks (.request g.request) := by
  have hLt := (List.getElem?_eq_some_iff.mp hg).1
  -- only a turn starts fan-outs, one at most
  have hStarted {ticket : Nat} {o : Order} (hTurns : Turns ticket o s t) :
      o = .request g.request := by
    rcases hTurns.fans with hSame | ⟨r, backends, detached, rfl, hFans, -⟩
    · rw [hSame] at hLt
      omega
    · rw [hFans, List.getElem?_append_right hNew, List.getElem?_singleton] at hg
      split at hg
      · rw [← Option.some.inj hg]
        rfl
      · contradiction
  cases turn_of_move? hMove with
  | order hp hOrder hDone hTurns => exact .inl ⟨_, (mem_of_running? hp).1, hStarted hTurns⟩
  | submit hAsks hTurns => exact .inr (hStarted hTurns ▸ hAsks)
  | @expire ticket p e hp hDeadline hEnds =>
    have hLength := length_fans_giveUp s p.activity
    have hFans : t.fans = (s.giveUp p.activity).fans := by rw [hEnds]; rfl
    rw [hFans] at hLt
    omega
  | @branch _ fan f world change hFan hf hKin hEq =>
    subst hEq
    have hLength : (s.fans.modify fan change).length = s.fans.length := List.length_modify ..
    have hLt : k < (s.fans.modify fan change).length := hLt
    omega
  | rest hEq =>
    subst hEq
    have hLt : k < s.fans.length := hLt
    omega

/-- As long as nothing else is asked for, nothing else is served. -/
theorem allFor_of_move? {P : Request → Prop} {n : Nat} (h : s.AllFor P n)
    (hAsks : ∀ r, m.Asks (.request r) → P r) (hMove : s.move? m = some t) : t.AllFor P n := by
  constructor
  · intro p hp r hOrder
    rcases mem_running_of_move? hMove hp with ⟨q, hq, hSame⟩ | hAsked
    · exact h.running q hq r (hSame.trans hOrder)
    · exact hAsks r (hOrder ▸ hAsked)
  · intro k g hk hg
    by_cases hOld : k < s.fans.length
    · -- a fan-out that was there is still for the same request
      have hf : s.fans[k]? = some s.fans[k] := List.getElem?_eq_getElem hOld
      obtain ⟨g', hg', hKin⟩ := kin_of_move? hMove hf
      rw [hg, Option.some.injEq] at hg'
      rw [hg', hKin.request]
      exact h.fans k _ hk hf
    · rcases request_of_move? hMove (Nat.le_of_not_lt hOld) hg with ⟨p, hp, hOrder⟩ | hAsked
      · exact h.running p hp _ hOrder
      · exact hAsks _ hAsked

end Session

end ReplicatedStore
