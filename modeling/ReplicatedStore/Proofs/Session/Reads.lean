import ReplicatedStore.Proofs.Session.ReadServing
import ReplicatedStore.Proofs.Session.Trying

/-!
# Reads among other orders

A read is served from the cache at once, or it sets a walk going and consults backends while anything
else may happen in the session. As long as it is under way it stands as the outcomes of its own calls
tell, and so it does when it ends, unless its deadline has passed before. With nothing but its own
events it can always be brought to its end.

Main results:

* `Session.submit_of_walk?`, `Session.submit_of_served` — how a read starts.
* `Session.consulting_of_move?` — a read goes on to consult backends, ends as they tell, or times out.
* `Session.consulted_of_returns` — how a read ends.
* `Session.exists_returns_of_consulting` — that it can be brought to its end.
-/

namespace ReplicatedStore

namespace Session

/-- The walk that a new read sets going, if it turns to backends. -/
def walk? (s : Session) (r : Request) : Option Walk :=
  match (s.watched.cache.lookup s.now r.address.key).1, r with
  | none, .get a =>
    if s.world.backends.isEmpty then none else some (.ofOrder .fetch a s.readOrder.claim.1)
  | none, .holds a =>
    if s.world.backends.isEmpty then none else some (.ofOrder .probe a s.world.readGroups.flatten)
  | _, _ => none

/-- What a move lets the walk of a read call. Walks of other orders are followed when they go on. -/
def calls? (s : Session) : Move → Option Going
  | .submit (.request r) =>
    (s.walk? r).map fun start => ⟨s.tickets, r, start.trailFrom s.world start.todo⟩
  | .event (.resume ticket) => s.going? (.event (.resume ticket))
  | _ => none

/-- What a move lets the walk of the order with a ticket call. -/
def consults? (ticket : Nat) (s : Session) (m : Move) : Option Trail :=
  (s.calls? m).bind fun g => if g.ticket = ticket then some g.trail else none

/-- What the walk of the order with a ticket calls in a run. -/
def consulted (ticket : Nat) (s : Session) (moves : List Move) : Trail :=
  (s.noted (consults? ticket) moves).foldr (· ++ ·) {}

/-- An order that is under way with its walk, and with all that the walk has called since its start. -/
structure Consulting (s : Session) (ticket : Nat) (start : Walk) (deadline : Option Duration)
    (trail : Trail) : Prop where
  sound : s.Sound
  mindful : s.Mindful
  unended : s.ended? ticket = none
  suits : trail.Suits start.request
  walking : ∃ walk due delay held,
    s.running? ticket =
      some { ticket, order := .request start.request, deadline, activity := .walking walk due held } ∧
    Walk.Went s.world.nameOf start trail (.suspended walk delay held)

/-- An order that has ended with its walk, by all that the walk has called since its start. -/
structure Consulted (t : Session) (ticket : Nat) (start : Walk) (trail : Trail) (e : WalkEnd) :
    Prop where
  suits : trail.Suits start.request
  went : Walk.Went t.world.nameOf start trail (.over e)
  ends : t.Over ticket e.ended

/-- An order that was given up because its deadline had passed. -/
def TimedOut (t : Session) (ticket : Nat) (deadline : Option Duration) (r : Request) : Prop :=
  deadline ≠ none ∧ ∃ after, t.Over ticket (.returned (.error (.timeout r.operation after)))

variable {s t u x : Session} {ticket : Nat} {r : Request} {start walk : Walk}
  {deadline : Option Duration} {trail : Trail} {m : Move} {moves : List Move}

/-! ## Trails of a run -/

theorem foldr_append_trail (trails : List Trail) (last : Trail) :
    trails.foldr (· ++ ·) last = trails.foldr (· ++ ·) {} ++ last := by
  induction trails with
  | nil =>
    show last = Trail.append {} last
    simp [Trail.append]
  | cons first rest ih => rw [List.foldr_cons, List.foldr_cons, ih, Trail.append_assoc]

theorem consulted_append {first : List Move} (hRun : s.run? first = some t) (rest : List Move) :
    consulted ticket s (first ++ rest) = consulted ticket s first ++ consulted ticket t rest := by
  unfold consulted
  rw [noted_append _ hRun, List.foldr_append, foldr_append_trail]

theorem consulted_singleton (s : Session) (ticket : Nat) (m : Move) :
    consulted ticket s [m] = (consults? ticket s m).getD {} := by
  unfold consulted
  rw [noted_singleton]
  cases consults? ticket s m with
  | none => rfl
  | some trail => simp

theorem consulted_cons (hMove : s.move? m = some t) (rest : List Move) :
    consulted ticket s (m :: rest) = (consults? ticket s m).getD {} ++ consulted ticket t rest := by
  rw [← consulted_singleton]
  exact consulted_append (run?_singleton hMove) rest

/-- Only an order's own walk calls for it. -/
theorem consults?_of_others (hTicket : ticket < s.tickets) (hOther : ¬ ConcernsOrder ticket m) :
    consults? ticket s m = none := by
  unfold consults?
  rw [Option.bind_eq_none_iff]
  intro g hg
  refine if_neg fun hEq => ?_
  unfold calls? at hg
  split at hg
  · -- a new order has a ticket of its own
    obtain ⟨start, -, rfl⟩ := Option.map_eq_some_iff.mp hg
    exact absurd hEq (Nat.ne_of_gt hTicket)
  · simp only [going?, Option.bind_eq_bind, Option.bind_eq_some_iff] at hg
    obtain ⟨p, -, hg⟩ := hg
    split at hg
    · cases hg
      exact hOther (hEq ▸ .resume)
    · contradiction
  · contradiction

/-! ## How reads start -/

theorem request_of_walk? (h : s.walk? r = some start) : start.request = r := by
  unfold walk? at h
  split at h
  · split at h
    · contradiction
    · cases h
      rfl
  · split at h
    · contradiction
    · cases h
      rfl
  · contradiction

theorem walk?_get {a : Address} (h : s.walk? (.get a) = some start) :
    start = .ofOrder .fetch a s.readOrder.claim.1 := by
  unfold walk? at h
  split at h
  · split at h
    · contradiction
    · rename_i hEq hSome
      cases hEq
      exact (Option.some.inj h).symm
  · contradiction
  · contradiction

/-- A read that turns to backends. -/
theorem submit_of_walk? (h : s.walk? r = some start) : ∃ readOrder, s.submit (.request r) =
    { s.looked r.address with readOrder }.followWalk s.tickets r s.deadline (start.go s.world) := by
  unfold walk? at h
  split at h
  · rename_i a hLookup
    split at h
    · contradiction
    · rename_i hSome
      cases h
      refine ⟨s.readOrder.claim.2, ?_⟩
      rw [submit_get, show (s.watched.cache.lookup s.now a.key).1 = none from hLookup]
      exact if_neg hSome
  · rename_i a hLookup
    split at h
    · contradiction
    · rename_i hSome
      cases h
      refine ⟨s.readOrder, ?_⟩
      simp only [submit, startRequest, lookup, WatchedCache.lookup]
      rw [show (s.watched.cache.lookup s.now a.key).1 = none from hLookup]
      exact if_neg hSome
  · contradiction

/-- A read that does not turn to backends has found the object in the cache, or there is no backend. -/
theorem submit_of_served (hRead : r.isWrite = false) (h : s.walk? r = none) :
    (∃ e ∈ s.watched.cache.entries, e.key = r.address.key ∧ s.submit (.request r) =
        (s.looked r.address).return_ s.tickets (.ok (r.gives e.data))) ∨
      s.world.backends = [] ∧
        s.submit (.request r) = (s.looked r.address).return_ s.tickets (.error .noBackends) := by
  have hFound {data : Bytes} (hLookup : (s.watched.cache.lookup s.now r.address.key).1 = some data) :
      ∃ e ∈ s.watched.cache.entries, e.key = r.address.key ∧ e.data = data := by
    obtain ⟨e, he, hKey, hData⟩ := Cache.mem_of_lookup hLookup
    exact ⟨e, he, hKey, hData⟩
  cases r with
  | put a data => contradiction
  | remove a => contradiction
  | get a =>
    rw [submit_get]
    unfold walk? at h
    cases hLookup : (s.watched.cache.lookup s.now a.key).1 with
    | some data =>
      obtain ⟨e, he, hKey, rfl⟩ := hFound hLookup
      exact .inl ⟨e, he, hKey, rfl⟩
    | none =>
      rw [show (s.watched.cache.lookup s.now (Request.get a).address.key).1 = none from hLookup] at h
      right
      by_cases hEmpty : s.world.backends.isEmpty = true
      · exact ⟨List.isEmpty_iff.mp hEmpty, if_pos hEmpty⟩
      · simp [hEmpty] at h
  | holds a =>
    simp only [submit, startRequest, lookup, WatchedCache.lookup]
    unfold walk? at h
    cases hLookup : (s.watched.cache.lookup s.now a.key).1 with
    | some data =>
      obtain ⟨e, he, hKey, rfl⟩ := hFound hLookup
      exact .inl ⟨e, he, hKey, rfl⟩
    | none =>
      rw [show (s.watched.cache.lookup s.now (Request.holds a).address.key).1 = none from hLookup] at h
      right
      by_cases hEmpty : s.world.backends.isEmpty = true
      · exact ⟨List.isEmpty_iff.mp hEmpty, if_pos hEmpty⟩
      · simp [hEmpty] at h

/-! ## How reads go on -/

/-- A walk that was set going for an order waits, or it ends the order. -/
theorem consulting_or_consulted {state : World × WalkState} (hSuits : trail.Suits start.request)
    (hWent : Walk.Went state.1.nameOf start trail state.2) (hTicket : ticket < x.tickets)
    (hFrame : state.1.frame = x.world.frame)
    (hSound : (x.followWalk ticket start.request deadline state).Sound)
    (hMindful : (x.followWalk ticket start.request deadline state).Mindful)
    (hOpen : x.ended? ticket = none) :
    Consulting (x.followWalk ticket start.request deadline state) ticket start deadline trail ∨
      ∃ e, Consulted (x.followWalk ticket start.request deadline state) ticket start trail e := by
  rcases state with ⟨v, e | ⟨walk, delay, held⟩⟩
  · right
    have hWorld : (x.followWalk ticket start.request deadline (v, .over e)).world = v :=
      world_followWalk ..
    have hTickets := (advances_followWalk x ticket start.request deadline hFrame).tickets
    refine ⟨e, hSuits, ?_, hSound, ?_, running?_endWalk .., ended?_endWalk ..⟩
    · rw [hWorld]
      exact hWent
    · rw [hTickets]
      exact hTicket
  · exact .inl ⟨hSound, hMindful, hOpen, hSuits, walk, x.now + delay, delay, held,
      running?_suspend_self .., hWent⟩

/-- A read that turns to backends consults them from its start on. -/
theorem consulting_submit (hs : s.Sound) (hMindful : s.Mindful) (h : s.walk? r = some start) :
    Consulting (s.submit (.request r)) s.tickets start s.deadline
        ((consults? s.tickets s (.submit (.request r))).getD {}) ∨
      ∃ e, Consulted (s.submit (.request r)) s.tickets start
        ((consults? s.tickets s (.submit (.request r))).getD {}) e := by
  have hMove : s.move? (.submit (.request r)) = some (s.submit (.request r)) := rfl
  have hSound := sound_of_move? hs hMove
  have hMinds := mindful_of_move? hMindful hMove
  have hTrail : (consults? s.tickets s (.submit (.request r))).getD {} =
      start.trailFrom s.world start.todo := by
    simp [consults?, calls?, h]
  have hRequest := request_of_walk? h
  obtain ⟨readOrder, hSubmit⟩ := submit_of_walk? h
  have hSuits := Walk.suits_trailFrom start s.world start.todo
  have hFrame : (start.go s.world).1.frame = s.world.frame := frame_goFrom ..
  have hWent := Walk.went_go start s.world
  rw [← World.nameOf_of_frame_eq hFrame] at hWent
  rw [hTrail]
  rw [hSubmit] at hSound hMinds ⊢
  subst hRequest
  exact consulting_or_consulted hSuits hWent (Nat.lt_succ_self _) hFrame hSound hMinds
    (ended?_of_sound hs (Nat.le_refl _))

/-- A move that does not concern the order. -/
theorem consulting_of_others (h : Consulting s ticket start deadline trail)
    (hOther : ¬ ConcernsOrder ticket m) (hMove : s.move? m = some t) :
    Consulting t ticket start deadline trail := by
  obtain ⟨walk, due, delay, held, hOrder, hWent⟩ := h.walking
  obtain ⟨hMem, -⟩ := mem_of_running? hOrder
  have hLeaves := leavesOrder_of_move? (h.sound.running _ hMem) hOther hMove
  refine ⟨sound_of_move? h.sound hMove, mindful_of_move? h.mindful hMove,
    hLeaves.ended.trans h.unended, h.suits, walk, due, delay, held, hLeaves.running.trans hOrder, ?_⟩
  rw [World.nameOf_of_frame_eq (goesOn_of_move? hMove).frame]
  exact hWent

/-- An order that consults backends goes on, ends as they tell, or times out. -/
theorem consulting_of_move? (h : Consulting s ticket start deadline trail)
    (hMove : s.move? m = some t) :
    Consulting t ticket start deadline (trail ++ (consults? ticket s m).getD {}) ∨
      (∃ e, Consulted t ticket start (trail ++ (consults? ticket s m).getD {}) e) ∨
      TimedOut t ticket deadline start.request := by
  obtain ⟨walk, due, delay, held, hOrder, hWent⟩ := h.walking
  obtain ⟨hMem, -⟩ := mem_of_running? hOrder
  have hGiven : ticket < s.tickets := h.sound.running _ hMem
  have hSound := sound_of_move? h.sound hMove
  have hMinds := mindful_of_move? h.mindful hMove
  -- only its own moves bring an order further
  by_cases hOwn : ConcernsOrder ticket m
  · cases walkStep_of_move? hOrder hOwn hMove with
    | resumes hEq =>
      subst hEq
      have hTrail : (consults? ticket s (.event (.resume ticket))).getD {} =
          walk.trailAfter s.world held := by
        simp [consults?, calls?, going?, hOrder]
      have hMinds' := h.mindful.running _ hMem _ walk due held rfl rfl
      have hFrame := frame_resume s.world walk held
      have hNext := Walk.went_resume hWent rfl
      rw [← World.nameOf_of_frame_eq hFrame] at hNext
      have hSuits := h.suits.append (Walk.suits_trailAfter hMinds')
      rw [hTrail]
      rcases consulting_or_consulted hSuits hNext hGiven hFrame hSound hMinds h.unended with
        hGoesOn | hEnds
      · exact .inl hGoesOn
      · exact .inr (.inl hEnds)
    | expires hDeadline after hEq =>
      subst hEq
      exact .inr (.inr ⟨hDeadline, after, hSound, hGiven, running?_finish_self .., ended?_finish_self ..⟩)
  · rw [consults?_of_others hGiven hOwn, Option.getD_none, Trail.append_empty]
    exact .inl (consulting_of_others h hOwn hMove)

/-- An order that has consulted backends, or has timed out, is over. -/
theorem exists_over_of_consulted
    (h : (∃ e, Consulted t ticket start trail e) ∨ TimedOut t ticket deadline r) :
    ∃ e, t.Over ticket e := by
  rcases h with ⟨e, hConsulted⟩ | ⟨-, after, hOver⟩
  · exact ⟨e.ended, hConsulted.ends⟩
  · exact ⟨_, hOver⟩

theorem consulting_of_pending (h : Consulting s ticket start deadline trail)
    (hPending : s.Pending ticket moves t) :
    Consulting t ticket start deadline (trail ++ consulted ticket s moves) := by
  induction moves generalizing s trail with
  | nil =>
    have hRun := hPending.run
    rw [run?, Option.some.injEq] at hRun
    rw [← hRun]
    show Consulting s ticket start deadline (trail ++ ({} : Trail))
    rwa [Trail.append_empty]
  | cons m rest ih =>
    obtain ⟨u, hMove, hRest⟩ := hPending.of_cons
    rw [consulted_cons hMove, ← Trail.append_assoc]
    rcases consulting_of_move? h hMove with hNext | hEnds
    · exact ih hNext hRest
    · obtain ⟨e, hOver⟩ := exists_over_of_consulted hEnds
      have hEnded := hOver.ended
      rw [hRest.unended] at hEnded
      contradiction

theorem consulting_of_submitted (hs : s.Sound) (hMindful : s.Mindful) (hWalk : s.walk? r = some start)
    (hPending : s.Pending s.tickets (.submit (.request r) :: moves) t) :
    Consulting t s.tickets start s.deadline
      (consulted s.tickets s (.submit (.request r) :: moves)) := by
  obtain ⟨u, hMove, hRest⟩ := hPending.of_cons
  rw [consulted_cons hMove]
  cases hMove
  rcases consulting_submit hs hMindful hWalk with hConsulting | ⟨e, hEnds⟩
  · exact consulting_of_pending hConsulting hRest
  · have hEnded := hEnds.ends.ended
    rw [hRest.unended] at hEnded
    contradiction

/-- A read that turns to backends ends as they tell, or by its deadline. -/
theorem consulted_of_returns {e : Ended} (hs : s.Sound) (hMindful : s.Mindful)
    (hWalk : s.walk? r = some start)
    (hReturns : s.Returns s.tickets (.submit (.request r) :: moves) t e) :
    (∃ w, e = w.ended ∧
      Consulted t s.tickets start (consulted s.tickets s (.submit (.request r) :: moves)) w) ∨
      s.deadline ≠ none ∧ ∃ after, e = .returned (.error (.timeout r.operation after)) := by
  have hEnds : (∃ w, Consulted t s.tickets start
      (consulted s.tickets s (.submit (.request r) :: moves)) w) ∨
      TimedOut t s.tickets s.deadline r := by
    have hOpen := ended?_of_sound hs (Nat.le_refl _)
    obtain ⟨before, last, u, hMoves, hPending, hMove⟩ := hReturns.exists_last hOpen
    have hRequest := request_of_walk? hWalk
    rw [hMoves, consulted_append hPending.run, consulted_singleton]
    -- the order ends with its submission, or with a later move
    cases before with
    | nil =>
      obtain ⟨rfl, -⟩ := List.cons.inj hMoves
      have hRun := hPending.run
      rw [run?, Option.some.injEq] at hRun
      subst hRun
      cases hMove
      rcases consulting_submit hs hMindful hWalk with hConsulting | ⟨w, hConsulted⟩
      · have hEnded := hReturns.ended
        rw [hConsulting.unended] at hEnded
        contradiction
      · refine .inl ⟨w, ?_⟩
        show Consulted _ _ _ (Trail.append {} _) w
        simpa [Trail.append] using hConsulted
    | cons m rest =>
      obtain ⟨rfl, -⟩ := List.cons.inj hMoves
      have hConsulting := consulting_of_submitted hs hMindful hWalk hPending
      rcases consulting_of_move? hConsulting hMove with hNext | hEnds
      · have hEnded := hReturns.ended
        rw [hNext.unended] at hEnded
        contradiction
      · rwa [hRequest] at hEnds
  rcases hEnds with ⟨w, hConsulted⟩ | ⟨hDeadline, after, hOver⟩
  · have hEnded := hReturns.ended
    rw [hConsulted.ends.ended, Option.some.injEq] at hEnded
    exact .inl ⟨w, hEnded.symm, hConsulted⟩
  · have hEnded := hReturns.ended
    rw [hOver.ended, Option.some.injEq] at hEnded
    exact .inr ⟨hDeadline, after, hEnded.symm⟩

/-- An order that consults backends can be brought to its end by its own events. -/
theorem exists_returns_of_consulting (h : Consulting s ticket start deadline trail) :
    ∃ moves t e, (∀ m ∈ moves, ConcernsOrder ticket m ∨ ∃ time, m = .tick time) ∧
      s.Returns ticket moves t e := by
  obtain ⟨walk, due, delay, held, hOrder, -⟩ := h.walking
  exact exists_returns_of_mindful h.mindful h.unended hOrder

end Session

end ReplicatedStore
