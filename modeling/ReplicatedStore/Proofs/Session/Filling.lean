import ReplicatedStore.Proofs.Session.Reads
import ReplicatedStore.Proofs.Session.Turns

/-!
# How the cache is filled

Apart from callers who do so themselves only a fetch puts something into the cache: its walk has found a
content, and the fetch ends with it in the same move. So as far as fetches and the cache go there are
three kinds of moves: a read turns to backends, a walk goes on, or no fetch does anything.

Main results:

* `Session.fetchStep_of_move?` — the three kinds of moves.
* `Session.mem_entries_followWalk`, `Session.mem_running_followWalk` — what a walk leaves in the cache, and
  what it leaves under way.
* `Session.eq_of_served`, `Session.ends_of_returns` — with which move a read ends.
-/

namespace ReplicatedStore

namespace Session

/-- What moves can do, as far as fetches and the cache go. -/
inductive FetchStep (s t : Session) : Move → Prop
  /-- a read turns to backends -/
  | starts {r : Request} {start : Walk} (readOrder : ReadOrder) (hWalk : s.walk? r = some start)
      (h : t = { s.looked r.address with readOrder }.followWalk s.tickets r s.deadline
        (start.go s.world)) : FetchStep s t (.submit (.request r))
  /-- a walk goes on -/
  | resumes {ticket : Nat} {p : Running} {r : Request} {walk : Walk} {due : Duration} {held : Held}
      (hp : s.running? ticket = some p) (hOrder : p.order = .request r)
      (hActivity : p.activity = .walking walk due held)
      (h : t = s.followWalk ticket r p.deadline (walk.resume s.world held)) :
      FetchStep s t (.event (.resume ticket))
  /-- no fetch starts or goes on, and only who fills the cache adds something to it -/
  | quiet {m : Move}
      (hRunning : ∀ p ∈ t.running, p ∈ s.running ∨ ∀ a, p.order ≠ .request (.get a))
      (hEntries : ∀ e ∈ t.watched.cache.entries, e ∈ s.watched.cache.entries ∨ m = .fill e.key e.data) :
      FetchStep s t m

variable {s t u : Session} {ticket : Nat} {m : Move} {moves : List Move} {r : Request} {o : Order}
  {x : Answer} {e : CacheEntry} {start : Walk} {deadline : Option Duration} {state : World × WalkState}

/-! ## What moves do to fetches -/

/-- A turn of an order that is no fetch. -/
theorem fetchStep_of_turns (h : Turns ticket o s t) (hNot : ∀ a, o ≠ .request (.get a)) :
    FetchStep s t m := by
  refine .quiet (fun p hp => ?_) fun e he => ?_
  · rcases h.mem_running hp with ⟨hOld, -⟩ | ⟨-, rfl⟩
    · exact .inl hOld
    · exact .inr hNot
  · rcases h.entries e he with hOld | ⟨a, hGet, -⟩
    · exact .inl hOld
    · exact absurd hGet (hNot a)

/-- Nothing but what was there. -/
theorem fetchStep_of_subset (hRunning : t.running ⊆ s.running)
    (hEntries : t.watched.cache.entries ⊆ s.watched.cache.entries) : FetchStep s t m :=
  .quiet (fun _ hp => .inl (hRunning hp)) fun _ he => .inl (hEntries he)

theorem filter_running_subset (s : Session) (ticket : Nat) :
    s.running.filter (·.ticket != ticket) ⊆ s.running := fun _ hp => (List.mem_filter.mp hp).1

theorem fetchStep_submit (s : Session) (r : Request) :
    FetchStep s (s.submit (.request r)) (.submit (.request r)) := by
  have hTurns := turns_submit s (.request r)
  cases r with
  | put a data => exact fetchStep_of_turns hTurns nofun
  | remove a => exact fetchStep_of_turns hTurns nofun
  | holds a => exact fetchStep_of_turns hTurns nofun
  | get a =>
    cases hWalk : s.walk? (.get a) with
    | some start =>
      obtain ⟨readOrder, hEq⟩ := submit_of_walk? hWalk
      exact .starts readOrder hWalk hEq
    | none =>
      have hLooked : (s.looked a).watched.cache.entries ⊆ s.watched.cache.entries :=
        Cache.entries_lookup_subset ..
      rcases submit_of_served rfl hWalk with ⟨e, -, -, hEq⟩ | ⟨-, hEq⟩
      · rw [hEq]
        exact fetchStep_of_subset (filter_running_subset ..) hLooked
      · rw [hEq]
        exact fetchStep_of_subset (filter_running_subset ..) hLooked

theorem fetchStep_of_move? (hMove : s.move? m = some t) : FetchStep s t m := by
  cases m with
  | submit order =>
    cases hMove
    cases order with
    | request r => exact fetchStep_submit s r
    | wait => exact fetchStep_of_turns (turns_submit s .wait) nofun
    | shutdown => exact fetchStep_of_turns (turns_submit s .shutdown) nofun
  | submitStream a input failure =>
    -- what a stream asks for is a write
    cases turn_of_move? hMove with
    | submit hAsks h =>
      refine fetchStep_of_turns h fun c hGet => ?_
      subst hGet
      cases hAsks
    | order hp hOrder => cases hOrder
    | branch hFan => cases hFan
    | rest h hEntries =>
      subst h
      exact .quiet (fun _ hp => .inl hp) hEntries
  | tick time =>
    cases hMove
    obtain ⟨watched, now, hEq, hEntries⟩ := tick_eq s time
    rw [hEq]
    exact fetchStep_of_subset (fun _ hp => hp) hEntries
  | cache order =>
    cases hMove
    exact fetchStep_of_subset (fun _ hp => hp) (entries_apply_subset order s.watched s.now)
  | fill key data =>
    cases hMove
    refine .quiet (fun _ hp => .inl hp) fun e he => ?_
    rcases Cache.mem_store he with hOld | ⟨rfl, rfl⟩
    · exact .inl hOld
    · exact .inr rfl
  | event event =>
    cases event with
    | resume ticket =>
      obtain ⟨p, r, walk, due, held, hp, hOrder, hActivity, -, hEq⟩ := resume?_eq_some hMove
      exact .resumes hp hOrder hActivity hEq
    | expire ticket =>
      obtain ⟨p, deadline, request, after, -, -, -, -, rfl⟩ := expire?_eq_some hMove
      rw [giveUp_eq]
      exact fetchStep_of_subset (filter_running_subset ..) fun _ he => he
    | start fan branch =>
      obtain ⟨f, b, -, -, -, ⟨world, delay, held, -, rfl⟩ | ⟨world, o, -, rfl⟩⟩ := start?_eq_some hMove
      · exact fetchStep_of_subset (fun _ hp => hp) fun _ he => he
      · exact fetchStep_of_subset (fun _ hp => hp) fun _ he => he
    | complete fan branch =>
      obtain ⟨f, b, due, held, -, -, -, -, rfl⟩ := complete?_eq_some hMove
      exact fetchStep_of_subset (fun _ hp => hp) fun _ he => he
    | join ticket =>
      obtain ⟨p, -, ⟨request, fan, f, -, -, -, -, rfl⟩ | ⟨fans, -, -, rfl⟩⟩ := join?_eq_some hMove
      · -- to the cache it does not matter for what the fan-out was
        exact fetchStep_of_turns ((still_settle .wait s request.address _).turns (turns_finish ..)) nofun
      · have hEnds : (s.endDrain ticket p.order).running = s.running.filter (·.ticket != ticket) ∧
            (s.endDrain ticket p.order).watched.cache = s.watched.cache := by
          cases p.order <;> exact ⟨rfl, rfl⟩
        refine fetchStep_of_subset ?_ ?_
        · rw [hEnds.1]
          exact filter_running_subset ..
        · rw [hEnds.2]
          exact fun _ he => he

/-! ## What walks leave -/

/-- An order whose walk was set going puts what a fetch has found into the cache, and nothing else. -/
theorem mem_entries_followWalk
    (he : e ∈ (s.followWalk ticket r deadline state).watched.cache.entries) :
    e ∈ s.watched.cache.entries ∨ ∃ a passed, r = .get a ∧ e.key = a.key ∧
      state.2 = .over (.found passed (.content e.data)) := by
  rcases state with ⟨v, w | ⟨walk, delay, held⟩⟩
  · rcases (turns_endWalk { s with world := v } ticket r w).entries e he with hOld | ⟨a, hGet, -⟩
    · exact .inl hOld
    · cases hGet
      -- a fetch stores a content that it has found, and leaves the cache else
      rcases w with ⟨passed, y | data | is⟩ | error | reason
      · exact .inl he
      · rcases Cache.mem_store he with hOld | ⟨hKey, hData⟩
        · exact .inl hOld
        · exact .inr ⟨a, passed, rfl, hKey, by rw [hData]⟩
      · exact .inl he
      · exact .inl he
      · exact .inl he
  · exact .inl he

/-- An order whose walk was set going is under way if its walk waits, and has ended else. -/
theorem mem_running_followWalk {p : Running}
    (hp : p ∈ (s.followWalk ticket r deadline state).running) :
    p ∈ s.running ∧ p.ticket ≠ ticket ∨ ∃ v walk delay held, state = (v, .suspended walk delay held) ∧
      p = { ticket, order := .request r, deadline, activity := .walking walk (s.now + delay) held } := by
  rcases state with ⟨v, w | ⟨walk, delay, held⟩⟩
  · rcases (turns_endWalk { s with world := v } ticket r w).mem_running hp with hOld | ⟨hTicket, -⟩
    · exact .inl hOld
    · -- the order has ended
      have hNone := running?_endWalk { s with world := v } ticket r w
      have hNot := List.find?_eq_none.mp hNone p hp
      simp [hTicket] at hNot
  · rcases List.mem_append.mp hp with hOld | hNew
    · exact .inl (ticket_ne_of_mem_filter hOld)
    · exact .inr ⟨v, walk, delay, held, rfl, List.mem_singleton.mp hNew⟩

/-- An order whose walk has succeeded has what the walk has found. -/
theorem found_of_ended? (hOpen : s.ended? ticket = none)
    (h : (s.followWalk ticket r deadline state).ended? ticket = some (.returned (.ok x))) :
    ∃ passed, state.2 = .over (.found passed x) := by
  rcases state with ⟨v, w | ⟨walk, delay, held⟩⟩
  · have hEnds : (s.followWalk ticket r deadline (v, .over w)).ended? ticket = some w.ended :=
      ended?_endWalk ..
    rw [hEnds, Option.some.injEq] at h
    cases w with
    | found passed y =>
      cases h
      exact ⟨passed, rfl⟩
    | lost error => cases h
    | crashed reason => cases h
  · have hStill : (s.followWalk ticket r deadline (v, .suspended walk delay held)).ended? ticket = none :=
      hOpen
    rw [hStill] at h
    contradiction

/-! ## How reads end -/

/-- A read that does not turn to backends has ended as it was submitted. -/
theorem eq_of_served {result : Except StoreError Answer} {end_ : Ended}
    (hEq : s.submit (.request r) = (s.looked r.address).return_ s.tickets result)
    (hReturns : s.Returns s.tickets (.submit (.request r) :: moves) t end_) :
    end_ = .returned result := by
  obtain ⟨u, hMove, hRest⟩ := hReturns.of_cons
  cases hMove
  have hNow : (s.submit (.request r)).ended? s.tickets = some (.returned result) := by
    rw [hEq]
    exact ended?_finish_self ..
  have hEnded := hReturns.ended
  rw [← hRest.eq_of_ended? hNow, hNow, Option.some.injEq] at hEnded
  exact hEnded.symm

/-- Nobody waits for a read that does not turn to backends. -/
theorem exists_walk_of_pending (hRead : r.isWrite = false)
    (hPending : s.Pending s.tickets (.submit (.request r) :: moves) t) : ∃ start, s.walk? r = some start := by
  obtain ⟨u, hMove, hRest⟩ := hPending.of_cons
  cases hMove
  have hOpen := hRest.unended
  cases hWalk : s.walk? r with
  | some start => exact ⟨start, rfl⟩
  | none =>
    rcases submit_of_served hRead hWalk with ⟨entry, -, -, hEq⟩ | ⟨-, hEq⟩
    · rw [hEq, return_, ended?_finish_self] at hOpen
      contradiction
    · rw [hEq, return_, ended?_finish_self] at hOpen
      contradiction

/-- With which move a read has ended that has turned to backends. -/
inductive ReadEnds (s : Session) (r : Request) (start : Walk) (moves : List Move) (t : Session) (e : Ended) :
    Prop
  /-- all backends that its walk has turned to were done at once -/
  | atOnce (readOrder : ReadOrder) (hMoves : moves = [])
      (h : t = { s.looked r.address with readOrder }.followWalk s.tickets r s.deadline (start.go s.world))
  /-- its walk has gone on -/
  | resumes {before : List Move} {u : Session} {walk : Walk} {due : Duration} {held : Held}
      (hMoves : moves = before ++ [.event (.resume s.tickets)])
      (hPending : s.Pending s.tickets (.submit (.request r) :: before) u) (hMinds : walk.Minds u.world r held)
      (hOrder : u.running? s.tickets = some
        { ticket := s.tickets, order := .request r, deadline := s.deadline
          activity := .walking walk due held })
      (h : t = u.followWalk s.tickets r s.deadline (walk.resume u.world held))
  | timedOut (hDeadline : s.deadline ≠ none) (after : Duration)
      (h : e = .returned (.error (.timeout r.operation after)))

theorem ends_of_returns {e : Ended} (hs : s.Sound) (hMindful : s.Mindful) (hWalk : s.walk? r = some start)
    (hReturns : s.Returns s.tickets (.submit (.request r) :: moves) t e) :
    ReadEnds s r start moves t e := by
  have hOpen := ended?_of_sound hs (Nat.le_refl _)
  obtain ⟨before, last, u, hMoves, hPending, hMove⟩ := hReturns.exists_last hOpen
  cases before with
  | nil =>
    -- the read has ended as it was submitted, and so its walk was done at once
    obtain ⟨rfl, hNone⟩ := List.cons.inj hMoves
    have hRun := hPending.run
    rw [run?, Option.some.injEq] at hRun
    subst hRun
    cases hMove
    obtain ⟨readOrder, hEq⟩ := submit_of_walk? hWalk
    exact .atOnce readOrder hNone hEq
  | cons m rest =>
    obtain ⟨rfl, hRest⟩ := List.cons.inj hMoves
    have hConsulting := consulting_of_submitted hs hMindful hWalk hPending
    obtain ⟨walk, due, delay, held, hOrder, -⟩ := hConsulting.walking
    rw [request_of_walk? hWalk] at hOrder
    -- the last move is the read's own, since others leave it open
    by_cases hOwn : ConcernsOrder s.tickets last
    · cases walkStep_of_move? hOrder hOwn hMove with
      | resumes hEq =>
        have hMinds := hConsulting.mindful.running _ (mem_of_running? hOrder).1 r walk due held rfl rfl
        exact .resumes hRest hPending hMinds hOrder hEq
      | expires hDeadline after hEq =>
        have hEnded := hReturns.ended
        rw [hEq, return_, ended?_finish_self, Option.some.injEq] at hEnded
        exact .timedOut hDeadline after hEnded.symm
    · have hEnded := hReturns.ended
      rw [(consulting_of_others hConsulting hOwn hMove).unended] at hEnded
      contradiction

end Session

end ReplicatedStore
