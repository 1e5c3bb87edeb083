import ReplicatedStore.Proofs.Session.Resting

/-!
# Serving reads

A read that a session at rest is asked for is served from the cache or by a walk. As long as it is under
way nothing else can happen but the next step of its walk, and time that passes. It can always be
brought to its end, and it then comes to what the world tells, whether or not the cache served it.

Main results:

* `Session.move_of_alone` — what is left to happen when one walk is all that is under way.
* `Session.reading_of_move?` — a read goes on, or it has been answered.
* `Session.answered_of_returns`, `Session.exists_returns_of_pending_read` — what reads come to, and that
  they do.
-/

namespace ReplicatedStore

namespace Session

/-- A read that is under way in a session that was at rest. -/
structure Reading (s : Session) (r : Request) (t : Session) (walk : Walk) : Prop where
  lasts : s.Lasts t
  unended : t.ended? s.tickets = none
  fans : t.fans = s.fans
  walking : ∃ due delay held, t.running =
      [{ ticket := s.tickets, order := .request r, activity := .walking walk due held }] ∧
    s.world.Reads r (t.world, .suspended walk delay held)

/-- A read that has come to what the world tells, and left the session at rest. -/
structure Answered (s : Session) (r : Request) (t : Session) : Prop where
  rest : t.AtRest
  alike : t.world.Alike s.world
  ended : ∃ e, t.ended? s.tickets = some e ∧ e.outline = .returned (s.world.told r)

variable {s t u : Session} {r : Request} {m : Move} {walk : Walk} {state : World × WalkState}

theorem Answered.isOver (h : Answered s r t) : t.ended? s.tickets ≠ none := by
  obtain ⟨e, hEnded, -⟩ := h.ended
  simp [hEnded]

/-! ## What goes on -/

theorem running?_self {p : Running} (h : t.running = [p]) : t.running? p.ticket = some p := by
  simp [running?, h]

theorem running?_of_singleton {q : Running} (h : t.running = [q]) {ticket : Nat} {p : Running}
    (hp : t.running? ticket = some p) : p = q ∧ ticket = q.ticket := by
  obtain ⟨hMem, hTicket⟩ := mem_of_running? hp
  rw [h, List.mem_singleton] at hMem
  rw [hMem] at hTicket
  exact ⟨hMem, hTicket.symm⟩

/-- What is left to happen when one walk is all that is under way: time passes, the call that it waits
for is finished, or its deadline has passed. -/
theorem move_of_alone {ticket : Nat} {deadline : Option Duration} {due : Duration} {held : Held}
    (hRunning : t.running = [{ ticket, order := .request r, deadline, activity := .walking walk due held }])
    (hFinished : ∀ f ∈ t.fans, f.isFinished = true) (hFree : m.isFree = true)
    (hMove : t.move? m = some u) :
    (∃ time, u = t.tick time) ∨
      u = t.followWalk ticket r deadline (walk.resume t.world held) ∨
        deadline ≠ none ∧ ∃ after, t.timeout = some after ∧
          u = t.return_ ticket (.error (.timeout r.operation after)) := by
  -- no fan-out has anything left to do
  have hNoFan (fan : Nat) : ¬ ConcernsFan fan m := by
    intro hConcerns
    obtain ⟨f, hf, hOpen⟩ := exists_open_of_concernsFan hConcerns hMove
    rw [hFinished f (List.mem_of_getElem? hf)] at hOpen
    contradiction
  cases m with
  | submit order => contradiction
  | submitStream a input failure => contradiction
  | cache order => contradiction
  | fill key data => contradiction
  | tick time =>
    cases hMove
    exact .inl ⟨time, rfl⟩
  | event event =>
    cases event with
    | start fan branch => exact absurd (.start branch) (hNoFan fan)
    | complete fan branch => exact absurd (.complete branch) (hNoFan fan)
    | expire other =>
      obtain ⟨p, at_, request, after, hp, hDeadline, hRequest, hTimeout, rfl⟩ := expire?_eq_some hMove
      obtain ⟨rfl, rfl⟩ := running?_of_singleton hRunning hp
      cases hRequest
      refine .inr (.inr ⟨?_, after, hTimeout, rfl⟩)
      rw [show deadline = some at_ from hDeadline]
      exact Option.some_ne_none at_
    | join other =>
      obtain ⟨p, hp, ⟨request, fan, f, -, hActivity, -⟩ | ⟨fans, hActivity, -⟩⟩ := join?_eq_some hMove
      · obtain ⟨rfl, -⟩ := running?_of_singleton hRunning hp
        contradiction
      · obtain ⟨rfl, -⟩ := running?_of_singleton hRunning hp
        contradiction
    | resume other =>
      obtain ⟨p, request, walk', due', held', hp, hRequest, hActivity, -, rfl⟩ :=
        resume?_eq_some hMove
      obtain ⟨rfl, rfl⟩ := running?_of_singleton hRunning hp
      cases hRequest
      cases hActivity
      exact .inr (.inl rfl)

theorem frame_of_reads {w : World} (h : w.Reads r state) : state.1.frame = w.frame := by
  rcases state with ⟨v, e | ⟨walk, delay, held⟩⟩
  · exact h.1.frame
  · obtain ⟨b, rest, v', -, hSeeking, hBegin⟩ := h
    have hFrame := World.frame_begin v' b r
    rw [hBegin] at hFrame
    exact hFrame.trans hSeeking.alike.frame

/-- What a session has whose walk has been set going for a read. -/
theorem lasts_followWalk (hLasts : s.Lasts t) (hReads : s.world.Reads r state) :
    (t.followWalk s.tickets r none state).Sound ∧
      (t.followWalk s.tickets r none state).timeout = s.timeout ∧
      (t.followWalk s.tickets r none state).replication = s.replication := by
  have hFrame := (frame_of_reads hReads).trans hLasts.frame.symm
  have hAdvances := advances_followWalk t s.tickets r none hFrame
  exact ⟨hAdvances.sound hLasts.sound hLasts.tickets, hAdvances.timeout.trans hLasts.timeout,
    hAdvances.replication.trans hLasts.replication⟩

/-- A walk that waits for a call. -/
theorem reading_of_suspended {v : World} {delay : Duration} {held : Held} (hLasts : s.Lasts t)
    (hFans : t.fans = s.fans) (hRunning : t.running.filter (·.ticket != s.tickets) = [])
    (hUnended : t.ended? s.tickets = none)
    (hReads : s.world.Reads r (v, .suspended walk delay held)) :
    Reading s r (t.followWalk s.tickets r none (v, .suspended walk delay held)) walk := by
  obtain ⟨hSound, hTimeout, hReplication⟩ := lasts_followWalk hLasts hReads
  refine ⟨⟨hSound, hLasts.tickets, hTimeout, hReplication, hLasts.readOrder, frame_of_reads hReads,
    hLasts.entries⟩, hUnended, hFans, t.now + delay, delay, held, ?_, hReads⟩
  show t.running.filter (·.ticket != s.tickets) ++ [_] = _
  rw [hRunning]
  rfl

/-- A session whose read has ended is at rest if every entry is what a fetch would find. -/
theorem answered_of_finish {result : Except StoreError Answer} (hs : s.AtRest) (hLasts : s.Lasts t)
    (hFans : t.fans = s.fans) (hRunning : t.running.filter (·.ticket != s.tickets) = [])
    (hAlike : t.world.Alike s.world) (hSteady : t.world.Steady) {watched : WatchedCache}
    (hTruthful : { t with watched }.Truthful)
    (hTold : (Ended.returned result).outline = .returned (s.world.told r)) :
    Answered s r ({ t with watched }.return_ s.tickets result) := by
  have hCalm : Calm t { t with watched } := calm_of_watched t watched
  refine ⟨⟨?_, hRunning, ?_, hLasts.timeout.trans hs.timeout, hLasts.replication.trans hs.replication,
    ?_, hSteady, hTruthful⟩, hAlike, _, ended?_finish_self .., hTold⟩
  · exact (hCalm.finish s.tickets (.returned result)).sound hLasts.sound hLasts.tickets
  · intro f hf
    rw [show t.fans = s.fans from hFans] at hf
    exact hs.finished f hf
  · show t.readOrder.claim = (t.world.readGroups.flatten, t.readOrder)
    rw [hLasts.readOrder, World.readGroups_of_frame_eq hLasts.frame]
    exact hs.order

theorem truthful_of_subset (hs : s.AtRest) (hAlike : t.world.Alike s.world)
    (hEntries : t.watched.cache.entries ⊆ s.watched.cache.entries) : t.Truthful := by
  intro e he a ha hKey
  rw [hAlike.fetch?_eq]
  exact hs.truthful e (hEntries he) a ha hKey

/-- What a fetch has found is stored in the cache. -/
theorem truthful_of_store (hs : s.AtRest) (hLasts : s.Lasts t) (hAlike : t.world.Alike s.world)
    {a : Address} (ha : a.IsSimple) {data : Bytes} (hFound : s.world.fetch? a = some data) :
    { t with watched := t.watched.store t.now a.key data }.Truthful := by
  intro e he b hb hKey
  show t.world.fetch? b = some e.data
  rw [hAlike.fetch?_eq]
  -- the entry has been there before, or it is the new one, whose key is of this address alone
  rcases Cache.mem_store he with hOld | ⟨hNew, hData⟩
  · exact hs.truthful e (hLasts.entries hOld) b hb hKey
  · have hSame : b = a := Address.eq_of_key_eq hb ha (hKey.trans hNew)
    rw [hSame, hData]
    exact hFound

/-- A walk that has been decided. -/
theorem answered_of_over {v : World} {e : WalkEnd} (hs : s.AtRest) (hLasts : s.Lasts t)
    (hSimple : r.address.IsSimple) (hRead : r.isWrite = false) (hFans : t.fans = s.fans)
    (hRunning : t.running.filter (·.ticket != s.tickets) = [])
    (hReads : s.world.Reads r (v, .over e)) :
    Answered s r (t.followWalk s.tickets r none (v, .over e)) := by
  obtain ⟨hAlike, hSteady, hTold⟩ := hReads
  have hIn : s.Lasts { t with world := v } :=
    { hLasts with sound := ⟨hLasts.sound.running, hLasts.sound.ended, hLasts.sound.fans⟩
                  frame := hAlike.frame }
  have hKept := truthful_of_subset (t := { t with world := v }) hs hAlike hLasts.entries
  show Answered s r ({ t with world := v }.endWalk s.tickets r e)
  cases e with
  | crashed reason => contradiction
  | lost error =>
    cases r with
    | put a data => contradiction
    | remove a => contradiction
    | get a => exact answered_of_finish hs hIn hFans hRunning hAlike hSteady hKept hTold
    | holds a => exact answered_of_finish hs hIn hFans hRunning hAlike hSteady hKept hTold
  | found passed answer =>
    cases r with
    | put a data => contradiction
    | remove a => contradiction
    | holds a => exact answered_of_finish hs hIn hFans hRunning hAlike hSteady hKept hTold
    | get a =>
      -- only a fetch stores what it has found
      have hOk : s.world.told (.get a) = .ok answer := (Ended.returned.inj hTold).symm
      obtain ⟨data, rfl, hFound⟩ := World.exists_of_told_get hOk
      have hStored := truthful_of_store hs hIn hAlike hSimple hFound
      exact answered_of_finish hs hIn hFans hRunning hAlike hSteady hStored hTold

/-! ## From one step to the next -/

/-- A walk that has been set going for a read. -/
theorem reading_or_answered (hs : s.AtRest) (hLasts : s.Lasts t) (hSimple : r.address.IsSimple)
    (hRead : r.isWrite = false) (hFans : t.fans = s.fans)
    (hRunning : t.running.filter (·.ticket != s.tickets) = []) (hUnended : t.ended? s.tickets = none)
    (hReads : s.world.Reads r state) :
    (∃ walk, Reading s r (t.followWalk s.tickets r none state) walk) ∨
      Answered s r (t.followWalk s.tickets r none state) := by
  rcases state with ⟨v, e | ⟨walk, delay, held⟩⟩
  · exact .inr (answered_of_over hs hLasts hSimple hRead hFans hRunning hReads)
  · exact .inl ⟨walk, reading_of_suspended hLasts hFans hRunning hUnended hReads⟩

theorem Reading.tick (h : Reading s r t walk) (time : Duration) : Reading s r (t.tick time) walk := by
  have hLasts := h.lasts.tick time
  obtain ⟨watched, now, hEq, -⟩ := tick_eq t time
  rw [hEq] at hLasts ⊢
  exact ⟨hLasts, h.unended, h.fans, h.walking⟩

/-- A read goes on, or it has been answered. -/
theorem reading_of_move? (hs : s.AtRest) (hSimple : r.address.IsSimple) (hRead : r.isWrite = false)
    (h : ∃ walk, Reading s r t walk) (hFree : m.isFree = true) (hMove : t.move? m = some u) :
    (∃ walk, Reading s r u walk) ∨ Answered s r u := by
  obtain ⟨walk, h⟩ := h
  obtain ⟨due, delay, held, hRunning, hReads⟩ := h.walking
  have hFinished : ∀ f ∈ t.fans, f.isFinished = true := fun f hf => hs.finished f (h.fans ▸ hf)
  rcases move_of_alone hRunning hFinished hFree hMove with ⟨time, rfl⟩ | rfl | ⟨hNot, -⟩
  · exact .inl ⟨walk, h.tick time⟩
  · refine reading_or_answered hs h.lasts hSimple hRead h.fans ?_ h.unended
      (World.reads_resume hReads hRead)
    rw [hRunning]
    simp
  · exact absurd rfl hNot

/-! ## Whole reads -/

/-- A session that has given out its next ticket and looked into its cache. -/
def looked (s : Session) (a : Address) : Session :=
  { s with tickets := s.tickets + 1, watched := (s.watched.lookup s.now a.key).2 }

theorem lasts_looked (hs : s.AtRest) (a : Address) : s.Lasts (s.looked a) := by
  refine ⟨?_, Nat.lt_succ_self _, rfl, rfl, rfl, rfl, Cache.entries_lookup_subset ..⟩
  have hTaken := hs.sound.taken
  exact ⟨hTaken.running, hTaken.ended, hTaken.fans⟩

/-- The walk of a read over all backends. -/
def walkOf (w : World) : Request → Walk
  | .get a => .ofOrder .fetch a w.readGroups.flatten
  | .put a _ | .remove a | .holds a => .ofOrder .probe a w.readGroups.flatten

/-- A fetch is looked up first, and else walks over the backends in the order that it claims. -/
theorem submit_get (s : Session) (a : Address) : s.submit (.request (.get a)) =
    match (s.watched.cache.lookup s.now a.key).1 with
    | some data => (s.looked a).return_ s.tickets (.ok (.content data))
    | none =>
      if s.world.backends.isEmpty then (s.looked a).return_ s.tickets (.error .noBackends)
      else { s.looked a with readOrder := s.readOrder.claim.2 }.followWalk s.tickets (.get a) s.deadline
        ((Walk.ofOrder .fetch a s.readOrder.claim.1).go s.world) := by
  simp only [submit, startRequest, lookup, WatchedCache.lookup]
  cases (s.watched.cache.lookup s.now a.key).1 with
  | some data => rfl
  | none => rfl

/-- A read is looked up first, and else walks over all backends, unless there are none. -/
theorem submit_of_read (hs : s.AtRest) (hRead : r.isWrite = false) :
    s.submit (.request r) =
      match (s.watched.cache.lookup s.now r.address.key).1 with
      | some data => (s.looked r.address).return_ s.tickets (.ok (r.gives data))
      | none =>
        if s.world.backends.isEmpty then (s.looked r.address).return_ s.tickets (.error .noBackends)
        else (s.looked r.address).followWalk s.tickets r s.deadline
          ((walkOf s.world r).go s.world) := by
  cases r with
  | put a data => contradiction
  | remove a => contradiction
  | get a =>
    rw [submit_get, hs.order]
    rfl
  | holds a =>
    simp only [submit, startRequest, lookup, WatchedCache.lookup, Request.address]
    cases (s.watched.cache.lookup s.now a.key).1 with
    | some data => rfl
    | none => rfl

theorem seeking_walkOf {w : World} (hw : w.Steady) (hRead : r.isWrite = false) :
    w.Seeking r w (walkOf w r) w.readGroups.flatten := by
  cases r with
  | put a data => contradiction
  | remove a => contradiction
  | get a => exact World.seeking_start hw rfl rfl rfl
  | holds a => exact World.seeking_start hw rfl rfl rfl

/-- A read that a session at rest is asked for. -/
theorem reading_submit (hs : s.AtRest) (hSimple : r.address.IsSimple) (hRead : r.isWrite = false) :
    (∃ walk, Reading s r (s.submit (.request r)) walk) ∨ Answered s r (s.submit (.request r)) := by
  have hLooked := lasts_looked hs r.address
  have hAlike : s.world.Alike s.world := .refl hs.steady
  have hTruthful : (s.looked r.address).Truthful := truthful_of_subset hs hAlike hLooked.entries
  have hIdle : (s.looked r.address).running.filter (·.ticket != s.tickets) = [] := by
    rw [show (s.looked r.address).running = [] from hs.running]
    rfl
  rw [submit_of_read hs hRead, deadline_eq_none hs.timeout]
  split
  · rename_i data hFound
    right
    -- the cache is truthful, so a fetch would have found the same
    have hTold := World.told_of_fetch? (hs.fetch?_eq hSimple hFound)
    refine answered_of_finish hs hLooked rfl hIdle hAlike hs.steady hTruthful ?_
    rw [hTold]
    rfl
  · split
    · rename_i hEmpty
      right
      refine answered_of_finish hs hLooked rfl hIdle hAlike hs.steady hTruthful ?_
      rw [World.told, if_pos hEmpty]
      rfl
    · rename_i hSome
      have hUnended : (s.looked r.address).ended? s.tickets = none :=
        ended?_of_sound hs.sound (Nat.le_refl _)
      refine reading_or_answered hs hLooked hSimple hRead rfl hIdle hUnended ?_
      have hTodo : (walkOf s.world r).todo = s.world.readGroups.flatten := by cases r <;> rfl
      rw [Walk.go, hTodo]
      exact World.reads_goFrom (seeking_walkOf hs.steady hRead) hRead (Bool.eq_false_iff.mpr hSome)

/-- A read that returns has been answered. -/
theorem answered_of_returns (hs : s.AtRest) (hSimple : r.address.IsSimple) (hRead : r.isWrite = false)
    {moves : List Move} {e : Ended} (hFree : ∀ m ∈ moves, m.isFree = true)
    (hReturns : (s.submit (.request r)).Returns s.tickets moves t e) : Answered s r t := by
  refine returns_induction hReturns hFree (reading_submit hs hSimple hRead) ?_ Answered.isOver
    (reading_of_move? hs hSimple hRead)
  rintro a ⟨walk, h⟩
  exact h.unended

/-- A read that has not returned yet returns after some moves. -/
theorem exists_returns_of_pending_read (hs : s.AtRest) (hSimple : r.address.IsSimple)
    (hRead : r.isWrite = false) {moves : List Move} (hFree : ∀ m ∈ moves, m.isFree = true)
    (hPending : (s.submit (.request r)).Pending s.tickets moves t) :
    ∃ rest u e, (∀ m ∈ rest, m.isFree = true) ∧ t.Returns s.tickets rest u e := by
  obtain ⟨walk, hReading⟩ := pending_induction hPending hFree (reading_submit hs hSimple hRead)
    Answered.isOver (reading_of_move? hs hSimple hRead)
  obtain ⟨due, delay, held, hRunning, b, others, v, hTodo, -⟩ := hReading.walking
  obtain ⟨rest, u, e, hOwn, hReturns⟩ :=
    exists_returns_of_walking (running?_self hRunning) hReading.unended hTodo
  exact ⟨rest, u, e, fun m hm => (hOwn m hm).isFree, hReturns⟩

end Session

end ReplicatedStore
