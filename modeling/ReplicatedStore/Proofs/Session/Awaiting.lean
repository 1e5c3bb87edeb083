import ReplicatedStore.Proofs.Session.Attending
import ReplicatedStore.Proofs.Session.Pacing

/-!
# Requests that are alone

As long as a request is all that is under way, the clock waits for it, so it does not pass its deadline.
At its deadline the request may be given up. After that nothing is left of it, and whatever becomes of
the session, no call is made for it any more.

Main results:

* `Session.mem_events_cases` — what is due in a session.
* `Session.Alone.tick`, `Session.Alone.gives_up` — time that passes, and the deadline.
* `Session.world_of_run?_of_idle`, `Session.Abandoned.silent` — nothing happens any more for a request
  that was given up.
-/

namespace ReplicatedStore

namespace Session

variable {s t u v : Session} {r : Request} {activity : Activity} {ticket fan branch : Nat}
  {time : Duration} {x : Scheduled} {m : Move} {moves : List Move}

/-! ## What is due -/

/-- What is due concerns an order under way, or a branch of a fan-out. -/
theorem mem_events_cases (h : x ∈ s.events) : (∃ p ∈ s.running, x ∈ s.eventsOfOrder p) ∨
    ∃ fan f branch b, s.fans[fan]? = some f ∧ f.branches[branch]? = some b ∧
      s.eventOfBranch? fan branch b = some x := by
  rcases List.mem_append.mp h with hOrder | hFan
  · exact .inl (List.mem_flatMap.mp hOrder)
  · obtain ⟨⟨f, fan⟩, hf, hx⟩ := List.mem_flatMap.mp hFan
    obtain ⟨⟨b, branch⟩, hb, hx⟩ := List.mem_filterMap.mp hx
    exact .inr ⟨fan, f, branch, b, List.mem_zipIdx_iff_getElem?.mp hf,
      List.mem_zipIdx_iff_getElem?.mp hb, hx⟩

theorem mem_events_of_order {p : Running} (hp : p ∈ s.running) (h : x ∈ s.eventsOfOrder p) :
    x ∈ s.events :=
  List.mem_append_left _ (List.mem_flatMap.mpr ⟨p, hp, h⟩)

theorem mem_events_of_branch {f : FanOut} {b : Branch} (hf : s.fans[fan]? = some f)
    (hb : f.branches[branch]? = some b) (h : s.eventOfBranch? fan branch b = some x) : x ∈ s.events :=
  List.mem_append_right _ (List.mem_flatMap.mpr ⟨(f, fan), List.mem_zipIdx_iff_getElem?.mpr hf,
    List.mem_filterMap.mpr ⟨(b, branch), List.mem_zipIdx_iff_getElem?.mpr hb, h⟩⟩)

theorem fans_tick (s : Session) (time : Duration) : (s.tick time).fans = s.fans := by
  unfold tick
  split <;> rfl

/-- The event of a branch can happen when it comes. -/
theorem exists_step?_of_branch {f : FanOut} {b : Branch} (hf : s.fans[fan]? = some f)
    (hb : f.branches[branch]? = some b) (hx : s.eventOfBranch? fan branch b = some x) :
    ∃ v, (s.tick x.time).step? x.event = some v := by
  have hf' (time : Duration) : (s.tick time).fans[fan]? = some f := by rw [fans_tick, hf]
  unfold eventOfBranch? at hx
  split at hx
  · rename_i hQueued
    cases hx
    exact exists_start? (hf' _) hb hQueued
  · rename_i due held hRunning
    cases hx
    have hLater := Nat.le_trans (le_atLeastNow s due) (le_now_tick s (s.atLeastNow due))
    exact exists_complete? (hf' _) hb hRunning hLater
  · contradiction
  · contradiction

/-! ## The clock -/

theorem atLeastNow_of_le (h : s.now ≤ time) : s.atLeastNow time = time := by
  unfold atLeastNow
  split
  · rename_i hPast
    exact Duration.ext (Nat.le_antisymm h hPast)
  · rfl

theorem now_le_now_tick (s : Session) (time : Duration) : s.now ≤ (s.tick time).now := by
  unfold tick
  split
  · exact Nat.le_refl _
  · rename_i hLater
    exact Nat.le_of_lt (Nat.lt_of_not_le hLater)

theorem now_tick_le {limit : Duration} (hNow : s.now ≤ limit) (hTime : time ≤ limit) :
    (s.tick time).now ≤ limit := by
  unfold tick
  split
  · exact hNow
  · exact hTime

theorem le_now_of_expire? (h : s.expire? ticket = some t) :
    ∃ p deadline, s.running? ticket = some p ∧ p.deadline = some deadline ∧ deadline ≤ s.now := by
  simp only [expire?, Option.bind_eq_bind, Option.bind_eq_some_iff] at h
  obtain ⟨p, hp, deadline, hDeadline, h⟩ := h
  split at h
  · split at h
    · rename_i hPast
      exact ⟨p, deadline, hp, hDeadline, hPast⟩
    · contradiction
  · contradiction

/-- A request can be given up once its deadline has passed. -/
theorem exists_expire? {p : Running} {deadline after : Duration} (hp : s.running? ticket = some p)
    (hOrder : p.order = .request r) (hDeadline : p.deadline = some deadline)
    (hAfter : s.timeout = some after) (hPast : deadline ≤ s.now) :
    ∃ v, s.step? (.expire ticket) = some v := by
  simp [step?, expire?, hp, hOrder, hDeadline, hAfter, hPast]

/-! ## A request as long as it is under way -/

/-- What a session has as long as a request is all that is under way. -/
structure StandsBy (s : Session) (u : Session) : Prop where
  alone : ∀ p ∈ u.running, p.ticket = s.tickets
  tickets : u.tickets = s.tickets + 1
  unended : u.ended? s.tickets = none
  timeout : u.timeout = s.timeout
  launched : u.launched = s.launched
  entries : u.watched.cache.entries ⊆ s.watched.cache.entries
  onTime : ∀ deadline, s.deadline = some deadline → u.now ≤ deadline

/-- A request that is all that is under way, with what it waits for. -/
structure Alone (s : Session) (r : Request) (activity : Activity) (u : Session) : Prop
    extends StandsBy s u where
  running : u.running = [{ ticket := s.tickets, order := .request r, deadline := s.deadline, activity }]

/-- A request that was given up, and of which nothing is left. -/
structure Abandoned (s : Session) (r : Request) (v : Session) : Prop where
  ended : ∃ after, s.timeout = some after ∧
    v.ended? s.tickets = some (.returned (.error (.timeout r.operation after)))
  tickets : v.tickets = s.tickets + 1
  running : v.running = []
  finished : ∀ f ∈ v.fans, f.isFinished = true
  launched : v.launched = s.launched
  entries : v.watched.cache.entries ⊆ s.watched.cache.entries

theorem standsBy_submitted (hs : s.Sound) (hIdle : s.running = []) {watched : WatchedCache}
    (readOrder : ReadOrder) (hEntries : watched.cache.entries ⊆ s.watched.cache.entries) :
    StandsBy s { s with tickets := s.tickets + 1, watched, readOrder } := by
  refine ⟨fun p hp => ?_, rfl, ended?_of_sound hs (Nat.le_refl _), rfl, rfl, hEntries,
    fun deadline hDeadline => ?_⟩
  · have hNone : p ∈ s.running := hp
    rw [hIdle] at hNone
    contradiction
  · obtain ⟨after, -, rfl⟩ := Option.map_eq_some_iff.mp hDeadline
    exact Nat.le_add_right ..

theorem StandsBy.suspend (h : StandsBy s u) (r : Request) (activity : Activity) :
    Alone s r activity
      (u.suspend { ticket := s.tickets, order := .request r, deadline := s.deadline, activity }) := by
  have hNone : u.running.filter (·.ticket != s.tickets) = [] := by
    rw [List.filter_eq_nil_iff]
    intro p hp
    simp [h.alone p hp]
  have hRunning : (u.suspend
      { ticket := s.tickets, order := .request r, deadline := s.deadline, activity }).running =
      [{ ticket := s.tickets, order := .request r, deadline := s.deadline, activity }] := by
    simp only [Session.suspend, hNone, List.nil_append]
  refine ⟨{ h with alone := fun p hp => ?_ }, hRunning⟩
  rw [hRunning] at hp
  rw [List.mem_singleton.mp hp]

namespace Alone

theorem mem_running (h : Alone s r activity u) :
    { ticket := s.tickets, order := .request r, deadline := s.deadline, activity } ∈ u.running := by
  rw [h.running]
  exact List.mem_singleton_self _

/-- Whatever is asked about an order is asked about the request. -/
theorem of_running? (h : Alone s r activity u) {p : Running} (hp : u.running? ticket = some p) :
    ticket = s.tickets ∧
      p = { ticket := s.tickets, order := .request r, deadline := s.deadline, activity } := by
  obtain ⟨hMem, hTicket⟩ := mem_of_running? hp
  rw [h.running] at hMem
  obtain rfl := List.mem_singleton.mp hMem
  exact ⟨hTicket.symm, rfl⟩

theorem running?_eq (h : Alone s r activity u) : u.running? s.tickets =
    some { ticket := s.tickets, order := .request r, deadline := s.deadline, activity } := by
  rw [running?, h.running]
  simp

theorem deadlines (h : Alone s r activity u) : ∀ p ∈ u.running, p.deadline = s.deadline := by
  intro p hp
  rw [h.running] at hp
  rw [List.mem_singleton.mp hp]

theorem timeout_of_deadline (h : Alone s r activity u) {deadline : Duration}
    (hDeadline : s.deadline = some deadline) :
    ∃ after, u.timeout = some after ∧ s.timeout = some after ∧ deadline = s.now + after := by
  obtain ⟨after, hAfter, rfl⟩ := Option.map_eq_some_iff.mp hDeadline
  exact ⟨after, h.timeout.trans hAfter, hAfter, rfl⟩

/-- The deadline is due. -/
theorem mem_events_deadline (h : Alone s r activity u) {deadline : Duration}
    (hDeadline : s.deadline = some deadline) :
    ⟨u.atLeastNow deadline, 2, deadline, .expire s.tickets⟩ ∈ u.events := by
  refine mem_events_of_order h.mem_running ?_
  rw [eventsOfOrder_eq]
  refine List.mem_append_right _ ?_
  simp only [hDeadline]
  exact List.mem_singleton_self _

/-- What is due can happen, if that can what the request waits for. -/
theorem enabled (h : Alone s r activity u)
    (hOwn : ∀ x ∈ u.eventsOfOrder { ticket := s.tickets, order := .request r, activity },
      ∃ v, (u.tick x.time).step? x.event = some v) :
    ∀ x ∈ u.events, ∃ v, (u.tick x.time).step? x.event = some v := by
  intro x hx
  rcases mem_events_cases hx with ⟨p, hp, hx⟩ | ⟨fan, f, branch, b, hf, hb, hx⟩
  · rw [h.running] at hp
    obtain rfl := List.mem_singleton.mp hp
    rw [eventsOfOrder_eq] at hx
    rcases List.mem_append.mp hx with hx | hx
    · exact hOwn x hx
    · split at hx
      · rename_i deadline hDeadline
        obtain rfl := List.mem_singleton.mp hx
        obtain ⟨after, hAfter, -⟩ := h.timeout_of_deadline hDeadline
        have hPast : deadline ≤ (u.tick (u.atLeastNow deadline)).now :=
          Nat.le_trans (le_atLeastNow u deadline) (le_now_tick u _)
        obtain ⟨watched, now, hEq, -⟩ := tick_eq u (u.atLeastNow deadline)
        rw [hEq] at hPast ⊢
        exact exists_expire? (s := { u with watched, now }) h.running?_eq rfl hDeadline hAfter hPast
      · contradiction
  · exact exists_step?_of_branch hf hb hx

/-- Time that passes on a clock that waits leaves the request on time. -/
theorem tick (h : Alone s r activity u) (hDue : ∀ x ∈ u.events, time ≤ x.time) :
    Alone s r activity (u.tick time) := by
  have hOnTime (deadline : Duration) (hDeadline : s.deadline = some deadline) :
      (u.tick time).now ≤ deadline := by
    have hUntil := hDue _ (h.mem_events_deadline hDeadline)
    rw [atLeastNow_of_le (h.onTime deadline hDeadline)] at hUntil
    exact now_tick_le (h.onTime deadline hDeadline) hUntil
  obtain ⟨watched, now, hEq, hEntries⟩ := tick_eq u time
  rw [hEq] at hOnTime ⊢
  exact ⟨⟨h.alone, h.tickets, h.unended, h.timeout, h.launched, fun e he => h.entries (hEntries he),
    hOnTime⟩, h.running⟩

/-- A request is given up at its deadline, with what it waits for. -/
theorem gives_up (h : Alone s r activity u) (hStep : u.step? (.expire ticket) = some v)
    (hFinished : ∀ f ∈ (u.giveUp activity).fans, f.isFinished = true) :
    s.deadline = some u.now ∧ v.now = u.now ∧ v.world = u.world ∧ v.fans = (u.giveUp activity).fans ∧
      Abandoned s r v := by
  obtain ⟨p, deadline, hp, hDeadline, hPast⟩ := le_now_of_expire? hStep
  obtain ⟨p', -, request, after, hp', -, hOrder, hAfter, rfl⟩ := expire?_eq_some hStep
  obtain ⟨rfl, rfl⟩ := h.of_running? hp
  obtain ⟨-, rfl⟩ := h.of_running? hp'
  cases hOrder
  have hNow : deadline = u.now := Duration.ext (Nat.le_antisymm hPast (h.onTime deadline hDeadline))
  have hWorld : (u.giveUp activity).world = u.world := by cases activity <;> rfl
  refine ⟨hNow ▸ hDeadline, now_step hStep, hWorld, rfl, ⟨after, ?_, ended?_finish_self ..⟩, ?_, ?_,
    hFinished, ?_, ?_⟩
  · rw [← h.timeout, hAfter]
  · rw [← h.tickets]
    cases activity <;> rfl
  · have hRunning : (u.giveUp activity).running = u.running := by cases activity <;> rfl
    show (u.giveUp activity).running.filter (·.ticket != s.tickets) = []
    rw [hRunning, h.running]
    simp
  · rw [← h.launched]
    cases activity <;> rfl
  · have hSame : (u.giveUp activity).watched = u.watched := by cases activity <;> rfl
    show (u.giveUp activity).watched.cache.entries ⊆ _
    rw [hSame]
    exact h.entries

end Alone

/-! ## What was given up -/

/-- A fan-out that is finished makes no calls. -/
theorem not_concernsFan_of_isFinished (h : s.isFinished fan = true) (hMove : s.move? m = some t) :
    ¬ ConcernsFan fan m := by
  intro hConcerns
  obtain ⟨f, hf, hOpen⟩ := exists_open_of_concernsFan hConcerns hMove
  rw [isFinished, hf, Option.all_some, hOpen] at h
  contradiction

theorem not_concernsFan_of_forall (h : ∀ f ∈ s.fans, f.isFinished = true) (hMove : s.move? m = some t)
    (fan : Nat) : ¬ ConcernsFan fan m := by
  intro hConcerns
  obtain ⟨f, hf, hOpen⟩ := exists_open_of_concernsFan hConcerns hMove
  rw [h f (List.mem_of_getElem? hf)] at hOpen
  contradiction

/-- Nothing goes on in a session in which nothing is under way. -/
theorem world_of_run?_of_idle (hIdle : s.running = []) (hFinished : ∀ f ∈ s.fans, f.isFinished = true)
    (hFree : ∀ m ∈ moves, m.isFree = true) (hRun : s.run? moves = some t) : t.world = s.world := by
  have hKept : t.running = [] ∧ (∀ f ∈ t.fans, f.isFinished = true) ∧ t.world = s.world := by
    refine run?_induction_of (P := fun a => a.running = [] ∧ (∀ f ∈ a.fans, f.isFinished = true) ∧
      a.world = s.world) hRun hFree ⟨hIdle, hFinished, rfl⟩ ?_
    rintro a b m ⟨hNone, hOver, hSame⟩ hFree hMove
    have hNobody (ticket : Nat) : a.running? ticket = none := by simp [running?, hNone]
    cases m with
    | submit order => contradiction
    | submitStream c input failure => contradiction
    | cache order => contradiction
    | fill key data => contradiction
    | tick time =>
      cases hMove
      obtain ⟨watched, now, hEq, -⟩ := tick_eq a time
      rw [hEq]
      exact ⟨hNone, hOver, hSame⟩
    | event e =>
      cases e with
      | start fan branch => exact absurd (.start branch) (not_concernsFan_of_forall hOver hMove fan)
      | complete fan branch => exact absurd (.complete branch) (not_concernsFan_of_forall hOver hMove fan)
      | resume ticket =>
        obtain ⟨p, hp⟩ := running?_of_concernsOrder .resume hMove
        rw [hNobody] at hp
        contradiction
      | expire ticket =>
        obtain ⟨p, hp⟩ := running?_of_concernsOrder .expire hMove
        rw [hNobody] at hp
        contradiction
      | join ticket =>
        obtain ⟨p, hp⟩ := running?_of_concernsOrder .join hMove
        rw [hNobody] at hp
        contradiction
  exact hKept.2.2

/-- Whatever is asked of the session after a request was given up, and however far time goes on, nothing
happens any more for the request, nor in the fan-outs that it has left behind. -/
theorem Abandoned.silent (h : Abandoned s r v) (hSound : v.Sound) (hRun : v.run? moves = some t)
    (hMove : t.move? m = some u) :
    ¬ ConcernsOrder s.tickets m ∧ ∀ fan < v.fans.length, ¬ ConcernsFan fan m := by
  obtain ⟨after, -, hEnded⟩ := h.ended
  have hOver : v.Over s.tickets (.returned (.error (.timeout r.operation after))) := by
    refine ⟨hSound, ?_, ?_, hEnded⟩
    · rw [h.tickets]
      exact Nat.lt_succ_self _
    · simp [running?, h.running]
  refine ⟨fun hConcerns => ?_, fun fan hFan => ?_⟩
  · obtain ⟨p, hp⟩ := running?_of_concernsOrder hConcerns hMove
    rw [(hOver.run? hRun).running] at hp
    contradiction
  · refine not_concernsFan_of_isFinished (isFinished_of_run? hRun hFan ?_) hMove
    rw [isFinished, List.getElem?_eq_getElem hFan, Option.all_some]
    exact h.finished _ (List.getElem_mem hFan)

end Session

end ReplicatedStore
