import ReplicatedStore.Proofs.Backend.Effects
import ReplicatedStore.Session.Event

/-!
# Moves of a session

A session moves when a caller asks something of it or of its cache, when an event happens, and when
time passes. A run is any list of moves that may be made one after the other, so several orders may be
under way at once, and their events may come in any order.

Main results:

* `Session.run?_induction` — what every move keeps holds after a run.
* `Session.resume?_eq_some`, `Session.expire?_eq_some`, `Session.start?_eq_some`,
  `Session.complete?_eq_some`, `Session.join?_eq_some` — all that each event can do.
-/

namespace ReplicatedStore

/-- What a caller asks of the cache itself. -/
inductive CacheOrder
  | configure (options : CacheOptions)
  | setEnabled (enabled : Bool)
  | setPolicy (policy : ValidationPolicy)
  | clear
  | startValidation
  | stopValidation
  /-- a validation pass with any choice of entries -/
  | pass (picker : Picker) (percent : Nat)

/-- The cache after an order at a time. -/
def CacheOrder.apply (w : WatchedCache) (now : Duration) : CacheOrder → WatchedCache
  | configure options => w.configure now options
  | setEnabled enabled => w.setEnabled now enabled
  | setPolicy policy => w.setPolicy now policy
  | clear => w.clear
  | startValidation => w.start now
  | stopValidation => w.stop
  | pass picker percent => { w with cache := (w.cache.validate picker now percent).2 }

/-- What may come next in a session. -/
inductive Move
  | submit (order : Order)
  | submitStream (a : Address) (input : Stream) (failure : String → Link)
  | event (e : Event)
  | tick (time : Duration)
  | cache (order : CacheOrder)
  /-- a caller puts a payload into the cache itself -/
  | fill (key : String) (data : Bytes)

namespace Session

/-- What a move leads to, if it may be made. -/
def move? (s : Session) : Move → Option Session
  | .submit order => some (s.submit order)
  | .submitStream a input failure => some (s.submitStream a input failure)
  | .event e => s.step? e
  | .tick time => some (s.tick time)
  | .cache order => some { s with watched := order.apply s.watched s.now }
  | .fill key data => some { s with watched := s.watched.store s.now key data }

/-- What moves lead to one after the other, if they may be made. -/
def run? : Session → List Move → Option Session
  | s, [] => some s
  | s, m :: rest =>
    match s.move? m with
    | none => none
    | some t => run? t rest

/-- Whether a session can come about, from a client that was set up in any way. -/
def Reachable (s : Session) : Prop :=
  ∃ world replication strategy timeout picks moves,
    { ofWorld world replication strategy with timeout, picks }.run? moves = some s

theorem run?_cons_eq_some {s u : Session} {m : Move} {rest : List Move} :
    s.run? (m :: rest) = some u ↔ ∃ t, s.move? m = some t ∧ t.run? rest = some u := by
  rw [run?]
  cases s.move? m <;> simp

theorem run?_singleton {s t : Session} {m : Move} (h : s.move? m = some t) :
    s.run? [m] = some t := run?_cons_eq_some.mpr ⟨t, h, rfl⟩

theorem run?_append {s t : Session} {first : List Move} (h : s.run? first = some t)
    (rest : List Move) : s.run? (first ++ rest) = t.run? rest := by
  induction first generalizing s with
  | nil =>
    rw [run?, Option.some.injEq] at h
    rw [List.nil_append, h]
  | cons m first ih =>
    obtain ⟨u, hMove, hRun⟩ := run?_cons_eq_some.mp h
    rw [List.cons_append, run?, hMove]
    exact ih hRun

/-- A run is made of its first moves and the others. -/
theorem exists_of_run?_append {s u : Session} {first rest : List Move}
    (h : s.run? (first ++ rest) = some u) : ∃ t, s.run? first = some t ∧ t.run? rest = some u := by
  induction first generalizing s with
  | nil => exact ⟨s, rfl, h⟩
  | cons m first ih =>
    obtain ⟨t, hMove, hRun⟩ := run?_cons_eq_some.mp h
    obtain ⟨v, hFirst, hRest⟩ := ih hRun
    exact ⟨v, run?_cons_eq_some.mpr ⟨t, hMove, hFirst⟩, hRest⟩

/-- What holds at the start and is kept by every move of a kind holds after a run of such moves. -/
theorem run?_induction_of {P : Session → Prop} {C : Move → Prop} {s t : Session} {moves : List Move}
    (hRun : s.run? moves = some t) (hMoves : ∀ m ∈ moves, C m) (hStart : P s)
    (hMove : ∀ {a b m}, P a → C m → a.move? m = some b → P b) : P t := by
  induction moves generalizing s with
  | nil =>
    rw [run?, Option.some.injEq] at hRun
    rwa [← hRun]
  | cons m rest ih =>
    obtain ⟨u, hFirst, hRest⟩ := run?_cons_eq_some.mp hRun
    have hNext := hMove hStart (hMoves m List.mem_cons_self) hFirst
    exact ih hRest (fun m' hm' => hMoves m' (List.mem_cons_of_mem _ hm')) hNext

/-- What holds at the start and is kept by every move holds after a run. -/
theorem run?_induction {P : Session → Prop} {s t : Session} {moves : List Move}
    (hRun : s.run? moves = some t) (hStart : P s)
    (hMove : ∀ {a b m}, P a → a.move? m = some b → P b) : P t :=
  run?_induction_of (C := fun _ => True) hRun (fun _ _ => trivial) hStart fun h _ hNext => hMove h hNext

/-! ## Looking into orders -/

theorem find?_filter_ticket {l : List Running} {ticket other : Nat} (h : other ≠ ticket) :
    (l.filter (·.ticket != ticket)).find? (·.ticket == other) = l.find? (·.ticket == other) := by
  rw [List.find?_filter]
  congr 1
  funext r
  by_cases hr : r.ticket = other
  · simp [hr, h]
  · simp [hr]

theorem ended?_cons_of_ne {ended : List (Nat × Ended)} {ticket other : Nat} (e : Ended)
    (h : other ≠ ticket) : ((ticket, e) :: ended).lookup other = ended.lookup other := by
  have hOther : (other == ticket) = false := by simpa using h
  simp [List.lookup_cons, hOther]

theorem mem_of_running? {s : Session} {ticket : Nat} {r : Running} (h : s.running? ticket = some r) :
    r ∈ s.running ∧ r.ticket = ticket :=
  ⟨List.mem_of_find?_eq_some h, by simpa using List.find?_some h⟩

/-! ## What events do -/

theorem resume?_eq_some {s t : Session} {ticket : Nat} (h : s.resume? ticket = some t) :
    ∃ r request walk due held, s.running? ticket = some r ∧ r.order = .request request ∧
      r.activity = .walking walk due held ∧ due ≤ s.now ∧
      t = s.followWalk ticket request r.deadline (walk.resume s.world held) := by
  simp only [resume?, Option.bind_eq_bind, Option.bind_eq_some_iff] at h
  obtain ⟨r, hr, h⟩ := h
  split at h
  · rename_i request walk due held hOrder hActivity
    split at h
    · rename_i hDue
      cases h
      exact ⟨r, request, walk, due, held, hr, hOrder, hActivity, hDue, rfl⟩
    · contradiction
  · contradiction

/-- The session in which the fan-out that an order joins, if it joins one, is given up. -/
def giveUp (s : Session) (activity : Activity) : Session :=
  match activity with
  | .joining fan => s.modifyFan fan (·.cancel)
  | _ => s

theorem expire?_eq_some {s t : Session} {ticket : Nat} (h : s.expire? ticket = some t) :
    ∃ r deadline request after, s.running? ticket = some r ∧ r.deadline = some deadline ∧
      r.order = .request request ∧ s.timeout = some after ∧
      t = (s.giveUp r.activity).return_ ticket (.error (.timeout request.operation after)) := by
  simp only [expire?, Option.bind_eq_bind, Option.bind_eq_some_iff] at h
  obtain ⟨r, hr, deadline, hDeadline, h⟩ := h
  split at h
  · rename_i request after hOrder hTimeout
    split at h
    · cases h
      exact ⟨r, deadline, request, after, hr, hDeadline, hOrder, hTimeout, rfl⟩
    · contradiction
  · contradiction

theorem start?_eq_some {s t : Session} {fan branch : Nat} (h : s.start? fan branch = some t) :
    ∃ f b, s.fans[fan]? = some f ∧ f.branches[branch]? = some b ∧ b.state = .queued ∧
      ((∃ world delay held, s.world.begin b.backend f.request = (world, .waiting delay held) ∧
          t = { s with world }.modifyFan fan (·.setState branch (.running (s.now + delay) held))) ∨
        ∃ world o, s.world.begin b.backend f.request = (world, .over o) ∧
          t = { s with world }.modifyFan fan (·.complete branch (world.nameOf b.backend) o)) := by
  simp only [start?, Option.bind_eq_bind, Option.bind_eq_some_iff] at h
  obtain ⟨f, hf, b, hb, h⟩ := h
  split at h
  · rename_i hQueued
    split at h
    · rename_i world delay held hBegin
      cases h
      exact ⟨f, b, hf, hb, hQueued, .inl ⟨world, delay, held, hBegin, rfl⟩⟩
    · rename_i world o hBegin
      cases h
      exact ⟨f, b, hf, hb, hQueued, .inr ⟨world, o, hBegin, rfl⟩⟩
  · contradiction

theorem complete?_eq_some {s t : Session} {fan branch : Nat} (h : s.complete? fan branch = some t) :
    ∃ f b due held, s.fans[fan]? = some f ∧ f.branches[branch]? = some b ∧
      b.state = .running due held ∧ due ≤ s.now ∧
      t = { s with world := (s.world.finish b.backend held).1 }.modifyFan fan
        (·.complete branch ((s.world.finish b.backend held).1.nameOf b.backend)
          (s.world.finish b.backend held).2) := by
  simp only [complete?, Option.bind_eq_bind, Option.bind_eq_some_iff] at h
  obtain ⟨f, hf, b, hb, h⟩ := h
  split at h
  · rename_i due held hRunning
    split at h
    · rename_i hDue
      cases h
      exact ⟨f, b, due, held, hf, hb, hRunning, hDue, rfl⟩
    · contradiction
  · contradiction

theorem join?_eq_some {s t : Session} {ticket : Nat} (h : s.join? ticket = some t) :
    ∃ r, s.running? ticket = some r ∧
      ((∃ request fan f, r.order = .request request ∧ r.activity = .joining fan ∧
          s.fans[fan]? = some f ∧ f.isFinished = true ∧ t = s.endFan ticket request f) ∨
        ∃ fans, r.activity = .draining fans ∧ fans.all s.isFinished = true ∧
          t = s.endDrain ticket r.order) := by
  simp only [join?, Option.bind_eq_bind, Option.bind_eq_some_iff] at h
  obtain ⟨r, hr, h⟩ := h
  refine ⟨r, hr, ?_⟩
  split at h
  · rename_i request fan hOrder hActivity
    simp only [Option.bind_eq_some_iff] at h
    obtain ⟨f, hf, h⟩ := h
    split at h
    · rename_i hFinished
      cases h
      exact .inl ⟨request, fan, f, hOrder, hActivity, hf, hFinished, rfl⟩
    · contradiction
  · rename_i fans hActivity
    split at h
    · rename_i hFinished
      cases h
      exact .inr ⟨fans, hActivity, hFinished, rfl⟩
    · contradiction
  · contradiction

end Session

end ReplicatedStore
