import ReplicatedStore.Proofs.Session.Attending
import ReplicatedStore.Proofs.Session.Placement
import ReplicatedStore.Proofs.Session.Staleness

/-!
# Writes that supersede others

A write supersedes those that were asked for before it, unless one of them is still owed to a main: what
a fan-out has not yet brought there may arrive later than what was asked for later. Nothing else can, as
long as nobody asks for another write of the object. So once a write has succeeded, and all that it left
to the background has, each main holds what it has left, or a write that was owed when it was asked for
has arrived there last.

Main results:

* `Session.arrivalsAt_cases` — what arrives was asked for, or it was owed.
* `Session.arrives_of_fansOut`, `Session.arrives_of_placed` — a write that has succeeded arrives at every
  main.
* `Session.find?_of_written` — and it leaves the cache without its object.
* `Session.WritesAndWaits.hasTaken_or_owed` — what the mains hold in the end.
-/

namespace ReplicatedStore

namespace Session

/-- Whether a write is one that a fan-out has still to bring to a backend. -/
def Owes (s : Session) (b : Nat) (x : Arrival) : Prop :=
  ∃ fan f, s.fans[fan]? = some f ∧ f.isFinished = false ∧ x = ⟨.fan fan, b, f.request⟩

variable {s t u v : Session} {b : Nat} {a : Address} {x : Arrival} {m : Move} {r : Request}
  {P : Request → Prop} {n : Nat} {moves : List Move} {e : Ended}

/-! ## What arrives -/

/-- A walk that brings something was asked for by the move, or its order is under way. -/
theorem asks_or_running_of_going? {g : Going} (hMindful : s.Mindful) (hMove : s.move? m = some t)
    (hg : s.going? m = some g) :
    m.Asks (.request g.request) ∨ ∃ p ∈ s.running, p.order = .request g.request := by
  cases m with
  | submit order =>
    left
    cases order with
    | wait => contradiction
    | shutdown => contradiction
    | request r =>
      cases r with
      | put c data =>
        simp only [going?, Option.ite_none_right_eq_some] at hg
        obtain ⟨-, hg⟩ := hg
        cases hg
        exact .submit _
      | get c => contradiction
      | remove c => contradiction
      | holds c => contradiction
  | submitStream c input failure =>
    left
    simp only [going?] at hg
    split at hg
    · simp only [Option.ite_none_right_eq_some] at hg
      obtain ⟨-, hg⟩ := hg
      cases hg
      exact .stream c input failure _
    · contradiction
  | event event =>
    cases event with
    | resume ticket =>
      right
      obtain ⟨p, request, walk, due, held, hp, hOrder, hActivity, -, -⟩ := resume?_eq_some hMove
      obtain ⟨hMem, -⟩ := mem_of_running? hp
      -- the walk calls for what its order was asked
      have hRequest := (hMindful.running p hMem request walk due held hOrder hActivity).1
      simp only [going?, hp, Option.bind_eq_bind, Option.bind_some, hActivity, Option.some.injEq] at hg
      refine ⟨p, hMem, ?_⟩
      rw [hOrder, ← hg, hRequest]
    | expire ticket => contradiction
    | start fan branch => contradiction
    | complete fan branch => contradiction
    | join ticket => contradiction
  | tick time => contradiction
  | cache order => contradiction
  | fill key data => contradiction

/-- What arrives with a move is a write of a kind that all is for, or one of the first fan-outs brings
it. -/
theorem arrival_cases (hMindful : s.Mindful) (hFor : s.AllFor P n)
    (hAsks : ∀ r, m.Asks (.request r) → P r) (hMove : s.move? m = some t) (hx : x ∈ s.arrivals m) :
    P x.request ∨ ∃ fan f, fan < n ∧ s.fans[fan]? = some f ∧ f.isFinished = false ∧
      x.writer = .fan fan ∧ x.request = f.request := by
  rcases mem_arrivals_cases hx with ⟨fan, hFan, -, hWriter⟩ | ⟨g, hg, hIn, -⟩
  · obtain ⟨f, hf, hRequest, -⟩ := exists_fan_of_mem_arrivals hx hWriter
    by_cases hLt : fan < n
    · obtain ⟨f', hf', hOpen⟩ := exists_open_of_concernsFan hFan hMove
      rw [hf, Option.some.injEq] at hf'
      exact .inr ⟨fan, f, hLt, hf, hf' ▸ hOpen, hWriter, hRequest⟩
    · rw [hRequest]
      exact .inl (hFor.fans fan f (Nat.le_of_not_lt hLt) hf)
  · left
    obtain ⟨call, -, hOf⟩ := List.mem_filterMap.mp hIn
    obtain ⟨-, -, rfl⟩ := of?_eq_some.mp hOf
    rcases asks_or_running_of_going? hMindful hMove hg with hAsked | ⟨p, hp, hOrder⟩
    · exact hAsks _ hAsked
    · exact hFor.running p hp _ hOrder

/-- What arrives in a run is a write of a kind that all is for and asked for, or one of the first
fan-outs had still to bring it. -/
theorem arrivalsAt_cases (hMindful : s.Mindful) (hFor : s.AllFor P n) (hn : n ≤ s.fans.length)
    (hAsks : ∀ m ∈ moves, ∀ r, m.Asks (.request r) → P r) (hRun : s.run? moves = some t)
    (hx : x ∈ arrivalsAt b a s moves) : P x.request ∨ s.Owes b x := by
  have hFirst : P x.request ∨ ∃ fan f, fan < n ∧ s.fans[fan]? = some f ∧ f.isFinished = false ∧
      x = ⟨.fan fan, b, f.request⟩ := by
    induction moves generalizing s with
    | nil => exact absurd hx List.not_mem_nil
    | cons m rest ih =>
      obtain ⟨u, hMove, hRest⟩ := run?_cons_eq_some.mp hRun
      have hAsksNow := hAsks m List.mem_cons_self
      rw [arrivalsAt_cons hMove] at hx
      rcases List.mem_append.mp hx with hNow | hLater
      · obtain ⟨hMem, hAt⟩ := List.mem_filter.mp hNow
        have hAt : x.IsAt b a := by simpa using hAt
        rcases arrival_cases hMindful hFor hAsksNow hMove hMem with
          hIs | ⟨fan, f, hLt, hf, hOpen, hWriter, hRequest⟩
        · exact .inl hIs
        · refine .inr ⟨fan, f, hLt, hf, hOpen, ?_⟩
          rw [← hWriter, ← hAt.1, ← hRequest]
      · have hGrows := (goesOn_of_move? hMove).fans
        rcases ih (mindful_of_move? hMindful hMove) (allFor_of_move? hFor hAsksNow hMove)
            (Nat.le_trans hn hGrows) (fun m' hm' => hAsks m' (List.mem_cons_of_mem _ hm')) hRest hLater
          with hIs | ⟨fan, g, hLt, hg, hOpen, hEq⟩
        · exact .inl hIs
        · -- the fan-out was there before, for the same request, and was not finished either
          have hf : s.fans[fan]? = some s.fans[fan] := List.getElem?_eq_getElem (by omega)
          obtain ⟨g', hg', hKin⟩ := kin_of_move? hMove hf
          rw [hg, Option.some.injEq] at hg'
          subst hg'
          refine .inr ⟨fan, _, hLt, hf, ?_, by rw [hEq, hKin.request]⟩
          by_contra hNot
          rw [hKin.isFinished (by simpa using hNot)] at hOpen
          contradiction
  rcases hFirst with hIs | ⟨fan, f, -, hOwes⟩
  · exact .inl hIs
  · exact .inr ⟨fan, f, hOwes⟩

/-- While nobody else asks for a write of an object, what arrives of it is the write, or it was owed. -/
theorem request_eq_or_owes_of_alone (hMindful : s.Mindful)
    (hAlone : ∀ p ∈ s.running, ∀ q, p.order = .request q → q.isWrite = true → q.address ≠ r.address)
    (hAsks : ∀ m ∈ moves, ∀ q, m.Asks (.request q) → q.isWrite = true → q.address = r.address → q = r)
    (hRun : s.run? moves = some t) (hx : x ∈ arrivalsAt b r.address s moves) :
    x.request = r ∨ s.Owes b x := by
  have hFor : s.AllFor (fun q => q.isWrite = true → q.address = r.address → q = r) s.fans.length := by
    constructor
    · intro p hp q hOrder hWrite hAddress
      exact absurd hAddress (hAlone p hp q hOrder hWrite)
    · intro k f hk hf
      rw [List.getElem?_eq_none hk] at hf
      contradiction
  obtain ⟨_, _, hMem, hAt⟩ := exists_of_mem_arrivalsAt hx
  rcases arrivalsAt_cases hMindful hFor (Nat.le_refl _) hAsks hRun hx with hIs | hOwes
  · exact .inl (hIs (isWrite_of_mem_arrivals hMem) hAt.2)
  · exact .inr hOwes

/-- Only fan-outs that are there come to outcomes. -/
theorem lt_of_mem_outcomes {fan : Nat} {p : Nat × Outcome} (hRun : s.run? moves = some t)
    (hp : p ∈ outcomes fan s moves) : fan < t.fans.length := by
  induction moves generalizing s with
  | nil => exact absurd hp List.not_mem_nil
  | cons m rest ih =>
    obtain ⟨u, hMove, hRest⟩ := run?_cons_eq_some.mp hRun
    rw [outcomes, noted, hMove] at hp
    rcases List.mem_append.mp hp with hNow | hLater
    · have hFan : ConcernsFan fan m := by
        by_contra hNot
        rw [outcome?_of_not_concernsFan hNot] at hNow
        contradiction
      obtain ⟨f, hf, -⟩ := exists_open_of_concernsFan hFan hMove
      have hLt := (List.getElem?_eq_some_iff.mp hf).1
      have hGrows := (goesOn_of_run? hRun).fans
      omega
    · exact ih hRest hLater

/-- What a branch has brought in a run has arrived. -/
theorem exists_arrival_of_outcome {fan j : Nat} {f : FanOut} {o : Outcome} (hf : s.fans[fan]? = some f)
    (hBackend : (f.branches.map (·.backend))[j]? = some b) (hWrite : f.request.isWrite = true)
    (hRun : s.run? moves = some t) (hOutcome : (j, o) ∈ outcomes fan s moves)
    (hAnswered : o.isAnswered = true) : ∃ x, x ∈ arrivalsAt b f.request.address s moves := by
  induction moves generalizing s f with
  | nil => exact absurd hOutcome List.not_mem_nil
  | cons m rest ih =>
    obtain ⟨u, hMove, hRest⟩ := run?_cons_eq_some.mp hRun
    rw [outcomes, noted, hMove] at hOutcome
    rw [arrivalsAt_cons hMove]
    rcases List.mem_append.mp hOutcome with hNow | hLater
    · have hArrives :=
        mem_arrivals_of_outcome? hf hBackend hWrite (Option.mem_toList.mp hNow) hAnswered
      have hAt : Arrival.IsAt b f.request.address ⟨.fan fan, b, f.request⟩ := ⟨rfl, rfl⟩
      exact ⟨_, List.mem_append_left _ (List.mem_filter.mpr ⟨hArrives, decide_eq_true hAt⟩)⟩
    · obtain ⟨g, hg, hKin⟩ := kin_of_move? hMove hf
      rw [← hKin.backends] at hBackend
      rw [← hKin.request] at hWrite ⊢
      obtain ⟨x, hx⟩ := ih hg hBackend hWrite hRest hLater
      exact ⟨x, List.mem_append_right _ hx⟩

/-! ## A write that has succeeded -/

/-- A write sent to all mains that has succeeded has joined its fan-out, which was finished. -/
theorem joined_of_written (hs : s.Sound) (hFans : s.fansOut r = true) (hMains : s.world.mains ≠ [])
    (hReturns : s.Returns s.tickets (.submit (.request r) :: moves) t (.returned (.ok .done))) :
    ∃ before u g begun, moves = before ++ [.event (.join s.tickets)] ∧
      (s.submit (.request r)).run? before = some u ∧
      Joining u s.tickets s.fans.length r s.deadline g begun
        (outcomes s.fans.length (s.submit (.request r)) before) ∧
      g.isFinished = true ∧ t = u.endFan s.tickets r g := by
  have hStart := joining_submit hs hFans hMains
  obtain ⟨u, hFirst, hRest⟩ := hReturns.of_cons
  cases hFirst
  rcases joined_or_expired_of_returns hStart hRest with
    ⟨before, u, g, hMoves, hBefore, hJoining, hEnds⟩ | ⟨-, after, hTimeout⟩
  · rw [List.nil_append] at hJoining
    exact ⟨before, u, g, _, hMoves, hBefore, hJoining, hEnds⟩
  · cases hTimeout

/-- A write sent to all mains that has succeeded has arrived at each of them. -/
theorem arrives_of_fansOut (hs : s.Sound) (hFans : s.fansOut r = true)
    (hReturns : s.Returns s.tickets (.submit (.request r) :: moves) t (.returned (.ok .done)))
    (hMain : b ∈ s.world.mains) :
    ∃ x, x ∈ arrivalsAt b r.address s (.submit (.request r) :: moves) := by
  have hMains : s.world.mains ≠ [] := List.ne_nil_of_mem hMain
  have hMove : s.move? (.submit (.request r)) = some (s.submit (.request r)) := rfl
  have hStart := joining_submit hs hFans hMains
  have hFrame := (goesOn_of_move? hMove).frame
  obtain ⟨before, u, g, begun, rfl, hBefore, hJoining, hFinished, rfl⟩ :=
    joined_of_written hs hFans hMains hReturns
  -- success means that every branch was answered
  obtain ⟨j, hj⟩ := List.getElem?_of_mem hMain
  have hSame := World.mains_of_frame_eq ((goesOn_of_run? hBefore).frame.trans hFrame)
  have hLt : j < u.world.mains.length := by
    rw [hSame]
    exact (List.getElem?_eq_some_iff.mp hj).1
  obtain ⟨answer, hAnswer⟩ := exists_answered_of_joined hJoining hFinished hReturns.ended hLt
  rw [← World.mains_of_frame_eq hFrame, ← hStart.backends] at hj
  obtain ⟨x, hx⟩ :=
    exists_arrival_of_outcome hStart.fanOut hj (isWrite_of_fansOut hFans) hBefore hAnswer rfl
  have hx : x ∈ arrivalsAt b r.address (s.submit (.request r)) before := hx
  refine ⟨x, ?_⟩
  rw [arrivalsAt_cons hMove, arrivalsAt_append hBefore]
  exact List.mem_append_right _ (List.mem_append_left _ hx)

/-- A put that has succeeded has found a main that took its payload, and left the others to the background. -/
theorem tries_of_written {data : Bytes} (hs : s.Sound) (hMindful : s.Mindful)
    (hAsync : s.replication = .async) (hMains : s.world.mains ≠ [])
    (hReturns : s.Returns s.tickets (.submit (.request (.put a data)) :: moves) t
      (.returned (.ok .done))) :
    ∃ before u passed, s.Pending s.tickets before u ∧ Tries u s.tickets a data
      (trailOf s.tickets s (.submit (.request (.put a data)) :: moves)) t (.found passed .done) := by
  obtain ⟨before, last, u, -, hPending, -, ⟨w, hEnd, hTries⟩ | ⟨-, after, hOver⟩⟩ :=
    tries_of_returns hs hMindful hAsync hMains hReturns
  · cases w with
    | found passed answer =>
      cases hEnd
      exact ⟨before, u, passed, hPending, hTries⟩
    | lost error => cases hEnd
    | crashed reason => cases hEnd
  · have hEnded := hReturns.ended
    rw [hOver.ended] at hEnded
    cases hEnded

/-- A payload whose put has succeeded is in the main that took it, and it arrives at every other main
if what was left to the background does. -/
theorem arrives_of_placed {data : Bytes} {more : List Move} (hs : s.Sound) (hMindful : s.Mindful)
    (hAsync : s.replication = .async)
    (hReturns : s.Returns s.tickets (.submit (.request (.put a data)) :: moves) t
      (.returned (.ok .done)))
    (hMore : t.run? more = some v) (hDone : ∀ fan < t.fans.length, v.isFinished fan = true)
    (hAnswered : ∀ fan, s.fans.length ≤ fan → ∀ p ∈ outcomes fan t more, p.2.isAnswered = true)
    (hMain : b ∈ s.world.mains) :
    t.world.HasTaken b (.put a data) ∨ ∃ x, x ∈ arrivalsAt b a t more := by
  have hMains : s.world.mains ≠ [] := List.ne_nil_of_mem hMain
  have hFrame := (goesOn_of_run? hReturns.run).frame
  obtain ⟨before, u, passed, hPending, hTries⟩ :=
    tries_of_written hs hMindful hAsync hMains hReturns
  obtain ⟨j, c, hPlaced⟩ := placed_of_tries hFrame hTries
  by_cases hHere : b = c
  · exact .inl (hHere ▸ hPlaced.taken)
  · right
    -- the main is one of those that were left to the background
    have hOther : b ∈ s.world.mains.eraseIdx j := by
      obtain ⟨i, hi⟩ := List.getElem?_of_mem hMain
      refine List.mem_eraseIdx_iff_getElem?.mpr ⟨i, ?_, hi⟩
      rintro rfl
      rw [hPlaced.main, Option.some.injEq] at hi
      exact hHere hi.symm
    have hSome : s.world.mains.eraseIdx j ≠ [] := List.ne_nil_of_mem hOther
    have hDetached :=
      hPlaced.detached hTries.ends.sound (sound_of_run? hs hPending.run) hTries.others hSome
    have hLt : u.fans.length < t.fans.length := (List.getElem?_eq_some_iff.mp hDetached.fanOut).1
    obtain ⟨-, hPerm⟩ := hDetached.drained hMore (hDone _ hLt)
    obtain ⟨n, hn⟩ := List.getElem?_of_mem hOther
    have hMem : n ∈ (outcomes u.fans.length t more).map (·.1) := by
      rw [hPerm.mem_iff, List.mem_range]
      exact (List.getElem?_eq_some_iff.mp hn).1
    obtain ⟨⟨_, o⟩, hOutcome, rfl⟩ := List.mem_map.mp hMem
    have hIs := hAnswered _ (goesOn_of_run? hPending.run).fans _ hOutcome
    rw [← hDetached.backends] at hn
    exact exists_arrival_of_outcome hDetached.fanOut hn rfl hMore hOutcome hIs

/-- A write that has succeeded has gone to some main. -/
theorem mains_ne_nil_of_written (hWrite : r.isWrite = true)
    (hReturns : s.Returns s.tickets (.submit (.request r) :: moves) t (.returned (.ok .done))) :
    s.world.mains ≠ [] := by
  intro hNone
  obtain ⟨u, hFirst, hRest⟩ := hReturns.of_cons
  cases hFirst
  have hRefused : (s.submit (.request r)).ended? s.tickets =
      some (.returned (.error (.noMainBackend r.operation))) := by
    rw [submit_of_mains_eq_nil hWrite hNone]
    exact ended?_finish_self ..
  have hEnded := hReturns.ended
  rw [← hRest.eq_of_ended? hRefused, hRefused] at hEnded
  cases hEnded

/-- A write that has succeeded leaves the cache without its object. -/
theorem find?_of_written (hs : s.Sound) (hMindful : s.Mindful) (hWrite : r.isWrite = true)
    (hReturns : s.Returns s.tickets (.submit (.request r) :: moves) t (.returned (.ok .done))) :
    t.watched.cache.find? r.address.key = none := by
  obtain ⟨before, last, u, hMoves, hPending, -⟩ :=
    hReturns.exists_last (ended?_of_sound hs (Nat.le_refl _))
  have hFirst : (before ++ [last]).head? = some (.submit (.request r)) := by
    rw [← hMoves]
    rfl
  rw [hMoves] at hReturns
  exact (find?_eq_none_iff_of_returns hs hMindful hWrite hFirst hPending.run hReturns).mpr (.inl rfl)

/-! ## Writing and waiting -/

/-- A caller that is alone asks for a write, which succeeds. It goes on without another write of the
object, waits for the background writes when it is alone again, and all of those launched since it asked
for its write have brought what they were to bring. -/
structure WritesAndWaits (s : Session) (r : Request) (first : List Move) (t : Session)
    (between : List Move) (u : Session) (last : List Move) (v : Session) : Prop where
  idle : s.running = []
  written : s.Returns s.tickets (.submit (.request r) :: first) t (.returned (.ok .done))
  alone : ∀ m ∈ first, m.isFree = true
  goes : t.run? between = some u
  others : ∀ m ∈ between, ∀ q, m.Asks (.request q) → q.isWrite = true → q.address ≠ r.address
  rests : u.running = []
  waited : u.Returns u.tickets (.submit .wait :: last) v (.returned (.ok .done))
  patient : ∀ m ∈ last, m.isFree = true
  answered : ∀ fan, s.fans.length ≤ fan →
    ∀ p ∈ outcomes fan t (between ++ .submit .wait :: last), p.2.isAnswered = true

theorem not_asks_of_isFree {o : Order} (hFree : m.isFree = true) : ¬ m.Asks o := by
  intro hAsks
  cases hAsks <;> contradiction

namespace WritesAndWaits

variable {first between last : List Move}

theorem goesOn (h : WritesAndWaits s r first t between u last v) :
    t.run? (between ++ .submit .wait :: last) = some v :=
  (run?_append h.goes _).trans h.waited.run

theorem run (h : WritesAndWaits s r first t between u last v) :
    s.run? ((.submit (.request r) :: first) ++ (between ++ .submit .wait :: last)) = some v :=
  (run?_append h.written.run _).trans h.goesOn

/-- All that is asked for is the write, or about something else. -/
theorem asks (h : WritesAndWaits s r first t between u last v) :
    ∀ m ∈ (.submit (.request r) :: first) ++ (between ++ .submit .wait :: last), ∀ q,
      m.Asks (.request q) → q.isWrite = true → q.address = r.address → q = r := by
  intro m hm q hAsks hWrite hAddress
  rcases List.mem_append.mp hm with hm | hm
  · rcases List.mem_cons.mp hm with rfl | hm
    · cases hAsks
      rfl
    · exact absurd hAsks (not_asks_of_isFree (h.alone m hm))
  · rcases List.mem_append.mp hm with hm | hm
    · exact absurd hAddress (h.others m hm q hAsks hWrite)
    · rcases List.mem_cons.mp hm with rfl | hm
      · cases hAsks
      · exact absurd hAsks (not_asks_of_isFree (h.patient m hm))

/-- All that arrives is the write, or it was owed when the write was asked for. -/
theorem request_eq_or_owes (h : WritesAndWaits s r first t between u last v) (hs : s.Reachable)
    (hx : x ∈ arrivalsAt b r.address s
      ((.submit (.request r) :: first) ++ (between ++ .submit .wait :: last))) :
    x.request = r ∨ s.Owes b x := by
  refine request_eq_or_owes_of_alone (mindful_of_reachable hs) (fun p hp => ?_) h.asks h.run hx
  rw [h.idle] at hp
  contradiction

/-- When the caller has waited, nothing is left to do on the fan-outs that were there when its write
returned. -/
theorem finished (h : WritesAndWaits s r first t between u last v) (hs : s.Reachable) :
    ∀ fan < u.fans.length, v.isFinished fan = true := by
  have hThere : u.Reachable := (hs.run? h.written.run).run? h.goes
  exact (drained_of_returns (sound_of_reachable hThere) (attended_of_reachable hThere) h.rests
    h.waited).finished

/-- In the end a main holds what the write has left, or what was owed to it when the write was asked for
and has arrived last. -/
theorem hasTaken_or_owed (h : WritesAndWaits s r first t between u last v) (hs : s.Reachable)
    (hAsync : s.replication = .async) (hWrite : r.isWrite = true) (hMain : b ∈ s.world.mains)
    (hApart : s.world.Apart b r.address) :
    v.world.HasTaken b r ∨ ∃ x, (arrivalsAt b r.address s
        ((.submit (.request r) :: first) ++ (between ++ .submit .wait :: last))).getLast? = some x ∧
      s.Owes b x ∧ v.world.HasTaken b x.request := by
  have hSound := sound_of_reachable hs
  have hMindful := mindful_of_reachable hs
  have hGrows := (goesOn_of_run? h.goes).fans
  have hDone : ∀ fan < t.fans.length, v.isFinished fan = true := fun fan hFan =>
    h.finished hs fan (by omega)
  have hFrame := (goesOn_of_run? h.written.run).frame
  have hSplit := arrivalsAt_append (b := b) (a := r.address) h.written.run
    (between ++ .submit .wait :: last)
  -- it is up to what has arrived last
  have hLast (hSome : arrivalsAt b r.address s
      ((.submit (.request r) :: first) ++ (between ++ .submit .wait :: last)) ≠ []) :
      v.world.HasTaken b r ∨ ∃ x, (arrivalsAt b r.address s
          ((.submit (.request r) :: first) ++ (between ++ .submit .wait :: last))).getLast? = some x ∧
        s.Owes b x ∧ v.world.HasTaken b x.request := by
    have hFinal := List.getLast?_eq_some_getLast hSome
    have hTaken := (object_of_run? hMindful hApart h.run).1 _ hFinal
    rcases h.request_eq_or_owes hs (List.mem_of_getLast? hFinal) with hIs | hOwes
    · exact .inl (hIs ▸ hTaken)
    · exact .inr ⟨_, hFinal, hOwes, hTaken⟩
  by_cases hFans : s.fansOut r = true
  · obtain ⟨x, hx⟩ := arrives_of_fansOut hSound hFans h.written hMain
    refine hLast (List.ne_nil_of_mem (a := x) ?_)
    rw [hSplit]
    exact List.mem_append_left _ hx
  · obtain ⟨a, data, rfl⟩ : ∃ a data, r = .put a data := by
      cases r with
      | put a data => exact ⟨a, data, rfl⟩
      | remove a => exact absurd rfl hFans
      | get a => contradiction
      | holds a => contradiction
    rcases arrives_of_placed hSound hMindful hAsync h.written h.goesOn hDone h.answered hMain with
      hTaken | ⟨x, hx⟩
    · by_cases hNone : arrivalsAt b a t (between ++ .submit .wait :: last) = []
      · -- it has been there since the put returned
        left
        have hStays := (object_of_run? (mindful_of_run? hMindful h.written.run)
          (hApart.of_frame_eq hFrame) h.goesOn).2 hNone
        exact hTaken.of_objectAt?_eq (goesOn_of_run? h.goesOn).frame hStays
      · refine hLast fun hNil => hNone ?_
        rw [hSplit] at hNil
        exact (List.append_eq_nil_iff.mp hNil).2
    · refine hLast (List.ne_nil_of_mem (a := x) ?_)
      rw [hSplit]
      exact List.mem_append_right _ hx

end WritesAndWaits

end Session

end ReplicatedStore
