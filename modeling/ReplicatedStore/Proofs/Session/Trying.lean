import ReplicatedStore.Proofs.Session.Arriving
import ReplicatedStore.Proofs.Session.Consulting
import ReplicatedStore.Proofs.Session.Resting

/-!
# Mains that are tried

An order that places a payload tries the mains in their order until one of them takes it. As long as it
is under way, the mains behind it have all failed, and each of them was called once. So it is told by its
calls how it ends: the first main that takes the payload ends it at once, with all mains before that one
behind it, and if none does, the failures of all mains are listed in the order of the mains.

Main results:

* `Walk.tried_of_went` — what a walk that places a payload has called.
* `Session.trying_of_move?` — an order goes on to try mains, ends as its calls tell, or is given up.
* `Session.tries_of_returns` — how the order ends.
-/

namespace ReplicatedStore

/-- The failure that is noted of a main that was tried. -/
def World.failure? (w : World) : Nat × Outcome → Option StoreError
  | (b, .failed f) => some (.backend (w.nameOf b) .put f)
  | (_, .answered _) | (_, .crashed _) => none

theorem World.failure?_of_frame_eq {v w : World} (h : v.frame = w.frame) : v.failure? = w.failure? := by
  funext ⟨b, o⟩
  cases o <;> simp [failure?, nameOf_of_frame_eq h]

theorem World.failure?_eq (w : World) : w.failure? = Outcome.noted? w.nameOf .put := by
  funext ⟨b, o⟩
  cases o <;> rfl

theorem length_filterMap_failure? (w : World) {outcomes : List (Nat × Outcome)}
    (h : AllFailed outcomes) : (outcomes.filterMap w.failure?).length = outcomes.length := by
  rw [w.failure?_eq, length_filterMap_noted? _ _ h]

namespace Walk

/-- The walk of a payload over the mains of a world, when calls have failed. -/
def placing (w : World) (a : Address) (data : Bytes) (failed : List (Nat × Outcome))
    (todo : List Nat) : Walk :=
  { search := .place data, address := a, total := w.mains.length, passed := failed.length
    errors := failed.filterMap w.failure?, todo }

/-- A walk that has failed at all mains ends with their failures as one. -/
theorem ended_exhausted_placing {w : World} {outcomes : List (Nat × Outcome)}
    (h : outcomes.filterMap w.failure? ≠ []) (a : Address) (data : Bytes) (todo : List Nat) :
    (placing w a data outcomes todo).exhausted.ended = Session.endOfVerdict
      (StoreError.aggregate .put w.mains.length (outcomes.filterMap w.failure?)) := by
  unfold exhausted placing
  simp only
  split
  · rename_i e hError
    rw [hError]
    rfl
  · rename_i hNone
    exact absurd ((StoreError.aggregate_eq_none_iff ..).mp hNone) h

/-- What is known of a walk that places a payload by all that it has called so far. -/
inductive Tried (w : World) (a : Address) (data : Bytes) (trail : Trail) : WalkState → Prop
  /-- one main after the other has failed, and the next one was called -/
  | waits {b : Nat} {rest : List Nat} (delay : Duration) (held : Held)
      (hMains : w.mains = trail.outcomes.map (·.1) ++ b :: rest)
      (hCalled : trail.called = trail.outcomes.map (·.1) ++ [b]) (hFailed : AllFailed trail.outcomes) :
      Tried w a data trail (.suspended (placing w a data trail.outcomes (b :: rest)) delay held)
  /-- one main after the other has failed, and then one has taken the payload -/
  | found {behind : List (Nat × Outcome)} {b : Nat} {rest : List Nat}
      (hMains : w.mains = behind.map (·.1) ++ b :: rest)
      (hCalled : trail.called = behind.map (·.1) ++ [b])
      (hOutcomes : trail.outcomes = behind ++ [(b, .answered .done)]) (hFailed : AllFailed behind) :
      Tried w a data trail (.over (.found behind.length .done))
  /-- one main after the other has failed, and then a call has crashed -/
  | crashed {behind : List (Nat × Outcome)} {b : Nat} {rest : List Nat} (reason : String)
      (hMains : w.mains = behind.map (·.1) ++ b :: rest)
      (hCalled : trail.called = behind.map (·.1) ++ [b])
      (hOutcomes : trail.outcomes = behind ++ [(b, .crashed reason)]) (hFailed : AllFailed behind) :
      Tried w a data trail (.over (.crashed reason))
  /-- all mains have failed -/
  | lost (todo : List Nat) (hMains : w.mains = trail.outcomes.map (·.1))
      (hCalled : trail.called = w.mains) (hFailed : AllFailed trail.outcomes) :
      Tried w a data trail (.over (placing w a data trail.outcomes todo).exhausted)

variable {v w : World} {a : Address} {data : Bytes} {trail : Trail} {state : WalkState}

theorem Tried.of_frame_eq (h : Tried w a data trail state) (hFrame : v.frame = w.frame) :
    Tried v a data trail state := by
  have hMains := World.mains_of_frame_eq hFrame
  have hSame (failed : List (Nat × Outcome)) (todo : List Nat) :
      placing w a data failed todo = placing v a data failed todo := by
    rw [placing, placing, hMains, World.failure?_of_frame_eq hFrame]
  cases h with
  | waits delay held hAll hCalled hFailed =>
    rw [hSame]
    exact .waits delay held (hMains.trans hAll) hCalled hFailed
  | found hAll hCalled hOutcomes hFailed => exact .found (hMains.trans hAll) hCalled hOutcomes hFailed
  | crashed reason hAll hCalled hOutcomes hFailed =>
    exact .crashed reason (hMains.trans hAll) hCalled hOutcomes hFailed
  | lost todo hAll hCalled hFailed =>
    rw [hSame]
    exact .lost todo (hMains.trans hAll) (hCalled.trans hMains.symm) hFailed

/-- A walk that places a payload passes failures alone. -/
theorem after?_place {outcomes : List (Nat × Outcome)} {walk : Walk} (hSuits : ∀ p ∈ outcomes,
      p.2.Suits (.put a data)) : (ofOrder (.place data) a w.mains).after? w.nameOf outcomes = some walk ↔
    AllFailed outcomes ∧ walk = placing w a data outcomes w.mains := by
  have hAfter (hFailed : AllFailed outcomes) : (ofOrder (.place data) a w.mains).after? w.nameOf outcomes =
      some (placing w a data outcomes w.mains) := by
    rw [after?_of_allFailed w.nameOf _ hFailed]
    simp [placing, w.failure?_eq, ofOrder, request, Request.operation]
  constructor
  · intro h
    have hDecides : ∀ x, Answer.Suits (ofOrder (.place data) a w.mains).request x →
        x ≠ .presence false := by
      rintro x rfl hAbsent
      cases hAbsent
    have hFailed : AllFailed outcomes := allFailed_of_after? hDecides h hSuits
    rw [hAfter hFailed, Option.some.injEq] at h
    exact ⟨hFailed, h.symm⟩
  · rintro ⟨hFailed, rfl⟩
    exact hAfter hFailed

/-- How a walk that places a payload stands by what it has called. -/
theorem tried_of_went (h : Went w.nameOf (ofOrder (.place data) a w.mains) trail state)
    (hSuits : trail.Suits (.put a data)) : Tried w a data trail state := by
  cases h with
  | waits delay held hOrder hCalled hAfter =>
    obtain ⟨hFailed, rfl⟩ := (after?_place hSuits).mp hAfter
    exact .waits delay held hOrder hCalled hFailed
  | @decided walk behind b rest o e hOrder hCalled hOutcomes hAfter hWeigh =>
    have hAll : ∀ p ∈ behind ++ [(b, o)], p.2.Suits (.put a data) := hOutcomes ▸ hSuits
    obtain ⟨hFailed, rfl⟩ :=
      (after?_place fun p hp => hAll p (List.mem_append_left _ hp)).mp hAfter
    -- an answer decides it, and so does a crash
    cases o with
    | answered x =>
      obtain rfl := hAll (b, .answered x) (List.mem_append_right _ (List.mem_singleton_self _)) x rfl
      cases hWeigh
      exact .found hOrder hCalled hOutcomes hFailed
    | crashed reason =>
      cases hWeigh
      exact .crashed reason hOrder hCalled hOutcomes hFailed
    | failed f => simp [weigh] at hWeigh
  | exhausted hOrder hCalled hAfter =>
    obtain ⟨hFailed, rfl⟩ := (after?_place hSuits).mp hAfter
    exact .lost w.mains hOrder hCalled hFailed

/-- A walk that places a payload tries the mains from the start. -/
theorem tried_go (w : World) (a : Address) (data : Bytes) :
    Tried w a data ((ofOrder (.place data) a w.mains).trailFrom w w.mains)
      ((ofOrder (.place data) a w.mains).go w).2 := by
  have hSuits : ((ofOrder (.place data) a w.mains).trailFrom w w.mains).Suits (.put a data) :=
    suits_trailFrom (ofOrder (.place data) a w.mains) w w.mains
  exact tried_of_went (went_go _ w) hSuits

/-- A walk whose call is finished. -/
theorem tried_resume {walk : Walk} {delay : Duration} {held : Held}
    (h : Tried w a data trail (.suspended walk delay held)) (hMinds : walk.Minds w (.put a data) held) :
    Tried w a data (trail ++ walk.trailAfter w held) (walk.resume w held).2 := by
  cases h with
  | waits delay held hMains hCalled hFailed =>
    have hSuits := hFailed.suits (.put a data)
    have hWent := Went.waits delay held hMains hCalled ((after?_place hSuits).mpr ⟨hFailed, rfl⟩)
    exact tried_of_went (went_resume hWent rfl) (hSuits.append (suits_trailAfter hMinds))

/-- Whether the last backend that was called has answered, and has taken what was asked for, if a walk
has found something. -/
def Takes (r : Request) (outcomes : List (Nat × Outcome)) : World × WalkState → Prop
  | (v, .over (.found _ x)) => ∃ b, outcomes.getLast? = some (b, .answered x) ∧ v.HasTaken b r
  | _ => True

theorem Takes.append {r : Request} {outcomes : List (Nat × Outcome)} {state : World × WalkState}
    (h : Takes r outcomes state) (before : List (Nat × Outcome)) :
    Takes r (before ++ outcomes) state := by
  rcases state with ⟨v, (⟨passed, x⟩ | e | reason) | ⟨walk, delay, held⟩⟩
  · obtain ⟨b, hLast, hTaken⟩ := h
    refine ⟨b, ?_, hTaken⟩
    rw [List.getLast?_append, hLast]
    rfl
  · trivial
  · trivial
  · trivial

theorem takes_goFrom {walk : Walk} (hRequest : walk.request = .put a data) (w : World)
    (ahead : List Nat) : Takes (.put a data) (walk.trailFrom w ahead).outcomes (walk.goFrom w ahead) := by
  induction ahead generalizing w walk with
  | nil =>
    rw [goFrom_nil]
    unfold exhausted
    cases hSearch : walk.search with
    | fetch => simp [request, hSearch] at hRequest
    | probe => simp [request, hSearch] at hRequest
    | place data =>
      simp only
      split <;> trivial
  | cons b rest ih =>
    unfold trailFrom goFrom
    rw [hRequest]
    cases hBegin : w.begin b (.put a data) with
    | mk u begun =>
      rcases begun with o | ⟨delay, held⟩
      · have hFollows := World.follows_begin hBegin
        cases o with
        | answered x =>
          obtain rfl := hFollows.done rfl x rfl
          exact ⟨b, rfl, hFollows.taken rfl⟩
        | crashed reason => trivial
        | failed f =>
          have hPass : (walk.pass (some (.backend (u.nameOf b) walk.request.operation f))).request =
              .put a data := hRequest
          exact (ih hPass u).append [(b, .failed f)]
      · trivial

theorem takes_resume {walk : Walk} {held : Held} (hMinds : walk.Minds w (.put a data) held) :
    Takes (.put a data) (walk.trailAfter w held).outcomes (walk.resume w held) := by
  obtain ⟨hRequest, b, rest, hTodo, hKeeps⟩ := hMinds
  have hFollows := World.follows_finish hKeeps
  unfold trailAfter resume
  rw [hTodo]
  simp only
  cases hOutcome : (w.finish b held).2 with
  | answered x =>
    obtain rfl := hFollows.done rfl x hOutcome
    exact ⟨b, rfl, hFollows.taken (by rw [hOutcome]; rfl)⟩
  | crashed reason => trivial
  | failed f =>
    have hPass : (walk.pass (some (.backend ((w.finish b held).1.nameOf b) walk.request.operation
        f))).request = .put a data := hRequest
    exact (takes_goFrom hPass (w.finish b held).1 rest).append [(b, .failed f)]

end Walk

namespace Session

/-- What a move lets the walk of an order call. -/
def trailBy (s : Session) (ticket : Nat) (m : Move) : Trail :=
  match s.going? m with
  | none => {}
  | some g => if g.ticket = ticket then g.trail else {}

/-- What the walk of an order calls in a run. -/
def trailOf (ticket : Nat) : Session → List Move → Trail
  | _, [] => {}
  | s, m :: rest =>
    s.trailBy ticket m ++
      match s.move? m with
      | none => {}
      | some t => trailOf ticket t rest

/-- An order that places a payload and is under way, with all that it has called so far. -/
structure Trying (s : Session) (ticket : Nat) (a : Address) (data : Bytes)
    (deadline : Option Duration) (trail : Trail) : Prop where
  sound : s.Sound
  mindful : s.Mindful
  unended : s.ended? ticket = none
  walking : ∃ walk due delay held,
    s.running? ticket =
      some { ticket, order := .request (.put a data), deadline, activity := .walking walk due held } ∧
    Walk.Tried s.world a data trail (.suspended walk delay held)

/-- What the last move of an order that places a payload has come to. -/
structure Tries (s : Session) (ticket : Nat) (a : Address) (data : Bytes) (trail : Trail)
    (t : Session) (e : WalkEnd) : Prop where
  tried : Walk.Tried t.world a data trail (.over e)
  takes : Walk.Takes (.put a data) trail.outcomes (t.world, .over e)
  ends : t.Over ticket e.ended
  others : ∀ p ∈ t.running, p ∈ s.running
  /-- without success, or without another main, nothing is left to the background -/
  alone : (∀ passed x, e = .found passed x → t.world.mains.eraseIdx passed = []) →
    t.fans = s.fans ∧ t.launched = s.launched
  /-- the other mains are left to the background -/
  spread : ∀ passed x, e = .found passed x → t.world.mains.eraseIdx passed ≠ [] →
    t.fans = s.fans ++ [.ofBackends (.put a data) (t.world.mains.eraseIdx passed) true] ∧
      s.fans.length ∈ t.launched

/-- Whether an order that places a payload was given up because its deadline had passed. -/
def GivenUp (t : Session) (ticket : Nat) (deadline : Option Duration) : Prop :=
  deadline ≠ none ∧ ∃ after, t.Over ticket (.returned (.error (.timeout .put after)))

variable {s t u x : Session} {ticket : Nat} {a : Address} {data : Bytes} {deadline : Option Duration}
  {trail : Trail} {m : Move}

theorem trailOf_cons {rest : List Move} (hMove : s.move? m = some t) :
    trailOf ticket s (m :: rest) = s.trailBy ticket m ++ trailOf ticket t rest := by
  rw [trailOf, hMove]

theorem trailOf_append {first : List Move} (hRun : s.run? first = some t) (rest : List Move) :
    trailOf ticket s (first ++ rest) = trailOf ticket s first ++ trailOf ticket t rest := by
  induction first generalizing s with
  | nil =>
    rw [run?, Option.some.injEq] at hRun
    rw [hRun]
    rfl
  | cons m first ih =>
    obtain ⟨u, hMove, hTail⟩ := run?_cons_eq_some.mp hRun
    rw [List.cons_append, trailOf_cons hMove, trailOf_cons hMove, ih hTail, Trail.append_assoc]

/-- Only an order's own walk calls for it. -/
theorem trailBy_of_others (hTicket : ticket < s.tickets) (hOther : ¬ ConcernsOrder ticket m) :
    s.trailBy ticket m = {} := by
  unfold trailBy
  cases hGoing : s.going? m with
  | none => rfl
  | some g =>
    have hNe : g.ticket ≠ ticket := by
      cases m with
      | submit order =>
        cases order with
        | wait => simp [going?] at hGoing
        | shutdown => simp [going?] at hGoing
        | request r =>
          cases r with
          | put c other =>
            simp only [going?, Option.ite_none_right_eq_some] at hGoing
            obtain ⟨-, hGoing⟩ := hGoing
            cases hGoing
            exact Nat.ne_of_gt hTicket
          | get c => simp [going?] at hGoing
          | remove c => simp [going?] at hGoing
          | holds c => simp [going?] at hGoing
      | submitStream c input failure =>
        simp only [going?] at hGoing
        split at hGoing
        · simp only [Option.ite_none_right_eq_some] at hGoing
          obtain ⟨-, hGoing⟩ := hGoing
          cases hGoing
          exact Nat.ne_of_gt hTicket
        · contradiction
      | event e =>
        cases e with
        | resume other =>
          simp only [going?, Option.bind_eq_bind, Option.bind_eq_some_iff] at hGoing
          obtain ⟨p, -, hGoing⟩ := hGoing
          split at hGoing
          · cases hGoing
            exact fun hEq => hOther (hEq ▸ .resume)
          · contradiction
        | expire other => simp [going?] at hGoing
        | start fan branch => simp [going?] at hGoing
        | complete fan branch => simp [going?] at hGoing
        | join other => simp [going?] at hGoing
      | tick time => simp [going?] at hGoing
      | cache order => simp [going?] at hGoing
      | fill key other => simp [going?] at hGoing
    exact if_neg hNe

/-- Without success, or without another main, nothing is left to the background. -/
theorem alone_endWalk (s : Session) (ticket : Nat) (a : Address) (data : Bytes) {e : WalkEnd}
    (h : ∀ passed x, e = .found passed x → s.world.mains.eraseIdx passed = []) :
    (s.endWalk ticket (.put a data) e).fans = s.fans ∧
      (s.endWalk ticket (.put a data) e).launched = s.launched := by
  cases e with
  | crashed reason => exact ⟨rfl, rfl⟩
  | lost error =>
    have hSettled : ∃ watched, s.settle a (.error error) = { s with watched } := by
      unfold settle
      simp only
      split
      · exact ⟨_, rfl⟩
      · exact ⟨s.watched, rfl⟩
    obtain ⟨watched, hEq⟩ := hSettled
    have hEnd : s.endWalk ticket (.put a data) (.lost error) =
        { s with watched }.return_ ticket (.error error) := by
      rw [← hEq]
      rfl
    rw [hEnd]
    exact ⟨rfl, rfl⟩
  | found passed x =>
    have hNone := h passed x rfl
    have hEnd : s.endWalk ticket (.put a data) (.found passed x) =
        ((s.replicate (.put a data) []).settle a (.ok x)).return_ ticket (.ok x) := by
      rw [← hNone]
      rfl
    rw [hEnd]
    exact ⟨rfl, rfl⟩

/-- The other mains are left to the background. -/
theorem spread_endWalk (s : Session) (ticket : Nat) (a : Address) (data : Bytes) {passed : Nat}
    (x : Answer) (h : s.world.mains.eraseIdx passed ≠ []) :
    (s.endWalk ticket (.put a data) (.found passed x)).fans =
        s.fans ++ [.ofBackends (.put a data) (s.world.mains.eraseIdx passed) true] ∧
      s.fans.length ∈ (s.endWalk ticket (.put a data) (.found passed x)).launched := by
  have hEnd : s.endWalk ticket (.put a data) (.found passed x) =
      ((s.replicate (.put a data) (s.world.mains.eraseIdx passed)).settle a (.ok x)).return_ ticket
        (.ok x) := rfl
  have hSome : (s.world.mains.eraseIdx passed).isEmpty = false := List.isEmpty_eq_false_iff.mpr h
  rw [hEnd, replicate, if_neg (Bool.eq_false_iff.mp hSome)]
  refine ⟨rfl, ?_⟩
  show s.fans.length ∈ s.launched.filter (fun fan => !s.isFinished fan) ++ [s.fans.length]
  exact List.mem_append_right _ (List.mem_singleton_self _)

theorem exists_over (h : (∃ w, Tries s ticket a data trail t w) ∨ GivenUp t ticket deadline) :
    ∃ e, t.Over ticket e := by
  rcases h with ⟨w, hTries⟩ | ⟨-, after, hOver⟩
  · exact ⟨w.ended, hTries.ends⟩
  · exact ⟨_, hOver⟩

/-- A walk that was set going for a payload waits, or it ends the order. -/
theorem trying_or_tries {state : World × WalkState}
    (hTried : Walk.Tried state.1 a data trail state.2)
    (hTakes : Walk.Takes (.put a data) trail.outcomes state) (hTicket : ticket < x.tickets)
    (hFrame : state.1.frame = x.world.frame)
    (hSound : (x.followWalk ticket (.put a data) deadline state).Sound)
    (hMindful : (x.followWalk ticket (.put a data) deadline state).Mindful)
    (hOpen : x.ended? ticket = none) (hRunning : x.running = s.running) (hFans : x.fans = s.fans)
    (hLaunched : x.launched = s.launched) :
    (Trying (x.followWalk ticket (.put a data) deadline state) ticket a data deadline trail ∧
      (x.followWalk ticket (.put a data) deadline state).fans = s.fans ∧
      (x.followWalk ticket (.put a data) deadline state).launched = s.launched) ∨
    ∃ e, Tries s ticket a data trail (x.followWalk ticket (.put a data) deadline state) e := by
  rcases state with ⟨v, e | ⟨walk, delay, held⟩⟩
  · right
    refine ⟨e, ?_⟩
    have hWorld : (x.followWalk ticket (.put a data) deadline (v, .over e)).world = v := world_followWalk ..
    have hAdvances := advances_followWalk x ticket (.put a data) deadline hFrame
    have hGone : (x.followWalk ticket (.put a data) deadline (v, .over e)).running? ticket = none :=
      running?_endWalk ..
    refine ⟨?_, ?_, ⟨hSound, ?_, hGone, ended?_endWalk ..⟩, fun p hp => ?_, ?_, ?_⟩
    · rw [hWorld]
      exact hTried
    · rw [hWorld]
      exact hTakes
    · rw [hAdvances.tickets]
      exact hTicket
    · rw [← hRunning]
      rcases hAdvances.order with ⟨-, hFiltered, -⟩ | ⟨r, hr, -, hSuspended, -⟩
      · rw [hFiltered] at hp
        exact (List.mem_filter.mp hp).1
      · have hMem : r ∈ (x.followWalk ticket (.put a data) deadline (v, .over e)).running := by
          rw [hSuspended]
          exact List.mem_append_right _ (List.mem_singleton_self r)
        have hNot := List.find?_eq_none.mp hGone r hMem
        simp [hr] at hNot
    · rw [hWorld, ← hFans, ← hLaunched]
      exact alone_endWalk { x with world := v } ticket a data
    · rw [hWorld, ← hFans]
      rintro passed answer rfl hSome
      exact spread_endWalk { x with world := v } ticket a data answer hSome
  · exact .inl ⟨⟨hSound, hMindful, hOpen, walk, x.now + delay, delay, held, running?_suspend_self ..,
      hTried⟩, hFans, hLaunched⟩

/-- An order that places a payload tries the mains one after the other from the start. -/
theorem trying_submit (hs : s.Sound) (hMindful : s.Mindful) (hAsync : s.replication = .async)
    (hMains : s.world.mains ≠ []) (a : Address) (data : Bytes) :
    (Trying (s.submit (.request (.put a data))) s.tickets a data s.deadline
        (s.trailBy s.tickets (.submit (.request (.put a data)))) ∧
      (s.submit (.request (.put a data))).fans = s.fans ∧
      (s.submit (.request (.put a data))).launched = s.launched) ∨
    ∃ e, Tries s s.tickets a data (s.trailBy s.tickets (.submit (.request (.put a data))))
      (s.submit (.request (.put a data))) e := by
  have hMove : s.move? (.submit (.request (.put a data))) = some (s.submit (.request (.put a data))) :=
    rfl
  have hSound := sound_of_move? hs hMove
  have hMinds := mindful_of_move? hMindful hMove
  have hFans : s.fansOut (.put a data) = false := by simp [fansOut, hAsync]
  have hTrail : s.trailBy s.tickets (.submit (.request (.put a data))) =
      (Walk.placing s.world a data [] s.world.mains).trailFrom s.world s.world.mains := by
    simp only [trailBy, going?, hAsync, if_true]
    exact if_pos rfl
  have hTried := Walk.tried_go s.world a data
  have hFrame := frame_goFrom s.world (Walk.placing s.world a data [] s.world.mains) s.world.mains
  rw [submit_of_placed hFans hMains] at hSound hMinds ⊢
  rw [hTrail]
  have hTakes : Walk.Takes (.put a data)
      ((Walk.placing s.world a data [] s.world.mains).trailFrom s.world s.world.mains).outcomes
      ((Walk.placing s.world a data [] s.world.mains).goFrom s.world s.world.mains) :=
    Walk.takes_goFrom rfl s.world s.world.mains
  exact trying_or_tries (hTried.of_frame_eq hFrame) hTakes (Nat.lt_succ_self _) hFrame hSound hMinds
    (ended?_of_sound hs (Nat.le_refl _)) rfl rfl rfl

/-- A move that does not concern the order. -/
theorem trying_of_others (h : Trying s ticket a data deadline trail)
    (hOther : ¬ ConcernsOrder ticket m) (hMove : s.move? m = some t) :
    Trying t ticket a data deadline trail := by
  obtain ⟨walk, due, delay, held, hOrder, hTried⟩ := h.walking
  obtain ⟨hMem, -⟩ := mem_of_running? hOrder
  have hLeaves := leavesOrder_of_move? (h.sound.running _ hMem) hOther hMove
  exact ⟨sound_of_move? h.sound hMove, mindful_of_move? h.mindful hMove,
    hLeaves.ended.trans h.unended, walk, due, delay, held, hLeaves.running.trans hOrder,
    hTried.of_frame_eq (goesOn_of_move? hMove).frame⟩

/-- An order that places a payload goes on to try mains, has tried them, or is given up. -/
theorem trying_of_move? (h : Trying s ticket a data deadline trail) (hMove : s.move? m = some t) :
    (Trying t ticket a data deadline (trail ++ s.trailBy ticket m) ∧
      (IsOfCall s ticket m → t.fans = s.fans ∧ t.launched = s.launched)) ∨
    (∃ e, Tries s ticket a data (trail ++ s.trailBy ticket m) t e) ∨
    GivenUp t ticket deadline := by
  obtain ⟨walk, due, delay, held, hOrder, hTried⟩ := h.walking
  obtain ⟨hMem, -⟩ := mem_of_running? hOrder
  have hGiven : ticket < s.tickets := h.sound.running _ hMem
  have hSound := sound_of_move? h.sound hMove
  have hMinds := mindful_of_move? h.mindful hMove
  by_cases hOwn : ConcernsOrder ticket m
  · cases walkStep_of_move? hOrder hOwn hMove with
    | resumes hEq =>
      subst hEq
      have hTrail : s.trailBy ticket (.event (.resume ticket)) = walk.trailAfter s.world held := by
        simp [trailBy, going?, hOrder]
      have hMinds' := h.mindful.running _ hMem _ walk due held rfl rfl
      have hFrame := frame_resume s.world walk held
      have hNext := (Walk.tried_resume hTried hMinds').of_frame_eq hFrame
      have hTakes := (Walk.takes_resume hMinds').append trail.outcomes
      rw [hTrail]
      rcases trying_or_tries hNext hTakes hGiven hFrame hSound hMinds h.unended rfl rfl rfl with
        ⟨hTrying, hSame⟩ | hEnds
      · exact .inl ⟨hTrying, fun _ => hSame⟩
      · exact .inr (.inl hEnds)
    | expires hDeadline after hEq =>
      subst hEq
      exact .inr (.inr ⟨hDeadline, after, hSound, hGiven, running?_finish_self .., ended?_finish_self ..⟩)
  · rw [trailBy_of_others hGiven hOwn, Trail.append_empty]
    refine .inl ⟨trying_of_others h hOwn hMove, fun hCall => ?_⟩
    -- the order has been submitted, and it joins no fan-out
    cases hCall with
    | submit order hTicket => omega
    | order hConcerns => exact absurd hConcerns hOwn
    | branch hp hJoins hFan =>
      rw [hOrder] at hp
      cases hp
      contradiction

/-! ## Runs -/

/-- As long as the order has not ended, all mains that have come to an outcome have failed. -/
theorem Trying.allFailed (h : Trying s ticket a data deadline trail) : AllFailed trail.outcomes := by
  obtain ⟨walk, due, delay, held, -, hTried⟩ := h.walking
  cases hTried with
  | waits delay held hMains hCalled hFailed => exact hFailed

theorem trying_of_pending {moves : List Move} (h : Trying s ticket a data deadline trail)
    (hPending : s.Pending ticket moves t) :
    Trying t ticket a data deadline (trail ++ trailOf ticket s moves) := by
  induction moves generalizing s trail with
  | nil =>
    have hRun := hPending.run
    rw [run?, Option.some.injEq] at hRun
    rw [trailOf, Trail.append_empty, ← hRun]
    exact h
  | cons m rest ih =>
    obtain ⟨u, hMove, hRest⟩ := hPending.of_cons
    rw [trailOf_cons hMove, ← Trail.append_assoc]
    rcases trying_of_move? h hMove with ⟨hNext, -⟩ | hEnds
    · exact ih hNext hRest
    · obtain ⟨e, hOver⟩ := exists_over hEnds
      have hEnded := hOver.ended
      rw [hRest.unended] at hEnded
      contradiction

theorem trying_of_submitted {moves : List Move} (hs : s.Sound) (hMindful : s.Mindful)
    (hAsync : s.replication = .async) (hMains : s.world.mains ≠ [])
    (hPending : s.Pending s.tickets (.submit (.request (.put a data)) :: moves) t) :
    Trying t s.tickets a data s.deadline
      (trailOf s.tickets s (.submit (.request (.put a data)) :: moves)) := by
  obtain ⟨u, hMove, hRest⟩ := hPending.of_cons
  rw [trailOf_cons hMove]
  cases hMove
  rcases trying_submit hs hMindful hAsync hMains a data with ⟨hTrying, -⟩ | ⟨e, hEnds⟩
  · exact trying_of_pending hTrying hRest
  · have hEnded := hEnds.ends.ended
    rw [hRest.unended] at hEnded
    contradiction

/-- An order that places a payload ends with one of its moves, when it has tried the mains or is given
up. -/
theorem tries_of_returns {moves : List Move} {e : Ended} (hs : s.Sound) (hMindful : s.Mindful)
    (hAsync : s.replication = .async) (hMains : s.world.mains ≠ [])
    (hReturns : s.Returns s.tickets (.submit (.request (.put a data)) :: moves) t e) :
    ∃ before last u, .submit (.request (.put a data)) :: moves = before ++ [last] ∧
      s.Pending s.tickets before u ∧ u.move? last = some t ∧
      ((∃ w, e = w.ended ∧ Tries u s.tickets a data
          (trailOf s.tickets s (.submit (.request (.put a data)) :: moves)) t w) ∨
        GivenUp t s.tickets s.deadline) := by
  have hOpen := ended?_of_sound hs (Nat.le_refl _)
  obtain ⟨before, last, u, hMoves, hPending, hMove⟩ := hReturns.exists_last hOpen
  have hTries : (∃ w, Tries u s.tickets a data
      (trailOf s.tickets s (.submit (.request (.put a data)) :: moves)) t w) ∨
      GivenUp t s.tickets s.deadline := by
    rw [hMoves]
    cases before with
    | nil =>
      obtain ⟨rfl, -⟩ := List.cons.inj hMoves
      have hRun := hPending.run
      rw [run?, Option.some.injEq] at hRun
      subst hRun
      cases hMove
      rcases trying_submit hs hMindful hAsync hMains a data with ⟨hTrying, -⟩ | hEnds
      · have hEnded := hReturns.ended
        rw [hTrying.unended] at hEnded
        contradiction
      · rw [List.nil_append, trailOf_cons rfl, trailOf, Trail.append_empty]
        exact .inl hEnds
    | cons m rest =>
      obtain ⟨rfl, -⟩ := List.cons.inj hMoves
      have hTrying := trying_of_submitted hs hMindful hAsync hMains hPending
      rw [trailOf_append hPending.run, trailOf_cons hMove, trailOf, Trail.append_empty]
      rcases trying_of_move? hTrying hMove with ⟨hNext, -⟩ | hEnds
      · have hEnded := hReturns.ended
        rw [hNext.unended] at hEnded
        contradiction
      · exact hEnds
  refine ⟨before, last, u, hMoves, hPending, hMove, ?_⟩
  rcases hTries with ⟨w, hTries⟩ | hGivenUp
  · have hEnded := hReturns.ended
    rw [hTries.ends.ended, Option.some.injEq] at hEnded
    exact .inl ⟨w, hEnded.symm, hTries⟩
  · exact .inr hGivenUp

/-! ## Coming to the end -/

/-- An order whose walk waits for a call can be brought to its end by its own events. -/
theorem exists_returns_of_mindful {walk : Walk} {due : Duration} {held : Held} {r : Request}
    (hMindful : s.Mindful) (hOpen : s.ended? ticket = none) (hOrder : s.running? ticket =
      some { ticket, order := .request r, deadline, activity := .walking walk due held }) :
    ∃ moves t e, (∀ m ∈ moves, ConcernsOrder ticket m ∨ ∃ time, m = .tick time) ∧
      s.Returns ticket moves t e := by
  obtain ⟨hMem, -⟩ := mem_of_running? hOrder
  obtain ⟨-, b, rest, hTodo, -⟩ := hMindful.running _ hMem _ walk due held rfl rfl
  obtain ⟨moves, t, e, hOwn, hReturns⟩ := exists_returns_of_walking hOrder hOpen hTodo
  exact ⟨moves, t, e, fun m hm => (hOwn m hm).concerns, hReturns⟩

end Session

end ReplicatedStore
