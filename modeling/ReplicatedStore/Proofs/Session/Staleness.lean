import ReplicatedStore.Proofs.Session.Trying

/-!
# What a write leaves in the cache

A write may change its object at mains before it returns. Each main that takes the write changes, and a
main that is not faithful may change although it fails: a file was emptied when it was opened, and then
the disk was full; a gateway's server has done what it has not replied to. The cache forgets the object
exactly if the result tells of a change, which success and failure in part do. So the object stays in the
cache although it has changed if the deadline has passed, and if all mains that were asked have failed or
crashed and one of them was not faithful.

Main results:

* `Session.exists_not_spares_of_joining`, `Session.exists_not_spares_of_placed` — which calls have changed
  an object.
* `Session.find?_eq_none_iff_of_returns` — when exactly the cache is without the object of a write.
* `Session.find?_eq_none_iff_of_changed` — the results after which a changed object stays.
-/

namespace ReplicatedStore

/-- A write that has not left all objects alone was answered, or it has failed where it is not faithful. -/
theorem World.exists_failed_of_not_spares {w : World} {b : Nat} {r : Request} {o : Outcome}
    (h : ¬ w.Spares b r o) (ho : o.isAnswered = false) : ∃ f, o = .failed f ∧ ¬ w.IsFaithful b := by
  cases o with
  | answered x => contradiction
  | failed f => exact ⟨f, rfl, fun hFaithful => h (.failed f hFaithful)⟩
  | crashed reason => exact absurd (.crashed reason) h

namespace Session

/-- Whether a call has changed what a main holds at an address. -/
inductive Changed (ticket : Nat) (a : Address) : Session → List Move → Prop
  | here {s t : Session} {m : Move} (rest : List Move) {b : Nat} (hMove : s.move? m = some t)
      (hCall : IsOfCall s ticket m) (hMain : b ∈ s.world.mains)
      (h : t.world.objectAt? b a ≠ s.world.objectAt? b a) : Changed ticket a s (m :: rest)
  | later {s t : Session} {m : Move} {rest : List Move} (hMove : s.move? m = some t)
      (h : Changed ticket a t rest) : Changed ticket a s (m :: rest)

/-- How a write may have ended without telling that it has changed its object at a main: its deadline has
passed, or it has failed although a main is not faithful. -/
inductive Untold (w : World) (r : Request) : Ended → Prop
  | late (after : Duration) : Untold w r (.returned (.error (.timeout r.operation after)))
  /-- the only main has failed -/
  | single {b : Nat} (f : Failure) (hMains : w.mains = [b]) (h : ¬ w.IsFaithful b) :
      Untold w r (.returned (.error (.backend (w.nameOf b) r.operation f)))
  | allFailed {b : Nat} (errors : List StoreError) (hMain : b ∈ w.mains) (h : ¬ w.IsFaithful b) :
      Untold w r (.returned (.error (.allFailed r.operation w.mains.length errors)))
  | crashed {b : Nat} (reason : String) (hMain : b ∈ w.mains) (h : ¬ w.IsFaithful b) :
      Untold w r (.crashed reason)

/-- The first of the moves is a move of the call that has changed something, or others have. -/
theorem changed_cons_cases {s t : Session} {ticket : Nat} {a : Address} {m : Move} {rest : List Move}
    (h : Changed ticket a s (m :: rest)) (hMove : s.move? m = some t) :
    IsOfCall s ticket m ∧ t.world.objectAt? ≠ s.world.objectAt? ∨ Changed ticket a t rest := by
  cases h with
  | here rest hMove' hCall hMain hNe =>
    rw [hMove] at hMove'
    cases hMove'
    exact .inl ⟨hCall, fun hEq => hNe (by rw [hEq])⟩
  | later hMove' hRest =>
    rw [hMove] at hMove'
    cases hMove'
    exact .inr hRest

theorem changed_cons {s t : Session} {ticket : Nat} {a : Address} {m : Move} {rest : List Move}
    (h : Changed ticket a s (m :: rest)) (hMove : s.move? m = some t)
    (hQuiet : t.world.objectAt? = s.world.objectAt?) : Changed ticket a t rest := by
  rcases changed_cons_cases h hMove with ⟨-, hNe⟩ | hRest
  · exact absurd hQuiet hNe
  · exact hRest

theorem not_changed_nil {s : Session} {ticket : Nat} {a : Address} : ¬ Changed ticket a s [] := by
  intro h
  cases h

/-- A call changed an object in the first moves of a run or in the others. -/
theorem changed_append {s u : Session} {ticket : Nat} {a : Address} {first rest : List Move}
    (hRun : s.run? first = some u) (h : Changed ticket a s (first ++ rest)) :
    Changed ticket a s first ∨ Changed ticket a u rest := by
  induction first generalizing s with
  | nil =>
    rw [run?, Option.some.injEq] at hRun
    subst hRun
    exact .inr h
  | cons m first ih =>
    obtain ⟨v, hMove, hTail⟩ := run?_cons_eq_some.mp hRun
    rw [List.cons_append] at h
    cases h with
    | here rest hMove' hCall hMain hNe => exact .inl (.here first hMove' hCall hMain hNe)
    | later hMove' hLater =>
      rw [hMove] at hMove'
      cases hMove'
      rcases ih hTail hLater with hFirst | hRest
      · exact .inl (.later hMove hFirst)
      · exact .inr hRest

variable {s t u : Session} {ticket fan : Nat} {r : Request} {deadline : Option Duration} {f : FanOut}
  {begun : List Nat} {outs : List (Nat × Outcome)} {m : Move} {a : Address} {data : Bytes}
  {trail : Trail} {moves : List Move} {e : Ended}

/-- The failures of all mains as one do not tell of a change at a main that is not faithful. -/
theorem untold_of_aggregate {w : World} {errors : List StoreError}
    (hCount : errors.length = w.mains.length) {b : Nat} {failure : Failure} (hMain : b ∈ w.mains)
    (hListed : .backend (w.nameOf b) r.operation failure ∈ errors) (h : ¬ w.IsFaithful b) :
    Untold w r (endOfVerdict (StoreError.aggregate r.operation w.mains.length errors)) := by
  have hSome : errors ≠ [] := List.ne_nil_of_mem hListed
  -- the failure of a single main stands for itself, those of several are put together
  by_cases hOne : w.mains.length = 1
  · obtain ⟨c, hc⟩ := List.length_eq_one_iff.mp hOne
    rw [hOne] at hCount
    obtain ⟨x, hx⟩ := List.length_eq_one_iff.mp hCount
    rw [hc] at hMain
    rw [hx] at hListed
    rw [hOne, hx, StoreError.aggregate_singleton, ← List.mem_singleton.mp hListed]
    exact .single failure (hc.trans (congrArg ([·]) (List.mem_singleton.mp hMain).symm)) h
  · have hTwo : 2 ≤ w.mains.length := by
      have := List.length_pos_of_mem hMain
      omega
    rw [StoreError.aggregate_of_two_le r.operation hTwo hSome, if_pos (Nat.le_of_eq hCount.symm)]
    exact .allFailed errors hMain h

theorem not_changed_of_ended {e' : Ended} (hReturns : s.Returns ticket moves t e)
    (hEnded : s.ended? ticket = some e') : ¬ Changed ticket a s moves := by
  cases moves with
  | nil => exact not_changed_nil
  | cons m rest =>
    have hOpen := hReturns.open_ [] (m :: rest) s rfl (List.cons_ne_nil m rest) rfl
    rw [hEnded] at hOpen
    contradiction

/-! ## Fan-outs -/

/-- Of the moves of an order that joins a fan-out only calls that have come to an outcome change objects. -/
theorem not_spares_of_isOfCall (h : Joining s ticket fan r deadline f begun outs)
    (hCall : IsOfCall s ticket m) (hMove : s.move? m = some t)
    (hChanged : t.world.objectAt? ≠ s.world.objectAt?) :
    ∃ p b, s.outcome? fan m = some p ∧ s.world.mains[p.1]? = some b ∧ ¬ s.world.Spares b r p.2 := by
  cases hCall with
  | submit order hTicket =>
    obtain ⟨hMem, hEq⟩ := mem_of_running? h.order
    have := h.sound.running _ hMem
    omega
  | order hOrder =>
    rcases world_of_isOwn h (.order hOrder) hMove with hFan | hWorld
    · cases hOrder <;> cases hFan
    · rw [hWorld] at hChanged
      exact absurd rfl hChanged
  | branch hr hJoins hFan =>
    rw [h.order] at hr
    cases hr
    cases hJoins
    rcases call_of_move? h hFan hMove with ⟨j, o, b, hOutcome, hMain, hFollows⟩ | ⟨-, hQuiet⟩
    · exact ⟨(j, o), b, hOutcome, hMain, fun hSpares => hChanged (hFollows.quiet hSpares)⟩
    · exact absurd hQuiet hChanged

/-- A fan-out that changed an object before its order ended has an outcome that does not spare it. -/
theorem exists_not_spares_of_joining (h : Joining s ticket fan r deadline f begun outs)
    (hRun : s.run? moves = some t) (hOpen : t.ended? ticket = none)
    (hChanged : Changed ticket a s moves) :
    ∃ p ∈ outcomes fan s moves, ∃ b, s.world.mains[p.1]? = some b ∧ ¬ s.world.Spares b r p.2 := by
  -- the outcome is that of the first move that has changed something
  induction moves generalizing s f begun outs with
  | nil => exact absurd hChanged not_changed_nil
  | cons m rest ih =>
    obtain ⟨u, hMove, hRest⟩ := run?_cons_eq_some.mp hRun
    rw [outcomes, noted, hMove]
    rcases changed_cons_cases hChanged hMove with ⟨hCall, hNe⟩ | hLater
    · obtain ⟨p, b, hOutcome, hMain, hNot⟩ := not_spares_of_isOfCall h hCall hMove hNe
      refine ⟨p, ?_, b, hMain, hNot⟩
      rw [hOutcome]
      exact List.mem_append_left _ (by simp)
    · -- the order has not ended later either, so this move has not ended it
      rcases joining_of_move? h hMove with ⟨g, hNext⟩ | ⟨-, -, rfl⟩ | ⟨-, after, -, -, rfl⟩
      · obtain ⟨p, hp, b, hMain, hNot⟩ := ih hNext hRest hLater
        have hFrame := (goesOn_of_move? hMove).frame
        rw [World.mains_of_frame_eq hFrame] at hMain
        exact ⟨p, List.mem_append_right _ hp, b, hMain,
          fun hSpares => hNot (hSpares.of_frame_eq hFrame)⟩
      · have hOver := (over_endFan h hMove).run? hRest
        rw [hOver.ended] at hOpen
        contradiction
      · have hOver := (over_expire h hMove).run? hRest
        rw [hOver.ended] at hOpen
        contradiction

/-- What the last move of an order that fans out leaves in the cache. -/
theorem find?_eq_none_iff_of_joining {last : Move} (h : Joining u ticket fan r deadline f begun outs)
    (hMove : u.move? last = some t) (hEnded : t.ended? ticket = some e) :
    t.watched.cache.find? r.address.key = none ↔
      tells e = true ∨ u.watched.cache.find? r.address.key = none := by
  rcases joining_of_move? h hMove with ⟨g, hNext⟩ | ⟨rfl, -, rfl⟩ | ⟨rfl, after, -, -, rfl⟩
  · rw [hNext.unended] at hEnded
    contradiction
  · rw [(over_endFan h hMove).ended, Option.some.injEq] at hEnded
    rw [← hEnded]
    exact find?_settle_eq_none_iff ..
  · rw [(over_expire h hMove).ended, Option.some.injEq] at hEnded
    rw [← hEnded]
    exact (or_iff_right Bool.false_ne_true).symm

/-- An order that has changed its object by a fan-out tells so, or it does not for one of the reasons
there are. -/
theorem untold_of_joining (h : Joining s ticket fan r deadline f begun [])
    (hReturns : s.Returns ticket moves t e) (hChanged : Changed ticket a s moves)
    (hTells : tells e = false) : Untold s.world r e := by
  rcases joined_or_expired_of_returns h hReturns with
    ⟨before, u, g, rfl, hBefore, hJoining, hFinished, rfl⟩ | ⟨-, after, rfl⟩
  · have hFrame := (goesOn_of_run? hBefore).frame
    have hJoin := exists_join? hJoining hFinished
    have hFirst : Changed ticket a s before := by
      rcases changed_append hBefore hChanged with hFirst | hLast
      · exact hFirst
      · exact absurd (changed_cons hLast hJoin (by rw [world_endFan])) not_changed_nil
    obtain ⟨⟨j, o⟩, hp, b, hMain, hNot⟩ :=
      exists_not_spares_of_joining h hBefore hJoining.unended hFirst
    have hEnd := ended_of_joining hFrame hJoining hReturns.ended
    obtain ⟨-, hDone⟩ := hJoining.tally.perm_range hFinished
    rw [FanOut.length_branches hJoining.backends, World.mains_of_frame_eq hFrame] at hDone
    rw [List.nil_append] at hJoining hEnd hDone
    -- of an answer the result would tell
    have hNone : ∀ q ∈ outcomes fan s before, q.2.isAnswered = false := by
      intro q hq
      refine Bool.eq_false_iff.mpr fun hIs => ?_
      have hVerdict := verdict_of_answered hJoining.tally hFinished ⟨q, hq, hIs⟩
      have hEnded := hReturns.ended
      rw [(over_endFan hJoining hJoin).ended, Option.some.injEq] at hEnded
      rw [← hEnded, tells_endOfVerdict hVerdict] at hTells
      contradiction
    obtain ⟨failure, rfl, hUnfaithful⟩ := World.exists_failed_of_not_spares hNot (hNone _ hp)
    have hListed : .backend (s.world.nameOf b) r.operation failure ∈
        s.failures r (outcomes fan s before) := by
      refine List.mem_filterMap.mpr ⟨_, hp, ?_⟩
      simp [FanOut.failureOf?, FanOut.ofBackends, FanOut.error?, show s.world.mains[j]? = some b from hMain]
    rw [hEnd]
    exact untold_of_aggregate (length_failures_of_forall s r hDone hNone) (List.mem_of_getElem? hMain)
      hListed hUnfaithful
  · exact .late after

/-! ## Placements -/

/-- Of the moves of an order that is placed only calls that have come to an outcome change objects. -/
theorem objectAt?_of_spares (h : Trying s ticket a data deadline trail) (hCall : IsOfCall s ticket m)
    (hMove : s.move? m = some t)
    (hSpares : ∀ p ∈ (s.trailBy ticket m).outcomes, s.world.Spares p.1 (.put a data) p.2) :
    t.world.objectAt? = s.world.objectAt? := by
  obtain ⟨walk, due, delay, held, hOrder, -⟩ := h.walking
  obtain ⟨hMem, -⟩ := mem_of_running? hOrder
  cases hCall with
  | submit order hTicket =>
    have hGiven : ticket < s.tickets := h.sound.running _ hMem
    omega
  | order hOwn =>
    cases walkStep_of_move? hOrder hOwn hMove with
    | resumes hEq =>
      subst hEq
      obtain ⟨hRequest, b, rest, hTodo, hKeeps⟩ := h.mindful.running _ hMem _ walk due held rfl rfl
      have hTrail : s.trailBy ticket (.event (.resume ticket)) = walk.trailAfter s.world held := by
        simp [trailBy, going?, hOrder]
      rw [hTrail, ← hRequest] at hSpares
      rw [← hRequest] at hKeeps
      rw [world_followWalk]
      exact Walk.objectAt?_resume hTodo hKeeps hSpares
    | expires hDeadline after hEq =>
      subst hEq
      rfl
  | branch hp hJoins hFan =>
    rw [hOrder] at hp
    cases hp
    contradiction

/-- An order that was placed and has changed an object has an outcome that does not spare it. -/
theorem exists_not_spares_of_trying (h : Trying s ticket a data deadline trail)
    (hReturns : s.Returns ticket moves t e) (hChanged : Changed ticket a s moves) :
    ∃ p ∈ (trailOf ticket s moves).outcomes, ¬ s.world.Spares p.1 (.put a data) p.2 := by
  induction moves generalizing s trail with
  | nil => exact absurd hChanged not_changed_nil
  | cons m rest ih =>
    obtain ⟨u, hMove, hRest⟩ := hReturns.of_cons
    rw [trailOf_cons hMove, Trail.outcomes_append]
    rcases changed_cons_cases hChanged hMove with ⟨hCall, hNe⟩ | hLater
    · by_contra hNone
      push Not at hNone
      exact hNe (objectAt?_of_spares h hCall hMove fun p hp => hNone p (List.mem_append_left _ hp))
    · rcases trying_of_move? h hMove with ⟨hNext, -⟩ | hEnds
      · obtain ⟨p, hp, hNot⟩ := ih hNext hRest hLater
        exact ⟨p, List.mem_append_right _ hp,
          fun hSpares => hNot (hSpares.of_frame_eq (goesOn_of_move? hMove).frame)⟩
      · obtain ⟨e', hOver⟩ := exists_over hEnds
        exact absurd hLater (not_changed_of_ended hRest hOver.ended)

theorem exists_not_spares_of_placed (hs : s.Sound) (hMindful : s.Mindful)
    (hAsync : s.replication = .async) (hMains : s.world.mains ≠ [])
    (hReturns : s.Returns s.tickets (.submit (.request (.put a data)) :: moves) t e)
    (hChanged : Changed s.tickets a s (.submit (.request (.put a data)) :: moves)) :
    ∃ p ∈ (trailOf s.tickets s (.submit (.request (.put a data)) :: moves)).outcomes,
      ¬ s.world.Spares p.1 (.put a data) p.2 := by
  obtain ⟨u, hMove, hRest⟩ := hReturns.of_cons
  cases hMove
  rw [trailOf_cons rfl, Trail.outcomes_append]
  rcases changed_cons_cases hChanged rfl with ⟨-, hNe⟩ | hLater
  · by_contra hNone
    push Not at hNone
    have hTrail : s.trailBy s.tickets (.submit (.request (.put a data))) =
        (Walk.ofOrder (.place data) a s.world.mains).trailFrom s.world s.world.mains := by
      simp only [trailBy, going?, hAsync, if_true]
      exact if_pos rfl
    rw [submit_of_placed (by simp [fansOut, hAsync]) hMains, world_followWalk] at hNe
    refine hNe (Walk.objectAt?_goFrom _ s.world.mains fun p hp => ?_)
    exact hNone p (List.mem_append_left _ (hTrail ▸ hp))
  · rcases trying_submit hs hMindful hAsync hMains a data with ⟨hTrying, -⟩ | ⟨w, hTries⟩
    · obtain ⟨p, hp, hNot⟩ := exists_not_spares_of_trying hTrying hRest hLater
      have hFrame : (s.submit (.request (.put a data))).world.frame = s.world.frame :=
        (advances_submit s _).frame
      exact ⟨p, List.mem_append_right _ hp, fun hSpares => hNot (hSpares.of_frame_eq hFrame)⟩
    · exact absurd hLater (not_changed_of_ended hRest hTries.ends.ended)

/-- What a walk that places a payload leaves in the cache when it has ended its order. -/
theorem find?_followWalk_eq_none_iff {state : World × WalkState} (hOpen : s.ended? ticket = none)
    (hEnded : (s.followWalk ticket (.put a data) deadline state).ended? ticket = some e) :
    (s.followWalk ticket (.put a data) deadline state).watched.cache.find? a.key = none ↔
      tells e = true ∨ s.watched.cache.find? a.key = none := by
  rcases state with ⟨v, w | ⟨walk, delay, held⟩⟩
  · have hEnd := ended?_endWalk { s with world := v } ticket (.put a data) w
    rw [followWalk, hEnd, Option.some.injEq] at hEnded
    rw [← hEnded]
    cases w with
    | found passed x =>
      refine (find?_settle_eq_none_iff ..).trans (iff_of_true (.inl rfl) (.inl rfl))
    | lost error => exact find?_settle_eq_none_iff ..
    | crashed reason => exact (or_iff_right Bool.false_ne_true).symm
  · have hStill : s.ended? ticket = some e := hEnded
    rw [hOpen] at hStill
    contradiction

/-- What the last move of an order that is placed leaves in the cache. -/
theorem find?_eq_none_iff_of_trying {last : Move} (h : Trying u ticket a data deadline trail)
    (hMove : u.move? last = some t) (hEnded : t.ended? ticket = some e) :
    t.watched.cache.find? a.key = none ↔ tells e = true ∨ u.watched.cache.find? a.key = none := by
  obtain ⟨walk, due, delay, held, hOrder, -⟩ := h.walking
  by_cases hOwn : ConcernsOrder ticket last
  · cases walkStep_of_move? hOrder hOwn hMove with
    | resumes hEq =>
      subst hEq
      exact find?_followWalk_eq_none_iff h.unended hEnded
    | expires hDeadline after hEq =>
      subst hEq
      rw [return_, ended?_finish_self, Option.some.injEq] at hEnded
      rw [← hEnded]
      exact (or_iff_right Bool.false_ne_true).symm
  · rw [(trying_of_others h hOwn hMove).unended] at hEnded
    contradiction

/-- An order that was placed and has changed its object tells so, or it does not for one of the reasons
there are. -/
theorem untold_of_placed (hs : s.Sound) (hMindful : s.Mindful) (hAsync : s.replication = .async)
    (hMains : s.world.mains ≠ [])
    (hReturns : s.Returns s.tickets (.submit (.request (.put a data)) :: moves) t e)
    (hChanged : Changed s.tickets a s (.submit (.request (.put a data)) :: moves))
    (hTells : tells e = false) : Untold s.world (.put a data) e := by
  obtain ⟨⟨b, o⟩, hp, hNot⟩ := exists_not_spares_of_placed hs hMindful hAsync hMains hReturns hChanged
  obtain ⟨before, last, u, hMoves, hPending, hMove, ⟨w, rfl, hTries⟩ | ⟨-, after, hOver⟩⟩ :=
    tries_of_returns hs hMindful hAsync hMains hReturns
  · have hTried := hTries.tried.of_frame_eq (goesOn_of_run? hReturns.run).frame.symm
    -- the call that has changed the object is one of those that failed
    have hUnfaithful {failed : List (Nat × Outcome)} (hFailed : AllFailed failed)
        (hMem : (b, o) ∈ failed) : ∃ failure, o = .failed failure ∧ ¬ s.world.IsFaithful b := by
      obtain ⟨failure, hFailure⟩ := hFailed _ hMem
      obtain rfl : o = .failed failure := hFailure
      exact World.exists_failed_of_not_spares hNot rfl
    generalize hState : WalkState.over w = state at hTried
    cases hTried with
    | waits delay held hAll hCalled hFailed => cases hState
    | found hAll hCalled hOutcomes hFailed =>
      cases hState
      contradiction
    | @crashed behind c rest reason hAll hCalled hOutcomes hFailed =>
      cases hState
      have hBehind : (b, o) ∈ behind := by
        rw [hOutcomes] at hp
        rcases List.mem_append.mp hp with hBehind | hLast
        · exact hBehind
        · cases List.mem_singleton.mp hLast
          exact absurd (.crashed reason) hNot
      obtain ⟨failure, -, hNotFaithful⟩ := hUnfaithful hFailed hBehind
      refine .crashed reason ?_ hNotFaithful
      rw [hAll]
      exact List.mem_append_left _ (List.mem_map_of_mem hBehind)
    | lost todo hAll hCalled hFailed =>
      cases hState
      obtain ⟨failure, rfl, hNotFaithful⟩ := hUnfaithful hFailed hp
      have hMain : b ∈ s.world.mains := by
        rw [hAll]
        exact List.mem_map_of_mem hp
      have hListed : .backend (s.world.nameOf b) .put failure ∈
          (trailOf s.tickets s (.submit (.request (.put a data)) :: moves)).outcomes.filterMap
            s.world.failure? := List.mem_filterMap.mpr ⟨_, hp, rfl⟩
      have hCount := congrArg List.length hAll
      rw [List.length_map, ← length_filterMap_failure? s.world hFailed] at hCount
      rw [Walk.ended_exhausted_placing (List.ne_nil_of_mem hListed)]
      exact untold_of_aggregate hCount.symm hMain hListed hNotFaithful
  · have hEnded := hReturns.ended
    rw [hOver.ended, Option.some.injEq] at hEnded
    rw [← hEnded]
    exact .late after

/-! ## Returning -/

/-- When a write returns, the cache is without its object exactly if the result tells of a change, or the
object was not in the cache right before. -/
theorem find?_eq_none_iff_of_returns {before : List Move} {last : Move} (hs : s.Sound)
    (hMindful : s.Mindful) (hWrite : r.isWrite = true)
    (hFirst : (before ++ [last]).head? = some (.submit (.request r)))
    (hBefore : s.run? before = some u) (hReturns : s.Returns s.tickets (before ++ [last]) t e) :
    t.watched.cache.find? r.address.key = none ↔
      tells e = true ∨ u.watched.cache.find? r.address.key = none := by
  have hLast : u.move? last = some t := by
    obtain ⟨u', hPending, hRun⟩ := hReturns.pending (List.cons_ne_nil last [])
    rw [hPending.run, Option.some.injEq] at hBefore
    obtain ⟨t', hMove, hEnd⟩ := run?_cons_eq_some.mp hRun
    rw [run?, Option.some.injEq] at hEnd
    rw [← hBefore, hMove, hEnd]
  have hEnded := hReturns.ended
  cases before with
  | nil =>
    -- the write ends as soon as it is submitted
    cases hFirst
    cases hBefore
    cases hLast
    by_cases hMains : s.world.mains = []
    · rw [submit_of_mains_eq_nil hWrite hMains] at hEnded ⊢
      rw [return_, ended?_finish_self, Option.some.injEq] at hEnded
      rw [← hEnded]
      exact (or_iff_right Bool.false_ne_true).symm
    rcases s.fansOut_or_placed hWrite with hFans | ⟨hAsync, a, data, rfl⟩
    · rw [(joining_submit hs hFans hMains).unended] at hEnded
      contradiction
    · rw [submit_of_placed (by simp [fansOut, hAsync]) hMains] at hEnded ⊢
      exact find?_followWalk_eq_none_iff (ended?_of_sound hs (Nat.le_refl _)) hEnded
  | cons m rest =>
    -- the write is under way when its last move comes, with a fan-out or with a walk
    cases hFirst
    obtain ⟨v, hMove, hRest⟩ := run?_cons_eq_some.mp hBefore
    cases hMove
    obtain ⟨u', hPending, -⟩ := hReturns.pending (List.cons_ne_nil last [])
    obtain rfl : u' = u := Option.some.inj (hPending.run.symm.trans hBefore)
    by_cases hMains : s.world.mains = []
    · obtain ⟨w, hMove, hLater⟩ := hPending.of_cons
      cases hMove
      have hOpen := hLater.unended
      rw [submit_of_mains_eq_nil hWrite hMains, return_, ended?_finish_self] at hOpen
      contradiction
    rcases s.fansOut_or_placed hWrite with hFans | ⟨hAsync, a, data, rfl⟩
    · obtain ⟨g, hJoining⟩ :=
        joining_of_run? (joining_submit hs hFans hMains) hRest hPending.unended_after
      exact find?_eq_none_iff_of_joining hJoining hLast hEnded
    · have hTrying := trying_of_submitted hs hMindful hAsync hMains hPending
      exact find?_eq_none_iff_of_trying hTrying hLast hEnded

/-- A write that has changed its object tells so, or it does not for one of the reasons there are. -/
theorem untold_of_changed (hs : s.Sound) (hMindful : s.Mindful) (hWrite : r.isWrite = true)
    (hFirst : moves.head? = some (.submit (.request r))) (hReturns : s.Returns s.tickets moves t e)
    (hChanged : Changed s.tickets r.address s moves) (hTells : tells e = false) :
    Untold s.world r e := by
  cases moves with
  | nil => contradiction
  | cons m rest =>
    cases hFirst
    obtain ⟨v, hMove, hRest⟩ := hReturns.of_cons
    cases hMove
    by_cases hMains : s.world.mains = []
    · have hSubmit := submit_of_mains_eq_nil hWrite hMains
      have hRefused : (s.submit (.request r)).ended? s.tickets =
          some (.returned (.error (.noMainBackend r.operation))) := by
        rw [hSubmit]
        exact ended?_finish_self ..
      have hLater := changed_cons hChanged rfl (by rw [hSubmit]; rfl)
      exact absurd hLater (not_changed_of_ended hRest hRefused)
    rcases s.fansOut_or_placed hWrite with hFans | ⟨hAsync, a, data, rfl⟩
    · have hWorld : (s.submit (.request r)).world = s.world := by
        rw [submit_of_fansOut hFans hMains]
        rfl
      have hLater := changed_cons hChanged rfl (congrArg World.objectAt? hWorld)
      have hUntold := untold_of_joining (joining_submit hs hFans hMains) hRest hLater hTells
      rwa [hWorld] at hUntold
    · exact untold_of_placed hs hMindful hAsync hMains hReturns hChanged hTells

/-- A write that has changed its object at a main leaves the cache without the object exactly if its
result tells of a change, or the object was not in the cache right before. The result tells of it unless
the deadline has passed, or all mains that were asked have failed and one of them was not faithful. -/
theorem find?_eq_none_iff_of_changed {s t u : Session} {r : Request} {before : List Move}
    {last : Move} {e : Ended} (hs : s.Reachable) (hWrite : r.isWrite = true)
    (hFirst : (before ++ [last]).head? = some (.submit (.request r)))
    (hBefore : s.run? before = some u) (hReturns : s.Returns s.tickets (before ++ [last]) t e)
    (hChanged : Changed s.tickets r.address s (before ++ [last])) :
    (t.watched.cache.find? r.address.key = none ↔
      tells e = true ∨ u.watched.cache.find? r.address.key = none) ∧
    (tells e = false → Untold s.world r e) := by
  have hSound := sound_of_reachable hs
  have hMindful := mindful_of_reachable hs
  exact ⟨find?_eq_none_iff_of_returns hSound hMindful hWrite hFirst hBefore hReturns,
    untold_of_changed hSound hMindful hWrite hFirst hReturns hChanged⟩

/-! ## Stale reads -/

/-- The session after moves that can be made. -/
def after (s : Session) (moves : List Move) : Session := (s.run? moves).getD s

theorem run?_after (moves : List Move) (h : (s.run? moves).isSome = true) :
    s.run? moves = some (s.after moves) := by
  obtain ⟨t, hRun⟩ := Option.isSome_iff_exists.mp h
  rw [after, hRun, Option.getD_some]

theorem reachable_after (w : World) (timeout : Option Duration) (moves : List Move) :
    (after { ofWorld w .sync .classic with timeout } moves).Reachable := by
  unfold after
  cases hRun : ({ ofWorld w .sync .classic with timeout } : Session).run? moves with
  | none => exact ⟨w, .sync, .classic, timeout, .first, [], rfl⟩
  | some s => exact ⟨w, .sync, .classic, timeout, .first, moves, hRun⟩

/-- The fan-out that an order joins. -/
def joined? (s : Session) (ticket : Nat) : Option Nat :=
  (s.running? ticket).bind fun p =>
    match p.activity with
    | .joining fan => some fan
    | .walking .. | .draining _ => none

theorem changed_of_run? {first rest : List Move} (hRun : s.run? first = some u)
    (h : Changed ticket a u rest) : Changed ticket a s (first ++ rest) := by
  induction first generalizing s with
  | nil =>
    rw [run?, Option.some.injEq] at hRun
    rwa [hRun]
  | cons m first ih =>
    obtain ⟨v, hMove, hTail⟩ := run?_cons_eq_some.mp hRun
    exact .later hMove (ih hTail)

/-- A branch of the fan-out that a write joins has changed the object. -/
theorem changed_of_branch (first rest : List Move) (b : Nat)
    (hRun : (s.run? (first ++ [m])).isSome = true) (hJoins : (s.after first).joined? ticket = some fan)
    (hFan : ConcernsFan fan m) (hMain : b ∈ (s.after first).world.mains)
    (h : (s.after (first ++ [m])).world.objectAt? b a ≠ (s.after first).world.objectAt? b a) :
    Changed ticket a s (first ++ m :: rest) := by
  obtain ⟨v, hFirst, hLast⟩ := exists_of_run?_append (run?_after _ hRun)
  obtain ⟨v', hMove, hEnd⟩ := run?_cons_eq_some.mp hLast
  rw [run?, Option.some.injEq] at hEnd
  have hAfter : s.after first = v := by rw [after, hFirst, Option.getD_some]
  rw [hAfter] at hJoins hMain h
  rw [← hEnd] at h
  obtain ⟨p, hp, hActivity⟩ := Option.bind_eq_some_iff.mp hJoins
  refine changed_of_run? hFirst (.here rest hMove (.branch hp ?_ hFan) hMain h)
  split at hActivity
  · rename_i hJoining
    rw [hJoining, Option.some.inj hActivity]
  · contradiction
  · contradiction

/-- Whether moves end a write that has changed its object, and the next read is served what the cache has
kept although the first main holds something else. -/
structure Misleads (s : Session) (r : Request) (moves : List Move) (e : Ended) (kept held : Bytes) :
    Prop where
  returns : s.Returns s.tickets moves (s.after moves) e
  changed : Changed s.tickets r.address s moves
  untold : Untold s.world r e
  remains : (s.after moves).watched.cache.find? r.address.key ≠ none
  holds : (s.after moves).world.objectAt? 0 r.address = some held
  serves : ((s.after moves).submit (.request (.get r.address))).ended? (s.after moves).tickets =
    some (.returned (.ok (.content kept)))

/-- Two mains, of which one takes its time with the second write. -/
def late : World :=
  { backends := [
      ⟨"alpha", { isMain := true }, .scripted {}⟩,
      ⟨"beta", { isMain := true }, .scripted {
        behaviour := fun operation number =>
          if operation = .put ∧ number = 1 then { delay := .ofMillis 100 } else {} }⟩] }

/-- A client of both with a deadline has put an object and read it, so that it is in the cache. -/
def readLate : Session :=
  after { ofWorld late .sync .classic with timeout := some (.ofMillis 50) }
    [.cache (.configure { enabled := true }), .submit (.request (.put ⟨"c", "x"⟩ [1])),
      .event (.start 0 0), .event (.start 0 1), .event (.join 0), .submit (.request (.get ⟨"c", "x"⟩))]

/-- The object is put again, and the second main is not done when the deadline comes. -/
def putLate : List Move :=
  [.submit (.request (.put ⟨"c", "x"⟩ [2])), .event (.start 1 0), .event (.start 1 1),
    .tick (.ofMillis 50), .event (.expire 2)]

/-- A directory on a disk that has room for one file. -/
def filling : World :=
  { backends := [⟨"alpha", { isMain := true }, .directory ⟨⟨[]⟩, ⟨[]⟩⟩ ⟨"/", false⟩⟩]
    disk := { nodes := [(["c"], .directory)]
              mishapAt := fun number => if number = 0 then none else some ⟨0, .noSpace, false⟩ } }

/-- A server that keeps what was put last, and has replies for the first requests only. -/
def fallingSilent (replies : Nat) : Server :=
  let last (sent : List HttpRequest) : Option Bytes :=
    (sent.find? fun m => m.method = .put ∨ m.method = .delete).bind fun m =>
      if m.method = .put then some m.body else none
  { reply := fun earlier _ =>
      if earlier.length < replies then some { status := 200, body := (last earlier).getD [] } else none
    kept := fun sent _ => last sent
    kept_put := fun earlier message h _ => by simp [last, h]
    kept_delete := fun earlier message h _ => by simp [last, h]
    kept_look := fun earlier message h => by rcases h with h | h <;> simp [last, h] }

/-- Two mains behind one server, which replies until an object was put in both and read from one. -/
def silenced : World :=
  { backends := ["alpha", "beta"].map fun name =>
      ⟨name, { isMain := true }, .gateway ⟨⟨[]⟩, ⟨[]⟩⟩ { base := ⟨"https", none, .segments [], none, none⟩ }⟩
    server := fallingSilent 3 }

/-- An object is put in all mains, of which there are so many, by the order and the fan-out with these
numbers. -/
def putInEach (ticket fan mains : Nat) (data : Bytes) : List Move :=
  .submit (.request (.put ⟨"c", "x"⟩ data)) ::
    ((List.range mains).flatMap fun i => [.event (.start fan i), .event (.complete fan i)]) ++
    [.event (.join ticket)]

/-- A client has put an object in all mains and read it, so that it is in the cache. -/
def readBack (w : World) (mains : Nat) : Session :=
  after (ofWorld w .sync .classic)
    (.cache (.configure { enabled := true }) :: putInEach 0 0 mains [1] ++
      [.submit (.request (.get ⟨"c", "x"⟩)), .event (.resume 1)])

/-- The failure of a directory when the disk is full. -/
def noSpace : Failure := .refused "Failed to write data" "No space left on device (os error 28)"

/-- The failure of a gateway whose server does not reply. -/
def silence : Failure := ⟨[.said "Failed to send request", .exchange]⟩

/-- After a deadline the first main has the new payload, after the failure of a single one its file is
empty, and after the failure of all of several the first has the new payload. The next read is served the
old one each time. -/
theorem find?_iff_of_changed_late :
    Misleads readLate (.put ⟨"c", "x"⟩ [2]) putLate
      (.returned (.error (.timeout .put (.ofMillis 50)))) [1] [2] ∧
    Misleads (readBack filling 1) (.put ⟨"c", "x"⟩ [2]) (putInEach 2 1 1 [2])
      (.returned (.error (.backend "alpha" .put noSpace))) [1] [] ∧
    Misleads (readBack silenced 2) (.put ⟨"c", "x"⟩ [2]) (putInEach 2 1 2 [2])
      (.returned (.error (.allFailed .put 2
        [.backend "alpha" .put silence, .backend "beta" .put silence]))) [1] [2] := by
  refine ⟨?_, ?_, ?_⟩
  · have hReturns : readLate.Returns readLate.tickets putLate (readLate.after putLate)
        (.returned (.error (.timeout .put (.ofMillis 50)))) :=
      returns_of_forall_take (run?_after _ rfl) rfl (by decide)
    have hChanged : Changed readLate.tickets ⟨"c", "x"⟩ readLate putLate :=
      changed_of_branch (putLate.take 1) _ 0 rfl rfl (.start 0) (by decide) (by decide)
    obtain ⟨hExact, hUntold⟩ := find?_eq_none_iff_of_changed (s := readLate)
      (r := .put ⟨"c", "x"⟩ [2]) (reachable_after ..) rfl rfl (run?_after (putLate.take 4) rfl)
      hReturns hChanged
    exact ⟨hReturns, hChanged, hUntold rfl, mt hExact.mp (by decide), rfl, rfl⟩
  · have hReturns : (readBack filling 1).Returns (readBack filling 1).tickets (putInEach 2 1 1 [2])
        ((readBack filling 1).after (putInEach 2 1 1 [2]))
        (.returned (.error (.backend "alpha" .put noSpace))) :=
      returns_of_forall_take (run?_after _ (by decide +kernel)) (by with_unfolding_all rfl)
        (by decide +kernel)
    have hChanged : Changed (readBack filling 1).tickets ⟨"c", "x"⟩ (readBack filling 1)
        (putInEach 2 1 1 [2]) :=
      changed_of_branch ((putInEach 2 1 1 [2]).take 2) _ 0 (by decide +kernel) (by decide +kernel)
        (.complete 0) (by decide +kernel) (by decide +kernel)
    obtain ⟨hExact, hUntold⟩ := find?_eq_none_iff_of_changed (s := readBack filling 1)
      (r := .put ⟨"c", "x"⟩ [2]) (reachable_after ..) rfl rfl
      (run?_after (putInEach 2 1 1 [2]).dropLast (by decide +kernel)) hReturns hChanged
    exact ⟨hReturns, hChanged, hUntold rfl, mt hExact.mp (by decide +kernel), by decide +kernel,
      by with_unfolding_all rfl⟩
  · have hReturns : (readBack silenced 2).Returns (readBack silenced 2).tickets (putInEach 2 1 2 [2])
        ((readBack silenced 2).after (putInEach 2 1 2 [2]))
        (.returned (.error (.allFailed .put 2
          [.backend "alpha" .put silence, .backend "beta" .put silence]))) :=
      returns_of_forall_take (run?_after _ rfl) rfl (by decide)
    have hChanged : Changed (readBack silenced 2).tickets ⟨"c", "x"⟩ (readBack silenced 2)
        (putInEach 2 1 2 [2]) :=
      changed_of_branch ((putInEach 2 1 2 [2]).take 2) _ 0 rfl rfl (.complete 0) (by decide) (by decide)
    obtain ⟨hExact, hUntold⟩ := find?_eq_none_iff_of_changed (s := readBack silenced 2)
      (r := .put ⟨"c", "x"⟩ [2]) (reachable_after ..) rfl rfl
      (run?_after (putInEach 2 1 2 [2]).dropLast rfl) hReturns hChanged
    exact ⟨hReturns, hChanged, hUntold rfl, mt hExact.mp (by decide), rfl, rfl⟩

end Session

end ReplicatedStore
