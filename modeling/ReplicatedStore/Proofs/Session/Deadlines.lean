import ReplicatedStore.Proofs.Session.Convergence
import ReplicatedStore.Proofs.Session.FanTimes
import ReplicatedStore.Proofs.Session.Reads
import ReplicatedStore.Proofs.Session.WalkTimes

/-!
# Deadlines

How long a request takes of scripted backends is known when it is asked. A fan-out takes as long as its
slowest main. A walk takes as long as the calls together, up to the first that decides. If that is less
than the timeout, then the request returns at that time what it would return without one. If it is more,
then it times out at its deadline: the mains of a fan-out that were done before are as their calls have
left them, the others are as they were, a walk has changed nothing, and nothing happens any more after
that.

Main results:

* `Session.cut_submit` — how a request ends that is asked of a session in which nothing is under way.
* `Session.cuts_at_deadline` — what comes of a request with a timeout.
-/

namespace ReplicatedStore

/-! ## The order of reads -/

/-- A read claims every backend once, in whatever order. -/
theorem ReadOrder.perm_claim (o : ReadOrder) : o.claim.1.Perm o.groups.flatten := by
  rcases o with ⟨strategy, groups, cursor⟩
  unfold claim
  cases strategy with
  | classic => exact .refl _
  | roundRobin =>
    cases groups with
    | nil => exact .refl _
    | cons first rest =>
      show (if first.length = 0 then _ else _ : List Nat × ReadOrder).1.Perm _
      split
      · rename_i hEmpty
        rw [List.length_eq_zero_iff.mp hEmpty]
        exact .refl _
      · exact (ReadOrder.perm_rotate first _).append_right rest.flatten

/-- No backend is read twice. -/
theorem World.nodup_readGroups (w : World) : w.readGroups.flatten.Nodup := by
  have hReplicas : w.replicas.Nodup := List.nodup_range.filter _
  have hApart (i : Nat) (hi : i ∈ w.replicas) (hMain : i ∈ w.mains) : False := by
    have hNot := (List.mem_filter.mp hi).2
    have hIs := (List.mem_filter.mp hMain).2
    cases hb : w.backends[i]? with
    | none => simp [hb] at hIs
    | some b => simp_all
  simp only [readGroups, List.flatten_cons, List.flatten_nil, List.append_nil]
  exact List.nodup_append.mpr ⟨hReplicas, w.nodup_mains, fun i hi j hj hEq => hApart i hi (hEq ▸ hj)⟩

namespace Session

/-- How long a request takes that is asked of a session in which nothing is under way. -/
def taking (s : Session) (r : Request) : Duration :=
  match r with
  | .put .. =>
    match s.replication with
    | .sync => s.world.longestSpan r s.world.mains
    | .async => s.world.searchSpan r s.world.mains
  | .remove _ => s.world.longestSpan r s.world.mains
  -- a read that does not turn to backends takes no time
  | .get _ | .holds _ => ((s.walk? r).map fun walk => s.world.searchSpan r walk.todo).getD .zero

/-- A request is asked of a session, and ends by moves on a clock that waits. -/
structure Concludes (s : Session) (r : Request) (moves : List Move) (t : Session) (e : Ended) : Prop where
  clock : OnClock (s.submit (.request r)) moves t
  returns : (s.submit (.request r)).Returns s.tickets moves t e

/-- A request that returns when it is done, as it would without deadlines. -/
structure OnTime (s : Session) (r : Request) : Prop where
  done : ∀ moves t e, s.Concludes r moves t e →
    t.now = s.now + s.taking r ∧ s.untimed.Concludes r moves t.untimed e
  /-- whatever it could come to without deadlines it can come to -/
  likewise : ∀ moves t e, s.untimed.Concludes r moves t e →
    ∃ u, t = u.untimed ∧ s.Concludes r moves u e
  performed : s.untimed.perform (.request r) =
    ((s.perform (.request r)).1.untimed, (s.perform (.request r)).2)

/-- A request that times out, with what it leaves behind. -/
structure CutOff (s : Session) (r : Request) (after : Duration) (t : Session) (e : Ended) : Prop where
  result : e = .returned (.error (.timeout r.operation after))
  now : t.now = s.now + after
  /-- a main of a fan-out that was done before is as its call has left it: it has taken the write, or it
  has failed and its objects are as they were, -/
  swift : s.fansOut r = true → ∀ i ∈ s.world.mains, s.world.span r i < after →
    t.world.backends[i]? = (s.world.call i r).1.backends[i]? ∧
      ((s.world.call i r).2.isAnswered = true → t.world.HasTaken i r) ∧
      ((s.world.call i r).2.isAnswered = false → ∀ a, t.world.objectAt? i a = s.world.objectAt? i a)
  /-- the others have not been changed, -/
  slow : s.fansOut r = true → ∀ i ∈ s.world.mains, after < s.world.span r i → ∀ a,
    t.world.objectAt? i a = s.world.objectAt? i a
  /-- and nobody else has been called -/
  others : s.fansOut r = true → ∀ i, i ∉ s.world.mains →
    t.world.backends[i]? = s.world.backends[i]?
  /-- a walk has changed no object, and has left nothing to the background -/
  untouched : s.fansOut r = false → t.world.objectAt? = s.world.objectAt? ∧ t.fans = s.fans
  launched : t.launched = s.launched
  entries : t.watched.cache.entries ⊆ s.watched.cache.entries
  /-- however far time goes on, no backend is called any more -/
  still : ∀ more u, (∀ m ∈ more, m.isFree = true) → t.run? more = some u → u.world = t.world
  /-- and whatever else is asked of the session, nothing goes on of what was given up -/
  silent : ∀ more u m v, t.run? more = some u → u.move? m = some v →
    ¬ ConcernsOrder s.tickets m ∧ ∀ fan < t.fans.length, ¬ ConcernsFan fan m

/-- What comes of a request with a timeout. -/
structure CutsAtDeadline (s : Session) (r : Request) (after : Duration) : Prop where
  /-- however far it has come, it comes to its end -/
  ends : ∀ moves u, OnClock (s.submit (.request r)) moves u →
    (s.submit (.request r)).Pending s.tickets moves u →
    ∃ more t e, OnClock u more t ∧ u.Returns s.tickets more t e
  performed : ∃ moves t e, s.Concludes r moves t e ∧ s.perform (.request r) = (t, some e)
  onTime : s.taking r < after → s.OnTime r
  cutOff : after < s.taking r → ∀ moves t e, s.Concludes r moves t e → s.CutOff r after t e

/-- What is left of a request that was given up. -/
structure Leaves (s : Session) (r : Request) (v : Session) : Prop where
  abandoned : Abandoned s r v
  fan : s.fansOut r = true → Halted s r v
  walk : s.fansOut r = false → v.fans = s.fans ∧ v.world.objectAt? = s.world.objectAt?

variable {s t u v : Session} {r : Request} {after : Duration} {moves : List Move} {e : Ended}

/-! ## Requests that are asked -/

theorem Cut.mono {ticket : Nat} {done : Duration} {deadline : Option Duration} {G G' : Session → Prop}
    (h : Cut s ticket done deadline G) (hLeft : ∀ {v}, G v → G' v) : Cut s ticket done deadline G' := by
  refine { h with returns := fun moves t e hClock hReturns => ?_ }
  rcases h.returns moves t e hClock hReturns with hDone | ⟨d, hDeadline, hSoon, hNow, hGivenUp⟩
  · exact .inl hDone
  · exact .inr ⟨d, hDeadline, hSoon, hNow, hLeft hGivenUp⟩

/-- A request that ends when it is asked takes no time. -/
theorem cut_at_once {G : Session → Prop} (hEnded : t.ended? s.tickets = some e) (hNow : t.now = s.now) :
    Cut t s.tickets (s.now + .zero) s.deadline G := by
  have hZero : s.now + .zero = t.now := hNow.symm
  rw [hZero]
  refine cut_of_ended hEnded fun d hDeadline => ?_
  obtain ⟨after, -, rfl⟩ := Option.map_eq_some_iff.mp hDeadline
  rw [hNow]
  exact Nat.le_add_right ..

/-- A request that fans out. -/
theorem cut_startFan (hs : s.Sound) (hIdle : s.running = [])
    (hFinished : ∀ f ∈ s.fans, f.isFinished = true) (hw : s.world.IsScripted) (r : Request) :
    Cut ({ s with tickets := s.tickets + 1 }.startFan s.tickets r) s.tickets
      (s.now + s.world.longestSpan r s.world.mains) s.deadline
      fun v => Abandoned s r v ∧ Halted s r v := by
  have hStands : StandsBy s
      ({ s with tickets := s.tickets + 1 }.fanOut (.ofBackends r s.world.mains false)) :=
    { standsBy_submitted hs hIdle s.readOrder (fun _ he => he) with }
  have hSpanning : Spanning s r (.ofBackends r s.world.mains false)
      ({ s with tickets := s.tickets + 1 }.startFan s.tickets r) := by
    refine ⟨hStands.suspend r _, rfl, rfl, FanOut.backends_ofBackends .., fun j b hb => ?_,
      fun _ _ => rfl, Nat.le_refl _, Nat.le_add_right ..⟩
    have hQueued : b.state = .queued := by
      simp only [FanOut.ofBackends, List.getElem?_map, Option.map_eq_some_iff] at hb
      obtain ⟨backend, -, rfl⟩ := hb
      rfl
    exact .queued hQueued rfl rfl
  exact (pace_spanning hw hFinished).cut ⟨_, hSpanning, rfl⟩

/-- A request that sets a walk going. -/
theorem cut_followWalk (hStands : StandsBy s u) (hNow : u.now = s.now) (hFans : u.fans = s.fans)
    (hFinished : ∀ f ∈ s.fans, f.isFinished = true) (hw : s.world.IsScripted) {walk : Walk}
    (hRequest : walk.request = r) (hNodup : walk.todo.Nodup) :
    Cut (u.followWalk s.tickets r s.deadline (walk.go s.world)) s.tickets
      (s.now + s.world.searchSpan r walk.todo) s.deadline
      fun v => Abandoned s r v ∧ v.fans = s.fans ∧ v.world.objectAt? = s.world.objectAt? := by
  have hPaces := Walk.paces_goFrom hw hNodup hRequest (fun _ _ => rfl) (rfl : s.world.objectAt? = _)
  rcases searching_followWalk hStands hFans hPaces with ⟨k, -, hSearching⟩ | ⟨hEnded, hLeft⟩
  · rw [hNow] at hSearching
    exact (pace_searching hw hFinished).cut hSearching
  · obtain ⟨e, hEnded⟩ := Option.ne_none_iff_exists'.mp hEnded
    rw [hLeft]
    exact cut_at_once hEnded ((now_followWalk ..).trans hNow)

theorem nodup_of_walk? (hs : s.Reachable) {walk : Walk} (h : s.walk? r = some walk) :
    walk.todo.Nodup := by
  unfold walk? at h
  split at h
  · split at h
    · contradiction
    · cases h
      refine (s.readOrder.perm_claim).nodup_iff.mpr ?_
      rw [groups_of_reachable hs]
      exact s.world.nodup_readGroups
  · split at h
    · contradiction
    · cases h
      exact s.world.nodup_readGroups
  · contradiction

/-- How a request ends that is asked of a session in which nothing is under way. -/
theorem cut_submit (hs : s.Reachable) (hIdle : s.running = [])
    (hFinished : ∀ f ∈ s.fans, f.isFinished = true) (hw : s.world.IsScripted) (r : Request) :
    Cut (s.submit (.request r)) s.tickets (s.now + s.taking r) s.deadline (Leaves s r) := by
  have hSound := sound_of_reachable hs
  have hFanned (hFans : s.fansOut r = true)
      (hTaking : s.taking r = s.world.longestSpan r s.world.mains) :
      Cut (s.submit (.request r)) s.tickets (s.now + s.taking r) s.deadline (Leaves s r) := by
    rw [hTaking]
    by_cases hMains : s.world.mains = []
    · rw [submit_of_mains_eq_nil (isWrite_of_fansOut hFans) hMains, hMains]
      exact cut_at_once (ended?_finish_self ..) rfl
    · rw [submit_of_fansOut hFans hMains]
      refine (cut_startFan hSound hIdle hFinished hw r).mono ?_
      rintro v ⟨hAbandoned, hHalted⟩
      refine ⟨hAbandoned, fun _ => hHalted, fun hNot => ?_⟩
      rw [hFans] at hNot
      contradiction
  have hLeaves (hFans : s.fansOut r = false) {v : Session} (h : Abandoned s r v ∧ v.fans = s.fans ∧
      v.world.objectAt? = s.world.objectAt?) : Leaves s r v := by
    refine ⟨h.1, fun hIs => ?_, fun _ => h.2⟩
    rw [hFans] at hIs
    contradiction
  have hRead (hRead : r.isWrite = false) (hFans : s.fansOut r = false)
      (hTaking : s.taking r = ((s.walk? r).map fun walk => s.world.searchSpan r walk.todo).getD .zero) :
      Cut (s.submit (.request r)) s.tickets (s.now + s.taking r) s.deadline (Leaves s r) := by
    rw [hTaking]
    cases hWalk : s.walk? r with
    | none =>
      rcases submit_of_served hRead hWalk with ⟨e, -, -, hSubmit⟩ | ⟨-, hSubmit⟩
      · rw [hSubmit]
        exact cut_at_once (ended?_finish_self ..) rfl
      · rw [hSubmit]
        exact cut_at_once (ended?_finish_self ..) rfl
    | some walk =>
      obtain ⟨readOrder, hSubmit⟩ := submit_of_walk? hWalk
      rw [hSubmit]
      exact (cut_followWalk (standsBy_submitted hSound hIdle _ (Cache.entries_lookup_subset ..)) rfl rfl
        hFinished hw (request_of_walk? hWalk) (nodup_of_walk? hs hWalk)).mono (hLeaves hFans)
  cases r with
  | get a => exact hRead rfl rfl rfl
  | holds a => exact hRead rfl rfl rfl
  | remove a => exact hFanned rfl rfl
  | put a data =>
    cases hReplication : s.replication with
    | sync =>
      refine hFanned (by simp [fansOut, hReplication]) ?_
      simp only [taking, hReplication]
    | async =>
      have hFans : s.fansOut (.put a data) = false := by simp [fansOut, hReplication]
      have hTaking : s.taking (.put a data) = s.world.searchSpan (.put a data) s.world.mains := by
        simp only [taking, hReplication]
      rw [hTaking]
      by_cases hMains : s.world.mains = []
      · rw [submit_of_mains_eq_nil rfl hMains, hMains]
        exact cut_at_once (ended?_finish_self ..) rfl
      · rw [submit_of_placed hFans hMains]
        exact (cut_followWalk (standsBy_submitted hSound hIdle s.readOrder (fun _ he => he)) rfl rfl
          hFinished hw rfl s.world.nodup_mains).mono (hLeaves hFans)

/-! ## What comes of a timeout -/

/-- A request that was given up has timed out, and nothing goes on of it. -/
theorem Leaves.cutOff (h : Leaves s r t) (hSound : t.Sound) (hw : s.world.IsScripted)
    (hAfter : s.timeout = some after) (hEnded : t.ended? s.tickets = some e)
    (hNow : t.now = s.now + after) : s.CutOff r after t e where
  result := by
    obtain ⟨after', hAfter', hTimedOut⟩ := h.abandoned.ended
    rw [hAfter, Option.some.injEq] at hAfter'
    rw [hEnded, Option.some.injEq] at hTimedOut
    rw [hTimedOut, hAfter']
  now := hNow
  swift := by
    intro hFans i hi hSwift
    have hBefore : s.now + s.world.span r i < t.now := by
      rw [hNow]
      exact Nat.add_lt_add_left hSwift _
    have hFollows := s.world.follows_call i r
    have hSame := (h.fan hFans).swift i hi hBefore
    have hScripted := hw.of_frame_eq hFollows.frame
    refine ⟨hSame, fun hAnswered => (hFollows.taken hAnswered).congr hScripted hSame, fun hFailed a => ?_⟩
    rw [World.objectAt?_congr hScripted hSame, hFollows.quiet ((hw.isFaithful rfl).spares r hFailed)]
  slow := by
    intro hFans i hi hSlow
    refine (h.fan hFans).slow i hi ?_
    rw [hNow]
    exact Nat.add_lt_add_left hSlow _
  others hFans := (h.fan hFans).others
  untouched hWalks := ⟨(h.walk hWalks).2, (h.walk hWalks).1⟩
  launched := h.abandoned.launched
  entries := h.abandoned.entries
  still _ _ hFree hRun := world_of_run?_of_idle h.abandoned.running h.abandoned.finished hFree hRun
  silent _ _ _ _ hRun hMove := h.abandoned.silent hSound hRun hMove

/-- What comes of a request with a timeout that is asked of a session in which nothing is under way. -/
theorem cuts_at_deadline (hs : s.Reachable) (hIdle : s.running = [])
    (hFinished : ∀ f ∈ s.fans, f.isFinished = true) (hw : s.world.IsScripted)
    (hAfter : s.timeout = some after) (r : Request) : s.CutsAtDeadline r after := by
  have hCut := cut_submit hs hIdle hFinished hw r
  have hDeadline : s.deadline = some (s.now + after) := by
    rw [Session.deadline, hAfter]
    rfl
  have hTickets : (s.submit (.request r)).tickets - 1 = s.tickets := by
    rw [(advances_submit s (.request r)).tickets]
    rfl
  refine ⟨hCut.ends, ?_, fun hEarly => ?_, fun hLate moves t e h => ?_⟩
  · obtain ⟨moves, t, e, hClock, hReturns, hDrive⟩ := hCut.driven
    refine ⟨moves, t, e, ⟨hClock, hReturns⟩, ?_⟩
    simp only [perform, completed, hTickets, hDrive, hReturns.ended]
  · have hBefore (d : Duration) (hd : s.deadline = some d) : s.now + s.taking r < d := by
      rw [hDeadline, Option.some.injEq] at hd
      rw [← hd]
      exact Nat.add_lt_add_left hEarly _
    refine ⟨fun moves t e h => ?_, fun moves t e h => ?_, ?_⟩
    · rcases hCut.returns moves t e h.clock h.returns with ⟨hPatient, hNow, -⟩ | ⟨d, hd, hSoon, -⟩
      · refine ⟨hNow, ?_, ?_⟩
        · rw [← untimed_submit]
          exact h.clock.untimed hPatient
        · rw [← untimed_submit]
          exact (returns_untimed_iff hPatient).mpr ⟨t, rfl, h.returns⟩
      · exact absurd hSoon (Nat.not_le_of_lt (hBefore d hd))
    · obtain ⟨hClock, hReturns⟩ := h
      rw [← untimed_submit] at hClock hReturns
      obtain ⟨u, rfl, hTimed, hTimedReturns⟩ := hCut.likewise hBefore moves t e hClock hReturns
      exact ⟨u, rfl, hTimed, hTimedReturns⟩
    · have hSameTickets : (s.submit (.request r)).untimed.tickets - 1 = s.tickets := hTickets
      simp only [perform, ← untimed_submit, completed, work_untimed, hTickets, hSameTickets,
        hCut.same hBefore]
      rfl
  · rcases hCut.returns moves t e h.clock h.returns with ⟨-, -, hBy⟩ | ⟨d, hd, -, hNow, hLeaves⟩
    · have hSoon := hBy _ hDeadline
      exact absurd hSoon (Nat.not_le_of_lt (Nat.add_lt_add_left hLate _))
    · rw [hDeadline, Option.some.injEq] at hd
      have hAsked : (s.submit (.request r)).Sound :=
        sound_of_move? (m := .submit (.request r)) (sound_of_reachable hs) rfl
      exact hLeaves.cutOff (sound_of_run? hAsked h.clock.run?) hw hAfter h.returns.ended
        (hNow.trans hd.symm)

/-! ## A write whose deadline falls between its mains -/

/-- A scripted main whose calls take a time. -/
def takingMain (name : String) (delay : Duration) : Backend :=
  ⟨name, { isMain := true }, .scripted { behaviour := fun _ _ => { delay } }⟩

/-- A client whose timeout is between the times of its two mains. -/
def rushed : Session :=
  { ofWorld { backends := [takingMain "swift" (.ofMillis 10), takingMain "slow" (.ofMillis 50)] } .sync
      .classic with
    timeout := some (.ofMillis 30) }

def rushedWrite : Request := .put ⟨"c", "x"⟩ [1]

/-- The write times out, the one main has taken it by then, and the other never will. -/
theorem cuts_at_deadline_rushed :
    rushed.Reachable ∧ rushed.world.IsScripted ∧ rushed.timeout = some (.ofMillis 30) ∧
    rushed.CutsAtDeadline rushedWrite (.ofMillis 30) ∧ rushed.taking rushedWrite = .ofMillis 50 ∧
    ∃ t, rushed.perform (.request rushedWrite) =
        (t, some (.returned (.error (.timeout .put (.ofMillis 30))))) ∧
      t.world.HasTaken 0 rushedWrite ∧ t.world.objectAt? 1 ⟨"c", "x"⟩ = none := by
  have hReachable : rushed.Reachable :=
    ⟨rushed.world, .sync, .classic, some (.ofMillis 30), .first, [], rfl⟩
  have hScripted : rushed.world.IsScripted := by
    intro b hb
    rcases List.mem_cons.mp hb with rfl | hb
    · exact ⟨_, rfl⟩
    · rw [List.mem_singleton.mp hb]
      exact ⟨_, rfl⟩
  have hCuts := cuts_at_deadline hReachable rfl (List.forall_mem_nil _) hScripted rfl rushedWrite
  have hTaking : rushed.taking rushedWrite = .ofMillis 50 := by decide
  obtain ⟨moves, t, e, hConcludes, hPerformed⟩ := hCuts.performed
  have hCutOff := hCuts.cutOff (by rw [hTaking]; decide) moves t e hConcludes
  refine ⟨hReachable, hScripted, rfl, hCuts, hTaking, t, ?_, ?_, ?_⟩
  · rw [hPerformed, hCutOff.result]
    rfl
  · exact (hCutOff.swift rfl 0 (by decide) (by decide)).2.1 rfl
  · rw [hCutOff.slow rfl 1 (by decide) (by decide)]
    rfl

end Session

end ReplicatedStore
