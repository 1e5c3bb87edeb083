import ReplicatedStore.Proofs.Session.Deadlines
import ReplicatedStore.Proofs.Session.Filling
import ReplicatedStore.Proofs.Session.Probing
import ReplicatedStore.Proofs.Session.TakingTurns

/-!
# Checks of a client

A check looks into the cache first. If the object is not there, the check asks the replicas and then the
mains, whatever the strategy of the client is and wherever its fetches have got to with their turns. It is
exact: it ends as the answers of all backends together tell.

A fetch looks into the cache as well, and then tries the same backends, in the order that it claims. So a
check and a fetch agree wherever the backends do: where each backend has the object exactly if it gives it.

Main results:

* `Session.checksExactly_of_reachable` — checks are exact in every session that can come about.
* `Session.checks_exactly` — they are, and they agree with the fetches asked in their place.
-/

namespace ReplicatedStore

theorem World.flatten_readGroups (w : World) : w.readGroups.flatten = w.replicas ++ w.mains := by
  simp [readGroups]

/-- The backends are the replicas and the mains, each of them once. -/
theorem World.perm_backends (w : World) :
    (w.replicas ++ w.mains).Perm (List.range w.backends.length) := by
  rw [← w.flatten_readGroups]
  refine (List.perm_ext_iff_of_nodup w.nodup_readGroups List.nodup_range).mpr fun position => ?_
  rw [List.mem_range]
  constructor
  · intro h
    obtain ⟨b, hb⟩ := exists_of_mem_flatten h
    exact (List.getElem?_eq_some_iff.mp hb).1
  · intro h
    exact mem_flatten (List.getElem?_eq_getElem h)

theorem World.order_ne_nil (w : World) (h : w.backends ≠ []) : w.replicas ++ w.mains ≠ [] := by
  intro hNil
  have hLength := w.perm_backends.length_eq
  rw [hNil, List.length_nil, List.length_range] at hLength
  exact h (List.length_eq_zero_iff.mp hLength.symm)

namespace Session

/-- Whether checks of an object that is not in the cache are exact in a session. -/
structure ChecksExactly (s : Session) (a : Address) (order : List Nat) : Prop where
  /-- while it is under way, the backends behind it have decided nothing, and the next one was called -/
  asks : ∀ moves t, s.Pending s.tickets (.submit (.request (.holds a)) :: moves) t →
    let trail := consulted s.tickets s (.submit (.request (.holds a)) :: moves)
    ∃ b rest, order = trail.outcomes.map (·.1) ++ b :: rest ∧
      trail.called = trail.outcomes.map (·.1) ++ [b] ∧ Undecided trail.outcomes
  /-- it can be brought to its end -/
  returns : ∀ moves t, s.Pending s.tickets (.submit (.request (.holds a)) :: moves) t →
    ∃ more u e, t.Returns s.tickets more u e
  /-- it has ended as the answers of the backends tell, unless it timed out -/
  ends : ∀ checks moves t e, s.Returns s.tickets (.submit (.request (.holds a)) :: moves) t e →
    (consulted s.tickets s (.submit (.request (.holds a)) :: moves)).Checks checks →
    Checked s.world.nameOf checks order
        (consulted s.tickets s (.submit (.request (.holds a)) :: moves)) e ∨
      s.timeout ≠ none ∧ ∃ after, e = .returned (.error (.timeout .holds after))

/-- Whether a check of an object finds it exactly if a fetch that is asked in its place gives it, where all
backends answer the check, and each of them has the object exactly if it gives it. -/
def ChecksAgree (s : Session) (a : Address) : Prop :=
  ∀ results moves moves' t t' e e',
    s.Returns s.tickets (.submit (.request (.holds a)) :: moves) t e →
    s.Returns s.tickets (.submit (.request (.get a)) :: moves') t' e' →
    (consulted s.tickets s (.submit (.request (.holds a)) :: moves)).Checks
      (fun b => .ok (results b).isOk) →
    (consulted s.tickets s (.submit (.request (.get a)) :: moves')).Follows results →
    (e = .returned (.ok (.presence true)) ↔ ∃ data, e' = .returned (.ok (.content data)))

variable {s t : Session} {a : Address} {r : Request} {start : Walk} {moves : List Move} {e : Ended}
  {data : Bytes}

/-- The walks of a check and of a fetch of an object that the cache does not hold. -/
theorem walk?_of_absent (hAbsent : (s.watched.cache.lookup s.now a.key).1 = none)
    (hSome : s.world.backends ≠ []) :
    s.walk? (.holds a) = some (.ofOrder .probe a (s.world.replicas ++ s.world.mains)) ∧
      s.walk? (.get a) = some (.ofOrder .fetch a s.readOrder.claim.1) := by
  have hNot : s.world.backends.isEmpty = false := by simpa using hSome
  constructor
  · unfold walk?
    rw [show (s.watched.cache.lookup s.now (Request.holds a).address.key).1 = none from hAbsent]
    simp [hNot, World.flatten_readGroups]
  · unfold walk?
    rw [show (s.watched.cache.lookup s.now (Request.get a).address.key).1 = none from hAbsent]
    simp [hNot]

/-- A read of an object that the cache holds is served from there. -/
theorem ended_of_found (hRead : r.isWrite = false)
    (hFound : (s.watched.cache.lookup s.now r.address.key).1 = some data)
    (hReturns : s.Returns s.tickets (.submit (.request r) :: moves) t e) :
    e = .returned (.ok (r.gives data)) := by
  refine eq_of_served ?_ hReturns
  cases r with
  | put a data => contradiction
  | remove a => contradiction
  | get a =>
    rw [submit_get, show (s.watched.cache.lookup s.now a.key).1 = some data from hFound]
    rfl
  | holds a =>
    simp only [submit, startRequest, lookup, WatchedCache.lookup]
    rw [show (s.watched.cache.lookup s.now a.key).1 = some data from hFound]
    rfl

/-- A read without backends that the cache does not serve either fails. -/
theorem ended_of_no_backends (hRead : r.isWrite = false)
    (hAbsent : (s.watched.cache.lookup s.now r.address.key).1 = none) (hNone : s.world.backends = [])
    (hReturns : s.Returns s.tickets (.submit (.request r) :: moves) t e) :
    e = .returned (.error .noBackends) := by
  refine eq_of_served ?_ hReturns
  cases r with
  | put a data => contradiction
  | remove a => contradiction
  | get a =>
    rw [submit_get, show (s.watched.cache.lookup s.now a.key).1 = none from hAbsent]
    exact if_pos (by rw [hNone]; rfl)
  | holds a =>
    simp only [submit, startRequest, lookup, WatchedCache.lookup]
    rw [show (s.watched.cache.lookup s.now a.key).1 = none from hAbsent]
    exact if_pos (by rw [hNone]; rfl)

/-- A read can be asked and brought to its end. -/
theorem exists_returns_of_read (hs : s.Reachable) (hRead : r.isWrite = false) :
    ∃ moves t e, s.Returns s.tickets (.submit (.request r) :: moves) t e := by
  have hSound := sound_of_reachable hs
  have hOpen := ended?_of_sound hSound (Nat.le_refl _)
  have hMove : s.move? (.submit (.request r)) = some (s.submit (.request r)) := rfl
  cases hWalk : s.walk? r with
  | none =>
    obtain ⟨e, hEnded⟩ : ∃ e, (s.submit (.request r)).ended? s.tickets = some e := by
      rcases submit_of_served hRead hWalk with ⟨entry, -, -, hEq⟩ | ⟨-, hEq⟩
      · rw [hEq]
        exact ⟨_, ended?_finish_self ..⟩
      · rw [hEq]
        exact ⟨_, ended?_finish_self ..⟩
    exact ⟨[], _, e, returns_singleton hOpen hMove hEnded⟩
  | some start =>
    -- the walk ends the read at once, or the read can be brought to its end from there
    rcases consulting_submit hSound (mindful_of_reachable hs) hWalk with hConsulting | ⟨w, hConsulted⟩
    · obtain ⟨moves, t, e, -, hReturns⟩ := exists_returns_of_consulting hConsulting
      exact ⟨moves, t, e, hReturns.cons hMove hOpen⟩
    · exact ⟨[], _, _, returns_singleton hOpen hMove hConsulted.ends.ended⟩

/-- How a read has ended that has turned to backends. -/
theorem consulted_of_reachable (hs : s.Reachable) (hWalk : s.walk? r = some start)
    (hReturns : s.Returns s.tickets (.submit (.request r) :: moves) t e) :
    (∃ w, e = w.ended ∧ t.world.nameOf = s.world.nameOf ∧ Consulted t s.tickets start
      (consulted s.tickets s (.submit (.request r) :: moves)) w) ∨
      s.timeout ≠ none ∧ ∃ after, e = .returned (.error (.timeout r.operation after)) := by
  rcases consulted_of_returns (sound_of_reachable hs) (mindful_of_reachable hs) hWalk hReturns with
    ⟨w, hEnd, hConsulted⟩ | ⟨hDeadline, hTimedOut⟩
  · exact .inl ⟨w, hEnd, World.nameOf_of_frame_eq (goesOn_of_run? hReturns.run).frame, hConsulted⟩
  · exact .inr ⟨fun hNone => hDeadline (deadline_eq_none hNone), hTimedOut⟩

/-- How a check has ended of an object that the cache does not hold. -/
theorem probed_of_returns (hs : s.Reachable)
    (hAbsent : (s.watched.cache.lookup s.now a.key).1 = none) (hSome : s.world.backends ≠ [])
    (hReturns : s.Returns s.tickets (.submit (.request (.holds a)) :: moves) t e) :
    Probed s.world.nameOf (s.world.replicas ++ s.world.mains)
        (consulted s.tickets s (.submit (.request (.holds a)) :: moves)) e ∨
      s.timeout ≠ none ∧ ∃ after, e = .returned (.error (.timeout .holds after)) := by
  obtain ⟨hWalk, -⟩ := walk?_of_absent hAbsent hSome
  refine (consulted_of_reachable hs hWalk hReturns).imp_left ?_
  rintro ⟨w, rfl, hNames, hConsulted⟩
  rw [← hNames]
  exact probed_of_consulted (s.world.order_ne_nil hSome) hConsulted

/-- How a fetch has ended of an object that the cache does not hold. -/
theorem fetched_of_returns (hs : s.Reachable)
    (hAbsent : (s.watched.cache.lookup s.now a.key).1 = none) (hSome : s.world.backends ≠ [])
    (hReturns : s.Returns s.tickets (.submit (.request (.get a)) :: moves) t e) :
    Fetched s.world.nameOf s.readOrder.claim.1
        (consulted s.tickets s (.submit (.request (.get a)) :: moves)) e ∨
      s.timeout ≠ none ∧ ∃ after, e = .returned (.error (.timeout .get after)) := by
  obtain ⟨-, hWalk⟩ := walk?_of_absent hAbsent hSome
  refine (consulted_of_reachable hs hWalk hReturns).imp_left ?_
  rintro ⟨w, rfl, hNames, hConsulted⟩
  rw [← hNames]
  exact fetched_of_consulted hConsulted

/-- A check under way has only outcomes behind it that decide nothing. -/
theorem undecided_of_consulting {ticket : Nat} {order : List Nat} {deadline : Option Duration}
    {trail : Trail} (h : Consulting t ticket (.ofOrder .probe a order) deadline trail) :
    ∃ b rest, order = trail.outcomes.map (·.1) ++ b :: rest ∧
      trail.called = trail.outcomes.map (·.1) ++ [b] ∧ Undecided trail.outcomes := by
  obtain ⟨walk, due, delay, held, -, hWent⟩ := h.walking
  cases hWent with
  | @waits walk b rest _ _ hOrder hCalled hAfter =>
    exact ⟨b, rest, hOrder, hCalled, (Walk.of_after? hAfter).1⟩

theorem checksExactly_of_reachable (hs : s.Reachable)
    (hAbsent : (s.watched.cache.lookup s.now a.key).1 = none) (hSome : s.world.backends ≠ []) :
    s.ChecksExactly a (s.world.replicas ++ s.world.mains) := by
  obtain ⟨hWalk, -⟩ := walk?_of_absent hAbsent hSome
  have hConsulting {moves : List Move} {t : Session}
      (hPending : s.Pending s.tickets (.submit (.request (.holds a)) :: moves) t) :=
    consulting_of_submitted (sound_of_reachable hs) (mindful_of_reachable hs) hWalk hPending
  refine ⟨fun moves t hPending => undecided_of_consulting (hConsulting hPending),
    fun moves t hPending => ?_, fun checks moves t e hReturns hChecks => ?_⟩
  · obtain ⟨more, u, e, -, hReturns⟩ := exists_returns_of_consulting (hConsulting hPending)
    exact ⟨more, u, e, hReturns⟩
  · exact (probed_of_returns hs hAbsent hSome hReturns).imp_left fun hProbed =>
      checked_of_probed hProbed hChecks

/-- A check and a fetch agree over orders of the same backends. -/
theorem agree_of_perm {names names' : Nat → String} {results : Nat → Except Failure Bytes}
    {order order' : List Nat} {trail trail' : Trail} {e e' : Ended}
    (hChecked : Checked names (fun b => .ok (results b).isOk) order trail e)
    (hFetched : Fetched names' order' trail' e') (hFollows : trail'.Follows results)
    (hPerm : order'.Perm order) :
    e = .returned (.ok (.presence true)) ↔ ∃ data, e' = .returned (.ok (.content data)) := by
  obtain ⟨hEnd, -⟩ := ended_of_follows hFetched hFollows
  have hGives : (∃ data, e' = .returned (.ok (.content data))) ↔ firstOf? results order' ≠ none := by
    rw [hEnd, endOf]
    cases firstOf? results order' with
    | some data => simp
    | none => simp
  have hHas : (∃ b ∈ order, (.ok (results b).isOk : Except Failure Bool) = .ok true) ↔
      ∃ b ∈ order', ¬ ∃ f, results b = .error f := by
    refine exists_congr fun b => and_congr hPerm.mem_iff.symm ?_
    cases results b with
    | ok data => simp [Except.isOk, Except.toBool]
    | error f => simp [Except.isOk, Except.toBool]
  rw [hChecked.present_iff, hGives, Ne, firstOf?_eq_none_iff, hHas]
  simp

theorem checksAgree_of_reachable (hs : s.Reachable) (hTimeout : s.timeout = none) :
    s.ChecksAgree a := by
  intro results moves moves' t t' e e' hCheck hFetch hChecks hFollows
  cases hLookup : (s.watched.cache.lookup s.now a.key).1 with
  | some data =>
    have hCheckEnd := ended_of_found (r := .holds a) rfl hLookup hCheck
    have hFetchEnd := ended_of_found (r := .get a) rfl hLookup hFetch
    exact iff_of_true hCheckEnd ⟨data, hFetchEnd⟩
  | none =>
    by_cases hSome : s.world.backends = []
    · have hCheckEnd := ended_of_no_backends (r := .holds a) rfl hLookup hSome hCheck
      have hFetchEnd := ended_of_no_backends (r := .get a) rfl hLookup hSome hFetch
      subst hCheckEnd hFetchEnd
      exact iff_of_false nofun nofun
    · -- both have asked backends, of which they claim the same in different orders
      have hProbed := (probed_of_returns hs hLookup hSome hCheck).resolve_right fun h => h.1 hTimeout
      have hFetched := (fetched_of_returns hs hLookup hSome hFetch).resolve_right fun h => h.1 hTimeout
      refine agree_of_perm (checked_of_probed hProbed hChecks) hFetched hFollows ?_
      rw [← World.flatten_readGroups, ← groups_of_reachable hs]
      exact s.readOrder.perm_claim

/-- **Checks are exact, and agree with fetches.** Take any session that can come about, however many
orders are under way. The order of its checks has each backend once, the replicas before the mains. (1) A
read can be asked and brought to its end. (2) A check of an object that the cache does not hold asks the
backends in that order and stops at the first that has the object. It finds the object exactly if some
backend has it; misses it exactly if none has it and one has said so; and fails exactly if all have failed,
with the failure of the only backend, or with all failures in the order of the backends. (3) Without a
timeout a check finds an object exactly if a fetch that is asked in its place gives it, from the cache or
from backends in whatever order, where each backend has the object exactly if it gives it. -/
theorem checks_exactly (hs : s.Reachable) (a : Address) :
    (s.world.replicas ++ s.world.mains).Perm (List.range s.world.backends.length) ∧
    (∀ r : Request, r.isWrite = false →
      ∃ moves t e, s.Returns s.tickets (.submit (.request r) :: moves) t e) ∧
    ((s.lookup a).1 = none → s.world.backends ≠ [] →
      s.ChecksExactly a (s.world.replicas ++ s.world.mains)) ∧
    (s.timeout = none → s.ChecksAgree a) :=
  ⟨s.world.perm_backends, fun _ hRead => exists_returns_of_read hs hRead,
    fun hAbsent hSome => checksExactly_of_reachable hs hAbsent hSome, checksAgree_of_reachable hs⟩

/-- A main, and a replica that fails when it is checked for the first time. -/
def unsteadyPair : World :=
  { backends := [⟨"m", { isMain := true }, .scripted {}⟩, ⟨"r", {}, .scripted { behaviour :=
      fun operation number =>
        if operation = .holds ∧ number = 0 then { failure := some (.said "down") } else {} }⟩] }

def checkX : Move := .submit (.request (.holds ⟨"c", "x"⟩))

def fetchX : Move := .submit (.request (.get ⟨"c", "x"⟩))

/-- An object is put to the main. -/
def putToPair : List Move :=
  [.submit (.request (.put ⟨"c", "x"⟩ [1])), .event (.start 0 0), .event (.join 0)]

/-- A client of the pair whose fetches take turns, when the object was put, -/
def stocked : Session :=
  ((ofWorld unsteadyPair .sync .roundRobin).run? putToPair).getD (ofWorld unsteadyPair .sync .roundRobin)

/-- and when it was checked as well. -/
def checkedOnce : Session := stocked.submit (.request (.holds ⟨"c", "x"⟩))

/-- What the pair has to give. -/
def givenByPair (b : Nat) : Except Failure Bytes :=
  if b = 0 then .ok [1] else .error (.said "object 'c/x' not found")

/-- The first check passes the failure of the replica and finds the object at the main. The second one and
the fetch in its place both find it there, where the replica tells of its absence. -/
theorem checks_exactly_unsteady :
    (∃ trail, Checked stocked.world.nameOf
      (fun b => if b = 0 then .ok true else .error (.said "down")) [1, 0] trail
      (.returned (.ok (.presence true)))) ∧
    checkedOnce.ChecksAgree ⟨"c", "x"⟩ ∧
    (∃ t, checkedOnce.Returns 2 [checkX] t (.returned (.ok (.presence true)))) ∧
    (∃ t, checkedOnce.Returns 2 [fetchX] t (.returned (.ok (.content [1])))) ∧
    (consulted 2 checkedOnce [checkX]).Checks (fun b => .ok (givenByPair b).isOk) ∧
    (consulted 2 checkedOnce [fetchX]).Follows givenByPair := by
  have hStocked : stocked.Reachable :=
    ⟨unsteadyPair, .sync, .roundRobin, none, .first, putToPair, rfl⟩
  have hRun : stocked.run? [checkX] = some checkedOnce := rfl
  have hChecked : checkedOnce.Reachable := hStocked.run? hRun
  have hReturns : stocked.Returns stocked.tickets [checkX] checkedOnce
      (.returned (.ok (.presence true))) := returns_of_forall_take rfl rfl (by decide)
  obtain ⟨-, -, hExactly, -⟩ := checks_exactly hStocked ⟨"c", "x"⟩
  obtain ⟨-, -, -, hAgree⟩ := checks_exactly hChecked ⟨"c", "x"⟩
  refine ⟨⟨_, ((hExactly rfl (by decide)).ends _ [] _ _ hReturns ?_).resolve_right fun h => h.1 rfl⟩,
    hAgree rfl, ⟨_, returns_of_forall_take rfl rfl (by decide)⟩,
    ⟨_, returns_of_forall_take rfl rfl (by decide)⟩, ?_, ?_⟩
  · unfold Trail.Checks
    decide
  · unfold Trail.Checks
    decide
  · unfold Trail.Follows
    decide

end Session

end ReplicatedStore
