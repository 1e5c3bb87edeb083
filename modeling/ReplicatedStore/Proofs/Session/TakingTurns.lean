import ReplicatedStore.Proofs.Session.Rotation

/-!
# Fetches that take turns

A client whose fetches take turns tries for each fetch the backends of its turn, one after the other,
until the first one gives a content. What that comes to is up to what the backends have to give, and not
to the order in which they are tried, as long as it is an order of the same backends: a fetch that takes
its turn succeeds exactly if one that reads the groups as they stand does, and fails with the same
failures in another order.

Main results:

* `Session.fetched_of_consulted` — what a fetch has tried, and how it ends by that.
* `ended_of_follows` — a fetch ends as its order and fixed results of the backends tell.
* `Session.takes_turns` — turns in order and in equal shares, and agreement with the groups as they
  stand.
-/

namespace ReplicatedStore

/-! ## What a fetch comes to -/

/-- How a fetch has ended that has tried backends of an order. -/
inductive Fetched (names : Nat → String) (order : List Nat) (trail : Trail) : Ended → Prop
  /-- one backend after the other has failed, and then one has given a content -/
  | found {behind : List (Nat × Outcome)} {b : Nat} {rest : List Nat} {data : Bytes}
      (hOrder : order = behind.map (·.1) ++ b :: rest) (hCalled : trail.called = behind.map (·.1) ++ [b])
      (hOutcomes : trail.outcomes = behind ++ [(b, .answered (.content data))])
      (hFailed : AllFailed behind) : Fetched names order trail (.returned (.ok (.content data)))
  /-- one backend after the other has failed, and then a call has crashed -/
  | crashed {behind : List (Nat × Outcome)} {b : Nat} {rest : List Nat} {reason : String}
      (hOrder : order = behind.map (·.1) ++ b :: rest) (hCalled : trail.called = behind.map (·.1) ++ [b])
      (hOutcomes : trail.outcomes = behind ++ [(b, .crashed reason)])
      (hFailed : AllFailed behind) : Fetched names order trail (.crashed reason)
  /-- all backends have failed, or there is none -/
  | lost (hOrder : order = trail.outcomes.map (·.1)) (hCalled : trail.called = order)
      (hFailed : AllFailed trail.outcomes) : Fetched names order trail (.returned (.error
        (if order = [] then .noBackends
        else .allReadsFailed (trail.outcomes.filterMap (Outcome.noted? names .get)))))

/-- The outcome of a call by the result that a backend has for it. -/
def Outcome.ofResult : Except Failure Bytes → Outcome
  | .ok data => .answered (.content data)
  | .error f => .failed f

/-- Whether all calls came to the results that backends have for them. -/
def Trail.Follows (results : Nat → Except Failure Bytes) (trail : Trail) : Prop :=
  ∀ p ∈ trail.outcomes, p.2 = .ofResult (results p.1)

/-- The backends of an order that are tried by their results: up to the first success. -/
def triedOf (results : Nat → Except Failure Bytes) : List Nat → List Nat
  | [] => []
  | b :: rest => b :: if (results b).isOk then [] else triedOf results rest

/-- The first content in an order by the results of backends. -/
def firstOf? (results : Nat → Except Failure Bytes) (order : List Nat) : Option Bytes :=
  order.findSome? fun b => (results b).toOption

/-- The failures in an order by the results of backends. -/
def failuresOf (names : Nat → String) (results : Nat → Except Failure Bytes) (order : List Nat) :
    List StoreError :=
  order.filterMap fun b => Outcome.noted? names .get (b, .ofResult (results b))

/-- What a fetch comes to over an order by the results of backends. -/
def endOf (names : Nat → String) (results : Nat → Except Failure Bytes) (order : List Nat) :
    Except StoreError Answer :=
  match firstOf? results order with
  | some data => .ok (.content data)
  | none => .error (if order = [] then .noBackends else .allReadsFailed (failuresOf names results order))

variable {names : Nat → String} {results : Nat → Except Failure Bytes} {order order' : List Nat}
  {trail : Trail} {e : Ended} {outcomes behind : List (Nat × Outcome)}

/-- Backends that have failed are passed. -/
theorem of_allFailed (names : Nat → String) (hFailed : AllFailed behind)
    (hFollows : ∀ p ∈ behind, p.2 = .ofResult (results p.1)) (rest : List Nat) :
    firstOf? results (behind.map (·.1) ++ rest) = firstOf? results rest ∧
      triedOf results (behind.map (·.1) ++ rest) = behind.map (·.1) ++ triedOf results rest ∧
      failuresOf names results (behind.map (·.1) ++ rest) =
        behind.filterMap (Outcome.noted? names .get) ++ failuresOf names results rest := by
  induction behind with
  | nil => exact ⟨rfl, rfl, rfl⟩
  | cons p behind ih =>
    obtain ⟨b, o⟩ := p
    obtain ⟨f, hf⟩ := hFailed (b, o) List.mem_cons_self
    obtain rfl : o = .failed f := hf
    have hResult : results b = .error f := by
      have hSame := hFollows (b, .failed f) List.mem_cons_self
      cases hResult : results b with
      | ok data => simp [hResult, Outcome.ofResult] at hSame
      | error f' =>
        simp only [hResult, Outcome.ofResult, Outcome.failed.injEq] at hSame
        rw [hSame]
    obtain ⟨hFirst, hTried, hFailures⟩ := ih (fun q hq => hFailed q (List.mem_cons_of_mem _ hq))
      fun q hq => hFollows q (List.mem_cons_of_mem _ hq)
    refine ⟨?_, ?_, ?_⟩
    · simpa [firstOf?, hResult, Except.toOption] using hFirst
    · simpa [triedOf, hResult, Except.isOk, Except.toBool] using hTried
    · simpa [failuresOf, hResult, Outcome.ofResult, Outcome.noted?] using hFailures

/-- A fetch ends as its order and the results of backends tell, and it tries no more of them. -/
theorem ended_of_follows (h : Fetched names order trail e) (hFollows : trail.Follows results) :
    e = .returned (endOf names results order) ∧ trail.called = triedOf results order := by
  cases h with
  | @found behind b rest data hOrder hCalled hOutcomes hFailed =>
    have hBehind : ∀ p ∈ behind, p.2 = .ofResult (results p.1) := fun p hp =>
      hFollows p (by rw [hOutcomes]; exact List.mem_append_left _ hp)
    have hLast := hFollows (b, .answered (.content data)) (by rw [hOutcomes]; simp)
    have hResult : results b = .ok data := by
      cases hResult : results b with
      | error f => simp [hResult, Outcome.ofResult] at hLast
      | ok data' =>
        simp only [hResult, Outcome.ofResult, Outcome.answered.injEq, Answer.content.injEq] at hLast
        rw [hLast]
    obtain ⟨hFirst, hTried, -⟩ := of_allFailed names hFailed hBehind (b :: rest)
    refine ⟨?_, ?_⟩
    · rw [endOf, hOrder, hFirst]
      simp [firstOf?, hResult, Except.toOption]
    · rw [hCalled, hOrder, hTried]
      simp [triedOf, hResult, Except.isOk, Except.toBool]
  | @crashed behind b rest reason hOrder hCalled hOutcomes hFailed =>
    -- results of backends are no crashes
    have hLast := hFollows (b, .crashed reason) (by rw [hOutcomes]; simp)
    cases hResult : results b with
    | error f => simp [hResult, Outcome.ofResult] at hLast
    | ok data => simp [hResult, Outcome.ofResult] at hLast
  | lost hOrder hCalled hFailed =>
    obtain ⟨hFirst, hTried, hFailures⟩ := of_allFailed names hFailed hFollows []
    rw [List.append_nil, ← hOrder] at hFirst hTried hFailures
    refine ⟨?_, ?_⟩
    · rw [endOf, hFirst, hFailures]
      simp [firstOf?, failuresOf]
    · rw [hCalled, hTried, hOrder]
      simp [triedOf]

/-! ## The order does not matter -/

theorem firstOf?_eq_none_iff :
    firstOf? results order = none ↔ ∀ b ∈ order, ∃ f, results b = .error f := by
  rw [firstOf?, List.findSome?_eq_none_iff]
  refine forall₂_congr fun b _ => ?_
  cases results b with
  | ok data => simp [Except.toOption]
  | error f => simp [Except.toOption]

/-- Without a success all backends are tried, and each of them has its failure. -/
theorem of_firstOf?_eq_none (names : Nat → String) (h : firstOf? results order = none) :
    triedOf results order = order ∧ List.Forall₂
      (fun b error => ∃ f, results b = .error f ∧ error = .backend (names b) .get f) order
      (failuresOf names results order) := by
  rw [firstOf?_eq_none_iff] at h
  induction order with
  | nil => exact ⟨rfl, .nil⟩
  | cons b rest ih =>
    obtain ⟨f, hf⟩ := h b List.mem_cons_self
    obtain ⟨hTried, hFailures⟩ := ih fun c hc => h c (List.mem_cons_of_mem _ hc)
    refine ⟨?_, ?_⟩
    · simp [triedOf, hf, hTried, Except.isOk, Except.toBool]
    · have hCons : failuresOf names results (b :: rest) =
          .backend (names b) .get f :: failuresOf names results rest := by
        simp [failuresOf, hf, Outcome.ofResult, Outcome.noted?]
      rw [hCons]
      exact .cons ⟨f, hf, rfl⟩ hFailures

/-- Whether there is a content to give does not depend on the order. -/
theorem firstOf?_eq_none_iff_of_perm (h : order.Perm order') :
    firstOf? results order = none ↔ firstOf? results order' = none := by
  rw [firstOf?_eq_none_iff, firstOf?_eq_none_iff]
  exact forall_congr' fun b => imp_congr_left h.mem_iff

/-- A fetch fails exactly if there is no content to give. -/
theorem endOf_eq_error_iff {error : StoreError} : endOf names results order = .error error ↔
    firstOf? results order = none ∧
      error = if order = [] then .noBackends else .allReadsFailed (failuresOf names results order) := by
  unfold endOf
  cases firstOf? results order with
  | some data => simp
  | none => simp [eq_comm]

theorem exists_endOf_eq_ok_iff (names : Nat → String) :
    (∃ x, endOf names results order = .ok x) ↔ firstOf? results order ≠ none := by
  unfold endOf
  cases firstOf? results order with
  | some data => simp
  | none => simp

theorem failuresOf_perm (h : order.Perm order') :
    (failuresOf names results order).Perm (failuresOf names results order') := h.filterMap _

namespace Session

/-! ## Fetches of a client -/

/-- A client that has just been set up to read groups of backends in a way. -/
def reader (world : World) (replication : Replication) (strategy : Balancing)
    (groups : List (List Nat)) (timeout : Option Duration) (picks : Picks) : Session :=
  { ofWorld world replication strategy with readOrder := { strategy, groups }, timeout, picks }

/-- A fetch of a client that turns to backends: how many fetches have claimed an order before, where the
client stands then, and the order that it claims. -/
structure Fetches (client : Session) (k : Nat) (s : Session) (a : Address) (order : List Nat) : Prop where
  reached : ∃ moves, client.run? moves = some s ∧ k = (client.claims moves).length
  claims : s.claimed? (.submit (.request (.get a))) = some order

/-- A fetch of a client that has ended: which one it is, what it has tried, and how it ended. -/
structure FetchEnds (client : Session) (k : Nat) (order : List Nat) (trail : Trail) (e : Ended) :
    Prop where
  returns : ∃ s a moves t, client.Fetches k s a order ∧
    s.Returns s.tickets (.submit (.request (.get a)) :: moves) t e ∧
    trail = consulted s.tickets s (.submit (.request (.get a)) :: moves)

/-- Whether the fetches of a client take turns over groups of backends. -/
structure TakesTurns (client : Session) (groups : List (List Nat)) : Prop where
  /-- they claim one turn after the other -/
  turns : ∀ moves t, client.run? moves = some t →
    client.claims moves =
      (List.range (client.claims moves).length).map (ReadOrder.turn groups)
  /-- in as many of them as make some rounds, each backend of the first group comes first once a round -/
  fair : ∀ moves t, client.run? moves = some t → ∀ skipped rounds b,
    skipped + rounds * (ReadOrder.leading groups).length ≤ (client.claims moves).length →
    (((client.claims moves).drop skipped).take (rounds * (ReadOrder.leading groups).length)).countP
        (fun order => order.head? == some b) =
      rounds * (ReadOrder.leading groups).count b
  /-- as long as one is under way, the backends behind it have all failed, and the next one was called -/
  tries : ∀ k s a order moves t, client.Fetches k s a order →
    s.Pending s.tickets (.submit (.request (.get a)) :: moves) t →
    let trail := consulted s.tickets s (.submit (.request (.get a)) :: moves)
    ∃ b rest, order = trail.outcomes.map (·.1) ++ b :: rest ∧
      trail.called = trail.outcomes.map (·.1) ++ [b] ∧ AllFailed trail.outcomes
  /-- it can be brought to its end -/
  returns : ∀ k s a order moves t, client.Fetches k s a order →
    s.Pending s.tickets (.submit (.request (.get a)) :: moves) t →
    ∃ more u e, t.Returns s.tickets more u e
  /-- it has tried the backends of its turn up to the first that did not fail, unless it timed out -/
  ends : ∀ k order trail e, client.FetchEnds k order trail e →
    order = ReadOrder.turn groups k ∧
      (Fetched client.world.nameOf order trail e ∨
        client.timeout ≠ none ∧ ∃ after, e = .returned (.error (.timeout .get after)))

/-- Whether two clients come to the same by fetches that try the same backends. -/
structure FetchesAgree (results : Nat → Except Failure Bytes) (names : Nat → String)
    (backends : List Nat) (order order' : List Nat) (trail trail' : Trail) (e e' : Ended) : Prop where
  /-- they try the same backends, each as often -/
  perm : order.Perm order' ∧ order'.Perm backends
  /-- one succeeds exactly if the other does -/
  success : (∃ x, e = .returned (.ok x)) ↔ ∃ x, e' = .returned (.ok x)
  /-- when both fail, all backends were tried, and the failures are listed in the order of the tries -/
  failure : ∀ error error', e = .returned (.error error) → e' = .returned (.error error') →
    trail.called = order ∧ trail'.called = order' ∧
      (backends = [] ∧ error = .noBackends ∧ error' = .noBackends ∨
        backends ≠ [] ∧ ∃ errors errors', error = .allReadsFailed errors ∧
          error' = .allReadsFailed errors' ∧ errors.Perm errors' ∧
          List.Forall₂ (fun b error => ∃ f, results b = .error f ∧ error = .backend (names b) .get f)
            order errors ∧
          List.Forall₂ (fun b error => ∃ f, results b = .error f ∧ error = .backend (names b) .get f)
            order' errors')
  /-- in the same order they make the same calls and end alike -/
  same : order = order' → trail.called = trail'.called ∧ e = e'

variable {client s t : Session} {ticket : Nat} {a : Address} {groups : List (List Nat)}
  {w : WalkEnd} {world : World} {replication : Replication} {strategy : Balancing}
  {timeout : Option Duration} {picks : Picks} {k : Nat}

theorem sound_reader : (reader world replication strategy groups timeout picks).Sound := by
  refine ⟨fun r hr => ?_, fun e he => ?_, fun r hr => ?_⟩
  · exact absurd hr List.not_mem_nil
  · exact absurd he List.not_mem_nil
  · exact absurd hr List.not_mem_nil

theorem mindful_reader : (reader world replication strategy groups timeout picks).Mindful := by
  refine ⟨fun f hf => ?_, fun p hp => ?_⟩
  · exact absurd hf List.not_mem_nil
  · exact absurd hp List.not_mem_nil

/-- A fetch that has ended with its walk has tried backends of the order that it has claimed. -/
theorem fetched_of_consulted (h : Consulted t ticket (.ofOrder .fetch a order) trail w) :
    Fetched t.world.nameOf order trail w.ended := by
  have hSuits : ∀ p ∈ trail.outcomes, p.2.Suits (.get a) := h.suits
  have hWent := h.went
  cases hWent with
  | @decided walk behind b rest o e hOrder hCalled hOutcomes hAfter hWeigh =>
    rw [hOutcomes] at hSuits
    obtain ⟨hFailed, -⟩ :=
      Walk.after?_fetch hAfter fun p hp => hSuits p (List.mem_append_left _ hp)
    have hLast := hSuits (b, o) (List.mem_append_right _ (List.mem_singleton_self _))
    -- an answer decides a fetch, and so does a crash
    cases o with
    | answered x =>
      obtain ⟨data, rfl⟩ := hLast x rfl
      cases hWeigh
      exact .found hOrder hCalled hOutcomes hFailed
    | crashed reason =>
      cases hWeigh
      exact .crashed hOrder hCalled hOutcomes hFailed
    | failed f => simp [Walk.weigh] at hWeigh
  | @exhausted walk hOrder hCalled hAfter =>
    obtain ⟨hFailed, rfl⟩ := Walk.after?_fetch hAfter hSuits
    have hErrors : (trail.outcomes.filterMap (Outcome.noted? t.world.nameOf .get)).isEmpty = true ↔
        order = [] := by
      rw [List.isEmpty_iff, ← List.length_eq_zero_iff, length_filterMap_noted? _ _ hFailed]
      rw [show order = trail.outcomes.map (·.1) from hOrder, List.map_eq_nil_iff,
        List.length_eq_zero_iff]
    have hEnd : (Walk.fetching t.world.nameOf a order trail.outcomes).exhausted = .lost
        (if order = [] then .noBackends
        else .allReadsFailed (trail.outcomes.filterMap (Outcome.noted? t.world.nameOf .get))) := by
      simp only [Walk.exhausted, Walk.fetching, hErrors]
    rw [hEnd]
    exact .lost hOrder hCalled hFailed

/-- A fetch that is under way has only failures behind it. -/
theorem allFailed_of_consulting {deadline : Option Duration}
    (h : Consulting t ticket (.ofOrder .fetch a order) deadline trail) :
    ∃ b rest, order = trail.outcomes.map (·.1) ++ b :: rest ∧
      trail.called = trail.outcomes.map (·.1) ++ [b] ∧ AllFailed trail.outcomes := by
  obtain ⟨walk, due, delay, held, -, hWent⟩ := h.walking
  cases hWent with
  | @waits walk b rest _ _ hOrder hCalled hAfter =>
    exact ⟨b, rest, hOrder, hCalled, (Walk.after?_fetch hAfter h.suits).1⟩

/-- A fetch that claims an order sets a walk over it going. -/
theorem walk?_of_claimed? (h : s.claimed? (.submit (.request (.get a))) = some order) :
    s.walk? (.get a) = some (.ofOrder .fetch a order) := by
  obtain ⟨start, hWalk, rfl⟩ := Option.map_eq_some_iff.mp h
  rw [hWalk, walk?_get hWalk]
  rfl

/-- What is known of a fetch of a reader when it starts. -/
theorem Fetches.start (h : (reader world replication strategy groups timeout picks).Fetches k s a order) :
    s.Sound ∧ s.Mindful ∧ s.walk? (.get a) = some (.ofOrder .fetch a order) ∧
      s.world.nameOf = world.nameOf ∧ s.timeout = timeout := by
  obtain ⟨moves, hRun, -⟩ := h.reached
  have hSame := (goesOn_of_run? hRun).toSameClient
  exact ⟨sound_of_run? sound_reader hRun, mindful_of_run? mindful_reader hRun,
    walk?_of_claimed? h.claims, World.nameOf_of_frame_eq hSame.frame, hSame.timeout⟩

/-- How a fetch of a reader has ended. -/
theorem FetchEnds.fetched
    (h : (reader world replication strategy groups timeout picks).FetchEnds k order trail e) :
    Fetched world.nameOf order trail e ∨
      timeout ≠ none ∧ ∃ after, e = .returned (.error (.timeout .get after)) := by
  obtain ⟨s, a, moves, t, hFetches, hReturns, rfl⟩ := h.returns
  obtain ⟨hSound, hMindful, hWalk, hNames, hTimeout⟩ := hFetches.start
  rcases consulted_of_returns hSound hMindful hWalk hReturns with
    ⟨w, rfl, hConsulted⟩ | ⟨hDeadline, hTimedOut⟩
  · have hFetched := fetched_of_consulted hConsulted
    have hSame := (goesOn_of_run? hReturns.run).toSameClient
    rw [World.nameOf_of_frame_eq hSame.frame, hNames] at hFetched
    exact .inl hFetched
  · refine .inr ⟨fun hNone => hDeadline ?_, hTimedOut⟩
    exact deadline_eq_none (hTimeout.trans hNone)

/-- The order of a fetch that takes its turn. -/
theorem Fetches.eq_turn
    (h : (reader world replication .roundRobin groups timeout picks).Fetches k s a order) :
    order = ReadOrder.turn groups k := by
  obtain ⟨moves, hRun, rfl⟩ := h.reached
  have hStart : (reader world replication .roundRobin groups timeout picks).readOrder.IsAt groups 0 :=
    ⟨rfl, rfl, rfl⟩
  obtain ⟨-, hAt⟩ := claims_of_run? hStart hRun
  rw [Nat.zero_add] at hAt
  rw [claimed?_get h.claims, hAt.claim.1]

/-- The order of a fetch that reads the groups as they stand. -/
theorem Fetches.eq_flatten
    (h : (reader world replication .classic groups timeout picks).Fetches k s a order) :
    order = groups.flatten := by
  obtain ⟨moves, hRun, -⟩ := h.reached
  -- a claim leaves such an order as it is
  have hOrder : s.readOrder = { strategy := .classic, groups } := by
    refine run?_induction (P := fun s => s.readOrder = { strategy := .classic, groups }) hRun rfl ?_
    intro a b m hOrder hMove
    rw [readOrder_of_move? hMove, hOrder]
    split <;> rfl
  rw [claimed?_get h.claims, hOrder]
  rfl

theorem takesTurns_reader (world : World) (replication : Replication) (groups : List (List Nat))
    (timeout : Option Duration) (picks : Picks) :
    (reader world replication .roundRobin groups timeout picks).TakesTurns groups := by
  have hStart : (reader world replication .roundRobin groups timeout picks).readOrder.IsAt groups 0 :=
    ⟨rfl, rfl, rfl⟩
  have hTurns (moves : List Move) (t : Session)
      (hRun : (reader world replication .roundRobin groups timeout picks).run? moves = some t) :=
    (claims_of_run? hStart hRun).1
  refine ⟨fun moves t hRun => ?_, fun moves t hRun skipped rounds b hLong => ?_,
    fun k s a order moves t hFetches hPending => ?_, fun k s a order moves t hFetches hPending => ?_,
    fun k order trail e hEnds => ⟨?_, hEnds.fetched⟩⟩
  · rw [List.range_eq_range']
    exact hTurns moves t hRun
  · -- a stretch of the turns is made of turns
    rw [hTurns moves t hRun, ← List.map_drop, ← List.map_take, ReadOrder.take_drop_range' hLong]
    exact ReadOrder.countP_turns groups (0 + skipped) rounds b
  · obtain ⟨hSound, hMindful, hWalk, -, -⟩ := hFetches.start
    exact allFailed_of_consulting (consulting_of_submitted hSound hMindful hWalk hPending)
  · obtain ⟨hSound, hMindful, hWalk, -, -⟩ := hFetches.start
    obtain ⟨more, u, e, -, hReturns⟩ :=
      exists_returns_of_consulting (consulting_of_submitted hSound hMindful hWalk hPending)
    exact ⟨more, u, e, hReturns⟩
  · obtain ⟨s, a, moves, t, hFetches, -, -⟩ := hEnds.returns
    exact hFetches.eq_turn

/-- Fetches that try the same backends with the same results agree. -/
theorem fetchesAgree {names : Nat → String} {results : Nat → Except Failure Bytes}
    {backends order order' : List Nat} {trail trail' : Trail} {e e' : Ended}
    (h : Fetched names order trail e) (h' : Fetched names order' trail' e')
    (hFollows : trail.Follows results) (hFollows' : trail'.Follows results)
    (hPerm : order.Perm backends) (hPerm' : order'.Perm backends) :
    FetchesAgree results names backends order order' trail trail' e e' := by
  obtain ⟨hEnd, hTried⟩ := ended_of_follows h hFollows
  obtain ⟨hEnd', hTried'⟩ := ended_of_follows h' hFollows'
  have hBoth := hPerm.trans hPerm'.symm
  refine ⟨⟨hBoth, hPerm'⟩, ?_, fun error error' hError hError' => ?_, fun hSame => ?_⟩
  · have hOk {names : Nat → String} {order : List Nat} {e : Ended}
        (hEnd : e = .returned (endOf names results order)) :
        (∃ x, e = .returned (.ok x)) ↔ firstOf? results order ≠ none := by
      rw [← exists_endOf_eq_ok_iff names, hEnd]
      simp
    rw [hOk hEnd, hOk hEnd', Ne, firstOf?_eq_none_iff_of_perm hBoth]
  · rw [hEnd, Ended.returned.injEq, endOf_eq_error_iff] at hError
    rw [hEnd', Ended.returned.injEq, endOf_eq_error_iff] at hError'
    obtain ⟨hNone, rfl⟩ := hError
    obtain ⟨hNone', rfl⟩ := hError'
    obtain ⟨hAll, hErrors⟩ := of_firstOf?_eq_none names hNone
    obtain ⟨hAll', hErrors'⟩ := of_firstOf?_eq_none names hNone'
    refine ⟨hTried.trans hAll, hTried'.trans hAll', ?_⟩
    by_cases hEmpty : backends = []
    · -- then both orders are empty
      subst hEmpty
      rw [List.perm_nil.mp hPerm, List.perm_nil.mp hPerm']
      exact .inl ⟨rfl, rfl, rfl⟩
    · have hSome : order ≠ [] := by
        rintro rfl
        exact hEmpty (List.nil_perm.mp hPerm)
      have hSome' : order' ≠ [] := by
        rintro rfl
        exact hEmpty (List.nil_perm.mp hPerm')
      rw [if_neg hSome, if_neg hSome']
      exact .inr ⟨hEmpty, _, _, rfl, rfl, failuresOf_perm hBoth, hErrors, hErrors'⟩
  · subst hSame
    exact ⟨hTried.trans hTried'.symm, hEnd.trans hEnd'.symm⟩

/-- **Fetches take turns.** Take a client that reads any groups of backends by turns, and any run of it,
with fetches and all else interleaved. (1) The fetches that turn to backends claim one turn after the
other, whatever becomes of them: the one with number `k` starts at place `k` of the first group, modulo
its length, goes around it once, and on to the other groups as they stand, so that each backend is in it
as often as in the groups. (2) In as many fetches as make
some rounds each backend of the first group comes first once a round. (3) A fetch goes on as long as its
calls fail, and its first success ends it; it can always be brought to its end. (4) Beside a client that
reads the groups as they stand, with the same results of the backends and no deadlines, a fetch succeeds
exactly if one of that client does; when both fail, each backend was tried once by both, the failures are
the same in another order, and there are none exactly if there are no backends. Without a first group to
take turns in, both make the same calls. -/
theorem takes_turns (world world' : World) (replication replication' : Replication)
    (groups : List (List Nat)) (timeout : Option Duration) (picks picks' : Picks) :
    (reader world replication .roundRobin groups timeout picks).TakesTurns groups ∧
    (∀ k i, i < (ReadOrder.leading groups).length → (ReadOrder.turn groups k)[i]? =
      (ReadOrder.leading groups)[(k + i) % (ReadOrder.leading groups).length]?) ∧
    (∀ k, (ReadOrder.turn groups k).drop (ReadOrder.leading groups).length = groups.tail.flatten) ∧
    (∀ k, (ReadOrder.turn groups k).Perm groups.flatten) ∧
    (world'.nameOf = world.nameOf → ∀ results k k' order order' trail trail' e e',
      (reader world replication .roundRobin groups none picks).FetchEnds k order trail e →
      (reader world' replication' .classic groups none picks').FetchEnds k' order' trail' e' →
      trail.Follows results → trail'.Follows results →
      FetchesAgree results world.nameOf groups.flatten order order' trail trail' e e' ∧
      (ReadOrder.leading groups = [] → order = order')) := by
  refine ⟨takesTurns_reader world replication groups timeout picks, fun k i hi => ?_, fun k => ?_,
    ReadOrder.perm_turn groups, ?_⟩
  · exact ReadOrder.getElem?_turn hi
  · exact ReadOrder.drop_turn groups k
  · intro hNames results k k' order order' trail trail' e e' hEnds hEnds' hFollows hFollows'
    have hFetched : Fetched world.nameOf order trail e :=
      hEnds.fetched.resolve_right fun hTimedOut => hTimedOut.1 rfl
    have hFetched' : Fetched world'.nameOf order' trail' e' :=
      hEnds'.fetched.resolve_right fun hTimedOut => hTimedOut.1 rfl
    rw [hNames] at hFetched'
    obtain ⟨s, a, moves, t, hFetches, -, -⟩ := hEnds.returns
    obtain ⟨s', a', moves', t', hFetches', -, -⟩ := hEnds'.returns
    have hTurn := hFetches.eq_turn
    have hFlat := hFetches'.eq_flatten
    refine ⟨fetchesAgree hFetched hFetched' hFollows hFollows' ?_ ?_, fun hNone => ?_⟩
    · rw [hTurn]
      exact ReadOrder.perm_turn groups k
    · rw [hFlat]
    · rw [hTurn, hFlat, ReadOrder.turn_of_head_eq_nil hNone]

/-- Two replicas and a main, of which the first replica takes its time for its first fetch. -/
def threefold : World :=
  { backends := [⟨"r", {}, .scripted { behaviour := fun operation number =>
        if operation = .get ∧ number = 0 then { delay := .ofMillis 10 } else {} }⟩,
      ⟨"q", {}, .scripted {}⟩, ⟨"m", { isMain := true }, .scripted {}⟩] }

/-- A fetch of an object that no backend has. -/
def fetchNothing : Move := .submit (.request (.get ⟨"c", "x"⟩))

/-- How a fetch fails at a backend that does not have the object. -/
def missed (name : String) : StoreError := .backend name .get (.said "object 'c/x' not found")

/-- The second fetch claims its turn and ends while the first one waits for the first replica; it fails
like a fetch that reads the groups as they stand. -/
theorem takes_turns_overlapping : ∃ trail trail' : Trail,
    (reader threefold .sync .roundRobin [[0, 1], [2]] none .first).claims
      [fetchNothing, fetchNothing, .tick (.ofMillis 10), .event (.resume 0)] = [[0, 1, 2], [1, 0, 2]] ∧
    (reader threefold .sync .roundRobin [[0, 1], [2]] none .first).FetchEnds 1 [1, 0, 2] trail
      (.returned (.error (.allReadsFailed [missed "q", missed "r", missed "m"]))) ∧
    (reader threefold .sync .classic [[0, 1], [2]] none .first).FetchEnds 0 [0, 1, 2] trail'
      (.returned (.error (.allReadsFailed [missed "r", missed "q", missed "m"]))) ∧
    FetchesAgree (fun _ => .error (.said "object 'c/x' not found")) threefold.nameOf [0, 1, 2]
      [1, 0, 2] [0, 1, 2] trail trail'
      (.returned (.error (.allReadsFailed [missed "q", missed "r", missed "m"])))
      (.returned (.error (.allReadsFailed [missed "r", missed "q", missed "m"]))) := by
  obtain ⟨hTurns, -, -, -, hAgree⟩ := takes_turns threefold threefold .sync .sync [[0, 1], [2]] none .first
    .first
  have hSecond : (reader threefold .sync .roundRobin [[0, 1], [2]] none .first).FetchEnds 1 [1, 0, 2] _
      (.returned (.error (.allReadsFailed [missed "q", missed "r", missed "m"]))) :=
    ⟨_, ⟨"c", "x"⟩, [], _, ⟨⟨[fetchNothing], rfl, rfl⟩, rfl⟩, returns_of_forall_take rfl rfl (by decide),
      rfl⟩
  have hClassic : (reader threefold .sync .classic [[0, 1], [2]] none .first).FetchEnds 0 [0, 1, 2] _
      (.returned (.error (.allReadsFailed [missed "r", missed "q", missed "m"]))) :=
    ⟨_, ⟨"c", "x"⟩, [.tick (.ofMillis 10), .event (.resume 0)], _, ⟨⟨[], rfl, rfl⟩, rfl⟩,
      returns_of_forall_take rfl rfl (by decide), rfl⟩
  have hClaims := hTurns.turns [fetchNothing, fetchNothing, .tick (.ofMillis 10), .event (.resume 0)]
    _ rfl
  refine ⟨_, _, hClaims.trans rfl, hSecond, hClassic, (hAgree rfl _ 1 0 _ _ _ _ _ _ hSecond hClassic
    ?_ ?_).1⟩
  · unfold Trail.Follows
    decide
  · unfold Trail.Follows
    decide

end Session

end ReplicatedStore
