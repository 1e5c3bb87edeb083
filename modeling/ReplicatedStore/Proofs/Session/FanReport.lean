import ReplicatedStore.Proofs.Session.Taking

/-!
# What a write to all mains comes to

A write that fans out calls each main once and nobody else, and returns when every main has come to
an outcome, whatever else goes on in the session and in whatever order the mains come to theirs. What
it returns is told by the outcomes: it succeeds if all mains do, a single main fails with its own
failure, and of several mains those that failed are counted and listed. Another order of completion
can only put the list in another order.

Main results:

* `StoreError.sameUpToOrder_aggregate` — the order of failures matters only to the order of the list.
* `Session.fanReport_of_returns` — what can be told of a write when it returns.
* `Session.fanOut_returns` — writes without mains, and with mains in every order of completion.
-/

namespace ReplicatedStore

/-! ## Failures in another order -/

/-- Whether two failures are the same but for the order in which they list others. -/
inductive StoreError.SameUpToOrder : StoreError → StoreError → Prop
  | same (e : StoreError) : SameUpToOrder e e
  | allFailed (operation : Operation) (total : Nat) {errors errors' : List StoreError}
      (h : errors.Perm errors') :
      SameUpToOrder (.allFailed operation total errors) (.allFailed operation total errors')
  | partialFailure (operation : Operation) (failed total : Nat) {errors errors' : List StoreError}
      (h : errors.Perm errors') :
      SameUpToOrder (.partialFailure operation failed total errors)
        (.partialFailure operation failed total errors')

/-- Whether two orders ended in the same way but for the order in which failures are listed. -/
inductive Ended.SameUpToOrder : Ended → Ended → Prop
  | same (e : Ended) : SameUpToOrder e e
  | error {e e' : StoreError} (h : e.SameUpToOrder e') :
      SameUpToOrder (.returned (.error e)) (.returned (.error e'))

namespace StoreError

theorem aggregate_singleton (operation : Operation) (e : StoreError) :
    aggregate operation 1 [e] = some e := rfl

/-- Several backends of which some failed. -/
theorem aggregate_of_two_le (operation : Operation) {total : Nat} {errors : List StoreError}
    (hTotal : 2 ≤ total) (hErrors : errors ≠ []) :
    aggregate operation total errors = some (if total ≤ errors.length then
      allFailed operation total errors else partialFailure operation errors.length total errors) := by
  unfold aggregate
  split
  · exact absurd rfl hErrors
  · omega
  · rfl

/-- The failures of the same backends in two orders are folded into one in the same way. -/
theorem sameUpToOrder_aggregate (operation : Operation) (total : Nat)
    {errors errors' : List StoreError} (h : errors.Perm errors') :
    Option.Rel SameUpToOrder (aggregate operation total errors) (aggregate operation total errors') := by
  have hSame (x : Option StoreError) : Option.Rel SameUpToOrder x x := by
    cases x with
    | none => exact .none
    | some e => exact .some (SameUpToOrder.same e)
  -- no failure, or a single one, has no other order
  match errors, h with
  | [], h =>
    rw [List.nil_perm.mp h]
    exact hSame _
  | [e], h =>
    rw [List.singleton_perm.mp h]
    exact hSame _
  | e :: e' :: rest, h =>
    have hLength := h.length_eq
    match errors', h, hLength with
    | [], _, hLength => simp at hLength
    | [_], _, hLength => simp at hLength
    | x :: x' :: rest', h, hLength =>
      simp only [aggregate, hLength]
      split
      · exact .some (SameUpToOrder.allFailed operation total h)
      · exact .some (SameUpToOrder.partialFailure operation _ total h)

end StoreError

namespace Session

/-! ## Calls -/

/-- The backend that a move calls for a fan-out, if it calls one. -/
def called? (s : Session) (fan : Nat) : Move → Option Nat
  | .event (.start other branch) =>
    if other = fan then
      ((s.fans[other]?).bind (·.branches[branch]?)).map (·.backend)
    else none
  | _ => none

/-- The backends that moves call for a fan-out, in order. -/
def called (fan : Nat) (s : Session) (moves : List Move) : List Nat :=
  s.noted (fun s => s.called? fan) moves

variable {s t : Session} {ticket fan : Nat} {r : Request} {deadline : Option Duration} {f : FanOut}
  {begun : List Nat} {outs : List (Nat × Outcome)} {m : Move}

/-- The branches that begin call the backends in their places. -/
theorem Tallied.called?_eq {backends : List Nat} (h : Tallied s fan r backends f begun outs)
    (hMove : s.move? m = some t) : s.called? fan m = (begun? fan m).bind (backends[·]?) := by
  by_cases hFan : ConcernsFan fan m
  · cases hFan with
    | start branch =>
      obtain ⟨f', b, hf, hb, -⟩ := start?_eq_some hMove
      rw [h.fanOut] at hf
      cases hf
      simp [called?, begun?, h.fanOut, hb, h.backend_eq hb]
    | complete branch => rfl
  · rw [begun?_of_not_concernsFan hFan, Option.bind_none]
    unfold called?
    split
    · rename_i other branch
      have hNe : ¬ other = fan := fun hEq => hFan (hEq ▸ .start branch)
      exact if_neg hNe
    · rfl

/-- The first of the moves calls the backend of a branch that it begins, and then the others call. -/
theorem Tallied.called_cons {backends : List Nat} {rest : List Move}
    (h : Tallied s fan r backends f begun outs) (hMove : s.move? m = some t)
    (hRest : called fan t rest = (rest.filterMap (begun? fan)).filterMap (backends[·]?)) :
    called fan s (m :: rest) =
      ((m :: rest).filterMap (begun? fan)).filterMap (backends[·]?) := by
  rw [called, noted, hMove, filterMap_begun?_cons, List.filterMap_append, h.called?_eq hMove, ← hRest]
  show _ ++ called fan t rest = _ ++ called fan t rest
  congr 1
  cases begun? fan m with
  | none => rfl
  | some j => cases hj : backends[j]? <;> simp [hj]

theorem called_eq {moves : List Move} (h : Joining s ticket fan r deadline f begun outs)
    (hRun : s.run? moves = some t) (hOpen : t.ended? ticket = none) :
    called fan s moves = (moves.filterMap (begun? fan)).filterMap (s.world.mains[·]?) := by
  induction moves generalizing s f begun outs with
  | nil => rfl
  | cons m rest ih =>
    obtain ⟨u, hMove, hRest⟩ := run?_cons_eq_some.mp hRun
    rcases joining_of_move? h hMove with ⟨g, hNext⟩ | ⟨-, -, rfl⟩ | ⟨-, after, -, -, rfl⟩
    · have hTail := ih hNext hRest
      rw [World.mains_of_frame_eq (goesOn_of_move? hMove).frame] at hTail
      exact h.tallied.called_cons hMove hTail
    · have hOver := (over_endFan h hMove).run? hRest
      rw [hOver.ended] at hOpen
      contradiction
    · have hOver := (over_expire h hMove).run? hRest
      rw [hOver.ended] at hOpen
      contradiction

theorem filterMap_getElem?_range {α : Type} (l : List α) :
    (List.range l.length).filterMap (l[·]?) = l := by
  induction l with
  | nil => rfl
  | cons x l ih =>
    rw [List.length_cons, List.range_succ_eq_map, List.filterMap_cons, List.filterMap_map]
    simp only [List.getElem?_cons_zero]
    congr 1

/-! ## Returning -/

/-- The failures that the outcomes of a write to all mains mean. -/
def failures (s : Session) (r : Request) (outs : List (Nat × Outcome)) : List StoreError :=
  outs.filterMap ((FanOut.ofBackends r s.world.mains false).failureOf? s.world)

/-- An order that fanned out has ended because its fan-out was finished, or its deadline has passed. -/
theorem joined_or_expired_of_returns {moves : List Move} {e : Ended}
    (h : Joining s ticket fan r deadline f begun outs) (hReturns : Returns s ticket moves t e) :
    (∃ before u g, moves = before ++ [.event (.join ticket)] ∧ s.run? before = some u ∧
      Joining u ticket fan r deadline g (begun ++ before.filterMap (begun? fan))
        (outs ++ outcomes fan s before) ∧
      g.isFinished = true ∧ t = u.endFan ticket r g) ∨
    deadline ≠ none ∧ ∃ after, e = .returned (.error (.timeout r.operation after)) := by
  -- before the last move the order had not ended, so it was still joining
  obtain ⟨before, last, u, rfl, hPending, hMove⟩ := hReturns.exists_last h.unended
  obtain ⟨g, hJoining⟩ := joining_of_run? h hPending.run hPending.unended_after
  rcases joining_of_move? hJoining hMove with
    ⟨g', hNext⟩ | ⟨rfl, hFinished, rfl⟩ | ⟨rfl, after, -, hSome, rfl⟩
  · have hEnded := hReturns.ended
    rw [hNext.unended] at hEnded
    contradiction
  · exact .inl ⟨before, u, g, rfl, hPending.run, hJoining, hFinished, rfl⟩
  · have hEnded := hReturns.ended
    rw [(over_expire hJoining hMove).ended, Option.some.injEq] at hEnded
    exact .inr ⟨hSome, after, hEnded.symm⟩

/-- An order without a deadline that fanned out has ended because its fan-out was finished. -/
theorem joined_of_returns {moves : List Move} {e : Ended}
    (h : Joining s ticket fan r none f begun outs) (hReturns : Returns s ticket moves t e) :
    ∃ before u g, moves = before ++ [.event (.join ticket)] ∧ s.run? before = some u ∧
      Joining u ticket fan r none g (begun ++ before.filterMap (begun? fan))
        (outs ++ outcomes fan s before) ∧
      g.isFinished = true ∧ t = u.endFan ticket r g := by
  rcases joined_or_expired_of_returns h hReturns with hJoined | ⟨hNot, -⟩
  · exact hJoined
  · exact absurd rfl hNot

/-! ## The report -/

/-- The failure that an outcome puts into the list of a write's failures. -/
inductive Lists (s : Session) (r : Request) : Nat × Outcome → StoreError → Prop
  /-- a failed main is listed by its name -/
  | failed {j b : Nat} (f : Failure) (hMain : s.world.mains[j]? = some b) :
      Lists s r (j, .failed f) (.backend (s.world.nameOf b) r.operation f)
  /-- a main whose call crashed is listed as a worker -/
  | crashed (j : Nat) (reason : String) :
      Lists s r (j, .crashed reason)
        (.worker r.operation s!"task {j} panicked with message {Quoted.text reason}")

/-- What can be told of a write that is sent to all mains of a session, and returns by moves. -/
structure FanReport (s : Session) (r : Request) (moves : List Move) (t : Session) (e : Ended)
    (outs : List (Nat × Outcome)) : Prop where
  /-- each main is called exactly once, and nobody else -/
  called : (called s.fans.length (s.submit (.request r)) moves).Perm s.world.mains
  /-- all mains have come to an outcome -/
  completed : (outs.map (·.1)).Perm (List.range s.world.mains.length)
  /-- an answer comes with its effect -/
  taken : ∀ before m after u v j x b, moves = before ++ m :: after →
    (s.submit (.request r)).run? before = some u → u.move? m = some v →
    u.outcome? s.fans.length m = some (j, .answered x) → s.world.mains[j]? = some b →
    v.world.HasTaken b r
  /-- the effect stays until the end if nothing else goes on -/
  stays : (∀ m ∈ moves, IsOwn s.tickets s.fans.length m) → AllTaken t r outs
  /-- each failed main has one entry in the list of failures -/
  listed : List.Forall₂ (Lists s r) (outs.filter fun p => !p.2.isAnswered) (s.failures r outs)
  ok : e = .returned (.ok .done) ↔ ∀ p ∈ outs, p.2.isAnswered = true
  single : s.world.mains.length = 1 → ∀ x, s.failures r outs = [x] → e = .returned (.error x)
  allFailed : 2 ≤ s.world.mains.length → (∀ p ∈ outs, p.2.isAnswered = false) →
    e = .returned (.error (.allFailed r.operation s.world.mains.length (s.failures r outs)))
  partialFailure : 2 ≤ s.world.mains.length → (∃ p ∈ outs, p.2.isAnswered = true) →
    (∃ p ∈ outs, p.2.isAnswered = false) →
    (0 < (s.failures r outs).length ∧
      (s.failures r outs).length < s.world.mains.length) ∧
      e = .returned (.error (.partialFailure r.operation (s.failures r outs).length
        s.world.mains.length (s.failures r outs)))

theorem listed_failures (s : Session) (r : Request) {outs : List (Nat × Outcome)}
    (h : ∀ p ∈ outs, p.1 < s.world.mains.length) :
    List.Forall₂ (Lists s r) (outs.filter fun p => !p.2.isAnswered) (s.failures r outs) := by
  -- on the outcomes: an answer adds nothing to either list, any other adds one entry to both
  induction outs with
  | nil => exact .nil
  | cons p rest ih =>
    have hRest := ih fun q hq => h q (List.mem_cons_of_mem _ hq)
    obtain ⟨j, o⟩ := p
    have hj : j < s.world.mains.length := h (j, o) List.mem_cons_self
    have hMain : s.world.mains[j]? = some s.world.mains[j] := List.getElem?_eq_getElem hj
    have hBranch : ((FanOut.ofBackends r s.world.mains false).branches[j]?) =
        some { backend := s.world.mains[j] } := by
      simp [FanOut.ofBackends, hMain]
    cases o with
    | answered x =>
      have hNone : (FanOut.ofBackends r s.world.mains false).failureOf? s.world
          (j, .answered x) = none := by
        simp only [FanOut.failureOf?, hBranch]
        rfl
      rw [failures, List.filterMap_cons, hNone]
      exact hRest
    | failed f =>
      have hSome : (FanOut.ofBackends r s.world.mains false).failureOf? s.world (j, .failed f) =
          some (.backend (s.world.nameOf s.world.mains[j]) r.operation f) := by
        simp only [FanOut.failureOf?, hBranch]
        rfl
      rw [failures, List.filterMap_cons, hSome]
      exact .cons (.failed f hMain) hRest
    | crashed reason =>
      have hSome : (FanOut.ofBackends r s.world.mains false).failureOf? s.world
          (j, .crashed reason) = some (.worker r.operation
            s!"task {j} panicked with message {Quoted.text reason}") := by
        simp only [FanOut.failureOf?, hBranch]
        rfl
      rw [failures, List.filterMap_cons, hSome]
      exact .cons (.crashed j reason) hRest

/-- Outcomes of all mains are of mains. -/
theorem lt_of_perm_range {n : Nat} {outs : List (Nat × Outcome)}
    (h : (outs.map (·.1)).Perm (List.range n)) : ∀ p ∈ outs, p.1 < n := by
  intro p hp
  have hMem : p.1 ∈ outs.map (·.1) := List.mem_map.mpr ⟨p, hp, rfl⟩
  exact List.mem_range.mp (h.mem_iff.mp hMem)

theorem length_failures (s : Session) (r : Request) {outs : List (Nat × Outcome)}
    (h : (outs.map (·.1)).Perm (List.range s.world.mains.length)) :
    (s.failures r outs).length = (outs.filter fun p => !p.2.isAnswered).length :=
  (listed_failures s r (lt_of_perm_range h)).length_eq.symm

theorem failures_eq_nil_iff (s : Session) (r : Request) {outs : List (Nat × Outcome)}
    (h : (outs.map (·.1)).Perm (List.range s.world.mains.length)) :
    s.failures r outs = [] ↔ ∀ p ∈ outs, p.2.isAnswered = true := by
  rw [← List.length_eq_zero_iff, length_failures s r h, List.length_eq_zero_iff, List.filter_eq_nil_iff]
  simp

/-- All mains are listed if none of them has taken the write. -/
theorem length_failures_of_forall (s : Session) (r : Request) {outs : List (Nat × Outcome)}
    (h : (outs.map (·.1)).Perm (List.range s.world.mains.length))
    (hNone : ∀ p ∈ outs, p.2.isAnswered = false) :
    (s.failures r outs).length = s.world.mains.length := by
  have hAll : (outs.filter fun p => !p.2.isAnswered) = outs := by
    rw [List.filter_eq_self]
    intro p hp
    simp [hNone p hp]
  have hTotal := h.length_eq
  rw [List.length_map, List.length_range] at hTotal
  rw [length_failures s r h, hAll, hTotal]

/-- Some mains are listed and some are not if the write was taken by some of them only. -/
theorem length_failures_of_exists (s : Session) (r : Request) {outs : List (Nat × Outcome)}
    (h : (outs.map (·.1)).Perm (List.range s.world.mains.length))
    (hSome : ∃ p ∈ outs, p.2.isAnswered = true) (hNot : ∃ p ∈ outs, p.2.isAnswered = false) :
    0 < (s.failures r outs).length ∧ (s.failures r outs).length < s.world.mains.length := by
  have hTotal := h.length_eq
  rw [List.length_map, List.length_range] at hTotal
  rw [length_failures s r h, ← hTotal]
  constructor
  · obtain ⟨p, hp, hFailed⟩ := hNot
    rw [List.length_pos_iff_exists_mem]
    exact ⟨p, List.mem_filter.mpr ⟨hp, by simp [hFailed]⟩⟩
  · obtain ⟨p, hp, hAnswered⟩ := hSome
    rw [List.length_filter_lt_length_iff_exists]
    exact ⟨p, hp, by simp [hAnswered]⟩

theorem endOfVerdict_eq_ok_iff (verdict : Option StoreError) :
    endOfVerdict verdict = .returned (.ok .done) ↔ verdict = none := by
  cases verdict with
  | none => simp [endOfVerdict]
  | some e => simp [endOfVerdict]

/-- How a write to all mains ends, by the outcomes of its branches. -/
theorem ended_of_joining {u : Session} {e : Ended} {g : FanOut}
    (hFrame : u.world.frame = s.world.frame)
    (h : Joining u ticket fan r deadline g begun outs)
    (hEnded : (u.endFan ticket r g).ended? ticket = some e) :
    e = endOfVerdict
      (StoreError.aggregate r.operation s.world.mains.length (s.failures r outs)) := by
  have hMains := World.mains_of_frame_eq hFrame
  have hErrors : g.errors = s.failures r outs := by
    rw [h.tally.errors, failures]
    congr 1
    refine FanOut.failureOf?_congr h.request ?_ (World.nameOf_of_frame_eq hFrame)
    rw [h.backends, hMains, FanOut.backends_ofBackends]
  have hLength : g.branches.length = s.world.mains.length := by
    rw [FanOut.length_branches h.backends, hMains]
  have hResult : (u.endFan ticket r g).ended? ticket = some (endOfVerdict g.verdict) :=
    ended?_finish_self ..
  rw [hResult, Option.some.injEq] at hEnded
  rw [← hEnded, FanOut.verdict, h.request, hLength, hErrors]

/-- A fan-out that is joined with success has an answer of every main. -/
theorem exists_answered_of_joined {u : Session} {g : FanOut}
    (h : Joining u ticket fan r deadline g begun outs) (hFinished : g.isFinished = true)
    (hOk : (u.endFan ticket r g).ended? ticket = some (.returned (.ok .done))) {j : Nat}
    (hj : j < u.world.mains.length) : ∃ x, (j, .answered x) ∈ outs := by
  obtain ⟨-, hDone⟩ := h.tally.perm_range hFinished
  rw [FanOut.length_branches h.backends] at hDone
  have hNone := (endOfVerdict_eq_ok_iff _).mp (ended_of_joining rfl h hOk).symm
  have hAll := (failures_eq_nil_iff u r hDone).mp ((StoreError.aggregate_eq_none_iff ..).mp hNone)
  have hMem : j ∈ outs.map (·.1) := hDone.mem_iff.mpr (List.mem_range.mpr hj)
  obtain ⟨⟨_, o⟩, ho, rfl⟩ := List.mem_map.mp hMem
  have hAnswered := hAll _ ho
  cases o with
  | answered x => exact ⟨x, ho⟩
  | failed f => contradiction
  | crashed reason => contradiction

/-- An order that finds its fan-out finished brings no outcome and calls nobody. -/
theorem outcomes_join {s u : Session} {before : List Move} (hBefore : s.run? before = some u) :
    outcomes fan s (before ++ [.event (.join ticket)]) = outcomes fan s before := by
  rw [outcomes, noted_append _ hBefore, noted_singleton]
  exact List.append_nil _

theorem called_join {s u : Session} {before : List Move} (hBefore : s.run? before = some u) :
    called fan s (before ++ [.event (.join ticket)]) = called fan s before := by
  rw [called, noted_append _ hBefore, noted_singleton]
  exact List.append_nil _

theorem ended_of_returns {moves : List Move} {e : Ended} (hs : s.Sound)
    (hTimeout : s.timeout = none) (hFans : s.fansOut r = true) (hMains : s.world.mains ≠ [])
    (hReturns : (s.submit (.request r)).Returns s.tickets moves t e) :
    e = endOfVerdict (StoreError.aggregate r.operation s.world.mains.length
      (s.failures r (outcomes s.fans.length (s.submit (.request r)) moves))) := by
  have hStart := joining_submit hs hFans hMains
  rw [deadline_eq_none hTimeout] at hStart
  have hWorld : (s.submit (.request r)).world = s.world := by
    rw [submit_of_fansOut hFans hMains]
    rfl
  obtain ⟨before, u, g, rfl, hBefore, hJoining, -, rfl⟩ := joined_of_returns hStart hReturns
  have hFrame : u.world.frame = s.world.frame := by
    rw [(goesOn_of_run? hBefore).frame, hWorld]
  rw [outcomes_join hBefore]
  rw [List.nil_append, List.nil_append] at hJoining
  exact ended_of_joining hFrame hJoining hReturns.ended

/-- What can be told of a write to all mains when it returns. -/
theorem fanReport_of_returns {moves : List Move} {e : Ended} (hs : s.Sound)
    (hTimeout : s.timeout = none) (hFans : s.fansOut r = true) (hMains : s.world.mains ≠ [])
    (hReturns : (s.submit (.request r)).Returns s.tickets moves t e) :
    FanReport s r moves t e (outcomes s.fans.length (s.submit (.request r)) moves) := by
  have hStart := joining_submit hs hFans hMains
  rw [deadline_eq_none hTimeout] at hStart
  have hWorld : (s.submit (.request r)).world = s.world := by
    rw [submit_of_fansOut hFans hMains]
    rfl
  -- up to its last move the write is a fan-out with a tally, which is complete at the end
  obtain ⟨before, u, g, rfl, hBefore, hJoining, hFinished, rfl⟩ := joined_of_returns hStart hReturns
  have hFrame : u.world.frame = s.world.frame := by
    rw [(goesOn_of_run? hBefore).frame, hWorld]
  have hMainsSame := World.mains_of_frame_eq hFrame
  have hEnded := ended_of_returns hs hTimeout hFans hMains hReturns
  rw [outcomes_join hBefore] at hEnded ⊢
  rw [List.nil_append, List.nil_append] at hJoining
  generalize hOuts : outcomes s.fans.length (s.submit (.request r)) before = outs at hJoining hEnded ⊢
  have hLength : g.branches.length = s.world.mains.length := by
    rw [FanOut.length_branches hJoining.backends, hMainsSame]
  obtain ⟨hBegun, hDone⟩ := hJoining.tally.perm_range hFinished
  rw [hLength] at hBegun hDone
  have hListed := listed_failures s r (lt_of_perm_range hDone)
  refine ⟨?_, hDone, ?_, ?_, hListed, ?_, ?_, ?_, ?_⟩
  · rw [called_join hBefore, called_eq hStart hBefore hJoining.unended, hWorld]
    have hPerm := hBegun.filterMap (s.world.mains[·]?)
    rwa [filterMap_getElem?_range] at hPerm
  · -- the effect is there at the moment of the answer, whatever goes on after it
    intro first m after v w j x b hMoves hFirst hMove hOutcome hMain
    have hOpen := hReturns.open_ first (m :: after) v hMoves (by simp) hFirst
    obtain ⟨g', hThen⟩ := joining_of_run? hStart hFirst hOpen
    refine hasTaken_of_outcome? hThen hMove hOutcome ?_
    rw [World.mains_of_frame_eq (goesOn_of_run? hFirst).frame, hWorld]
    exact hMain
  · -- at first no main has brought an answer, and the order and its branches keep what is taken
    intro hOwn
    have hTaken : AllTaken (s.submit (.request r)) r [] := by
      intro j x b hMem
      simp at hMem
    have hAll := allTaken_of_run? hStart hTaken
      (fun m hm => hOwn m (List.mem_append_left _ hm)) hBefore hJoining.unended
    rw [List.nil_append, hOuts] at hAll
    exact hAll.of_world_eq (world_endFan ..)
  · rw [hEnded, endOfVerdict_eq_ok_iff, StoreError.aggregate_eq_none_iff, failures_eq_nil_iff s r hDone]
  · intro hOne x hFailure
    rw [hEnded, hFailure, hOne, StoreError.aggregate_singleton, endOfVerdict]
  · intro hTwo hNone
    have hCount := length_failures_of_forall s r hDone hNone
    have hSome : s.failures r outs ≠ [] := by
      intro hNil
      rw [hNil, List.length_nil] at hCount
      omega
    rw [hEnded, StoreError.aggregate_of_two_le r.operation hTwo hSome, if_pos (Nat.le_of_eq hCount.symm),
      endOfVerdict]
  · intro hTwo hSome hNot
    obtain ⟨hPos, hLess⟩ := length_failures_of_exists s r hDone hSome hNot
    refine ⟨⟨hPos, hLess⟩, ?_⟩
    rw [hEnded, StoreError.aggregate_of_two_le r.operation hTwo (List.length_pos_iff.mp hPos),
      if_neg (Nat.not_le_of_lt hLess), endOfVerdict]

theorem sameUpToOrder_endOfVerdict {x y : Option StoreError}
    (h : Option.Rel StoreError.SameUpToOrder x y) :
    (endOfVerdict x).SameUpToOrder (endOfVerdict y) := by
  cases h with
  | none => exact .same _
  | some h => exact .error h

/-- The outcomes decide how a write to all mains ends, but for the order in which failures are listed. -/
theorem sameUpToOrder_of_returns {moves moves' : List Move} {t' : Session} {e e' : Ended}
    (hs : s.Sound) (hTimeout : s.timeout = none) (hFans : s.fansOut r = true)
    (hMains : s.world.mains ≠ []) (hReturns : (s.submit (.request r)).Returns s.tickets moves t e)
    (hReturns' : (s.submit (.request r)).Returns s.tickets moves' t' e')
    (hPerm : (outcomes s.fans.length (s.submit (.request r)) moves).Perm
      (outcomes s.fans.length (s.submit (.request r)) moves')) : e.SameUpToOrder e' := by
  have hEnded := ended_of_returns hs hTimeout hFans hMains hReturns
  have hEnded' := ended_of_returns hs hTimeout hFans hMains hReturns'
  have hFailures := hPerm.filterMap
    ((FanOut.ofBackends r s.world.mains false).failureOf? s.world)
  have hSame := StoreError.sameUpToOrder_aggregate r.operation s.world.mains.length hFailures
  rw [hEnded, hEnded']
  exact sameUpToOrder_endOfVerdict hSame

/-- Writes that are sent to all mains. Without mains nobody is called. With mains the write can always
be brought to its end, it is as reported when it returns, and the order of completion only matters to
the order in which failures are listed. -/
theorem fanOut_returns {s : Session} (hs : s.Reachable) (hTimeout : s.timeout = none) {r : Request}
    (hFans : s.fansOut r = true) :
    (s.world.mains = [] →
      (s.submit (.request r)).ended? s.tickets =
          some (.returned (.error (.noMainBackend r.operation))) ∧
        (s.submit (.request r)).world = s.world ∧ (s.submit (.request r)).fans = s.fans) ∧
    (s.world.mains ≠ [] →
      (∀ moves t, (s.submit (.request r)).run? moves = some t → t.ended? s.tickets = none →
        ∃ rest u e, (∀ m ∈ rest, IsOwn s.tickets s.fans.length m) ∧
          t.Returns s.tickets rest u e) ∧
      (∀ moves t e, (s.submit (.request r)).Returns s.tickets moves t e →
        FanReport s r moves t e (outcomes s.fans.length (s.submit (.request r)) moves)) ∧
      ∀ moves t e moves' t' e', (s.submit (.request r)).Returns s.tickets moves t e →
        (s.submit (.request r)).Returns s.tickets moves' t' e' →
        (outcomes s.fans.length (s.submit (.request r)) moves).Perm
          (outcomes s.fans.length (s.submit (.request r)) moves') →
        e.SameUpToOrder e') := by
  have hSound := sound_of_reachable hs
  refine ⟨fun hMains => ?_, fun hMains => ⟨?_, ?_, ?_⟩⟩
  · rw [submit_of_mains_eq_nil (isWrite_of_fansOut hFans) hMains]
    exact ⟨ended?_finish_self .., rfl, rfl⟩
  · intro moves t hRun hOpen
    obtain ⟨g, hJoining⟩ := joining_of_run? (joining_submit hSound hFans hMains) hRun hOpen
    exact exists_returns hJoining
  · intro moves t e hReturns
    exact fanReport_of_returns hSound hTimeout hFans hMains hReturns
  · intro moves t e moves' t' e' hReturns hReturns' hPerm
    exact sameUpToOrder_of_returns hSound hTimeout hFans hMains hReturns hReturns' hPerm

/-- Two mains, of which one fails every write, and a replica. -/
def mixed : World :=
  { backends := [
      ⟨"alpha", { isMain := true }, .scripted {}⟩,
      ⟨"beta", { isMain := true },
        .scripted { behaviour := fun _ _ => { failure := some (.said "down") } }⟩,
      ⟨"gamma", {}, .scripted {}⟩] }

theorem fanOut_returns_mixed :
    (ofWorld mixed .sync .classic).world.mains = [0, 1] ∧
      ∃ moves t e,
        ((ofWorld mixed .sync .classic).submit (.request (.put ⟨"c", "x"⟩ [1]))).Returns 0 moves t e ∧
        FanReport (ofWorld mixed .sync .classic) (.put ⟨"c", "x"⟩ [1]) moves t e
          (outcomes 0 ((ofWorld mixed .sync .classic).submit (.request (.put ⟨"c", "x"⟩ [1]))) moves) := by
  have hReachable : (ofWorld mixed .sync .classic).Reachable :=
    ⟨mixed, .sync, .classic, none, .first, [], rfl⟩
  have hMains : (ofWorld mixed .sync .classic).world.mains = [0, 1] := by decide
  obtain ⟨hReturn, hReport, -⟩ :=
    (fanOut_returns (r := .put ⟨"c", "x"⟩ [1]) hReachable rfl rfl).2 (by simp [hMains])
  obtain ⟨moves, t, e, -, hReturns⟩ := hReturn [] _ rfl rfl
  exact ⟨hMains, moves, t, e, hReturns, hReport moves t e hReturns⟩

end Session

end ReplicatedStore
