import Mathlib.Data.List.Perm.Subperm
import ReplicatedStore.Proofs.Cache.Entries
import ReplicatedStore.Proofs.Session.Joining
import ReplicatedStore.Proofs.Session.Seeking

/-!
# Every order comes to its end

However far an order has come that joins a fan-out, its own events and the clock suffice to bring it
to its end: a queued branch may begin at any time, a running one may be finished once the clock has
moved on to when it is due, and there are only so many of both. So it is with an order that waits for a
call of its walk: once the call is due the walk goes on, with one backend less ahead of it.

Main results:

* `Session.returns_induction`, `Session.pending_induction` — what holds until an order ends.
* `Session.exists_returns` — an order that joins a fan-out can be brought to its end.
* `Session.exists_returns_of_walking` — and so can an order whose walk waits for a call.
-/

namespace ReplicatedStore

namespace Walk

/-- A walk that waits for a call of one of the backends ahead has fewer of them to come. -/
theorem exists_todo_goFrom {v w : World} {walk walk' : Walk} {ahead : List Nat} {delay : Duration}
    {held : Held} (h : walk.goFrom w ahead = (v, .suspended walk' delay held)) :
    ∃ b rest, walk'.todo = b :: rest ∧ rest.length < ahead.length := by
  induction ahead generalizing w walk with
  | nil => cases h
  | cons b rest ih =>
    unfold goFrom at h
    split at h
    · cases h
      exact ⟨b, rest, rfl, Nat.lt_succ_self _⟩
    · split at h
      · cases h
      · obtain ⟨b', rest', hTodo, hLess⟩ := ih h
        exact ⟨b', rest', hTodo, Nat.lt_succ_of_lt hLess⟩

theorem exists_todo_resume {v w : World} {walk walk' : Walk} {held held' : Held} {delay : Duration}
    {b : Nat} {rest : List Nat} (hTodo : walk.todo = b :: rest)
    (h : walk.resume w held = (v, .suspended walk' delay held')) :
    ∃ b' rest', walk'.todo = b' :: rest' ∧ rest'.length < rest.length := by
  unfold resume at h
  rw [hTodo] at h
  simp only at h
  split at h
  · cases h
  · exact exists_todo_goFrom h

end Walk

namespace Session

/-- Whether a move is an event of an order or of a branch of its fan-out, or lets time pass. -/
inductive IsOwn (ticket fan : Nat) : Move → Prop
  | order {m : Move} (h : ConcernsOrder ticket m) : IsOwn ticket fan m
  | branch {m : Move} (h : ConcernsFan fan m) : IsOwn ticket fan m
  | tick (time : Duration) : IsOwn ticket fan (.tick time)

variable {s t u : Session} {ticket fan : Nat} {r : Request} {deadline : Option Duration} {f : FanOut}
  {begun : List Nat} {outcomes : List (Nat × Outcome)} {m : Move}

theorem exists_start? {branch : Nat} {b : Branch} (hf : s.fans[fan]? = some f)
    (hb : f.branches[branch]? = some b) (hQueued : b.state = .queued) :
    ∃ t, s.move? (.event (.start fan branch)) = some t := by
  simp only [move?, step?, start?, hf, hb, hQueued, Option.bind_eq_bind, Option.bind_some]
  split
  · exact ⟨_, rfl⟩
  · exact ⟨_, rfl⟩

theorem exists_complete? {branch : Nat} {b : Branch} {due : Duration} {held : Held}
    (hf : s.fans[fan]? = some f) (hb : f.branches[branch]? = some b)
    (hRunning : b.state = .running due held) (hDue : due ≤ s.now) :
    ∃ t, s.move? (.event (.complete fan branch)) = some t := by
  simp only [move?, step?, complete?, hf, hb, hRunning, Option.bind_eq_bind, Option.bind_some,
    if_pos hDue]
  exact ⟨_, rfl⟩

theorem le_now_tick (s : Session) (time : Duration) : time ≤ (s.tick time).now := by
  unfold tick
  split
  · rename_i h
    exact h
  · exact Nat.le_refl _

/-- Ticks do not concern anybody. -/
theorem joining_tick (h : Joining s ticket fan r deadline f begun outcomes) (time : Duration) :
    Joining (s.tick time) ticket fan r deadline f begun outcomes := by
  have hMove : s.move? (.tick time) = some (s.tick time) := rfl
  refine joining_of_others h ?_ ?_ hMove
  · intro hOrder
    cases hOrder
  · intro hFan
    cases hFan

/-- How many more events of branches there can be. -/
def ahead (f : FanOut) (begun : List Nat) (outcomes : List (Nat × Outcome)) : Nat :=
  (f.branches.length - begun.length) + (f.branches.length - outcomes.length)

theorem length_le_of_nodup_lt {l : List Nat} {n : Nat} (h : l.Nodup) (hLt : ∀ j ∈ l, j < n) :
    l.length ≤ n := by
  have hSubset : l ⊆ List.range n := fun j hj => List.mem_range.mpr (hLt j hj)
  simpa using (h.subperm hSubset).length_le

namespace Tallied

variable {backends : List Nat}

/-- No more branches have begun or are finished than there are backends. -/
theorem lengths (h : Tallied s fan r backends f begun outcomes) :
    f.branches.length = backends.length ∧ begun.length ≤ f.branches.length ∧
      outcomes.length ≤ f.branches.length := by
  refine ⟨FanOut.length_branches h.backends, ?_, ?_⟩
  · exact length_le_of_nodup_lt h.tally.begun_nodup h.tally.begun_lt
  · simpa using length_le_of_nodup_lt h.tally.done_nodup h.tally.done_lt

/-- A branch that is not over begins at once, or it is finished when the clock has moved on. -/
theorem exists_event (h : Tallied s fan r backends f begun outcomes) (hOpen : f.isFinished = false) :
    ∃ time m t, ConcernsFan fan m ∧ (s.tick time).move? m = some t ∧
      0 < (begun? fan m).toList.length + ((s.tick time).outcome? fan m).toList.length := by
  obtain ⟨b, hMem, hNotOver⟩ := List.all_eq_false.mp hOpen
  obtain ⟨branch, hb⟩ := List.getElem?_of_mem hMem
  cases hState : b.state with
  | finished => simp [Branch.isOver, hState] at hNotOver
  | dropped => simp [Branch.isOver, hState] at hNotOver
  | queued =>
    obtain ⟨t, hMove⟩ := exists_start? h.fanOut hb hState
    have hStill : s.tick s.now = s := if_pos (Nat.le_refl _)
    refine ⟨s.now, .event (.start fan branch), t, .start branch, ?_, ?_⟩
    · rw [hStill]
      exact hMove
    · simp only [begun?, if_true, Option.toList_some, List.length_singleton]
      omega
  | running due held =>
    have hLater := le_now_tick s due
    have hSame : (s.tick due).fans = s.fans := by
      unfold tick
      split <;> rfl
    have hf : (s.tick due).fans[fan]? = some f := by rw [hSame, h.fanOut]
    obtain ⟨t, hMove⟩ := exists_complete? hf hb hState hLater
    refine ⟨due, .event (.complete fan branch), t, .complete branch, hMove, ?_⟩
    simp [outcome?, hf, hb, hState]

/-- An event of a branch leaves fewer of them ahead. -/
theorem ahead_lt (h : Tallied s fan r backends f begun outcomes) {g : FanOut} {begun' : List Nat}
    {outcomes' : List (Nat × Outcome)}
    (hNext : Tallied t fan r backends g (begun ++ begun') (outcomes ++ outcomes'))
    (hNew : 0 < begun'.length + outcomes'.length) :
    ahead g (begun ++ begun') (outcomes ++ outcomes') < ahead f begun outcomes := by
  obtain ⟨hBranches, hBegun, hDone⟩ := h.lengths
  obtain ⟨hBranches', hBegun', hDone'⟩ := hNext.lengths
  simp only [List.length_append] at hBegun' hDone'
  simp only [ahead, List.length_append]
  omega

end Tallied

/-- A branch that is not over can be brought further. -/
theorem exists_further (h : Joining s ticket fan r deadline f begun outcomes)
    (hOpen : f.isFinished = false) :
    ∃ moves t g begun' outcomes', (∀ m ∈ moves, IsOwn ticket fan m) ∧ s.run? moves = some t ∧
      Joining t ticket fan r deadline g begun' outcomes' ∧
      ahead g begun' outcomes' < ahead f begun outcomes := by
  obtain ⟨time, m, t, hFan, hMove, hNew⟩ := h.tallied.exists_event hOpen
  have hTicked := joining_tick h time
  obtain ⟨⟨g, hNext⟩, -⟩ := joining_of_concernsFan hTicked hFan hMove
  have hTallied := hNext.tallied
  rw [World.mains_of_frame_eq (goesOn_of_move? hMove).frame] at hTallied
  refine ⟨[.tick time, m], t, g, _, _, ?_, run?_cons_eq_some.mpr ⟨_, rfl, run?_singleton hMove⟩,
    hNext, hTicked.tallied.ahead_lt hTallied hNew⟩
  intro m' hm'
  rcases List.mem_cons.mp hm' with rfl | hm'
  · exact .tick time
  · rw [List.mem_singleton.mp hm']
    exact .branch hFan

theorem exists_join? (h : Joining s ticket fan r deadline f begun outcomes)
    (hFinished : f.isFinished = true) :
    s.move? (.event (.join ticket)) = some (s.endFan ticket r f) := by
  simp [move?, step?, join?, h.order, h.fanOut, hFinished]

/-- An order that joins a fan-out can be brought to its end by its own events. -/
theorem exists_return (h : Joining s ticket fan r deadline f begun outcomes) :
    ∃ moves t e, (∀ m ∈ moves, IsOwn ticket fan m) ∧ s.run? moves = some t ∧
      t.ended? ticket = some e := by
  -- on the events of branches that there still can be, and then the fan-out is joined
  induction hAhead : ahead f begun outcomes using Nat.strongRecOn generalizing s f begun outcomes with
  | ind n ih =>
    subst hAhead
    cases hFinished : f.isFinished with
    | true =>
      have hMove := exists_join? h hFinished
      refine ⟨[.event (.join ticket)], _, _, ?_, ?_, (over_endFan h hMove).ended⟩
      · intro m hm
        rw [List.mem_singleton.mp hm]
        exact .order .join
      · exact run?_singleton hMove
    | false =>
      obtain ⟨first, t, g, begun', outcomes', hOwn, hRun, hNext, hLess⟩ := exists_further h hFinished
      obtain ⟨rest, u, e, hOwnRest, hRunRest, hEnded⟩ := ih _ hLess hNext rfl
      refine ⟨first ++ rest, u, e, ?_, (run?_append hRun rest).trans hRunRest, hEnded⟩
      intro m hm
      rcases List.mem_append.mp hm with hm | hm
      · exact hOwn m hm
      · exact hOwnRest m hm

/-- Whether a move belongs to the call of an order: it submits it, is about it, or is about a branch of
the fan-out that it joins. -/
inductive IsOfCall (s : Session) (ticket : Nat) : Move → Prop
  | submit (order : Order) (h : ticket = s.tickets) : IsOfCall s ticket (.submit order)
  | order {m : Move} (h : ConcernsOrder ticket m) : IsOfCall s ticket m
  | branch {m : Move} {r : Running} {fan : Nat} (hr : s.running? ticket = some r)
      (hJoins : r.activity = .joining fan) (h : ConcernsFan fan m) : IsOfCall s ticket m

/-- Whether an order ends by moves, with the last of them and not before. -/
structure Returns (s : Session) (ticket : Nat) (moves : List Move) (t : Session) (e : Ended) : Prop where
  run : s.run? moves = some t
  ended : t.ended? ticket = some e
  open_ : ∀ before after u, moves = before ++ after → after ≠ [] → s.run? before = some u →
    u.ended? ticket = none

/-- Moves end an order if it has ended after them, and after none of their beginnings. -/
theorem returns_of_forall_take {moves : List Move} {e : Ended} (hRun : s.run? moves = some t)
    (hEnded : t.ended? ticket = some e)
    (hOpen : ∀ n < moves.length, (s.run? (moves.take n)).bind (·.ended? ticket) = none) :
    s.Returns ticket moves t e := by
  refine ⟨hRun, hEnded, fun before after u hMoves hAfter hBefore => ?_⟩
  have hShort : before.length < moves.length := by
    rw [hMoves, List.length_append]
    have := List.length_pos_iff.mpr hAfter
    omega
  have hNone := hOpen before.length hShort
  rwa [hMoves, List.take_left, hBefore] at hNone

theorem returns_singleton {m : Move} {e : Ended} (hOpen : s.ended? ticket = none)
    (hMove : s.move? m = some t) (hEnded : t.ended? ticket = some e) : s.Returns ticket [m] t e := by
  refine returns_of_forall_take (run?_singleton hMove) hEnded fun n hn => ?_
  rw [List.length_singleton, Nat.lt_one_iff] at hn
  rw [hn]
  exact hOpen

theorem Returns.cons {m : Move} {moves : List Move} {e : Ended} (h : u.Returns ticket moves t e)
    (hMove : s.move? m = some u) (hOpen : s.ended? ticket = none) :
    s.Returns ticket (m :: moves) t e := by
  refine ⟨run?_cons_eq_some.mpr ⟨u, hMove, h.run⟩, h.ended, ?_⟩
  intro before after v hMoves hAfter hBefore
  cases before with
  | nil =>
    rw [run?, Option.some.injEq] at hBefore
    rwa [← hBefore]
  | cons m' before =>
    obtain ⟨rfl, hTail⟩ := List.cons.inj hMoves
    obtain ⟨u', hMove', hBefore⟩ := run?_cons_eq_some.mp hBefore
    rw [hMove] at hMove'
    cases hMove'
    exact h.open_ before after v hTail hAfter hBefore

/-- An order that has ended after moves ended by some of them. -/
theorem returns_of_ended? {moves : List Move} {e : Ended} (hRun : s.run? moves = some t)
    (hOpen : s.ended? ticket = none) (hEnded : t.ended? ticket = some e) :
    ∃ first rest u e', moves = first ++ rest ∧ s.Returns ticket first u e' := by
  induction moves generalizing s with
  | nil =>
    rw [run?, Option.some.injEq] at hRun
    rw [hRun, hEnded] at hOpen
    contradiction
  | cons m rest ih =>
    obtain ⟨u, hMove, hRest⟩ := run?_cons_eq_some.mp hRun
    cases hNow : u.ended? ticket with
    | some e' => exact ⟨[m], rest, u, e', rfl, returns_singleton hOpen hMove hNow⟩
    | none =>
      obtain ⟨first, others, v, e', rfl, hReturns⟩ := ih hRest hNow
      exact ⟨m :: first, others, v, e', rfl, hReturns.cons hMove hOpen⟩

/-- An order that has already ended takes no moves to end. -/
theorem Returns.eq_of_ended? {moves : List Move} {e e' : Ended} (h : s.Returns ticket moves t e)
    (hEnded : s.ended? ticket = some e') : s = t := by
  cases moves with
  | nil =>
    have hRun := h.run
    rwa [run?, Option.some.injEq] at hRun
  | cons m rest =>
    have hNone := h.open_ [] (m :: rest) s rfl (by simp) rfl
    rw [hEnded] at hNone
    contradiction

/-- Whether moves have been made without an order having ended by any of them. -/
structure Pending (s : Session) (ticket : Nat) (moves : List Move) (t : Session) : Prop where
  run : s.run? moves = some t
  open_ : ∀ before after u, moves = before ++ after → s.run? before = some u → u.ended? ticket = none

theorem Pending.unended {moves : List Move} (h : s.Pending ticket moves t) :
    s.ended? ticket = none := h.open_ [] moves s rfl rfl

theorem Pending.unended_after {moves : List Move} (h : s.Pending ticket moves t) :
    t.ended? ticket = none := h.open_ moves [] t (List.append_nil _).symm h.run

theorem Pending.of_cons {rest : List Move} (h : s.Pending ticket (m :: rest) t) :
    ∃ u, s.move? m = some u ∧ u.Pending ticket rest t := by
  obtain ⟨u, hFirst, hRest⟩ := run?_cons_eq_some.mp h.run
  refine ⟨u, hFirst, hRest, fun before after v hSplit hBefore => ?_⟩
  exact h.open_ (m :: before) after v (by rw [hSplit]; rfl)
    (run?_cons_eq_some.mpr ⟨u, hFirst, hBefore⟩)

/-- After the first of the moves that end an order the others end it. -/
theorem Returns.of_cons {rest : List Move} {e : Ended} (h : s.Returns ticket (m :: rest) t e) :
    ∃ u, s.move? m = some u ∧ u.Returns ticket rest t e := by
  obtain ⟨u, hFirst, hRest⟩ := run?_cons_eq_some.mp h.run
  refine ⟨u, hFirst, hRest, h.ended, fun before after v hSplit hAfter hBefore => ?_⟩
  exact h.open_ (m :: before) after v (by rw [hSplit]; rfl) hAfter
    (run?_cons_eq_some.mpr ⟨u, hFirst, hBefore⟩)

/-- Before the last of the moves that end an order it has not ended. -/
theorem Returns.pending {before after : List Move} {e : Ended}
    (h : s.Returns ticket (before ++ after) t e) (hAfter : after ≠ []) :
    ∃ u, s.Pending ticket before u ∧ u.run? after = some t := by
  obtain ⟨u, hBefore, hRest⟩ := exists_of_run?_append h.run
  refine ⟨u, ⟨hBefore, fun first others v hSplit hFirst => ?_⟩, hRest⟩
  refine h.open_ first (others ++ after) v ?_ (by simp [hAfter]) hFirst
  rw [hSplit, List.append_assoc]

/-- An order that has not ended yet ends with the last of the moves that end it. -/
theorem Returns.exists_last {moves : List Move} {e : Ended} (h : s.Returns ticket moves t e)
    (hOpen : s.ended? ticket = none) : ∃ before last u, moves = before ++ [last] ∧
      s.Pending ticket before u ∧ u.move? last = some t := by
  have hSome : moves ≠ [] := by
    rintro rfl
    have hRun := h.run
    rw [run?, Option.some.injEq] at hRun
    have hEnded := h.ended
    rw [← hRun, hOpen] at hEnded
    contradiction
  obtain ⟨before, last, rfl⟩ : ∃ before last, moves = before ++ [last] :=
    ⟨_, _, (List.dropLast_append_getLast hSome).symm⟩
  obtain ⟨u, hPending, hLast⟩ := h.pending (List.cons_ne_nil last [])
  obtain ⟨t', hMove, hEnd⟩ := run?_cons_eq_some.mp hLast
  rw [run?, Option.some.injEq] at hEnd
  subst hEnd
  exact ⟨before, last, u, rfl, hPending, hMove⟩

/-- What holds until an order ends, and what it ends with: every move keeps the one or brings the
other. -/
theorem returns_induction {P Q : Session → Prop} {C : Move → Prop} {moves : List Move} {e : Ended}
    (hReturns : s.Returns ticket moves t e) (hMoves : ∀ m ∈ moves, C m) (hStart : P s ∨ Q s)
    (hOpen : ∀ {a}, P a → a.ended? ticket = none) (hOver : ∀ {a}, Q a → a.ended? ticket ≠ none)
    (hMove : ∀ {a b m}, P a → C m → a.move? m = some b → P b ∨ Q b) : Q t := by
  induction moves generalizing s with
  | nil =>
    have hRun := hReturns.run
    rw [run?, Option.some.injEq] at hRun
    subst hRun
    rcases hStart with hKeeps | hBrings
    · have hEnded := hReturns.ended
      rw [hOpen hKeeps] at hEnded
      contradiction
    · exact hBrings
  | cons m rest ih =>
    -- once the order has ended there are no more moves
    rcases hStart with hKeeps | hBrings
    · obtain ⟨u, hFirst, hEnd⟩ := hReturns.of_cons
      exact ih hEnd (fun m' hm' => hMoves m' (List.mem_cons_of_mem _ hm'))
        (hMove hKeeps (hMoves m List.mem_cons_self) hFirst)
    · obtain ⟨e', hEnded⟩ := Option.ne_none_iff_exists'.mp (hOver hBrings)
      rwa [← hReturns.eq_of_ended? hEnded]

/-- What holds until an order ends holds as long as it has not ended. -/
theorem pending_induction {P Q : Session → Prop} {C : Move → Prop} {moves : List Move}
    (h : s.Pending ticket moves t) (hMoves : ∀ m ∈ moves, C m) (hStart : P s ∨ Q s)
    (hOver : ∀ {a}, Q a → a.ended? ticket ≠ none)
    (hMove : ∀ {a b m}, P a → C m → a.move? m = some b → P b ∨ Q b) : P t := by
  induction moves generalizing s with
  | nil =>
    have hRun := h.run
    rw [run?, Option.some.injEq] at hRun
    rw [← hRun]
    exact hStart.resolve_right fun hBrings => hOver hBrings h.unended
  | cons m rest ih =>
    obtain ⟨u, hFirst, hRest⟩ := h.of_cons
    have hKeeps := hStart.resolve_right fun hBrings => hOver hBrings h.unended
    exact ih hRest (fun m' hm' => hMoves m' (List.mem_cons_of_mem _ hm'))
      (hMove hKeeps (hMoves m List.mem_cons_self) hFirst)

/-- An order that joins a fan-out ends by moves of its own. -/
theorem exists_returns (h : Joining s ticket fan r deadline f begun outcomes) :
    ∃ moves t e, (∀ m ∈ moves, IsOwn ticket fan m) ∧ s.Returns ticket moves t e := by
  obtain ⟨moves, t, e, hOwn, hRun, hEnded⟩ := exists_return h
  obtain ⟨first, rest, u, e', rfl, hReturns⟩ := returns_of_ended? hRun h.unended hEnded
  exact ⟨first, u, e', fun m hm => hOwn m (List.mem_append_left _ hm), hReturns⟩

/-! ## Walks -/

theorem ended?_endWalk (s : Session) (ticket : Nat) (r : Request) (e : WalkEnd) :
    (s.endWalk ticket r e).ended? ticket = some e.ended := by
  unfold endWalk
  split
  · exact ended?_finish_self ..
  · exact ended?_finish_self ..
  · split <;> exact ended?_finish_self ..

theorem running?_endWalk (s : Session) (ticket : Nat) (r : Request) (e : WalkEnd) :
    (s.endWalk ticket r e).running? ticket = none := by
  unfold endWalk
  split
  · exact running?_finish_self ..
  · exact running?_finish_self ..
  · split <;> exact running?_finish_self ..

/-- Time that passes changes nothing but the clock and the cache, which loses entries at most. -/
theorem tick_eq (s : Session) (time : Duration) : ∃ watched now, s.tick time = { s with watched, now } ∧
    watched.cache.entries ⊆ s.watched.cache.entries := by
  unfold tick
  split
  · exact ⟨s.watched, s.now, rfl, fun _ he => he⟩
  · exact ⟨_, time, rfl, WatchedCache.entries_passesUntil_subset ..⟩

/-- The call that a walk waits for can be finished once the clock has moved on to when it is due. -/
theorem resume_tick {walk : Walk} {due : Duration} {held : Held} (h : s.running? ticket =
      some { ticket, order := .request r, deadline, activity := .walking walk due held }) :
    (s.tick due).move? (.event (.resume ticket)) =
      some ((s.tick due).followWalk ticket r deadline (walk.resume s.world held)) := by
  have hLater := le_now_tick s due
  obtain ⟨watched, now, hEq, -⟩ := tick_eq s due
  rw [hEq] at hLater ⊢
  have hSame : { s with watched, now }.running? ticket = s.running? ticket := rfl
  simp [move?, step?, resume?, hSame, h, hLater]

/-- Whether a move lets the walk of an order go on, or lets time pass until it can. -/
inductive IsWalkOn (ticket : Nat) : Move → Prop
  | tick (time : Duration) : IsWalkOn ticket (.tick time)
  | resume : IsWalkOn ticket (.event (.resume ticket))

/-- Only the order and the clock are concerned. -/
theorem IsWalkOn.concerns (h : IsWalkOn ticket m) : ConcernsOrder ticket m ∨ ∃ time, m = .tick time := by
  cases h with
  | tick time => exact .inr ⟨time, rfl⟩
  | resume => exact .inl .resume

/-- An order whose walk waits for a call can be brought to its end by letting the walk go on. -/
theorem exists_returns_of_walking {walk : Walk} {due : Duration} {held : Held} {b : Nat}
    {rest : List Nat} (hOrder : s.running? ticket =
      some { ticket, order := .request r, deadline, activity := .walking walk due held })
    (hOpen : s.ended? ticket = none) (hTodo : walk.todo = b :: rest) :
    ∃ moves t e, (∀ m ∈ moves, IsWalkOn ticket m) ∧ s.Returns ticket moves t e := by
  -- on the number of backends that come after the one whose call the walk waits for
  induction hLength : rest.length using Nat.strongRecOn generalizing s walk due held b rest with
  | ind n ih =>
    subst hLength
    have hTick : s.move? (.tick due) = some (s.tick due) := rfl
    have hTicked : (s.tick due).ended? ticket = none := by
      obtain ⟨watched, now, hEq, -⟩ := tick_eq s due
      rw [hEq]
      exact hOpen
    have hMove := resume_tick hOrder
    cases hResume : walk.resume s.world held with
    | mk v state =>
      rw [hResume] at hMove
      rcases state with e | ⟨walk', delay, held'⟩
      · refine ⟨[.tick due, .event (.resume ticket)], _, e.ended, ?_,
          (returns_singleton hTicked hMove (ended?_endWalk ..)).cons hTick hOpen⟩
        exact List.forall_mem_cons.mpr ⟨.tick due, List.forall_mem_singleton.mpr .resume⟩
      · -- the next call is to a backend further on
        obtain ⟨b', rest', hTodo', hLess⟩ := Walk.exists_todo_resume hTodo hResume
        have hWaits : ((s.tick due).followWalk ticket r deadline
            (v, .suspended walk' delay held')).running? ticket =
              some { ticket, order := .request r, deadline
                     activity := .walking walk' ((s.tick due).now + delay) held' } :=
          running?_suspend_self ..
        obtain ⟨moves, t, e, hOwn, hReturns⟩ := ih _ hLess hWaits hTicked hTodo' rfl
        refine ⟨.tick due :: .event (.resume ticket) :: moves, t, e, ?_,
          (hReturns.cons hMove hTicked).cons hTick hOpen⟩
        exact List.forall_mem_cons.mpr ⟨.tick due, List.forall_mem_cons.mpr ⟨.resume, hOwn⟩⟩

end Session

end ReplicatedStore
