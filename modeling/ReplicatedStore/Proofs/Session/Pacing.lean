import ReplicatedStore.Proofs.Session.Untimed

/-!
# Orders that are done by a time

An order that would be done at a certain time, on a clock that waits, is done at that time or is given up
at its deadline, whichever comes first. Until then there is always something due, and only so many
events are ahead. If it is done before its deadline, then it goes as it would without one, event by
event.

Main results:

* `Session.Pace.driven`, `Session.Pace.returns` — it ends, at its time or at its deadline.
* `Session.Pace.onClock_of_untimed`, `Session.Pace.drive_untimed` — before its deadline it goes as it
  would without one.
* `Session.Pace.cut` — how an order ends whose events are known.
* `Session.cut_of_ended` — an order that is done at once.
-/

namespace ReplicatedStore

namespace Session

/-- What is known of an order that is to be done at a time: `P n` as long as it is under way with no more
than `n` of its events ahead, and `G` when it has been given up. -/
structure Pace (ticket : Nat) (done : Duration) (deadline : Option Duration) (P : Nat → Session → Prop)
    (G : Session → Prop) : Prop where
  unended : ∀ {n u}, P n u → u.ended? ticket = none
  deadlines : ∀ {n u}, P n u → ∀ p ∈ u.running, p.deadline = deadline
  ahead : ∀ {n u}, P n u → n < u.work
  /-- something is due until the order is done -/
  due : ∀ {n u}, P n u → ∃ x ∈ u.untimed.events, x.time ≤ done
  /-- what is due can happen -/
  enabled : ∀ {n u}, P n u → ∀ x ∈ u.events, ∃ v, (u.tick x.time).step? x.event = some v
  tick : ∀ {n u time}, P n u → (∀ x ∈ u.events, time ≤ x.time) → P n (u.tick time)
  event : ∀ {n u v x}, P n u → u.step? x = some v →
    (Move.event x).isPatient = true ∧ ((∃ k < n, P k v) ∨
      v.ended? ticket ≠ none ∧ v.now = done ∧ ∀ d, deadline = some d → done ≤ d) ∨
    v.ended? ticket ≠ none ∧ ∃ d, deadline = some d ∧ d ≤ done ∧ v.now = d ∧ G v

/-- How an order ends that is to be done at a time. -/
structure Cut (s : Session) (ticket : Nat) (done : Duration) (deadline : Option Duration)
    (G : Session → Prop) : Prop where
  /-- however far it has come, it comes to its end -/
  ends : ∀ moves u, OnClock s moves u → s.Pending ticket moves u →
    ∃ more t e, OnClock u more t ∧ u.Returns ticket more t e
  /-- so it does on the schedule by which sessions are driven -/
  driven : ∃ moves t e, OnClock s moves t ∧ s.Returns ticket moves t e ∧
    drive (fun u => (u.ended? ticket).isSome) none s.work s = t
  /-- it is done at its time, by its deadline, or it is given up then -/
  returns : ∀ moves t e, OnClock s moves t → s.Returns ticket moves t e →
    ((∀ m ∈ moves, m.isPatient = true) ∧ t.now = done ∧ ∀ d, deadline = some d → done ≤ d) ∨
      ∃ d, deadline = some d ∧ d ≤ done ∧ t.now = d ∧ G t
  /-- whatever it could come to without a deadline it can come to if it is done before -/
  likewise : (∀ d, deadline = some d → done < d) → ∀ moves t e, OnClock s.untimed moves t →
    s.untimed.Returns ticket moves t e →
    ∃ u, t = u.untimed ∧ OnClock s moves u ∧ s.Returns ticket moves u e
  /-- and on the schedule by which sessions are driven it does -/
  same : (∀ d, deadline = some d → done < d) →
    drive (fun u => (u.ended? ticket).isSome) none s.work s.untimed =
      (drive (fun u => (u.ended? ticket).isSome) none s.work s).untimed

variable {s t u v : Session} {ticket n : Nat} {done : Duration} {deadline : Option Duration}
  {P : Nat → Session → Prop} {G : Session → Prop} {moves : List Move} {e : Ended}

theorem returns_nil (h : s.ended? ticket = some e) : s.Returns ticket [] s e :=
  ⟨rfl, h, fun _ _ _ hNil hAfter _ => absurd (List.append_eq_nil_iff.mp hNil.symm).2 hAfter⟩

/-- An order that has ended already ends by no moves. -/
theorem Returns.eq_nil (h : s.Returns ticket moves t e) (hEnded : s.ended? ticket ≠ none) :
    moves = [] ∧ s = t := by
  obtain ⟨e', hEnded⟩ := Option.ne_none_iff_exists'.mp hEnded
  refine ⟨?_, h.eq_of_ended? hEnded⟩
  cases moves with
  | nil => rfl
  | cons m rest =>
    have hOpen := h.open_ [] (m :: rest) s rfl (List.cons_ne_nil m rest) rfl
    rw [hEnded] at hOpen
    contradiction

/-- A session is not driven beyond the end of an order. -/
theorem drive_of_ended (hEnded : s.ended? ticket ≠ none) (fuel : Nat) :
    drive (fun u => (u.ended? ticket).isSome) none fuel s = s := by
  cases fuel with
  | zero => rfl
  | succ fuel => rw [drive, if_pos (Option.isSome_iff_ne_none.mpr hEnded)]

theorem le_atLeastNow (s : Session) (time : Duration) : time ≤ s.atLeastNow time := by
  unfold atLeastNow
  split
  · assumption
  · exact Nat.le_refl _

namespace Pace

/-- As long as an order is under way something is known of it. -/
theorem pending (h : Pace ticket done deadline P G) (hStart : P n s) (hClock : OnClock s moves u)
    (hPending : s.Pending ticket moves u) : ∃ k, P k u := by
  refine pending_on_clock (P := fun a => ∃ k, P k a) hClock hPending ⟨n, hStart⟩ ?_ ?_
  · rintro a time ⟨k, hk⟩ hDue
    exact ⟨k, h.tick hk hDue⟩
  · rintro a b x ⟨k, hk⟩ hStep
    rcases h.event hk hStep with ⟨-, ⟨j, -, hj⟩ | ⟨hEnded, -⟩⟩ | ⟨hEnded, -⟩
    · exact .inl ⟨j, hj⟩
    · exact .inr hEnded
    · exact .inr hEnded

/-- Something comes first, and it can happen then. -/
theorem exists_first (h : Pace ticket done deadline P G) (hStart : P n s) : ∃ x v,
    Scheduled.first? s.events = some x ∧ (∀ y ∈ s.events, x.time ≤ y.time) ∧
      (s.tick x.time).step? x.event = some v := by
  obtain ⟨y, hy, -⟩ := h.due hStart
  have hSome : s.events ≠ [] := List.ne_nil_of_mem (mem_events_of_untimed hy)
  obtain ⟨x, hFirst⟩ := Option.ne_none_iff_exists'.mp fun hNone =>
    hSome (Scheduled.first?_eq_none hNone)
  obtain ⟨hMem, hLeast⟩ := Scheduled.first?_spec hFirst
  obtain ⟨v, hStep⟩ := h.enabled hStart x hMem
  exact ⟨x, v, hFirst, hLeast, hStep⟩

/-- A session that is driven brings an order to its end. -/
theorem driven (h : Pace ticket done deadline P G) (hStart : P n s) {fuel : Nat} (hFuel : n < fuel) :
    ∃ moves t e, OnClock s moves t ∧ s.Returns ticket moves t e ∧
      drive (fun u => (u.ended? ticket).isSome) none fuel s = t := by
  -- on the fuel: each event that does not end the order leaves fewer of them ahead
  induction fuel generalizing s n with
  | zero => omega
  | succ fuel ih =>
    have hOpen := h.unended hStart
    obtain ⟨x, v, hFirst, hLeast, hStep⟩ := h.exists_first hStart
    have hMove : (s.tick x.time).move? (.event x.event) = some v := hStep
    have hTicked := h.tick hStart hLeast
    have hDrive : drive (fun u => (u.ended? ticket).isSome) none (fuel + 1) s =
        drive (fun u => (u.ended? ticket).isSome) none fuel v := by
      rw [drive, if_neg (by simp [hOpen]), hFirst]
      simp [hStep]
    have hFirstMoves {more : List Move} {t : Session} {e : Ended} (hClock : OnClock v more t)
        (hReturns : v.Returns ticket more t e) :
        OnClock s (.tick x.time :: .event x.event :: more) t ∧
          s.Returns ticket (.tick x.time :: .event x.event :: more) t e :=
      ⟨.tick hLeast (.event hStep hClock),
        (hReturns.cons hMove (h.unended hTicked)).cons rfl hOpen⟩
    have hOver (hEnded : v.ended? ticket ≠ none) : ∃ moves t e, OnClock s moves t ∧
        s.Returns ticket moves t e ∧
        drive (fun u => (u.ended? ticket).isSome) none (fuel + 1) s = t := by
      obtain ⟨e, hEnded⟩ := Option.ne_none_iff_exists'.mp hEnded
      obtain ⟨hClock, hReturns⟩ := hFirstMoves (.nil v) (returns_nil hEnded)
      exact ⟨_, v, e, hClock, hReturns, hDrive.trans (drive_of_ended (by simp [hEnded]) fuel)⟩
    rcases h.event hTicked hStep with ⟨-, ⟨k, hLess, hk⟩ | ⟨hEnded, -⟩⟩ | ⟨hEnded, -⟩
    · obtain ⟨more, t, e, hClock, hReturns, hEnd⟩ := ih hk (by omega)
      obtain ⟨hAll, hAllReturn⟩ := hFirstMoves hClock hReturns
      exact ⟨_, t, e, hAll, hAllReturn, hDrive.trans hEnd⟩
    · exact hOver hEnded
    · exact hOver hEnded

/-- Before its deadline what comes first for an order is what would come first without it. -/
theorem first?_untimed (h : Pace ticket done deadline P G) (hBefore : ∀ d, deadline = some d → done < d)
    (hStart : P n s) {x : Scheduled} (hFirst : Scheduled.first? s.events = some x) :
    (Move.event x.event).isPatient = true ∧ Scheduled.first? s.untimed.events = some x := by
  obtain ⟨hMem, hLeast⟩ := Scheduled.first?_spec hFirst
  have hPatient : (Move.event x.event).isPatient = true := by
    rcases events_cases hMem with hOwn | ⟨p, hp, d, hDeadline, rfl⟩
    · rw [events_untimed] at hOwn
      exact (List.mem_filter.mp hOwn).2
    · -- something else is due before the deadline
      obtain ⟨y, hy, hSoon⟩ := h.due hStart
      have hLate := hBefore d ((h.deadlines hStart p hp).symm.trans hDeadline)
      have hFirst := Nat.le_trans (hLeast y (mem_events_of_untimed hy)) hSoon
      have hNever := Nat.lt_of_le_of_lt (Nat.le_trans (le_atLeastNow s d) hFirst) hLate
      exact absurd hNever (Nat.lt_irrefl _)
  refine ⟨hPatient, ?_⟩
  rw [events_untimed]
  exact Scheduled.first?_filter hFirst hPatient

/-- An order that is done before its deadline is brought to its end as it would be without one. -/
theorem drive_untimed (h : Pace ticket done deadline P G) (hBefore : ∀ d, deadline = some d → done < d)
    (hStart : P n s) (fuel : Nat) : drive (fun u => (u.ended? ticket).isSome) none fuel s.untimed =
      (drive (fun u => (u.ended? ticket).isSome) none fuel s).untimed := by
  have hOver {v : Session} (fuel : Nat) (hEnded : v.ended? ticket ≠ none) :
      drive (fun u => (u.ended? ticket).isSome) none fuel v.untimed =
        (drive (fun u => (u.ended? ticket).isSome) none fuel v).untimed := by
    rw [drive_of_ended hEnded, drive_of_ended (s := v.untimed) hEnded]
  induction fuel generalizing s n with
  | zero => rfl
  | succ fuel ih =>
    have hOpen := h.unended hStart
    have hOpen' : s.untimed.ended? ticket = none := hOpen
    obtain ⟨x, v, hFirst, hLeast, hStep⟩ := h.exists_first hStart
    obtain ⟨hPatient, hFirst'⟩ := h.first?_untimed hBefore hStart hFirst
    have hStep' : (s.untimed.tick x.time).step? x.event = some v.untimed := by
      rw [← untimed_tick]
      exact (move?_untimed hPatient).trans (congrArg _ hStep)
    rw [drive, drive, if_neg (by simp [hOpen']), if_neg (by simp [hOpen]), hFirst, hFirst']
    simp only [Option.any_none, Bool.false_eq_true, if_false, hStep, hStep']
    rcases h.event (h.tick hStart hLeast) hStep with ⟨-, ⟨k, -, hk⟩ | ⟨hEnded, -⟩⟩ | ⟨hEnded, -⟩
    · exact ih hk
    · exact hOver fuel hEnded
    · exact hOver fuel hEnded

/-- An order is done at its time, or it is given up at its deadline. -/
theorem returns (h : Pace ticket done deadline P G) (hStart : P n s) (hClock : OnClock s moves t)
    (hReturns : s.Returns ticket moves t e) :
    ((∀ m ∈ moves, m.isPatient = true) ∧ t.now = done ∧ ∀ d, deadline = some d → done ≤ d) ∨
      ∃ d, deadline = some d ∧ d ≤ done ∧ t.now = d ∧ G t := by
  induction hClock generalizing n with
  | nil s =>
    have hEnded := hReturns.ended
    rw [h.unended hStart] at hEnded
    contradiction
  | @event s v u x rest hStep _ ih =>
    obtain ⟨w, hMove, hRest⟩ := hReturns.of_cons
    cases hStep.symm.trans hMove
    rcases h.event hStart hStep with ⟨hPatient, ⟨k, -, hk⟩ | ⟨hEnded, hDone⟩⟩ | ⟨hEnded, hGivenUp⟩
    · rcases ih hk hRest with ⟨hAll, hDone⟩ | hGivenUp
      · exact .inl ⟨List.forall_mem_cons.mpr ⟨hPatient, hAll⟩, hDone⟩
      · exact .inr hGivenUp
    · obtain ⟨rfl, rfl⟩ := hRest.eq_nil hEnded
      exact .inl ⟨List.forall_mem_cons.mpr ⟨hPatient, fun m hm => absurd hm List.not_mem_nil⟩, hDone⟩
    · obtain ⟨rfl, rfl⟩ := hRest.eq_nil hEnded
      exact .inr hGivenUp
  | tick hDue _ ih =>
    obtain ⟨w, hMove, hRest⟩ := hReturns.of_cons
    cases hMove
    rcases ih (h.tick hStart hDue) hRest with ⟨hAll, hDone⟩ | hGivenUp
    · exact .inl ⟨List.forall_mem_cons.mpr ⟨rfl, hAll⟩, hDone⟩
    · exact .inr hGivenUp

/-- An order that is done before its deadline goes on a clock as it would go without one. -/
theorem onClock_of_untimed (h : Pace ticket done deadline P G)
    (hBefore : ∀ d, deadline = some d → done < d) (hStart : P n s)
    (hClock : OnClock s.untimed moves t) (hReturns : s.Returns ticket moves u e) :
    OnClock s moves u := by
  induction moves generalizing s n with
  | nil =>
    have hRun := hReturns.run
    rw [run?, Option.some.injEq] at hRun
    rw [hRun]
    exact .nil u
  | cons m rest ih =>
    obtain ⟨w, hMove, hRest⟩ := hReturns.of_cons
    cases hClock with
    | @event _ v _ x _ hEvent hClock =>
      have hStep : s.step? x = some w := hMove
      have hSame : v = w.untimed := by
        have hPatient := (OnClock.event hEvent hClock).isPatient _ List.mem_cons_self
        have hNext := (move?_untimed (s := s) hPatient).symm.trans hEvent
        rw [hMove, Option.map_some, Option.some.injEq] at hNext
        exact hNext.symm
      subst hSame
      refine .event hStep ?_
      rcases h.event hStart hStep with ⟨-, ⟨k, -, hk⟩ | ⟨hEnded, -⟩⟩ | ⟨hEnded, -⟩
      · exact ih hk hClock hRest
      · obtain ⟨rfl, rfl⟩ := hRest.eq_nil hEnded
        exact .nil w
      · obtain ⟨rfl, rfl⟩ := hRest.eq_nil hEnded
        exact .nil w
    | @tick _ _ time _ hDue hClock =>
      cases hMove
      -- something is due before the deadline, so time does not pass it
      have hAllDue : ∀ x ∈ s.events, time ≤ x.time := by
        intro x hx
        rcases events_cases hx with hOwn | ⟨p, hp, d, hDeadline, rfl⟩
        · exact hDue x hOwn
        · obtain ⟨y, hy, hSoon⟩ := h.due hStart
          have hUntil := Nat.le_trans (hDue y hy) hSoon
          have hLate := hBefore d ((h.deadlines hStart p hp).symm.trans hDeadline)
          exact Nat.le_trans (Nat.le_of_lt (Nat.lt_of_le_of_lt hUntil hLate)) (le_atLeastNow s d)
      refine .tick hAllDue (ih (h.tick hStart hAllDue) ?_ hRest)
      rw [untimed_tick]
      exact hClock

theorem cut (h : Pace ticket done deadline P G) (hStart : P n s) : Cut s ticket done deadline G where
  ends moves u hClock hPending := by
    obtain ⟨k, hk⟩ := h.pending hStart hClock hPending
    obtain ⟨more, t, e, hMore, hReturns, -⟩ := h.driven hk (Nat.lt_succ_self k)
    exact ⟨more, t, e, hMore, hReturns⟩
  driven := h.driven hStart (h.ahead hStart)
  returns moves t e hClock hReturns := h.returns hStart hClock hReturns
  likewise hBefore moves t e hClock hReturns := by
    obtain ⟨u, rfl, hTimed⟩ := (returns_untimed_iff hClock.isPatient).mp hReturns
    exact ⟨u, rfl, h.onClock_of_untimed hBefore hStart hClock hTimed, hTimed⟩
  same hBefore := h.drive_untimed hBefore hStart _

end Pace

/-- An order that is done at once. -/
theorem cut_of_ended (hEnded : s.ended? ticket = some e) (hBefore : ∀ d, deadline = some d → s.now ≤ d) :
    Cut s ticket s.now deadline G where
  ends moves u hClock hPending := by
    rw [hPending.unended] at hEnded
    contradiction
  driven := by
    exact ⟨[], s, e, .nil s, returns_nil hEnded, drive_of_ended (by simp [hEnded]) _⟩
  returns moves t e' hClock hReturns := by
    obtain ⟨rfl, rfl⟩ := hReturns.eq_nil (by simp [hEnded])
    exact .inl ⟨fun m hm => absurd hm List.not_mem_nil, rfl, hBefore⟩
  likewise _ moves t e' hClock hReturns := by
    obtain ⟨u, rfl, hTimed⟩ := (returns_untimed_iff hClock.isPatient).mp hReturns
    obtain ⟨rfl, rfl⟩ := hTimed.eq_nil (by simp [hEnded])
    exact ⟨s, rfl, .nil s, hTimed⟩
  same _ := by
    have hOver : s.ended? ticket ≠ none := by simp [hEnded]
    rw [drive_of_ended hOver, drive_of_ended (s := s.untimed) hOver]

end Session

end ReplicatedStore
