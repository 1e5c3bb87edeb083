import Mathlib.Data.List.Nodup
import ReplicatedStore.Proofs.Session.Turns

/-!
# Nothing is lost sight of

As long as something is left to do on a fan-out, it is among the launched ones, or an order waits for it.
So an order that waits for all that was launched, while nobody else waits for anything, waits for all
fan-outs there are, and they are finished when it returns.

Main results:

* `Session.attended_of_reachable` — every fan-out on which something is left to do is attended.
* `Session.drained_of_returns` — what is finished when the background writes have been waited for.
* `Session.running_eq_nil_of_returns` — a caller that waits for each result is alone every time.
-/

namespace ReplicatedStore

namespace Session

/-- Whether somebody attends every fan-out on which something is left to do. -/
structure Attended (s : Session) : Prop where
  distinct : (s.running.map (·.ticket)).Nodup
  unended : ∀ p ∈ s.running, s.ended? p.ticket = none
  /-- nobody gives up waiting for background writes -/
  patient : ∀ p ∈ s.running, ∀ fans, p.activity = .draining fans → p.deadline = none
  attends : ∀ fan, s.isFinished fan = false → s.Attends fan

variable {s t u : Session} {ticket fan : Nat} {o : Order} {m : Move} {moves : List Move} {e : Ended}

theorem Attended.eq_of_ticket_eq (h : s.Attended) {p q : Running} (hp : p ∈ s.running)
    (hq : q ∈ s.running) (hTicket : p.ticket = q.ticket) : p = q :=
  List.inj_on_of_nodup_map h.distinct hp hq hTicket

/-! ## Everything is attended -/

/-- A turn keeps everything attended if what its order has waited for is finished. -/
theorem attended_of_turns (h : s.Attended) (hOpen : s.ended? ticket = none)
    (hDone : ∀ p ∈ s.running, p.ticket = ticket → ∀ fan, p.activity.Awaits fan →
      s.isFinished fan = true) (hTurns : Turns ticket o s t) : t.Attended := by
  have hDistinct : ((s.running.filter (·.ticket != ticket)).map (·.ticket)).Nodup :=
    (List.filter_sublist.map _).nodup h.distinct
  constructor
  · rcases hTurns.running with ⟨e, hRunning, -⟩ | ⟨q, hTicket, -, -, hRunning, -⟩
    · rw [hRunning]
      exact hDistinct
    · rw [hRunning, List.map_append, List.map_singleton]
      refine FanOut.nodup_concat hDistinct fun hMem => ?_
      obtain ⟨p, hp, hEq⟩ := List.mem_map.mp hMem
      exact (ticket_ne_of_mem_filter hp).2 (hEq.trans hTicket)
  · intro p hp
    rcases hTurns.running with ⟨e, hRunning, hEnded⟩ | ⟨q, hTicket, -, -, hRunning, hEnded⟩
    · rw [hRunning] at hp
      obtain ⟨hMem, hNe⟩ := ticket_ne_of_mem_filter hp
      rw [ended?, hEnded, ended?_cons_of_ne e hNe]
      exact h.unended p hMem
    · rw [hRunning, List.mem_append, List.mem_singleton] at hp
      rw [ended?, hEnded]
      rcases hp with hOld | rfl
      · exact h.unended p (ticket_ne_of_mem_filter hOld).1
      · rw [hTicket]
        exact hOpen
  · intro p hp fans hDrains
    rcases hTurns.running with ⟨e, hRunning, -⟩ | ⟨q, -, -, hPatient, hRunning, -⟩
    · rw [hRunning] at hp
      exact h.patient p (ticket_ne_of_mem_filter hp).1 fans hDrains
    · rw [hRunning, List.mem_append, List.mem_singleton] at hp
      rcases hp with hOld | rfl
      · exact h.patient p (ticket_ne_of_mem_filter hOld).1 fans hDrains
      · exact hPatient fans hDrains
  · intro fan hUnfinished
    -- it is the fan-out that was started, or it was attended before
    have hCases : t.Attends fan ∨ s.isFinished fan = false := by
      rcases hTurns.fans with hSame | ⟨r, backends, detached, -, hFans, hNew⟩
      · exact .inr (by rw [← hUnfinished, isFinished_eq_of_fans hSame])
      · by_cases hEq : fan = s.fans.length
        · exact .inl (hEq ▸ hNew)
        · have hLt := lt_of_isFinished_eq_false hUnfinished
          rw [hFans, List.length_append, List.length_singleton] at hLt
          right
          have hSame : t.fans[fan]? = s.fans[fan]? := by
            rw [hFans]
            exact List.getElem?_append_left (by omega)
          rw [← hUnfinished, isFinished, isFinished, hSame]
    rcases hCases with hNow | hBefore
    · exact hNow
    · rcases h.attends fan hBefore with hLaunched | ⟨p, hp, hAwaits⟩
      · exact hTurns.launched fan hLaunched hBefore
      · refine .inr ⟨p, hTurns.mem_running_of_ne hp fun hTicket => ?_, hAwaits⟩
        have hFinished := hDone p hp hTicket fan hAwaits
        rw [hBefore] at hFinished
        contradiction

/-- A fan-out that is unfinished was so before. -/
theorem isFinished_eq_false_of_move? (hMove : s.move? m = some t) (hFan : fan < s.fans.length)
    (hOpen : t.isFinished fan = false) : s.isFinished fan = false := by
  by_contra hNot
  have hFinished := isFinished_of_move? hMove hFan (by simpa using hNot)
  rw [hOpen] at hFinished
  contradiction

/-- An order that is given up leaves nothing to do on the fan-out that it has joined. -/
theorem isFinished_giveUp (hFan : fan < s.fans.length) :
    (s.giveUp (.joining fan)).isFinished fan = true := by
  have hf : s.fans[fan]? = some s.fans[fan] := List.getElem?_eq_getElem hFan
  have hCancelled : (s.giveUp (.joining fan)).fans[fan]? = some s.fans[fan].cancel :=
    getElem?_modifyFan_self hf _
  rw [isFinished, hCancelled, Option.all_some]
  exact FanOut.isFinished_cancel _

theorem attended_of_move? (h : s.Attended) (hs : s.Sound) (hMove : s.move? m = some t) :
    t.Attended := by
  cases turn_of_move? hMove with
  | @order _ ticket p hp hOrder hDone hTurns =>
    obtain ⟨hMem, hTicket⟩ := mem_of_running? hp
    refine attended_of_turns h (hTicket ▸ h.unended p hMem) (fun q hq hSame => ?_) hTurns
    rwa [h.eq_of_ticket_eq hq hMem (hSame.trans hTicket.symm)]
  | submit hAsks hTurns =>
    refine attended_of_turns h (ended?_of_sound hs (Nat.le_refl _)) (fun q hq hSame => ?_) hTurns
    have hGiven := hs.running q hq
    omega
  | @expire ticket p e hp hDeadline hEnds =>
    have hLength := length_fans_giveUp s p.activity
    obtain ⟨hMem, hTicket⟩ := mem_of_running? hp
    have hFans : t.fans = (s.giveUp p.activity).fans := by rw [hEnds]; rfl
    rw [giveUp_eq] at hEnds
    have hRunning : t.running = s.running.filter (·.ticket != ticket) := by rw [hEnds]; rfl
    have hLaunched : t.launched = s.launched := by rw [hEnds]; rfl
    have hEnded : t.ended = (ticket, e) :: s.ended := by rw [hEnds]; rfl
    refine ⟨?_, fun q hq => ?_, fun q hq => ?_, fun fan hUnfinished => ?_⟩
    · rw [hRunning]
      exact (List.filter_sublist.map _).nodup h.distinct
    · rw [hRunning] at hq
      obtain ⟨hOld, hNe⟩ := ticket_ne_of_mem_filter hq
      rw [ended?, hEnded, ended?_cons_of_ne e hNe]
      exact h.unended q hOld
    · rw [hRunning] at hq
      exact h.patient q (ticket_ne_of_mem_filter hq).1
    · have hFan := lt_of_isFinished_eq_false hUnfinished
      rw [hFans, hLength] at hFan
      rcases h.attends fan (isFinished_eq_false_of_move? hMove hFan hUnfinished) with
        hBefore | ⟨q, hq, hAwaits⟩
      · exact .inl (hLaunched ▸ hBefore)
      · right
        refine ⟨q, ?_, hAwaits⟩
        rw [hRunning]
        refine mem_filter_ticket hq fun hSame => ?_
        -- who is given up does not wait for background writes, and the fan-out joined is cancelled
        obtain rfl := h.eq_of_ticket_eq hq hMem (hSame.trans hTicket.symm)
        cases hActivity : q.activity with
        | walking walk due held =>
          rw [hActivity] at hAwaits
          exact hAwaits
        | draining fans => exact hDeadline (h.patient q hq fans hActivity)
        | joining other =>
          rw [hActivity] at hAwaits hFans
          obtain rfl : other = fan := hAwaits
          rw [isFinished_eq_of_fans hFans, isFinished_giveUp hFan] at hUnfinished
          contradiction
  | @branch _ other f world change hFan hf hKin hEq =>
    subst hEq
    refine ⟨h.distinct, h.unended, h.patient, fun fan hUnfinished => ?_⟩
    have hLt := lt_of_isFinished_eq_false hUnfinished
    have hLength : (s.fans.modify other change).length = s.fans.length := List.length_modify ..
    exact h.attends fan (isFinished_eq_false_of_move? hMove (hLength ▸ hLt) hUnfinished)
  | rest hEq =>
    subst hEq
    exact ⟨h.distinct, h.unended, h.patient, h.attends⟩

theorem attended_of_run? (h : s.Attended) (hs : s.Sound) (hRun : s.run? moves = some t) :
    t.Attended := by
  have hBoth : t.Sound ∧ t.Attended := by
    refine run?_induction (P := fun s => s.Sound ∧ s.Attended) hRun ⟨hs, h⟩ ?_
    rintro a b m ⟨hSound, hAttended⟩ hMove
    exact ⟨sound_of_move? hSound hMove, attended_of_move? hAttended hSound hMove⟩
  exact hBoth.2

theorem attended_of_reachable (h : s.Reachable) : s.Attended := by
  obtain ⟨world, replication, strategy, timeout, picks, moves, hRun⟩ := h
  have hSound : { ofWorld world replication strategy with timeout, picks }.Sound :=
    sound_of_reachable ⟨world, replication, strategy, timeout, picks, [], rfl⟩
  refine attended_of_run? ⟨?_, ?_, ?_, ?_⟩ hSound hRun
  · exact List.nodup_nil
  · intro p hp
    simp [ofWorld] at hp
  · intro p hp
    simp [ofWorld] at hp
  · intro fan hOpen
    simp [ofWorld, isFinished] at hOpen

/-- While nobody waits for anything, what is left to do was launched. -/
theorem mem_launched_of_idle (h : s.Attended) (hIdle : s.running = [])
    (hOpen : s.isFinished fan = false) : fan ∈ s.launched := by
  rcases h.attends fan hOpen with hLaunched | ⟨p, hp, -⟩
  · exact hLaunched
  · rw [hIdle] at hp
    contradiction

/-! ## Waiting for background writes -/

/-- An order that waits for all of the first fan-outs on which something is left to do. -/
structure Draining (n ticket : Nat) (s : Session) : Prop where
  sound : s.Sound
  unended : s.ended? ticket = none
  enough : n ≤ s.fans.length
  waits : ∃ fans, s.running? ticket = some { ticket, order := .wait, activity := .draining fans } ∧
    ∀ fan < n, s.isFinished fan = false → fan ∈ fans

/-- An order that has waited for all of the first fan-outs. -/
structure Drained (n ticket : Nat) (s : Session) : Prop where
  ends : s.Over ticket (.returned (.ok .done))
  finished : ∀ fan < n, s.isFinished fan = true

variable {n : Nat}

theorem Drained.isOver (h : Drained n ticket s) : s.ended? ticket ≠ none := by
  simp [h.ends.ended]

theorem draining_of_move? (h : Draining n ticket s) (hMove : s.move? m = some t) :
    Draining n ticket t ∨ Drained n ticket t := by
  obtain ⟨fans, hOrder, hAll⟩ := h.waits
  obtain ⟨hMem, -⟩ := mem_of_running? hOrder
  have hGiven : ticket < s.tickets := h.sound.running _ hMem
  have hSound := sound_of_move? h.sound hMove
  have hGoesOn := goesOn_of_move? hMove
  by_cases hOwn : ConcernsOrder ticket m
  · cases hOwn with
    | resume =>
      obtain ⟨p, request, walk, due, held, hp, -, hActivity, -⟩ := resume?_eq_some hMove
      rw [hOrder] at hp
      cases hp
      contradiction
    | expire =>
      obtain ⟨p, deadline, request, after, hp, hDeadline, -⟩ := expire?_eq_some hMove
      rw [hOrder] at hp
      cases hp
      contradiction
    | join =>
      obtain ⟨p, hp, ⟨request, other, f, -, hActivity, -⟩ | ⟨fans', hActivity, hFinished, rfl⟩⟩ :=
        join?_eq_some hMove
      · rw [hOrder] at hp
        cases hp
        contradiction
      · rw [hOrder] at hp
        cases hp
        cases hActivity
        refine .inr ⟨⟨hSound, hGiven, running?_finish_self .., ended?_finish_self ..⟩, fun fan hFan => ?_⟩
        show s.isFinished fan = true
        by_contra hNot
        have hOpen : s.isFinished fan = false := by simpa using hNot
        exact hNot (List.all_eq_true.mp hFinished fan (hAll fan hFan hOpen))
  · have hLeaves := leavesOrder_of_move? hGiven hOwn hMove
    refine .inl ⟨hSound, hLeaves.ended.trans h.unended, Nat.le_trans h.enough hGoesOn.fans, fans,
      hLeaves.running.trans hOrder, fun fan hFan hOpen => hAll fan hFan ?_⟩
    have hEnough := h.enough
    exact isFinished_eq_false_of_move? hMove (by omega) hOpen

/-- Who asks to wait while nobody waits for anything waits for all that is left to do. -/
theorem draining_submit (hs : s.Sound) (hAttended : s.Attended) (hIdle : s.running = []) :
    Draining s.fans.length s.tickets (s.submit .wait) ∨
      Drained s.fans.length s.tickets (s.submit .wait) := by
  have hMove : s.move? (.submit .wait) = some (s.submit .wait) := rfl
  have hSound := sound_of_move? hs hMove
  have hLaunched : ∀ fan, s.isFinished fan = false → fan ∈ s.launched :=
    fun fan hOpen => mem_launched_of_idle hAttended hIdle hOpen
  have hEq : s.submit .wait = { s with tickets := s.tickets + 1 }.startDrain s.tickets .wait := rfl
  rw [startDrain] at hEq
  simp only at hEq
  split at hEq
  · rename_i hAll
    rw [hEq] at hSound ⊢
    refine .inr ⟨⟨hSound, Nat.lt_succ_self _, running?_finish_self .., ended?_finish_self ..⟩,
      fun fan _ => ?_⟩
    show s.isFinished fan = true
    by_contra hNot
    have hOpen : s.isFinished fan = false := by simpa using hNot
    exact hNot (List.all_eq_true.mp hAll fan (hLaunched fan hOpen))
  · rw [hEq] at hSound ⊢
    refine .inl ⟨hSound, ?_, Nat.le_refl _, s.launched, running?_suspend_self .., fun fan _ hOpen => ?_⟩
    · exact ended?_of_sound hs (Nat.le_refl _)
    · exact hLaunched fan hOpen

/-- When the background writes have been waited for, all fan-outs that were there are finished. -/
theorem drained_of_returns (hs : s.Sound) (hAttended : s.Attended) (hIdle : s.running = [])
    (hReturns : s.Returns s.tickets (.submit .wait :: moves) t e) :
    Drained s.fans.length s.tickets t := by
  obtain ⟨u, hMove, hRest⟩ := hReturns.of_cons
  cases hMove
  exact returns_induction (C := fun _ => True) hRest (fun _ _ => trivial)
    (draining_submit hs hAttended hIdle) Draining.unended Drained.isOver
    fun h _ hMove => draining_of_move? h hMove

/-! ## One caller -/

/-- Moves that are up to nobody bring no new order. -/
theorem alone_of_move? (h : ∀ p ∈ s.running, p.ticket = ticket) (hFree : m.isFree = true)
    (hMove : s.move? m = some t) : ∀ p ∈ t.running, p.ticket = ticket := by
  intro p hp
  cases turn_of_move? hMove with
  | order hq hOrder hDone hTurns =>
    obtain ⟨hMem, hTicket⟩ := mem_of_running? hq
    rcases hTurns.mem_running hp with ⟨hOld, -⟩ | ⟨hNew, -⟩
    · exact h p hOld
    · exact hNew.trans (hTicket.symm.trans (h _ hMem))
  | submit hAsks => cases hAsks <;> contradiction
  | @expire other q e hq hDeadline hEnds =>
    rw [giveUp_eq] at hEnds
    have hRunning : t.running = s.running.filter (·.ticket != other) := by rw [hEnds]; rfl
    rw [hRunning] at hp
    exact h p (ticket_ne_of_mem_filter hp).1
  | branch hFan hf hKin hEq =>
    subst hEq
    exact h p hp
  | rest hEq =>
    subst hEq
    exact h p hp

/-- A caller that was alone and has got its result is alone again. -/
theorem running_eq_nil_of_returns (hs : s.Sound) (hAttended : s.Attended) (hIdle : s.running = [])
    (hFree : ∀ m ∈ moves, m.isFree = true)
    (hReturns : s.Returns s.tickets (.submit o :: moves) t e) : t.running = [] := by
  obtain ⟨u, hMove, hRest⟩ := run?_cons_eq_some.mp hReturns.run
  cases hMove
  have hStart : ∀ p ∈ (s.submit o).running, p.ticket = s.tickets := by
    intro p hp
    rcases (turns_submit s o).mem_running hp with ⟨hOld, -⟩ | ⟨hNew, -⟩
    · rw [hIdle] at hOld
      contradiction
    · exact hNew
  have hAlone : ∀ p ∈ t.running, p.ticket = s.tickets :=
    run?_induction_of (P := fun x => ∀ p ∈ x.running, p.ticket = s.tickets) hRest hFree hStart
      fun h hIsFree hNext => alone_of_move? h hIsFree hNext
  have hLast := attended_of_run? hAttended hs hReturns.run
  refine List.eq_nil_iff_forall_not_mem.mpr fun p hp => ?_
  have hNone := hLast.unended p hp
  rw [hAlone p hp, hReturns.ended] at hNone
  contradiction

end Session

end ReplicatedStore
