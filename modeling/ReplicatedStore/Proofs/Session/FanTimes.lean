import ReplicatedStore.Proofs.Backend.Spans
import ReplicatedStore.Proofs.Session.Awaiting
import ReplicatedStore.Proofs.Session.WriteServing

/-!
# How long fan-outs take

A fan-out over the mains begins all its calls when it starts, and each of them takes its own time,
whatever the others do. So it is finished when the slowest main is. If it is given up before, then each
main that was done by then is as its call has left it, and at each of the others no object has changed.

Main results:

* `Branch.Paces` — where a branch stands at a time.
* `Session.Spanning.modifyFan` — one branch goes on, and the others stand where they stood.
* `Session.pace_spanning` — a request with a fan-out is done at a time that is known from the start.
-/

namespace ReplicatedStore

/-- Where a branch stands at a time whose fan-out has started in a world at another: its backend is as it
was and no time has passed, its call has begun at the start and is not due before now, or its call is
over and all its time has passed. -/
inductive Branch.Paces (w : World) (r : Request) (start now : Duration) (v : World) (b : Branch) : Prop
  | queued (hState : b.state = .queued) (hNow : now = start)
      (hSame : v.backends[b.backend]? = w.backends[b.backend]?)
  | running {delay : Duration} {held : Held} (hState : b.state = .running (start + delay) held)
      (hBegun : (w.begin b.backend r).2 = .waiting delay held) (hNow : now ≤ start + delay)
      (hSame : v.backends[b.backend]? = (w.begin b.backend r).1.backends[b.backend]?)
  | finished (hState : b.state = .finished) (hNow : start + w.span r b.backend ≤ now)
      (hSame : v.backends[b.backend]? = (w.call b.backend r).1.backends[b.backend]?)

namespace Branch

variable {u v w : World} {r : Request} {start now next due delay : Duration} {b : Branch} {held : Held}
  {o : Outcome}

theorem Paces.of_same (h : b.Paces w r start now u)
    (hSame : v.backends[b.backend]? = u.backends[b.backend]?) : b.Paces w r start now v := by
  cases h with
  | queued hState hNow hBefore => exact .queued hState hNow (hSame.trans hBefore)
  | running hState hBegun hNow hBefore => exact .running hState hBegun hNow (hSame.trans hBefore)
  | finished hState hNow hBefore => exact .finished hState hNow (hSame.trans hBefore)

theorem Paces.of_queued (h : b.Paces w r start now u) (hQueued : b.state = .queued) :
    now = start ∧ u.backends[b.backend]? = w.backends[b.backend]? := by
  cases h with
  | queued _ hNow hSame => exact ⟨hNow, hSame⟩
  | running hState =>
    rw [hQueued] at hState
    contradiction
  | finished hState =>
    rw [hQueued] at hState
    contradiction

theorem Paces.of_running (h : b.Paces w r start now u) (hRunning : b.state = .running due held) :
    due = start + w.span r b.backend ∧ now ≤ due ∧
      (∃ delay, (w.begin b.backend r).2 = .waiting delay held) ∧
      u.backends[b.backend]? = (w.begin b.backend r).1.backends[b.backend]? := by
  cases h with
  | queued hState =>
    rw [hRunning] at hState
    contradiction
  | running hState hBegun hNow hSame =>
    rw [hRunning] at hState
    cases hState
    exact ⟨by rw [World.span_of_waiting hBegun], hNow, ⟨_, hBegun⟩, hSame⟩
  | finished hState =>
    rw [hRunning] at hState
    contradiction

/-- Where a branch stands whose call has begun. -/
theorem Paces.begin (h : b.Paces w r start now u) (hw : w.IsScripted) (hQueued : b.state = .queued)
    (hBegin : u.begin b.backend r = (v, .waiting delay held)) :
    Paces w r start now v { b with state := .running (now + delay) held } := by
  obtain ⟨rfl, hSame⟩ := h.of_queued hQueued
  obtain ⟨hBegun, hOwn⟩ := World.begin_congr hw hSame r
  rw [hBegin] at hBegun hOwn
  exact .running rfl hBegun.symm (Nat.le_add_right ..) hOwn

/-- Where a branch stands whose call is over as soon as it begins. -/
theorem Paces.begin_over (h : b.Paces w r start now u) (hw : w.IsScripted) (hQueued : b.state = .queued)
    (hBegin : u.begin b.backend r = (v, .over o)) :
    Paces w r start now v { b with state := .finished } := by
  obtain ⟨rfl, hSame⟩ := h.of_queued hQueued
  obtain ⟨hBegun, hOwn⟩ := World.begin_congr hw hSame r
  rw [hBegin] at hBegun hOwn
  refine .finished rfl ?_ ?_
  · rw [World.span_of_over hBegun.symm]
    exact Nat.le_refl _
  · rw [World.call_of_over hBegun.symm]
    exact hOwn

/-- Where a branch stands whose call was finished when it was due. -/
theorem Paces.finish (h : b.Paces w r start now u) (hw : w.IsScripted)
    (hRunning : b.state = .running due held) (hPast : due ≤ now) :
    Paces w r start now (u.finish b.backend held).1 { b with state := .finished } := by
  obtain ⟨rfl, -, ⟨delay, hBegun⟩, hSame⟩ := h.of_running hRunning
  have hScripted : (w.begin b.backend r).1.IsScripted := hw.of_frame_eq (World.frame_begin ..)
  refine .finished rfl hPast ?_
  rw [World.call_of_waiting hBegun]
  exact (World.finish_congr hScripted hSame held).2

/-- Time passes up to what is due of a branch. -/
theorem Paces.later (h : b.Paces w r start now u) (hLater : now ≤ next)
    (hQueued : b.state = .queued → next ≤ now)
    (hRunning : ∀ due held, b.state = .running due held → next ≤ due) :
    b.Paces w r start next u := by
  cases h with
  | queued hState hNow hSame =>
    have hStill : next = now := Duration.ext (Nat.le_antisymm (hQueued hState) hLater)
    exact .queued hState (hStill.trans hNow) hSame
  | running hState hBegun _ hSame => exact .running hState hBegun (hRunning _ _ hState) hSame
  | finished hState hNow hSame => exact .finished hState (Nat.le_trans hNow hLater) hSame

/-- A branch that is over has taken its time. -/
theorem Paces.span_le (h : b.Paces w r start now u) (hOver : b.isOver = true) :
    start + w.span r b.backend ≤ now := by
  cases h with
  | queued hState => simp [isOver, hState] at hOver
  | running hState => simp [isOver, hState] at hOver
  | finished _ hNow => exact hNow

/-- A main whose time has passed is as its call has left it. -/
theorem Paces.of_span_lt (h : b.Paces w r start now u) (hSwift : start + w.span r b.backend < now) :
    u.backends[b.backend]? = (w.call b.backend r).1.backends[b.backend]? := by
  cases h with
  | queued _ hNow =>
    rw [hNow] at hSwift
    exact absurd (Nat.le_add_right ..) (Nat.not_le_of_lt hSwift)
  | running _ hBegun hNow =>
    rw [World.span_of_waiting hBegun] at hSwift
    exact absurd hNow (Nat.not_le_of_lt hSwift)
  | finished _ _ hSame => exact hSame

/-- At a main whose time has not passed no object has changed. -/
theorem Paces.of_lt_span (h : b.Paces w r start now u) (hw : w.IsScripted)
    (hSlow : now < start + w.span r b.backend) (a : Address) :
    u.objectAt? b.backend a = w.objectAt? b.backend a := by
  cases h with
  | queued _ _ hSame => exact World.objectAt?_congr hw hSame a
  | running _ hBegun _ hSame =>
    have hPauses := World.pauses_begin (Prod.ext rfl hBegun)
    rw [World.objectAt?_congr (hw.of_frame_eq (World.frame_begin ..)) hSame, hPauses.quiet]
  | finished _ hNow => exact absurd hNow (Nat.not_le_of_lt hSlow)

end Branch

namespace Session

/-! ## Fewer events ahead -/

/-- A branch that goes on leaves fewer events ahead. -/
theorem branchWork_modify_lt {branches : List Branch} {j : Nat} {b : Branch} {change : Branch → Branch}
    (hb : branches[j]? = some b) (hLess : branchWork (change b) < branchWork b) :
    (branches.modify j change).foldr (branchWork · + ·) 0 < branches.foldr (branchWork · + ·) 0 := by
  induction branches generalizing j with
  | nil => contradiction
  | cons c rest ih =>
    cases j with
    | zero =>
      rw [List.getElem?_cons_zero, Option.some.injEq] at hb
      subst hb
      simp only [List.modify_zero_cons, List.foldr_cons]
      omega
    | succ j =>
      have hRest := ih (j := j) (by simpa using hb)
      simp only [List.modify_succ_cons, List.foldr_cons]
      omega

theorem fanWork_le_of_mem {fans : List FanOut} {f : FanOut} (h : f ∈ fans) :
    fanWork f ≤ fans.foldr (fanWork · + ·) 0 := by
  induction fans with
  | nil => contradiction
  | cons g rest ih =>
    rw [List.foldr_cons]
    rcases List.mem_cons.mp h with rfl | hRest
    · exact Nat.le_add_right ..
    · exact Nat.le_trans (ih hRest) (Nat.le_add_left ..)

/-! ## Fan-outs that go on -/

/-- A request whose fan-out over the mains has started when it was asked. -/
structure Spanning (s : Session) (r : Request) (f : FanOut) (u : Session) : Prop where
  alone : Alone s r (.joining s.fans.length) u
  fans : u.fans = s.fans ++ [f]
  request : f.request = r
  backends : f.branches.map (·.backend) = s.world.mains
  branches : ∀ (j : Nat) b, f.branches[j]? = some b → b.Paces s.world r s.now u.now u.world
  others : ∀ i, i ∉ s.world.mains → u.world.backends[i]? = s.world.backends[i]?
  started : s.now ≤ u.now
  inTime : u.now ≤ s.now + s.world.longestSpan r s.world.mains

/-- What a fan-out has left at the backends that was given up. -/
structure Halted (s : Session) (r : Request) (v : Session) : Prop where
  swift : ∀ i ∈ s.world.mains, s.now + s.world.span r i < v.now →
    v.world.backends[i]? = (s.world.call i r).1.backends[i]?
  slow : ∀ i ∈ s.world.mains, v.now < s.now + s.world.span r i → ∀ a,
    v.world.objectAt? i a = s.world.objectAt? i a
  others : ∀ i, i ∉ s.world.mains → v.world.backends[i]? = s.world.backends[i]?

theorem Halted.of_eq {s u v : Session} {r : Request} (h : Halted s r u) (hNow : v.now = u.now)
    (hWorld : v.world = u.world) : Halted s r v := by
  constructor
  · rw [hNow, hWorld]
    exact h.swift
  · rw [hNow, hWorld]
    exact h.slow
  · rw [hWorld]
    exact h.others

variable {s u v : Session} {r : Request} {f : FanOut} {fan branch ticket : Nat} {b : Branch}
  {time : Duration} {x : Scheduled}

namespace Spanning

theorem getElem? (h : Spanning s r f u) : u.fans[s.fans.length]? = some f := by
  rw [h.fans]
  simp

theorem mem_mains (h : Spanning s r f u) {j : Nat} (hb : f.branches[j]? = some b) :
    b.backend ∈ s.world.mains := by
  rw [← h.backends]
  exact List.mem_map.mpr ⟨b, List.mem_of_getElem? hb, rfl⟩

theorem exists_branch (h : Spanning s r f u) {i : Nat} (hi : i ∈ s.world.mains) :
    ∃ (j : Nat) (b : Branch), f.branches[j]? = some b ∧ b.backend = i := by
  rw [← h.backends] at hi
  obtain ⟨b, hb, rfl⟩ := List.mem_map.mp hi
  obtain ⟨j, hj⟩ := List.getElem?_of_mem hb
  exact ⟨j, b, hj, rfl⟩

/-- A branch that is not over is one of this fan-out. -/
theorem eq_of_not_isOver (h : Spanning s r f u) (hFinished : ∀ g ∈ s.fans, g.isFinished = true)
    {g : FanOut} (hg : u.fans[fan]? = some g) (hb : g.branches[branch]? = some b)
    (hOpen : b.isOver = false) : fan = s.fans.length ∧ g = f := by
  rw [h.fans] at hg
  rcases Nat.lt_trichotomy fan s.fans.length with hLt | rfl | hGt
  · rw [List.getElem?_append_left hLt] at hg
    have hOver := List.all_eq_true.mp (hFinished g (List.mem_of_getElem? hg)) b (List.mem_of_getElem? hb)
    rw [hOver] at hOpen
    contradiction
  · rw [List.getElem?_append_right (Nat.le_refl _), Nat.sub_self, List.getElem?_cons_zero,
      Option.some.injEq] at hg
    exact ⟨rfl, hg.symm⟩
  · rw [List.getElem?_eq_none (by simp; omega)] at hg
    contradiction

/-- One branch goes on by a step of its own main, and the others stand where they stood. -/
theorem modifyFan (h : Spanning s r f u) {world : World} {j : Nat} {state : BranchState}
    {change : FanOut → FanOut} (hb : f.branches[j]? = some b)
    (hChange : (change f).branches = (f.setState j state).branches)
    (hRequest : (change f).request = f.request)
    (hOthers : ∀ i, b.backend ≠ i → world.backends[i]? = u.world.backends[i]?)
    (hNew : Branch.Paces s.world r s.now u.now world { b with state }) :
    Spanning s r (change f) ({ u with world }.modifyFan s.fans.length change) := by
  have hStands : StandsBy s ({ u with world }.modifyFan s.fans.length change) :=
    { h.alone.toStandsBy with }
  refine ⟨⟨hStands, h.alone.running⟩, ?_, hRequest.trans h.request, ?_, ?_, fun i hi => ?_, h.started,
    h.inTime⟩
  · show u.fans.modify s.fans.length change = _
    rw [h.fans, modify_length_append]
  · rw [hChange, FanOut.backends_setState, h.backends]
  · intro k c hc
    rw [hChange] at hc
    have hNodup : (f.branches.map (·.backend)).Nodup := h.backends ▸ s.world.nodup_mains
    rcases FanOut.setState_cases_of_nodup hNodup hb hc with ⟨-, rfl⟩ | ⟨hNe, hc⟩
    · exact hNew
    · exact (h.branches k c hc).of_same (hOthers c.backend hNe)
  · have hNe : b.backend ≠ i := fun hEq => hi (hEq ▸ h.mem_mains hb)
    exact (hOthers i hNe).trans (h.others i hi)

/-- A branch begins, and fewer events are ahead. -/
theorem start (h : Spanning s r f u) (hw : s.world.IsScripted)
    (hFinished : ∀ g ∈ s.fans, g.isFinished = true) (hStep : u.step? (.start fan branch) = some v) :
    ∃ g, Spanning s r g v ∧ fanWork g < fanWork f := by
  obtain ⟨g, b, hg, hb, hQueued, hCall⟩ := start?_eq_some hStep
  obtain ⟨rfl, rfl⟩ := h.eq_of_not_isOver hFinished hg hb (by simp [Branch.isOver, hQueued])
  rw [h.request] at hCall
  have hOthers (i : Nat) (hi : b.backend ≠ i) := World.getElem?_begin_of_ne u.world hi r
  rcases hCall with ⟨world, delay, held, hBegin, rfl⟩ | ⟨world, o, hBegin, rfl⟩
  · rw [hBegin] at hOthers
    exact ⟨_, h.modifyFan hb rfl rfl hOthers ((h.branches _ b hb).begin hw hQueued hBegin),
      branchWork_modify_lt hb (by simp [branchWork, hQueued])⟩
  · rw [hBegin] at hOthers
    exact ⟨_, h.modifyFan hb rfl rfl hOthers ((h.branches _ b hb).begin_over hw hQueued hBegin),
      branchWork_modify_lt hb (by simp [branchWork, hQueued])⟩

/-- A branch is finished, and fewer events are ahead. -/
theorem complete (h : Spanning s r f u) (hw : s.world.IsScripted)
    (hFinished : ∀ g ∈ s.fans, g.isFinished = true) (hStep : u.step? (.complete fan branch) = some v) :
    ∃ g, Spanning s r g v ∧ fanWork g < fanWork f := by
  obtain ⟨g, b, due, held, hg, hb, hRunning, hPast, rfl⟩ := complete?_eq_some hStep
  obtain ⟨rfl, rfl⟩ := h.eq_of_not_isOver hFinished hg hb (by simp [Branch.isOver, hRunning])
  exact ⟨_, h.modifyFan hb rfl rfl (fun i hi => World.getElem?_finish_of_ne u.world hi held)
    ((h.branches _ b hb).finish hw hRunning hPast),
    branchWork_modify_lt hb (by simp [branchWork, hRunning])⟩

/-! ## Time -/

/-- A fan-out is finished when its slowest main is. -/
theorem now_of_isFinished (h : Spanning s r f u) (hFinished : f.isFinished = true) :
    u.now = s.now + s.world.longestSpan r s.world.mains := by
  refine Duration.ext (Nat.le_antisymm h.inTime ?_)
  have hLongest : s.world.longestSpan r s.world.mains ≤ u.now - s.now := by
    rw [World.longestSpan_le_iff]
    intro i hi
    obtain ⟨j, b, hb, rfl⟩ := h.exists_branch hi
    have hOver := List.all_eq_true.mp hFinished b (List.mem_of_getElem? hb)
    exact Nat.le_sub_of_add_le' ((h.branches j b hb).span_le hOver)
  have hStarted := h.started
  rw [Duration.le_def] at hLongest hStarted
  rw [Duration.nanos_sub] at hLongest
  rw [Duration.nanos_add]
  omega

/-- Something is due until the fan-out is finished and joined. -/
theorem exists_due (h : Spanning s r f u) :
    ∃ x ∈ u.untimed.events, x.time ≤ s.now + s.world.longestSpan r s.world.mains := by
  cases hFinished : f.isFinished with
  | true =>
    refine ⟨⟨u.now, 0, u.now, .join s.tickets⟩, ?_, h.inTime⟩
    refine mem_events_of_order (List.mem_map_of_mem h.alone.mem_running) ?_
    have hIs : u.untimed.isFinished s.fans.length = true := by
      rw [isFinished_untimed, isFinished, h.getElem?, Option.all_some, hFinished]
    show _ ∈ if u.untimed.isFinished s.fans.length then _ else _
    rw [if_pos hIs]
    exact List.mem_singleton_self _
  | false =>
    obtain ⟨b, hMem, hOpen⟩ := List.all_eq_false.mp hFinished
    obtain ⟨branch, hb⟩ := List.getElem?_of_mem hMem
    have hf : u.untimed.fans[s.fans.length]? = some f := h.getElem?
    cases h.branches branch b hb with
    | queued hState =>
      refine ⟨⟨u.now, 3, u.now, .start s.fans.length branch⟩, mem_events_of_branch hf hb ?_, h.inTime⟩
      simp only [eventOfBranch?, hState]
      rfl
    | @running delay held hState hBegun hNow =>
      refine ⟨⟨s.now + delay, 4, s.now + delay, .complete s.fans.length branch⟩,
        mem_events_of_branch hf hb ?_, ?_⟩
      · have hTime : u.untimed.atLeastNow (s.now + delay) = s.now + delay := atLeastNow_of_le hNow
        simp only [eventOfBranch?, hState, hTime]
      · have hSpan := World.span_le_longestSpan (w := s.world) (r := r) (h.mem_mains hb)
        rw [World.span_of_waiting hBegun] at hSpan
        exact Nat.add_le_add_left hSpan _
    | finished hState => simp [Branch.isOver, hState] at hOpen

theorem tick (h : Spanning s r f u) (hDue : ∀ x ∈ u.events, time ≤ x.time) :
    Spanning s r f (u.tick time) := by
  have hAlone := h.alone.tick hDue
  have hLater := now_le_now_tick u time
  have hStarted := Nat.le_trans h.started hLater
  have hInTime : (u.tick time).now ≤ s.now + s.world.longestSpan r s.world.mains := by
    obtain ⟨x, hx, hSoon⟩ := h.exists_due
    exact now_tick_le h.inTime (Nat.le_trans (hDue x (mem_events_of_untimed hx)) hSoon)
  have hBranches (j : Nat) (b : Branch) (hb : f.branches[j]? = some b) :
      b.Paces s.world r s.now (u.tick time).now u.world := by
    refine (h.branches j b hb).later hLater (fun hQueued => ?_) fun due held hRunning => ?_
    · have hUntil := hDue ⟨u.now, 3, u.now, .start s.fans.length j⟩
        (mem_events_of_branch h.getElem? hb (by simp [eventOfBranch?, hQueued]))
      exact now_tick_le (Nat.le_refl _) hUntil
    · obtain ⟨-, hNow, -⟩ := (h.branches j b hb).of_running hRunning
      have hUntil := hDue ⟨u.atLeastNow due, 4, due, .complete s.fans.length j⟩
        (mem_events_of_branch h.getElem? hb (by simp [eventOfBranch?, hRunning]))
      rw [atLeastNow_of_le hNow] at hUntil
      exact now_tick_le hNow hUntil
  obtain ⟨watched, now, hEq, -⟩ := tick_eq u time
  rw [hEq] at hAlone hStarted hInTime hBranches ⊢
  exact ⟨hAlone, h.fans, h.request, h.backends, hBranches, h.others, hStarted, hInTime⟩

theorem halted (h : Spanning s r f u) (hw : s.world.IsScripted) : Halted s r u where
  swift := by
    intro i hi hSwift
    obtain ⟨j, b, hb, rfl⟩ := h.exists_branch hi
    exact (h.branches j b hb).of_span_lt hSwift
  slow := by
    intro i hi hSlow a
    obtain ⟨j, b, hb, rfl⟩ := h.exists_branch hi
    exact (h.branches j b hb).of_lt_span hw hSlow a
  others := h.others

end Spanning

/-- A request with a fan-out is done when its slowest main is, or it is given up before. -/
theorem pace_spanning (hw : s.world.IsScripted) (hFinished : ∀ g ∈ s.fans, g.isFinished = true) :
    Pace s.tickets (s.now + s.world.longestSpan r s.world.mains) s.deadline
      (fun n u => ∃ f, Spanning s r f u ∧ fanWork f = n)
      (fun v => Abandoned s r v ∧ Halted s r v) where
  unended := fun ⟨_, h, _⟩ => h.alone.unended
  deadlines := fun ⟨_, h, _⟩ => h.alone.deadlines
  ahead := by
    rintro n u ⟨f, h, rfl⟩
    have hLess : fanWork f ≤ u.fans.foldr (fanWork · + ·) 0 :=
      fanWork_le_of_mem (List.mem_of_getElem? h.getElem?)
    simp only [work, h.alone.running, List.foldr_cons, List.foldr_nil, orderWork]
    omega
  due := fun ⟨_, h, _⟩ => h.exists_due
  enabled := by
    rintro n u ⟨f, h, -⟩
    refine h.alone.enabled fun x hx => ?_
    have hJoin : x ∈ if u.isFinished s.fans.length then
      [(⟨u.now, 0, u.now, .join s.tickets⟩ : Scheduled)] else [] := hx
    split at hJoin
    · rename_i hIs
      obtain rfl := List.mem_singleton.mp hJoin
      have hStill : u.tick u.now = u := if_pos (Nat.le_refl _)
      rw [isFinished, h.getElem?, Option.all_some] at hIs
      rw [hStill]
      simp [step?, join?, h.alone.running?_eq, h.getElem?, hIs]
    · contradiction
  tick := by
    rintro n u time ⟨f, h, hWork⟩ hDue
    exact ⟨f, h.tick hDue, hWork⟩
  event := by
    rintro n u v x ⟨f, h, rfl⟩ hStep
    cases x with
    | start fan branch =>
      obtain ⟨g, hNext, hLess⟩ := h.start hw hFinished hStep
      exact .inl ⟨rfl, .inl ⟨fanWork g, hLess, g, hNext, rfl⟩⟩
    | complete fan branch =>
      obtain ⟨g, hNext, hLess⟩ := h.complete hw hFinished hStep
      exact .inl ⟨rfl, .inl ⟨fanWork g, hLess, g, hNext, rfl⟩⟩
    | resume ticket =>
      obtain ⟨p, request, walk, due, held, hp, -, hActivity, -⟩ := resume?_eq_some hStep
      obtain ⟨-, rfl⟩ := h.alone.of_running? hp
      cases hActivity
    | expire ticket =>
      have hFans : (u.giveUp (.joining s.fans.length)).fans = s.fans ++ [f.cancel] := by
        show u.fans.modify s.fans.length (·.cancel) = _
        rw [h.fans, modify_length_append]
      have hOver : ∀ g ∈ (u.giveUp (.joining s.fans.length)).fans, g.isFinished = true := by
        intro g hg
        rw [hFans] at hg
        rcases List.mem_append.mp hg with hOld | hNew
        · exact hFinished g hOld
        · rw [List.mem_singleton.mp hNew]
          exact f.isFinished_cancel
      obtain ⟨hDeadline, hNow, hWorld, -, hAbandoned⟩ := h.alone.gives_up hStep hOver
      obtain ⟨after, -, hEnded⟩ := hAbandoned.ended
      exact .inr ⟨by simp [hEnded], u.now, hDeadline, h.inTime, hNow, hAbandoned,
        (h.halted hw).of_eq hNow hWorld⟩
    | join ticket =>
      obtain ⟨p, hp, ⟨request, fan, g, -, hActivity, hg, hIs, rfl⟩ | ⟨fans, hActivity, -⟩⟩ :=
        join?_eq_some hStep
      · obtain ⟨rfl, rfl⟩ := h.alone.of_running? hp
        cases hActivity
        rw [h.getElem?, Option.some.injEq] at hg
        subst hg
        have hDone := h.now_of_isFinished hIs
        refine .inl ⟨rfl, .inr ⟨?_, ?_, fun d hd => ?_⟩⟩
        · show (finish _ _ _).ended? s.tickets ≠ none
          rw [ended?_finish_self]
          exact Option.some_ne_none _
        · rw [now_endFan, hDone]
        · rw [← hDone]
          exact h.alone.onTime d hd
      · obtain ⟨-, rfl⟩ := h.alone.of_running? hp
        cases hActivity

end Session

end ReplicatedStore
