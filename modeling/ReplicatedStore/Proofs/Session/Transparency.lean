import ReplicatedStore.Proofs.Session.Sequence

/-!
# A cache changes nothing but the effort

Two clients over the same backends, whatever their caches are, serve the same tasks with the same
results, failures up to their texts, and leave the same objects at all backends, after each task. Writes
may fail at any main and so leave the mains apart; reads go through the backends in the same order
every time, so both clients see the same main first.

Main results:

* `Session.Twins.does` — sessions at rest over worlds that are alike stay so, with the same result.
* `Session.serves_alike` — so do two clients, task after task.
-/

namespace ReplicatedStore

theorem StoreError.outline_eq_of_sameUpToOrder {e e' : StoreError} (h : e.SameUpToOrder e') :
    e.outline = e'.outline := by
  cases h <;> rfl

theorem Ended.outline_eq_of_sameUpToOrder {e e' : Ended} (h : e.SameUpToOrder e') :
    e.outline = e'.outline := by
  cases h with
  | same e => rfl
  | error h => rw [Ended.outline, Ended.outline, StoreError.outline_eq_of_sameUpToOrder h]

namespace Session

/-- Two sessions at rest whose worlds are alike. Their caches and clocks need not be. -/
structure Twins (s s' : Session) : Prop where
  left : s.AtRest
  right : s'.AtRest
  alike : s.world.Alike s'.world

variable {s s' t t' : Session} {r : Request} {task : Task} {tasks : List Task} {e e' : Option Ended}
  {outs outs' : List (Nat × Outcome)} {history history' : List (Option Ended × Session)}

theorem failures_eq (h : s.world.Alike s'.world) (r : Request) (outs : List (Nat × Outcome)) :
    s.failures r outs = s'.failures r outs := by
  have hMains := World.mains_of_frame_eq h.frame
  rw [failures, failures, hMains, FanOut.failureOf?_congr rfl rfl (World.nameOf_of_frame_eq h.frame)]

/-- How a write ends depends on the order of its outcomes in the order of the failures alone. -/
theorem outline_endOfWrite (h : s.world.Alike s'.world) (hOuts : outs.Perm outs') :
    (s.endOfWrite r outs).outline = (s'.endOfWrite r outs').outline := by
  have hFailures : (s.failures r outs).Perm (s'.failures r outs') := by
    rw [failures_eq h]
    exact hOuts.filterMap _
  have hSame := StoreError.sameUpToOrder_aggregate r.operation s'.world.mains.length hFailures
  rw [endOfWrite, endOfWrite, World.mains_of_frame_eq h.frame]
  split
  · rfl
  · exact Ended.outline_eq_of_sameUpToOrder (sameUpToOrder_endOfVerdict hSame)

theorem Twins.does_read (h : Twins s s') (hSimple : r.address.IsSimple) (hRead : r.isWrite = false)
    (hDoes : s.Does (.request r) e t) (hDoes' : s'.Does (.request r) e' t') :
    e.map Ended.outline = e'.map Ended.outline ∧ Twins t t' := by
  obtain ⟨hRest, hAlike, hEnded⟩ := h.left.does_read hSimple hRead hDoes
  obtain ⟨hRest', hAlike', hEnded'⟩ := h.right.does_read hSimple hRead hDoes'
  refine ⟨?_, hRest, hRest', ?_⟩
  · rw [hEnded, hEnded', h.alike.told_eq]
  · exact (hAlike.trans h.alike).trans hAlike'.symm

theorem Twins.does_write (h : Twins s s') (hWrite : r.isWrite = true)
    (hDoes : s.Does (.request r) e t) (hDoes' : s'.Does (.request r) e' t') :
    e.map Ended.outline = e'.map Ended.outline ∧ Twins t t' := by
  obtain ⟨hRest, outs, hWritten, rfl⟩ := h.left.does_write hWrite hDoes
  obtain ⟨hRest', outs', hWritten', rfl⟩ := h.right.does_write hWrite hDoes'
  -- the mains fail alike in both worlds, in whatever order
  obtain ⟨hOuts, hAlike⟩ :=
    hWritten.alike hWritten' h.left.steady h.right.steady h.alike hWrite
  refine ⟨?_, hRest, hRest', hAlike⟩
  show some _ = some _
  rw [outline_endOfWrite h.alike hOuts]

/-- Twins do the same thing with the same result, and are twins after it. -/
theorem Twins.does (h : Twins s s') (hSimple : task.IsSimple) (hDoes : s.Does task e t)
    (hDoes' : s'.Does task e' t') : e.map Ended.outline = e'.map Ended.outline ∧ Twins t t' := by
  cases task with
  | request r =>
    cases hKind : r.isWrite with
    | true => exact h.does_write hKind hDoes hDoes'
    | false => exact h.does_read hSimple hKind hDoes hDoes'
  | cache order =>
    cases hDoes
    cases hDoes'
    exact ⟨rfl, h.left.cache order, h.right.cache order, h.alike⟩
  | rest time =>
    cases hDoes
    cases hDoes'
    refine ⟨rfl, h.left.tick time, h.right.tick time, ?_⟩
    obtain ⟨watched, now, hEq, -⟩ := tick_eq s time
    obtain ⟨watched', now', hEq', -⟩ := tick_eq s' time
    rw [hEq, hEq']
    exact h.alike

/-- What a caller can tell of a task: the outline of its result, and what the backends show after it. -/
def Seems (p q : Option Ended × Session) : Prop :=
  p.1.map Ended.outline = q.1.map Ended.outline ∧ p.2.world.shownAt? = q.2.world.shownAt?

theorem Twins.serves (h : Twins s s') (hSimple : ∀ task ∈ tasks, task.IsSimple)
    (hServes : s.Serves tasks history) (hServes' : s'.Serves tasks history') :
    List.Forall₂ Seems history history' := by
  -- both histories are of the same tasks, so they go on together
  induction hServes generalizing s' history' with
  | nil s =>
    cases hServes'
    exact .nil
  | @cons s t task tasks e history hDoes hRest ih =>
    cases hServes' with
    | cons hDoes' hRest' =>
      obtain ⟨hSame, hTwins⟩ := h.does (hSimple task List.mem_cons_self) hDoes hDoes'
      have hSimpleRest : ∀ task ∈ tasks, task.IsSimple :=
        fun task hTask => hSimple task (List.mem_cons_of_mem _ hTask)
      refine .cons ⟨hSame, ?_⟩ (ih hTwins hSimpleRest hRest')
      exact hTwins.alike.shownAt?_eq

theorem twins_client {w : World} (hw : w.Steady) {strategy : Balancing}
    (hOrder : strategy = .classic ∨ w.replicas = []) (options options' : CacheOptions)
    (picks picks' : Picks) :
    Twins (client w strategy options picks) (client w strategy options' picks') :=
  ⟨atRest_client hw hOrder options picks, atRest_client hw hOrder options' picks', .refl hw⟩

/-- Two clients over the same backends bring the same tasks to their end, and whatever moves they take
on the way, each task seems the same at both, whether one has a cache or not. -/
theorem serves_alike {w : World} (hw : w.Steady) {strategy : Balancing}
    (hOrder : strategy = .classic ∨ w.replicas = []) (options options' : CacheOptions)
    (picks picks' : Picks) {tasks : List Task} (hSimple : ∀ task ∈ tasks, task.IsSimple) :
    (client w strategy options picks).Completes tasks ∧
    (client w strategy options' picks').Completes tasks ∧
    ∀ history history', (client w strategy options picks).Serves tasks history →
      (client w strategy options' picks').Serves tasks history' →
      List.Forall₂ Seems history history' := by
  have hTwins := twins_client hw hOrder options options' picks picks'
  refine ⟨hTwins.left.completes hSimple, hTwins.right.completes hSimple, ?_⟩
  intro history history' hServes hServes'
  exact hTwins.serves hSimple hServes hServes'

/-- Two mains, of which the second fails its second put, and a replica that answers no reads. -/
def flaky : World :=
  { backends := [
      ⟨"alpha", { isMain := true }, .scripted {}⟩,
      ⟨"beta", { isMain := true },
        .scripted { behaviour := fun operation number =>
          if operation = .put ∧ number = 1 then { failure := some (.said "full") } else {} }⟩,
      ⟨"gamma", {}, .scripted { behaviour := fun operation _ =>
          if operation = .get ∨ operation = .holds then { failure := some (.said "down") } else {} }⟩] }

theorem steady_flaky : flaky.Steady := by
  intro b hb
  have hCases : b = flaky.backends[0] ∨ b = flaky.backends[1] ∨ b = flaky.backends[2] := by
    simpa [flaky] using hb
  rcases hCases with rfl | rfl | rfl
  · refine .scripted fun r hRead number => ?_
    exact ⟨rfl, rfl⟩
  · refine .scripted fun r hRead number => ?_
    cases r with
    | put a data => contradiction
    | remove a => contradiction
    | get a => exact ⟨rfl, rfl⟩
    | holds a => exact ⟨rfl, rfl⟩
  · refine .scripted fun r hRead number => ?_
    cases r with
    | put a data => contradiction
    | remove a => contradiction
    | get a => exact ⟨rfl, rfl⟩
    | holds a => exact ⟨rfl, rfl⟩

/-- The second put is done at one main only; the reads after it, from the cache or not, see that main. -/
def probing : List Task :=
  [.request (.put ⟨"c", "x"⟩ [1]), .request (.get ⟨"c", "x"⟩), .request (.put ⟨"c", "x"⟩ [2]),
    .rest (.ofMillis 5), .request (.get ⟨"c", "x"⟩)]

theorem serves_alike_flaky :
    ∃ history history',
      (client flaky .classic { enabled := true } .first).Serves probing history ∧
      (client flaky .classic {} .first).Serves probing history' ∧
      List.Forall₂ Seems history history' := by
  have hOrder : Balancing.classic = .classic ∨ flaky.replicas = [] := .inl rfl
  have hSimple : ∀ task ∈ probing, task.IsSimple := by
    simp [probing, Task.IsSimple, Request.address, Address.IsSimple]
  obtain ⟨⟨-, ⟨history, hServes⟩, -⟩, ⟨-, ⟨history', hServes'⟩, -⟩, hSame⟩ :=
    serves_alike steady_flaky hOrder { enabled := true } {} .first .first hSimple
  exact ⟨history, history', hServes, hServes', hSame history history' hServes hServes'⟩

end Session

end ReplicatedStore
