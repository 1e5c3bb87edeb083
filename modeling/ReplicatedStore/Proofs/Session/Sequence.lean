import ReplicatedStore.Proofs.Session.WriteServing

/-!
# One thing after the other

A caller that waits for each result before it asks for the next finds the session at rest every time.
Whatever it asks for comes to its end: a request that has not returned yet can always go on.

Main results:

* `Session.AtRest.finishes` — no request gets stuck.
* `Session.AtRest.does`, `Session.AtRest.serves` — the session is at rest after every task.
* `Session.AtRest.completes` — every sequence of tasks can be served to its end.
-/

namespace ReplicatedStore

namespace Session

/-- What a caller does next who does one thing after the other. -/
inductive Task
  /-- asks for something, and waits for the result -/
  | request (r : Request)
  /-- turns to the cache -/
  | cache (order : CacheOrder)
  /-- waits until the clock shows a time -/
  | rest (time : Duration)

/-- What a task leads to, with the result if there is one. A request may take any moves that are up to
nobody, in any order. -/
inductive Does (s : Session) : Task → Option Ended → Session → Prop
  | request {r : Request} {moves : List Move} {t : Session} {e : Ended}
      (hFree : ∀ m ∈ moves, m.isFree = true)
      (hReturns : (s.submit (.request r)).Returns s.tickets moves t e) : Does s (.request r) (some e) t
  | cache (order : CacheOrder) :
      Does s (.cache order) none { s with watched := order.apply s.watched s.now }
  | rest (time : Duration) : Does s (.rest time) none (s.tick time)

/-- What tasks lead to one after the other: after each, its result and the session. -/
inductive Serves : Session → List Task → List (Option Ended × Session) → Prop
  | nil (s : Session) : Serves s [] []
  | cons {s t : Session} {task : Task} {tasks : List Task} {e : Option Ended}
      {history : List (Option Ended × Session)} (hDoes : s.Does task e t)
      (hRest : Serves t tasks history) : Serves s (task :: tasks) ((e, t) :: history)

/-- Whether every request for an object in a simple container can be brought to its end, whatever moves
have been made for it. -/
def Finishes (s : Session) : Prop :=
  ∀ (r : Request) moves t, r.address.IsSimple → (∀ m ∈ moves, m.isFree = true) →
    (s.submit (.request r)).Pending s.tickets moves t →
    ∃ rest u e, (∀ m ∈ rest, m.isFree = true) ∧ t.Returns s.tickets rest u e

/-- Whether tasks can be done one after the other, and nothing that is asked for on the way, or after
it, is left without a result. -/
structure Completes (s : Session) (tasks : List Task) : Prop where
  first : s.Finishes
  served : ∃ history, s.Serves tasks history
  later : ∀ history, s.Serves tasks history → ∀ p ∈ history, p.2.Finishes

/-- Whether the object of a task, if it has one, is in a container without a slash. -/
def Task.IsSimple : Task → Prop
  | request r => r.address.IsSimple
  | cache _ | rest _ => True

variable {s t : Session} {r : Request} {task : Task} {tasks : List Task} {e : Option Ended}
  {history : List (Option Ended × Session)}

theorem AtRest.finishes (hs : s.AtRest) : s.Finishes := by
  intro r moves t hSimple hFree hPending
  cases hKind : r.isWrite with
  | true => exact exists_returns_of_pending_write hs hKind hFree hPending
  | false => exact exists_returns_of_pending_read hs hSimple hKind hFree hPending

/-- What a request comes to that reads. -/
theorem AtRest.does_read (hs : s.AtRest) (hSimple : r.address.IsSimple) (hRead : r.isWrite = false)
    (h : s.Does (.request r) e t) : t.AtRest ∧ t.world.Alike s.world ∧
      e.map Ended.outline = some (.returned (s.world.told r)) := by
  cases h with
  | @request r moves t e hFree hReturns =>
    have hAnswered := answered_of_returns hs hSimple hRead hFree hReturns
    obtain ⟨e', hEnded, hTold⟩ := hAnswered.ended
    rw [hReturns.ended, Option.some.injEq] at hEnded
    rw [hEnded]
    exact ⟨hAnswered.rest, hAnswered.alike, congrArg some hTold⟩

/-- What a request comes to that writes. -/
theorem AtRest.does_write (hs : s.AtRest) (hWrite : r.isWrite = true)
    (h : s.Does (.request r) e t) : t.AtRest ∧ ∃ outs, s.world.Written r outs t.world ∧
      e = some (s.endOfWrite r outs) := by
  cases h with
  | @request r moves t e hFree hReturns =>
    have hWrote := wrote_of_returns hs hWrite hFree hReturns
    obtain ⟨outs, hWritten, hEnded⟩ := hWrote.written
    rw [hReturns.ended] at hEnded
    exact ⟨hWrote.rest, outs, hWritten, hEnded⟩

theorem AtRest.does (hs : s.AtRest) (hSimple : task.IsSimple) (h : s.Does task e t) : t.AtRest := by
  cases task with
  | cache order =>
    cases h
    exact hs.cache order
  | rest time =>
    cases h
    exact hs.tick time
  | request r =>
    cases hKind : r.isWrite with
    | true => exact (hs.does_write hKind h).1
    | false => exact (hs.does_read hSimple hKind h).1

theorem AtRest.serves (hs : s.AtRest) (hSimple : ∀ task ∈ tasks, task.IsSimple)
    (h : s.Serves tasks history) : ∀ p ∈ history, p.2.AtRest := by
  -- on the tasks that are left: each leaves the session at rest for the next
  induction h with
  | nil s => exact fun p hp => nomatch hp
  | @cons s t task tasks e history hDoes hRest ih =>
    have hThen := hs.does (hSimple task List.mem_cons_self) hDoes
    intro p hp
    rcases List.mem_cons.mp hp with rfl | hp
    · exact hThen
    · exact ih hThen (fun task hTask => hSimple task (List.mem_cons_of_mem _ hTask)) p hp

theorem AtRest.exists_does (hs : s.AtRest) (hSimple : task.IsSimple) : ∃ e t, s.Does task e t := by
  cases task with
  | cache order => exact ⟨_, _, .cache order⟩
  | rest time => exact ⟨_, _, .rest time⟩
  | request r =>
    have hSubmitted : (s.submit (.request r)).run? [] = some (s.submit (.request r)) := rfl
    have hNoMoves : ∀ m ∈ ([] : List Move), m.isFree = true := fun m hm => nomatch hm
    -- some requests have returned as soon as they are asked, the others are brought to their end
    cases hNow : (s.submit (.request r)).ended? s.tickets with
    | some e =>
      refine ⟨_, _, .request hNoMoves ⟨hSubmitted, hNow, fun before after u hMoves hAfter => ?_⟩⟩
      exact absurd (List.append_eq_nil_iff.mp hMoves.symm).2 hAfter
    | none =>
      have hPending : (s.submit (.request r)).Pending s.tickets [] (s.submit (.request r)) := by
        refine ⟨hSubmitted, fun before after u hMoves hBefore => ?_⟩
        rw [(List.append_eq_nil_iff.mp hMoves.symm).1, run?, Option.some.injEq] at hBefore
        rwa [← hBefore]
      obtain ⟨rest, u, e, hFree, hReturns⟩ := hs.finishes r [] _ hSimple hNoMoves hPending
      exact ⟨_, _, .request hFree hReturns⟩

theorem AtRest.exists_serves (hs : s.AtRest) (hSimple : ∀ task ∈ tasks, task.IsSimple) :
    ∃ history, s.Serves tasks history := by
  induction tasks generalizing s with
  | nil => exact ⟨[], .nil s⟩
  | cons task tasks ih =>
    obtain ⟨e, t, hDoes⟩ := hs.exists_does (hSimple task List.mem_cons_self)
    have hThen := hs.does (hSimple task List.mem_cons_self) hDoes
    obtain ⟨history, hServes⟩ := ih hThen fun task hTask =>
      hSimple task (List.mem_cons_of_mem _ hTask)
    exact ⟨_, .cons hDoes hServes⟩

theorem AtRest.completes (hs : s.AtRest) (hSimple : ∀ task ∈ tasks, task.IsSimple) :
    s.Completes tasks := by
  refine ⟨hs.finishes, hs.exists_serves hSimple, fun history hServes p hp => ?_⟩
  have hRest := hs.serves hSimple hServes p hp
  exact hRest.finishes

end Session

end ReplicatedStore
