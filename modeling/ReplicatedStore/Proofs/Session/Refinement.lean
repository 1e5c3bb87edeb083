import ReplicatedStore.Proofs.Backend.PlainMap
import ReplicatedStore.Proofs.Session.Sequence

/-!
# A client serves as one plain map

A client over mains in memory keeps several copies of everything, in as many encodings, and a cache
beside them. Whoever asks it for one thing after the other cannot tell it from one plain map: what is
answered is answered as the map would, what fails fails at the map, and turning to the cache or waiting
changes nothing. Before each task the session is at rest and its backends show the map, and the task
keeps this.

Main results:

* `Session.AtRest.refined_of_does` — a task at a session whose backends show a map.
* `Session.serves_as_plainMap` — whole sequences of tasks, from backends that have just been set up.
-/

namespace ReplicatedStore

namespace PlainMap

/-- What a task comes to, if it asks for anything, and the map after it. -/
def does (p : PlainMap) : Session.Task → Option (Option Answer) × PlainMap
  | .request r => (some (p.answer? r), p.after r)
  | .cache _ | .rest _ => (none, p)

/-- What tasks come to one after the other. -/
def serves (p : PlainMap) : List Session.Task → List (Option (Option Answer) × PlainMap)
  | [] => []
  | task :: rest => p.does task :: (p.does task).2.serves rest

end PlainMap

/-- Whether an order ended as a map tells: with its answer, with some failure if it has none, or not at
all if nothing was asked. -/
inductive Agrees : Option Ended → Option (Option Answer) → Prop
  | answered (answer : Answer) : Agrees (some (.returned (.ok answer))) (some (some answer))
  | failed (e : StoreError) : Agrees (some (.returned (.error e))) (some none)
  | silent : Agrees none none

variable {p : PlainMap} {r : Request} {v w : World} {outs : List (Nat × Outcome)}

/-- What is told of a result by its outline is whether it is a failure, and else all. -/
theorem agrees_of_outline {e : Option Ended} {told : Except StoreError Answer} {answer : Option Answer}
    (hEnded : e.map Ended.outline = some (.returned told))
    (hTold : Agrees (some (.returned told)) (some answer)) : Agrees e (some answer) := by
  obtain ⟨ended, rfl, hOutline⟩ := Option.map_eq_some_iff.mp hEnded
  match ended, hOutline with
  | .returned (.ok a), hOutline =>
    rw [← hOutline] at hTold
    exact hTold
  | .returned (.error x), hOutline =>
    rw [← hOutline] at hTold
    cases hTold
    exact .failed x
  | .crashed reason, hOutline => cases hOutline

namespace World

/-- Reads tell what the map has. -/
theorem Shows.agrees_told (h : w.Shows p) (hRead : r.isWrite = false) :
    Agrees (some (.returned (w.told r))) (some (p.answer? r)) := by
  have hSome : w.backends.isEmpty = false := List.isEmpty_eq_false_iff.mpr h.nonempty
  unfold told
  rw [hSome, h.fetch?_eq]
  cases r with
  | put a data => contradiction
  | remove a => contradiction
  | get a =>
    show Agrees _ (some ((p.find? a).map .content))
    cases hFound : p.find? a with
    | some data =>
      simp only [Request.address, hFound]
      exact .answered _
    | none =>
      simp only [Request.address, hFound, vain_get]
      exact .failed _
  | holds a =>
    show Agrees _ (some (some (.presence (p.find? a).isSome)))
    cases hFound : p.find? a with
    | some data =>
      simp only [Request.address, hFound]
      exact .answered _
    | none =>
      -- no memory is deaf, so none of them fails to tell that it has nothing
      have hNobody : w.failing (.holds a) w.readGroups.flatten = [] := by
        have hFails : w.readGroups.flatten.filter (w.failsAt (.holds a)) = [] := by
          refine List.filter_eq_nil_iff.mpr fun i _ => ?_
          rw [failsAt, h.isDeafAt_eq]
          exact Bool.false_ne_true
        rw [failing, hFails, List.map_nil]
      have hPos : 0 < w.readGroups.flatten.length := List.length_pos_iff.mpr (flatten_ne_nil hSome)
      simp only [Request.address, hFound, vain, hNobody, List.length_nil, if_pos hPos]
      exact .answered _

/-- A write to all mains comes to the same at each of them as at the map. -/
theorem Written.shows (h : w.Written r outs v) (hSteady : w.Steady) (hShows : w.Shows p)
    (hWrite : r.isWrite = true) : v.Shows (p.after r) := by
  refine hShows.of_frame_eq h.frame fun i b c hb hc => ?_
  have hMain := hShows.mem_mains (List.getElem?_eq_some_iff.mp hc).1
  obtain ⟨j, hj⟩ := List.mem_iff_getElem?.mp hMain
  obtain ⟨o, c', b', -, hBefore, hAfter, hCall⟩ := h.calls j i hj
  rw [hc, Option.some.injEq] at hBefore
  rw [hb, Option.some.injEq] at hAfter
  subst hBefore hAfter
  exact (hShows.storages c (List.mem_of_getElem? hc)).of_calls (hSteady.at hc) hWrite hCall

theorem Written.isAnswered_eq (h : w.Written r outs v) (hSteady : w.Steady) (hShows : w.Shows p)
    (hWrite : r.isWrite = true) {q : Nat × Outcome} (hq : q ∈ outs) :
    q.2.isAnswered = (p.answer? r).isSome := by
  obtain ⟨i, c, c', -, hBefore, -, hCall⟩ := h.call_of_mem hq
  exact Storage.isAnswered_of_calls (hShows.storages c (List.mem_of_getElem? hBefore))
    (hSteady.at hBefore) hWrite hCall

end World

namespace Session

/-- A result and a session as a map would have them. -/
structure Refined (x : Option Ended × Session) (y : Option (Option Answer) × PlainMap) : Prop where
  result : Agrees x.1 y.1
  shows : x.2.world.Shows y.2

variable {s t : Session} {task : Task} {tasks : List Task} {e : Option Ended}
  {history : List (Option Ended × Session)}

/-- A write fails at all mains or at none, so it never ends in a partial failure. -/
theorem agrees_endOfWrite (hSteady : s.world.Steady) (hShows : s.world.Shows p)
    (hWrite : r.isWrite = true) (h : s.world.Written r outs v) :
    Agrees (some (s.endOfWrite r outs)) (some (p.answer? r)) := by
  have hMains := hShows.mains_ne_nil
  -- what one main does they all do
  have hSame (q : Nat × Outcome) (hq : q ∈ outs) := h.isAnswered_eq hSteady hShows hWrite hq
  rw [endOfWrite, if_neg (by simpa using hMains)]
  cases hAnswer : p.answer? r with
  | some answer =>
    have hDone : answer = .done := by
      cases r with
      | put a data => simp_all [PlainMap.answer?]
      | remove a => simp_all [PlainMap.answer?]
      | get a => contradiction
      | holds a => contradiction
    have hNil : s.failures r outs = [] := by
      rw [failures_eq_nil_iff s r h.perm]
      intro q hq
      rw [hSame q hq, hAnswer]
      rfl
    rw [hNil, (StoreError.aggregate_eq_none_iff ..).mpr rfl, hDone]
    exact .answered .done
  | none =>
    have hCount : (s.failures r outs).length = s.world.mains.length := by
      refine length_failures_of_forall s r h.perm fun q hq => ?_
      rw [hSame q hq, hAnswer]
      rfl
    cases hFolded : StoreError.aggregate r.operation s.world.mains.length (s.failures r outs) with
    | some x => exact .failed x
    | none =>
      rw [(StoreError.aggregate_eq_none_iff ..).mp hFolded] at hCount
      exact absurd (List.length_eq_zero_iff.mp hCount.symm) hMains

/-- A task comes to what it comes to at the map, and the backends go on to show the map. -/
theorem AtRest.refined_of_does (hs : s.AtRest) (hShows : s.world.Shows p) (hSimple : task.IsSimple)
    (h : s.Does task e t) : Refined (e, t) (p.does task) := by
  cases task with
  | cache order =>
    cases h
    exact ⟨.silent, hShows⟩
  | rest time =>
    cases h
    refine ⟨.silent, ?_⟩
    obtain ⟨watched, now, hEq, -⟩ := tick_eq s time
    rw [hEq]
    exact hShows
  | request r =>
    cases hKind : r.isWrite with
    | true =>
      obtain ⟨-, outs, hWritten, rfl⟩ := hs.does_write hKind h
      exact ⟨agrees_endOfWrite hs.steady hShows hKind hWritten,
        hWritten.shows hs.steady hShows hKind⟩
    | false =>
      obtain ⟨-, hAlike, hEnded⟩ := hs.does_read hSimple hKind h
      refine ⟨agrees_of_outline hEnded (hShows.agrees_told hKind), ?_⟩
      show t.world.Shows (p.after r)
      rw [p.after_of_read hKind]
      exact hShows.of_alike hAlike

theorem AtRest.refined_of_serves (hs : s.AtRest) (hShows : s.world.Shows p)
    (hSimple : ∀ task ∈ tasks, task.IsSimple) (h : s.Serves tasks history) :
    List.Forall₂ Refined history (p.serves tasks) := by
  -- on the tasks that are left, with the map after those before them
  induction h generalizing p with
  | nil s => exact .nil
  | @cons s t task tasks e history hDoes hRest ih =>
    have hFirst := hs.refined_of_does hShows (hSimple task List.mem_cons_self) hDoes
    have hThen := hs.does (hSimple task List.mem_cons_self) hDoes
    have hSimpleRest : ∀ task ∈ tasks, task.IsSimple :=
      fun task hTask => hSimple task (List.mem_cons_of_mem _ hTask)
    exact .cons hFirst (ih hThen hFirst.shows hSimpleRest)

/-- Clients over mains in memory with the same containers, each with its own encoding. Whatever tasks
they are given are brought to their end, and each comes to what it comes to at one plain map. It does not
matter how payloads are compressed, as long as gzip members are written. -/
theorem serves_as_plainMap [Gzip.Encoder] [Gzip.LawfulEncoder] {settings : List BackendSettings}
    {containers : List String} (hSome : settings ≠ []) (hPlain : ∀ s ∈ settings, s.IsPlain containers) :
    ∃ backends, Backend.allOfSettings settings = .ok backends ∧
      ∀ (w : World) (strategy : Balancing) (options : CacheOptions) (picks : Picks)
        (tasks : List Task), (∀ task ∈ tasks, task.IsSimple) →
        (client { w with backends } strategy options picks).Completes tasks ∧
        ∀ history, (client { w with backends } strategy options picks).Serves tasks history →
          List.Forall₂ Refined history ((PlainMap.empty containers).serves tasks) := by
  obtain ⟨backends, hAll, hReady⟩ := World.exists_shows hSome hPlain
  refine ⟨backends, hAll, fun w strategy options picks tasks hSimple => ?_⟩
  obtain ⟨hSteady, hShows⟩ := hReady w
  -- there are no replicas, so the strategy has no say in the order of reads
  have hRest : (client { w with backends } strategy options picks).AtRest :=
    atRest_client hSteady (.inr hShows.replicas_eq) options picks
  refine ⟨hRest.completes hSimple, fun history hServes => ?_⟩
  exact hRest.refined_of_serves hShows hSimple hServes

/-- A main that encrypts what it has compressed, and one that does neither. -/
def pair : List BackendSettings :=
  [{ name := "near", kind := .memory ["docs", "logs"],
     properties := { isMain := true, encryption := .aes256, compression := .gzip, key := some "k" } },
   { name := "far", kind := .memory ["logs", "docs"], properties := { isMain := true } }]

theorem isPlain_pair : ∀ s ∈ pair, s.IsPlain ["docs", "logs"] := by
  intro s hs
  have hCases : s = pair[0] ∨ s = pair[1] := by simpa [pair] using hs
  rcases hCases with rfl | rfl
  · exact ⟨rfl, by decide, _, rfl, fun c => Iff.rfl⟩
  · exact ⟨rfl, by decide, _, rfl, fun c => by simp [or_comm]⟩

/-- A put, a cached read, a put into a container that nobody has, and a probe past an empty cache. -/
def mixture : List Task :=
  [.request (.put ⟨"docs", "x"⟩ [1, 2]), .request (.get ⟨"docs", "x"⟩),
    .request (.put ⟨"other", "x"⟩ [3]), .cache .clear, .request (.holds ⟨"docs", "x"⟩)]

theorem serves_as_plainMap_pair :
    ∃ backends, Backend.allOfSettings pair = .ok backends ∧ ∃ history,
      (client { backends } .roundRobin { enabled := true } .first).Serves mixture history ∧
      List.Forall₂ Refined history ((PlainMap.empty ["docs", "logs"]).serves mixture) := by
  have hSome : pair ≠ [] := by simp [pair]
  have hSimple : ∀ task ∈ mixture, task.IsSimple := by
    simp [mixture, Task.IsSimple, Request.address, Address.IsSimple]
  obtain ⟨backends, hAll, hServe⟩ := serves_as_plainMap hSome isPlain_pair
  obtain ⟨hCompletes, hRefined⟩ := hServe {} .roundRobin { enabled := true } .first mixture hSimple
  obtain ⟨history, hServes⟩ := hCompletes.served
  exact ⟨backends, hAll, history, hServes, hRefined history hServes⟩

end Session

end ReplicatedStore
