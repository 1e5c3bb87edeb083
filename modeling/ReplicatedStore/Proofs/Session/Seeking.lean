import ReplicatedStore.Proofs.Backend.Likeness
import ReplicatedStore.Session.Basic

/-!
# What reads come to

A read goes through all backends in order until one of them gives something, and its calls leave the
world like it was. So what it comes to is told by the world alone: the first payload that is offered,
or the failures of those that fail. The texts of failures may differ from call to call, their outlines
do not.

Main results:

* `World.reads_goFrom`, `World.reads_resume` — a walk comes to what the world tells.
* `World.Alike.told_eq` — worlds that are alike tell the same.
-/

namespace ReplicatedStore

/-- A failure without its texts and its list: its kind, its operation and its numbers. -/
def StoreError.outline : StoreError → StoreError
  | backend name operation _ => backend name operation ⟨[]⟩
  | allFailed operation total _ => allFailed operation total []
  | partialFailure operation failed total _ => partialFailure operation failed total []
  | allReadsFailed _ => allReadsFailed []
  | worker operation _ => worker operation ""
  | other => other

/-- How an order ended, with no more than the outline of its failure. -/
def Ended.outline : Ended → Ended
  | returned (.error e) => returned (.error e.outline)
  | other => other

/-- How a read ends with its walk. -/
def WalkEnd.ended : WalkEnd → Ended
  | found _ answer => .returned (.ok answer)
  | lost e => .returned (.error e)
  | crashed reason => .crashed reason

theorem StoreError.outline_outline (e : StoreError) : e.outline.outline = e.outline := by
  cases e <;> rfl

/-- Failures are folded into one by their number; the outline of a single one is its own. -/
theorem StoreError.outline_aggregate (operation : Operation) (total : Nat) (errors : List StoreError) :
    (aggregate operation total errors).map outline =
      (aggregate operation total (errors.map outline)).map outline := by
  unfold aggregate
  cases errors with
  | nil => rfl
  | cons e rest =>
    cases rest with
    | nil =>
      rcases total with _ | _ | total
      · rfl
      · simp [outline_outline]
      · rfl
    | cons e' rest =>
      simp only [List.map_cons, List.length_cons, List.length_map]
      split <;> rfl

namespace World

/-- The backends of an order whose read fails that has nothing to give, with the outlines of their
failures. -/
def failing (w : World) (r : Request) (order : List Nat) : List StoreError :=
  (order.filter (w.failsAt r)).map fun i => .backend (w.nameOf i) r.operation ⟨[]⟩

/-- What a read that found nothing in an order comes to. -/
def vain (w : World) (r : Request) (order : List Nat) : Except StoreError Answer :=
  -- one backend that answered outweighs those that failed
  if (w.failing r order).length < order.length then .ok (.presence false)
  else
    match r with
    | .get _ => .error (.allReadsFailed [])
    | .put .. | .remove _ | .holds _ =>
      match (StoreError.aggregate r.operation order.length (w.failing r order)).map StoreError.outline with
      | some e => .error e
      | none => .ok (.presence false)

/-- What a read comes to, told by the world. -/
def told (w : World) (r : Request) : Except StoreError Answer :=
  if w.backends.isEmpty then .error .noBackends
  else
    match w.fetch? r.address with
    | some data => .ok (r.gives data)
    | none => w.vain r w.readGroups.flatten

variable {u v w : World} {r : Request} {walk : Walk} {ahead : List Nat} {b : Nat} {o : Outcome}

theorem Alike.told_eq (h : v.Alike w) (r : Request) : v.told r = w.told r := by
  have hEmpty : v.backends.isEmpty = w.backends.isEmpty := by
    rw [Bool.eq_iff_iff, List.isEmpty_iff_length_eq_zero, List.isEmpty_iff_length_eq_zero,
      length_of_frame_eq h.frame]
  have hVain : v.vain r = w.vain r := by
    funext order
    unfold vain failing
    rw [h.failsAt_eq, nameOf_of_frame_eq h.frame]
  rw [told, told, hEmpty, h.fetch?_eq, readGroups_of_frame_eq h.frame, hVain]

/-- A walk that has not found anything behind it. -/
structure Seeking (w : World) (r : Request) (v : World) (walk : Walk) (ahead : List Nat) : Prop where
  alike : v.Alike w
  steady : v.Steady
  request : walk.request = r
  total : walk.total = w.readGroups.flatten.length
  passed : ∃ behind, w.readGroups.flatten = behind ++ ahead ∧
    (∀ i ∈ behind, w.offerAt? i r.address = none) ∧
    walk.errors.map StoreError.outline = w.failing r behind

/-- What a read comes to when it has been set going: it ends as the world tells, or it waits for a call
of the next backend, with nothing found so far. -/
def Reads (w : World) (r : Request) : World × WalkState → Prop
  | (u, .over e) => u.Alike w ∧ u.Steady ∧ e.ended.outline = .returned (w.told r)
  | (u, .suspended walk delay held) => ∃ b rest v, walk.todo = b :: rest ∧
      w.Seeking r v walk (b :: rest) ∧ v.begin b r = (u, .waiting delay held)

theorem failing_append (w : World) (r : Request) (first rest : List Nat) :
    w.failing r (first ++ rest) = w.failing r first ++ w.failing r rest := by
  rw [failing, failing, failing, List.filter_append, List.map_append]

theorem Seeking.exists_backend (h : w.Seeking r v walk (b :: ahead)) :
    ∃ c, v.backends[b]? = some c := by
  obtain ⟨behind, hOrder, -⟩ := h.passed
  have hMem : b ∈ v.readGroups.flatten := by
    rw [readGroups_of_frame_eq h.alike.frame, hOrder]
    simp
  exact exists_of_mem_flatten hMem

theorem Seeking.nonempty (h : w.Seeking r v walk (b :: ahead)) : w.backends.isEmpty = false := by
  obtain ⟨c, hc⟩ := h.exists_backend
  have hLength := (List.getElem?_eq_some_iff.mp hc).1
  rw [length_of_frame_eq h.alike.frame] at hLength
  rw [List.isEmpty_eq_false_iff]
  exact List.ne_nil_of_length_pos (Nat.lt_of_le_of_lt (Nat.zero_le _) hLength)

/-- The next backend decides the read, or the walk passes it. -/
theorem Seeking.weigh (h : w.Seeking r v walk (b :: ahead)) (hRead : r.isWrite = false)
    (hCall : v.Calls b r o u) :
    (∃ e, walk.weigh (u.nameOf b) o = .inl e ∧ e.ended.outline = .returned (w.told r)) ∨
      ∃ walk', walk.weigh (u.nameOf b) o = .inr walk' ∧ w.Seeking r u walk' ahead := by
  have hAlike := (alike_of_read h.steady hRead hCall).trans h.alike
  obtain ⟨behind, hOrder, hNone, hErrors⟩ := h.passed
  have hAnswer := answer_of_read h.steady hRead hCall
  rw [h.alike.offerAt?_eq, h.alike.failsAt_eq] at hAnswer
  rcases hAnswer with ⟨data, hSome, rfl⟩ | ⟨hNothing, hVain⟩
  · left
    -- nobody behind it offers anything, so this is what a fetch finds
    have hFetch : w.fetch? r.address = some data := by
      have hBehind : behind.findSome? (fun i => w.offerAt? i r.address) = none :=
        List.findSome?_eq_none_iff.mpr hNone
      rw [fetch?, hOrder, List.findSome?_append, hBehind, List.findSome?_cons, hSome]
      rfl
    refine ⟨.found walk.passed (r.gives data), ?_, ?_⟩
    · cases r <;> rfl
    · rw [told, h.nonempty, hFetch]
      rfl
  · right
    -- the walk passes this backend, and notes its failure if there was one
    have hBehind : ∀ i ∈ behind ++ [b], w.offerAt? i r.address = none := by
      intro i hi
      rcases List.mem_append.mp hi with hi | hi
      · exact hNone i hi
      · rw [List.mem_singleton.mp hi]
        exact hNothing
    have hRest : w.readGroups.flatten = (behind ++ [b]) ++ ahead := by
      rw [hOrder, List.append_assoc]
      rfl
    rcases hVain with ⟨hFails, f, rfl⟩ | ⟨hTells, rfl⟩
    · refine ⟨walk.pass (some (.backend (u.nameOf b) walk.request.operation f)), rfl,
        ⟨hAlike, h.steady.of_calls hCall, h.request, h.total, behind ++ [b], hRest, hBehind, ?_⟩⟩
      show (walk.errors ++ _).map StoreError.outline = _
      rw [List.map_append, hErrors, failing_append, h.request, nameOf_of_frame_eq hAlike.frame]
      congr 1
      simp [failing, hFails, StoreError.outline]
    · refine ⟨walk.pass none, rfl,
        ⟨hAlike, h.steady.of_calls hCall, h.request, h.total, behind ++ [b], hRest, hBehind, ?_⟩⟩
      show (walk.errors ++ _).map StoreError.outline = _
      rw [List.map_append, hErrors, failing_append]
      simp [failing, hTells]

theorem flatten_ne_nil (h : w.backends.isEmpty = false) : w.readGroups.flatten ≠ [] := by
  have hLength : 0 < w.backends.length := List.length_pos_iff.mpr (List.isEmpty_eq_false_iff.mp h)
  exact List.ne_nil_of_mem (mem_flatten (List.getElem?_eq_getElem hLength))

theorem failing_get (w : World) (a : Address) (order : List Nat) :
    (w.failing (.get a) order).length = order.length := by
  have hAll : order.filter (w.failsAt (.get a)) = order := List.filter_eq_self.mpr fun _ _ => rfl
  rw [failing, hAll, List.length_map]

theorem vain_get (w : World) (a : Address) (order : List Nat) :
    w.vain (.get a) order = .error (.allReadsFailed []) := by
  have hAll : ¬ (w.failing (.get a) order).length < order.length := by
    rw [failing_get]
    exact Nat.lt_irrefl _
  rw [vain, if_neg hAll]

theorem exists_of_told_get {w : World} {a : Address} {answer : Answer}
    (h : w.told (.get a) = .ok answer) :
    ∃ data, answer = .content data ∧ w.fetch? a = some data := by
  unfold told at h
  split at h
  · contradiction
  · split at h
    · rename_i data hFound
      exact ⟨data, (Except.ok.inj h).symm, hFound⟩
    · rw [vain_get] at h
      contradiction

/-- A read on which nobody decided is in vain. -/
theorem Seeking.exhausted (h : w.Seeking r v walk []) (hRead : r.isWrite = false)
    (hSome : w.backends.isEmpty = false) :
    walk.exhausted.ended.outline = .returned (w.told r) := by
  obtain ⟨behind, hOrder, hNone, hErrors⟩ := h.passed
  rw [List.append_nil] at hOrder
  subst hOrder
  have hNothing : w.fetch? r.address = none := List.findSome?_eq_none_iff.mpr hNone
  have hLength : walk.errors.length = (w.failing r w.readGroups.flatten).length := by
    rw [← hErrors, List.length_map]
  have hTold : w.told r = w.vain r w.readGroups.flatten := by
    rw [told, hSome, hNothing]
    rfl
  have hRequest := h.request
  rw [hTold]
  -- the failures noted are of all backends that fail, so their number decides
  unfold Walk.exhausted
  cases hSearch : walk.search with
  | place data =>
    rw [Walk.request, hSearch] at hRequest
    rw [← hRequest] at hRead
    contradiction
  | fetch =>
    simp only [Walk.request, hSearch] at hRequest
    subst hRequest
    rw [failing_get] at hLength
    have hErrorsSome : walk.errors.isEmpty = false := by
      rw [List.isEmpty_eq_false_iff]
      intro hNil
      rw [hNil] at hLength
      exact flatten_ne_nil hSome (List.length_eq_zero_iff.mp hLength.symm)
    rw [vain_get]
    simp [hErrorsSome, WalkEnd.ended, Ended.outline, StoreError.outline]
  | probe =>
    simp only [Walk.request, hSearch] at hRequest
    subst hRequest
    simp only [vain]
    rw [hLength, h.total]
    split
    · rfl
    · have hOutline := StoreError.outline_aggregate .holds w.readGroups.flatten.length walk.errors
      rw [hErrors] at hOutline
      cases hFolded : StoreError.aggregate .holds w.readGroups.flatten.length walk.errors with
      | none =>
        rw [hFolded] at hOutline
        show Ended.returned _ = _
        rw [show (Request.holds walk.address).operation = .holds from rfl, ← hOutline]
        rfl
      | some e =>
        rw [hFolded] at hOutline
        show Ended.returned _ = _
        rw [show (Request.holds walk.address).operation = .holds from rfl, ← hOutline]
        rfl

/-- A walk over all backends that is about to start. -/
theorem seeking_start (hw : w.Steady) (h : walk.request = r)
    (hTotal : walk.total = w.readGroups.flatten.length) (hErrors : walk.errors = []) :
    w.Seeking r w walk w.readGroups.flatten := by
  refine ⟨.refl hw, hw, h, hTotal, [], rfl, ?_, ?_⟩
  · exact fun i hi => nomatch hi
  · rw [hErrors]
    rfl

/-- What a fetch finds a read gives. -/
theorem told_of_fetch? {data : Bytes} (h : w.fetch? r.address = some data) :
    w.told r = .ok (r.gives data) := by
  obtain ⟨i, hi, -⟩ := List.exists_of_findSome?_eq_some h
  obtain ⟨c, hc⟩ := exists_of_mem_flatten hi
  have hSome : w.backends.isEmpty = false :=
    List.isEmpty_eq_false_iff.mpr (List.ne_nil_of_mem (List.mem_of_getElem? hc))
  rw [told, hSome, h]
  rfl

/-- A walk over backends that has nothing behind it that gave anything. -/
theorem reads_goFrom (h : w.Seeking r v walk ahead) (hRead : r.isWrite = false)
    (hSome : w.backends.isEmpty = false) : w.Reads r (walk.goFrom v ahead) := by
  -- on the backends ahead, with the world after the calls of those behind
  induction ahead generalizing v walk with
  | nil => exact ⟨h.alike, h.steady, h.exhausted hRead hSome⟩
  | cons b rest ih =>
    obtain ⟨c, hc⟩ := h.exists_backend
    unfold Walk.goFrom
    rw [h.request]
    cases hBegin : v.begin b r with
    | mk u begun =>
      rcases begun with o | ⟨delay, held⟩
      · have hCall := calls_of_begin hc (h.steady.at hc).isKept hBegin
        rcases h.weigh hRead hCall with ⟨e, hWeigh, hEnd⟩ | ⟨walk', hWeigh, hNext⟩
        · simp only [hWeigh]
          exact ⟨(alike_of_read h.steady hRead hCall).trans h.alike, h.steady.of_calls hCall, hEnd⟩
        · simp only [hWeigh]
          exact ih hNext
      · exact ⟨b, rest, v, rfl, { h with }, hBegin⟩

/-- A read whose call is finished. -/
theorem reads_resume {delay : Duration} {held : Held} (h : w.Reads r (u, .suspended walk delay held))
    (hRead : r.isWrite = false) : w.Reads r (walk.resume u held) := by
  obtain ⟨b, rest, v, hTodo, hSeeking, hBegin⟩ := h
  obtain ⟨c, hc⟩ := hSeeking.exists_backend
  have hCall := calls_of_finish hc (hSeeking.steady.at hc).isKept hBegin
  unfold Walk.resume
  rw [hTodo]
  rcases hSeeking.weigh hRead hCall with ⟨e, hWeigh, hEnd⟩ | ⟨walk', hWeigh, hNext⟩
  · simp only [hWeigh]
    exact ⟨(alike_of_read hSeeking.steady hRead hCall).trans hSeeking.alike,
      hSeeking.steady.of_calls hCall, hEnd⟩
  · simp only [hWeigh]
    exact reads_goFrom hNext hRead hSeeking.nonempty

end World

end ReplicatedStore
