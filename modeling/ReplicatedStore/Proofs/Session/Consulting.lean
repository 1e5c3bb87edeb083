import ReplicatedStore.Proofs.Backend.Answering
import ReplicatedStore.Proofs.Session.Mindful

/-!
# Backends that are consulted

A walk consults the backends of its order one after the other: an outcome that decides nothing is noted
and leads on to the next backend, the first one that decides is the walk's end, and after the last one
the walk is exhausted. So all that is known of a walk is told by the outcomes of its calls, which are
one for each backend that it has behind it.

Main results:

* `Walk.went_goFrom`, `Walk.went_resume` — what a walk has called, and how it stands by that.
* `Walk.suits_trailFrom`, `Walk.suits_trailAfter` — what the backends answer suits the walk.
* `Walk.after?_of_allFailed`, `Walk.allFailed_of_after?` — what passing backends comes to.
-/

namespace ReplicatedStore

/-- Whether all outcomes suit a request. -/
def Trail.Suits (r : Request) (trail : Trail) : Prop := ∀ p ∈ trail.outcomes, p.2.Suits r

theorem Trail.Suits.append {r : Request} {x y : Trail} (hx : x.Suits r) (hy : y.Suits r) :
    (x ++ y).Suits r := by
  intro p hp
  rcases List.mem_append.mp hp with hOld | hNew
  · exact hx p hOld
  · exact hy p hNew

/-- Whether all calls have failed. -/
def AllFailed (outcomes : List (Nat × Outcome)) : Prop := ∀ p ∈ outcomes, ∃ f, p.2 = .failed f

theorem AllFailed.suits {trail : Trail} (h : AllFailed trail.outcomes) (r : Request) : trail.Suits r := by
  intro p hp x hAnswered
  obtain ⟨f, hf⟩ := h p hp
  rw [hf] at hAnswered
  contradiction

/-- The failure that is noted of a backend that was asked for something. -/
def Outcome.noted? (names : Nat → String) (operation : Operation) : Nat × Outcome → Option StoreError
  | (b, .failed f) => some (.backend (names b) operation f)
  | (_, .answered _) | (_, .crashed _) => none

/-- Each backend that has failed is noted once. -/
theorem length_filterMap_noted? (names : Nat → String) (operation : Operation)
    {outcomes : List (Nat × Outcome)} (h : AllFailed outcomes) :
    (outcomes.filterMap (Outcome.noted? names operation)).length = outcomes.length := by
  induction outcomes with
  | nil => rfl
  | cons p rest ih =>
    obtain ⟨b, o⟩ := p
    obtain ⟨f, hf⟩ := h (b, o) List.mem_cons_self
    have hRest := ih fun q hq => h q (List.mem_cons_of_mem _ hq)
    rw [show o = .failed f from hf]
    simpa [Outcome.noted?] using hRest

namespace Walk

/-- The walk after outcomes, if none of them has decided it. -/
def after? (names : Nat → String) (walk : Walk) : List (Nat × Outcome) → Option Walk
  | [] => some walk
  | (b, o) :: rest =>
    match walk.weigh (names b) o with
    | .inl _ => none
    | .inr next => after? names next rest

/-- How a walk stands by all that it has called since its start. -/
inductive Went (names : Nat → String) (start : Walk) (trail : Trail) : WalkState → Prop
  /-- no outcome has decided it, and the next backend was called -/
  | waits {walk : Walk} {b : Nat} {rest : List Nat} (delay : Duration) (held : Held)
      (hOrder : start.todo = trail.outcomes.map (·.1) ++ b :: rest)
      (hCalled : trail.called = trail.outcomes.map (·.1) ++ [b])
      (hAfter : start.after? names trail.outcomes = some walk) :
      Went names start trail (.suspended { walk with todo := b :: rest } delay held)
  /-- the last outcome has decided it, and none before -/
  | decided {walk : Walk} {behind : List (Nat × Outcome)} {b : Nat} {rest : List Nat} {o : Outcome}
      {e : WalkEnd} (hOrder : start.todo = behind.map (·.1) ++ b :: rest)
      (hCalled : trail.called = behind.map (·.1) ++ [b]) (hOutcomes : trail.outcomes = behind ++ [(b, o)])
      (hAfter : start.after? names behind = some walk) (hWeigh : walk.weigh (names b) o = .inl e) :
      Went names start trail (.over e)
  /-- no outcome has decided it, and nobody is left -/
  | exhausted {walk : Walk} (hOrder : start.todo = trail.outcomes.map (·.1))
      (hCalled : trail.called = start.todo) (hAfter : start.after? names trail.outcomes = some walk) :
      Went names start trail (.over walk.exhausted)

variable {names : Nat → String} {start walk : Walk} {trail : Trail} {state : WalkState} {u v w : World}
  {b : Nat} {o : Outcome} {r : Request} {outcomes : List (Nat × Outcome)}

theorem after?_append (names : Nat → String) (start : Walk) (first rest : List (Nat × Outcome)) :
    start.after? names (first ++ rest) = (start.after? names first).bind (·.after? names rest) := by
  induction first generalizing start with
  | nil => rfl
  | cons p first ih =>
    obtain ⟨b, o⟩ := p
    simp only [List.cons_append, after?]
    cases start.weigh (names b) o with
    | inl e => rfl
    | inr next => exact ih next

/-- An outcome that decides nothing leads on. -/
theorem after?_concat (hAfter : start.after? names outcomes = some walk) {next : Walk}
    (hWeigh : walk.weigh (names b) o = .inr next) :
    start.after? names (outcomes ++ [(b, o)]) = some next := by
  rw [after?_append, hAfter, Option.bind_some, after?, hWeigh]
  rfl

/-- Whom a walk has still to ask says nothing of what an outcome means to it. -/
theorem weigh_todo (walk : Walk) (todo : List Nat) (name : String) (o : Outcome) :
    { walk with todo }.weigh name o =
      match walk.weigh name o with
      | .inl e => .inl e
      | .inr next => .inr { next with todo } := by
  rcases o with (x | data | is) | f | reason
  · rfl
  · rfl
  · cases is <;> rfl
  · rfl
  · rfl

/-- A walk that goes on over the backends of its order that it has not called yet. -/
theorem went_goFrom {ahead : List Nat} (todo : List Nat) (hNames : v.nameOf = names)
    (hOrder : start.todo = trail.outcomes.map (·.1) ++ ahead)
    (hCalled : trail.called = trail.outcomes.map (·.1))
    (hAfter : start.after? names trail.outcomes = some walk) :
    Went names start (trail ++ { walk with todo }.trailFrom v ahead)
      ({ walk with todo }.goFrom v ahead).2 := by
  -- on the backends ahead; each that decides nothing at once is behind the walk when it goes on
  induction ahead generalizing v trail walk with
  | nil =>
    rw [List.append_nil] at hOrder
    rw [trailFrom, Trail.append_empty]
    -- what it comes to does not depend on whom it has still to ask
    show Went names start trail (.over walk.exhausted)
    exact .exhausted hOrder (hCalled.trans hOrder.symm) hAfter
  | cons b rest ih =>
    unfold trailFrom goFrom
    cases hBegin : v.begin b { walk with todo }.request with
    | mk u begun =>
      have hSame : u.nameOf = names := by
        have hFrame := World.frame_begin v b { walk with todo }.request
        rw [hBegin] at hFrame
        rw [World.nameOf_of_frame_eq hFrame, hNames]
      rcases begun with o | ⟨delay, held⟩
      · simp only
        rw [hSame, weigh_todo]
        cases hWeigh : walk.weigh (names b) o with
        | inl e =>
          refine .decided hOrder ?_ rfl hAfter hWeigh
          rw [Trail.called_append, hCalled]
        | inr next =>
          simp only
          have hNext : start.after? names (trail ++ ⟨[b], [(b, o)]⟩).outcomes = some next :=
            after?_concat hAfter hWeigh
          have hRest := ih hSame (by simp [hOrder]) (by simp [hCalled]) hNext
          rw [Trail.append_assoc] at hRest
          exact hRest
      · simp only
        refine .waits delay held ?_ ?_ ?_
        · simpa using hOrder
        · simp [hCalled]
        · simpa using hAfter

/-- A walk that starts. -/
theorem went_go (start : Walk) (v : World) :
    Went v.nameOf start (start.trailFrom v start.todo) (start.go v).2 := by
  have hNothing : start.after? v.nameOf ({} : Trail).outcomes = some start := rfl
  exact went_goFrom start.todo rfl rfl rfl hNothing

/-- A walk whose call is finished. -/
theorem went_resume {delay : Duration} {held : Held}
    (h : Went names start trail (.suspended walk delay held)) (hNames : v.nameOf = names) :
    Went names start (trail ++ walk.trailAfter v held) (walk.resume v held).2 := by
  cases h with
  | @waits walk b rest _ _ hOrder hCalled hAfter =>
    have hSame : (v.finish b held).1.nameOf = names := by
      rw [World.nameOf_of_frame_eq (World.frame_finish v b held), hNames]
    unfold trailAfter resume
    simp only
    rw [hSame, weigh_todo]
    cases hWeigh : walk.weigh (names b) (v.finish b held).2 with
    | inl e =>
      refine .decided hOrder ?_ rfl hAfter hWeigh
      rw [Trail.called_append, hCalled, List.append_nil]
    | inr next =>
      simp only
      have hNext : start.after? names (trail ++ ⟨[], [(b, (v.finish b held).2)]⟩).outcomes = some next :=
        after?_concat hAfter hWeigh
      have hAhead : start.todo =
          (trail ++ ⟨[], [(b, (v.finish b held).2)]⟩).outcomes.map (·.1) ++ rest := by
        simp [hOrder]
      have hRest := went_goFrom (b :: rest) hSame hAhead (by simp [hCalled]) hNext
      rw [Trail.append_assoc] at hRest
      exact hRest

/-! ## Answers -/

theorem suits_trailFrom (walk : Walk) (w : World) (ahead : List Nat) :
    (walk.trailFrom w ahead).Suits walk.request := by
  induction ahead generalizing w walk with
  | nil => exact fun p hp => absurd hp List.not_mem_nil
  | cons b rest ih =>
    unfold trailFrom
    cases hBegin : w.begin b walk.request with
    | mk v begun =>
      rcases begun with o | ⟨delay, held⟩
      · have hNow := World.suits_begin hBegin
        simp only
        cases hWeigh : walk.weigh (v.nameOf b) o with
        | inl e => exact List.forall_mem_singleton.mpr hNow
        | inr next =>
          have hRest := ih next v
          rw [request_of_weigh hWeigh] at hRest
          exact List.forall_mem_cons.mpr ⟨hNow, hRest⟩
      · exact fun p hp => absurd hp List.not_mem_nil

theorem suits_trailAfter {held : Held} (hMinds : walk.Minds w r held) :
    (walk.trailAfter w held).Suits r := by
  obtain ⟨hRequest, b, rest, hTodo, hKeeps⟩ := hMinds
  have hNow := World.suits_finish hKeeps
  unfold trailAfter
  rw [hTodo]
  simp only
  cases hWeigh : walk.weigh ((w.finish b held).1.nameOf b) (w.finish b held).2 with
  | inl e => exact List.forall_mem_singleton.mpr hNow
  | inr next =>
    have hRest := suits_trailFrom next (w.finish b held).1 rest
    rw [request_of_weigh hWeigh, hRequest] at hRest
    exact List.forall_mem_cons.mpr ⟨hNow, hRest⟩

/-! ## Failures -/

/-- Failures lead a walk on, and are noted. -/
theorem after?_of_allFailed (names : Nat → String) (start : Walk) (h : AllFailed outcomes) :
    start.after? names outcomes = some { start with
      passed := start.passed + outcomes.length
      errors := start.errors ++ outcomes.filterMap (Outcome.noted? names start.request.operation) } := by
  induction outcomes generalizing start with
  | nil => simp [after?]
  | cons p rest ih =>
    obtain ⟨b, o⟩ := p
    obtain ⟨f, hf⟩ := h (b, o) List.mem_cons_self
    obtain rfl : o = .failed f := hf
    -- the walk asks for the same when it has passed the first
    have hRequest : (start.pass (some (.backend (names b) start.request.operation f))).request =
        start.request := rfl
    have hRest := ih (start.pass (some (.backend (names b) start.request.operation f)))
      fun q hq => h q (List.mem_cons_of_mem _ hq)
    rw [hRequest] at hRest
    have hPasses : start.after? names ((b, .failed f) :: rest) =
        (start.pass (some (.backend (names b) start.request.operation f))).after? names rest := rfl
    rw [hPasses, hRest]
    simp [pass, Outcome.noted?, Nat.add_assoc, Nat.add_comm 1]

/-- A walk that any answer decides passes failures alone. -/
theorem allFailed_of_after? (hDecides : ∀ x, Answer.Suits start.request x → x ≠ .presence false)
    (h : start.after? names outcomes = some walk) (hSuits : ∀ p ∈ outcomes, p.2.Suits start.request) :
    AllFailed outcomes := by
  induction outcomes generalizing start with
  | nil => exact fun p hp => absurd hp List.not_mem_nil
  | cons p rest ih =>
    obtain ⟨b, o⟩ := p
    have hNow := hSuits (b, o) List.mem_cons_self
    have hLater : ∀ q ∈ rest, q.2.Suits start.request := fun q hq => hSuits q (List.mem_cons_of_mem _ hq)
    rw [after?] at h
    cases o with
    | answered x =>
      -- an answer ends the walk, unless it tells of an absence
      have hNot := hDecides x (hNow x rfl)
      rcases x with _ | data | is
      · simp [weigh] at h
      · simp [weigh] at h
      · cases is with
        | false => contradiction
        | true => simp [weigh] at h
    | crashed reason => simp [weigh] at h
    | failed f =>
      have hNext : (start.pass (some (.backend (names b) start.request.operation f))).after? names rest =
          some walk := h
      have hRest : AllFailed rest := by
        refine ih ?_ hNext hLater
        exact hDecides
      exact List.forall_mem_cons.mpr ⟨⟨f, rfl⟩, hRest⟩

/-- A walk that fetches, when calls have failed. -/
def fetching (names : Nat → String) (a : Address) (order : List Nat) (failed : List (Nat × Outcome)) :
    Walk :=
  { search := .fetch, address := a, total := order.length, passed := failed.length
    errors := failed.filterMap (Outcome.noted? names .get), todo := order }

/-- A walk that fetches passes failures alone. -/
theorem after?_fetch {a : Address} {order : List Nat}
    (h : (ofOrder .fetch a order).after? names outcomes = some walk)
    (hSuits : ∀ p ∈ outcomes, p.2.Suits (.get a)) :
    AllFailed outcomes ∧ walk = fetching names a order outcomes := by
  have hDecides : ∀ x, Answer.Suits (ofOrder .fetch a order).request x → x ≠ .presence false := by
    rintro x ⟨data, rfl⟩ hAbsent
    cases hAbsent
  have hFailed := allFailed_of_after? hDecides h hSuits
  have hAfter := after?_of_allFailed names (ofOrder .fetch a order) hFailed
  rw [h, Option.some.injEq] at hAfter
  refine ⟨hFailed, ?_⟩
  rw [hAfter]
  simp [fetching, ofOrder, request, Request.operation]

end Walk

end ReplicatedStore
