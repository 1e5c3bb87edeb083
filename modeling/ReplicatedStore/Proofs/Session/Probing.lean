import ReplicatedStore.Proofs.Session.Reads

/-!
# Checks of backends

A check asks backends of an order until one of them has the object. If none has it, one backend that has
said so is enough for the check to say so as well. It fails only if all backends have failed, and tells all
their failures.

Main results:

* `Walk.of_after?` — what a walk of any kind has passed.
* `Session.probed_of_consulted` — what a check has asked, and how it ends by that.
* `checked_of_probed` — how a check ends by the answers that the backends have for it.
-/

namespace ReplicatedStore

/-! ## The failures of all -/

/-- The failure of all backends together: that of the only one, or all failures in a list. -/
theorem StoreError.aggregate_of_length {operation : Operation} {total : Nat} {errors : List StoreError}
    {error : StoreError} (hLength : errors.length = total)
    (h : aggregate operation total errors = some error) :
    total = 1 ∧ errors = [error] ∨ 1 < total ∧ error = .allFailed operation total errors := by
  subst hLength
  rcases errors with _ | ⟨first, _ | ⟨second, rest⟩⟩
  · contradiction
  · exact .inl ⟨rfl, by rw [Option.some.inj h]⟩
  · right
    simp only [aggregate, Nat.le_refl, if_true, Option.some.injEq] at h
    exact ⟨by simp, h.symm⟩

/-! ## What a walk passes -/

/-- Whether outcomes decide nothing: each is a failure, or tells of an absence. -/
def Undecided (outcomes : List (Nat × Outcome)) : Prop :=
  ∀ p ∈ outcomes, p.2 = .answered (.presence false) ∨ ∃ f, p.2 = .failed f

/-- A walk passes a backend that has failed, or has told of an absence, and notes the failure. -/
theorem Walk.weigh_eq_inr {names : Nat → String} {walk next : Walk} {b : Nat} {o : Outcome}
    (h : walk.weigh (names b) o = .inr next) :
    (o = .answered (.presence false) ∨ ∃ f, o = .failed f) ∧
      next = walk.pass (Outcome.noted? names walk.request.operation (b, o)) := by
  rcases o with (_ | data | (_ | _)) | f | reason
  · contradiction
  · contradiction
  · cases h
    exact ⟨.inl rfl, rfl⟩
  · contradiction
  · cases h
    exact ⟨.inr ⟨f, rfl⟩, rfl⟩
  · contradiction

/-- What a walk has passed decides nothing, and the failures in it are noted. -/
theorem Walk.of_after? {names : Nat → String} {start walk : Walk} {outcomes : List (Nat × Outcome)}
    (h : start.after? names outcomes = some walk) : Undecided outcomes ∧ walk = { start with
      passed := start.passed + outcomes.length
      errors := start.errors ++ outcomes.filterMap (Outcome.noted? names start.request.operation) } := by
  induction outcomes generalizing start with
  | nil =>
    cases h
    exact ⟨fun p hp => absurd hp List.not_mem_nil, by simp⟩
  | cons p rest ih =>
    obtain ⟨b, o⟩ := p
    rw [after?] at h
    cases hWeigh : start.weigh (names b) o with
    | inl e => simp [hWeigh] at h
    | inr next =>
      rw [hWeigh] at h
      obtain ⟨hFirst, rfl⟩ := weigh_eq_inr hWeigh
      obtain ⟨hRest, hWalk⟩ := ih h
      refine ⟨List.forall_mem_cons.mpr ⟨hFirst, hRest⟩, hWalk.trans ?_⟩
      -- the walk asks for the same when it has passed the first
      rw [show (start.pass (Outcome.noted? names start.request.operation (b, o))).request =
        start.request from rfl]
      cases hNoted : Outcome.noted? names start.request.operation (b, o) with
      | none => simp [pass, hNoted, Nat.add_assoc, Nat.add_comm 1]
      | some error => simp [pass, hNoted, Nat.add_assoc, Nat.add_comm 1]

/-- Fewer failures are noted than there are outcomes if one of these tells of an absence. -/
theorem length_noted?_lt_iff (names : Nat → String) (operation : Operation)
    {outcomes : List (Nat × Outcome)} (h : Undecided outcomes) :
    (outcomes.filterMap (Outcome.noted? names operation)).length < outcomes.length ↔
      ∃ p ∈ outcomes, p.2 = .answered (.presence false) := by
  rw [List.length_filterMap_lt_length_iff_exists]
  refine exists_congr fun p => ?_
  rw [exists_prop]
  refine and_congr_right fun hp => ?_
  rcases h p hp with hAbsent | ⟨f, hf⟩
  · obtain ⟨b, o⟩ := p
    obtain rfl : o = .answered (.presence false) := hAbsent
    simp [Outcome.noted?]
  · obtain ⟨b, o⟩ := p
    obtain rfl : o = .failed f := hf
    simp [Outcome.noted?]

/-! ## How a check ends -/

/-- How a check has ended that has asked backends of an order. -/
inductive Probed (names : Nat → String) (order : List Nat) (trail : Trail) : Ended → Prop
  /-- no backend has decided it, and then one has said that it has the object -/
  | found {behind : List (Nat × Outcome)} {b : Nat} {rest : List Nat}
      (hOrder : order = behind.map (·.1) ++ b :: rest) (hCalled : trail.called = behind.map (·.1) ++ [b])
      (hOutcomes : trail.outcomes = behind ++ [(b, .answered (.presence true))])
      (hBehind : Undecided behind) : Probed names order trail (.returned (.ok (.presence true)))
  /-- no backend has decided it, and then a call has crashed -/
  | crashed {behind : List (Nat × Outcome)} {b : Nat} {rest : List Nat} {reason : String}
      (hOrder : order = behind.map (·.1) ++ b :: rest) (hCalled : trail.called = behind.map (·.1) ++ [b])
      (hOutcomes : trail.outcomes = behind ++ [(b, .crashed reason)])
      (hBehind : Undecided behind) : Probed names order trail (.crashed reason)
  /-- no backend has the object, and not all have failed -/
  | absent (hOrder : order = trail.outcomes.map (·.1)) (hCalled : trail.called = order)
      (hUndecided : Undecided trail.outcomes)
      (hAbsent : ∃ p ∈ trail.outcomes, p.2 = .answered (.presence false)) :
      Probed names order trail (.returned (.ok (.presence false)))
  /-- all backends have failed -/
  | lost {error : StoreError} (hOrder : order = trail.outcomes.map (·.1)) (hCalled : trail.called = order)
      (hFailed : AllFailed trail.outcomes) (hError : StoreError.aggregate .holds order.length
        (trail.outcomes.filterMap (Outcome.noted? names .holds)) = some error) :
      Probed names order trail (.returned (.error error))

theorem Undecided.allFailed {outcomes : List (Nat × Outcome)} (h : Undecided outcomes)
    (hNone : ¬ ∃ p ∈ outcomes, p.2 = .answered (.presence false)) : AllFailed outcomes := fun p hp =>
  (h p hp).resolve_left fun hAbsent => hNone ⟨p, hp, hAbsent⟩

/-- A check that has passed all backends misses the object if not all have failed, -/
theorem Walk.exhausted_of_lt {walk : Walk} (hSearch : walk.search = .probe)
    (h : walk.errors.length < walk.total) : walk.exhausted = .found walk.passed (.presence false) := by
  unfold exhausted
  rw [hSearch]
  exact if_pos h

/-- and else it fails. -/
theorem Walk.exhausted_of_aggregate {walk : Walk} {error : StoreError} (hSearch : walk.search = .probe)
    (h : ¬ walk.errors.length < walk.total)
    (hError : StoreError.aggregate .holds walk.total walk.errors = some error) :
    walk.exhausted = .lost error := by
  simp only [exhausted, hSearch, if_neg h, hError]

/-- How a check has ended that has passed all backends of an order. -/
theorem probed_of_exhausted {names : Nat → String} {a : Address} {order : List Nat} {trail : Trail}
    {walk : Walk} (hSome : order ≠ []) (hOrder : order = trail.outcomes.map (·.1))
    (hCalled : trail.called = order)
    (hAfter : (Walk.ofOrder .probe a order).after? names trail.outcomes = some walk) :
    Probed names order trail walk.exhausted.ended := by
  obtain ⟨hUndecided, hWalk⟩ := Walk.of_after? hAfter
  have hSearch : walk.search = .probe := by rw [hWalk, Walk.ofOrder]
  have hTotal : walk.total = order.length := by rw [hWalk, Walk.ofOrder]
  have hErrors : walk.errors = trail.outcomes.filterMap (Outcome.noted? names .holds) := by
    rw [hWalk]
    rfl
  have hLength : order.length = trail.outcomes.length := by rw [hOrder, List.length_map]
  have hFewer := length_noted?_lt_iff names .holds hUndecided
  rw [← hErrors, ← hLength, ← hTotal] at hFewer
  by_cases hAbsent : ∃ p ∈ trail.outcomes, p.2 = .answered (.presence false)
  · rw [Walk.exhausted_of_lt hSearch (hFewer.mpr hAbsent)]
    exact .absent hOrder hCalled hUndecided hAbsent
  · have hNotFewer := mt hFewer.mp hAbsent
    cases hError : StoreError.aggregate .holds walk.total walk.errors with
    | none =>
      -- some failure was noted, since there is some backend
      rw [StoreError.aggregate_eq_none_iff] at hError
      rw [hError, hTotal] at hNotFewer
      exact absurd (List.length_pos_iff.mpr hSome) hNotFewer
    | some error =>
      rw [Walk.exhausted_of_aggregate hSearch hNotFewer hError]
      rw [hTotal, hErrors] at hError
      exact .lost hOrder hCalled (hUndecided.allFailed hAbsent) hError

/-- A check that has ended with its walk has asked backends of its order. -/
theorem Session.probed_of_consulted {t : Session} {ticket : Nat} {a : Address} {order : List Nat}
    {trail : Trail} {w : WalkEnd} (hSome : order ≠ [])
    (h : Consulted t ticket (.ofOrder .probe a order) trail w) :
    Probed t.world.nameOf order trail w.ended := by
  have hSuits : ∀ p ∈ trail.outcomes, p.2.Suits (.holds a) := h.suits
  have hWent := h.went
  cases hWent with
  | @decided walk behind b rest o e hOrder hCalled hOutcomes hAfter hWeigh =>
    obtain ⟨hBehind, -⟩ := Walk.of_after? hAfter
    have hLast := hSuits (b, o) (by rw [hOutcomes]; simp)
    -- a presence decides a check, and so does a crash
    cases o with
    | answered x =>
      obtain ⟨is, rfl⟩ := hLast x rfl
      cases is with
      | false => simp [Walk.weigh] at hWeigh
      | true =>
        cases hWeigh
        exact .found hOrder hCalled hOutcomes hBehind
    | failed f => simp [Walk.weigh] at hWeigh
    | crashed reason =>
      cases hWeigh
      exact .crashed hOrder hCalled hOutcomes hBehind
  | exhausted hOrder hCalled hAfter => exact probed_of_exhausted hSome hOrder hCalled hAfter

/-! ## By the answers of the backends -/

/-- The outcome of a call by the answer that a backend has for a check. -/
def Outcome.ofCheck : Except Failure Bool → Outcome
  | .ok is => .answered (.presence is)
  | .error f => .failed f

/-- Whether all calls came to the answers that backends have for a check. -/
def Trail.Checks (checks : Nat → Except Failure Bool) (trail : Trail) : Prop :=
  ∀ p ∈ trail.outcomes, p.2 = .ofCheck (checks p.1)

/-- The backends of an order that are asked by their answers: up to the first that has the object. -/
def askedOf (checks : Nat → Except Failure Bool) : List Nat → List Nat
  | [] => []
  | b :: rest =>
    match checks b with
    | .ok true => [b]
    | .ok false | .error _ => b :: askedOf checks rest

/-- How a check ends over backends of an order with answers. -/
structure Checked (names : Nat → String) (checks : Nat → Except Failure Bool) (order : List Nat)
    (trail : Trail) (e : Ended) : Prop where
  /-- it asks in the order, and stops at the first that has the object -/
  asked : trail.called = askedOf checks order
  /-- it finds the object if one of them has it, -/
  present_iff : e = .returned (.ok (.presence true)) ↔ ∃ b ∈ order, checks b = .ok true
  /-- it misses it if none has it and one has said so, -/
  absent_iff : e = .returned (.ok (.presence false)) ↔
    (¬ ∃ b ∈ order, checks b = .ok true) ∧ ∃ b ∈ order, checks b = .ok false
  /-- and it fails if all have failed -/
  failed_iff : (∃ error, e = .returned (.error error)) ↔ ∀ b ∈ order, ∃ f, checks b = .error f
  /-- with the one failure or with all of them, in the order in which they were asked -/
  failure : ∀ error, e = .returned (.error error) → ∃ errors,
    List.Forall₂ (fun b error => ∃ f, checks b = .error f ∧ error = .backend (names b) .holds f)
      order errors ∧
    (order.length = 1 ∧ errors = [error] ∨
      1 < order.length ∧ error = .allFailed .holds order.length errors)

variable {names : Nat → String} {checks : Nat → Except Failure Bool} {order : List Nat} {trail : Trail}
  {e : Ended} {outcomes behind : List (Nat × Outcome)}

theorem Outcome.ofCheck_eq_presence {check : Except Failure Bool} {is : Bool}
    (h : .answered (.presence is) = ofCheck check) : check = .ok is := by
  cases check with
  | ok is' =>
    cases h
    rfl
  | error f => contradiction

theorem Outcome.ofCheck_eq_failed {check : Except Failure Bool} {f : Failure}
    (h : .failed f = ofCheck check) : check = .error f := by
  cases check with
  | ok is => contradiction
  | error f' =>
    cases h
    rfl

/-- Backends that decide nothing do not have the object, and are passed. -/
theorem of_undecided (hBehind : Undecided behind) (hChecks : ∀ p ∈ behind, p.2 = .ofCheck (checks p.1))
    (rest : List Nat) : (∀ b ∈ behind.map (·.1), checks b ≠ .ok true) ∧
      askedOf checks (behind.map (·.1) ++ rest) = behind.map (·.1) ++ askedOf checks rest := by
  induction behind with
  | nil => exact ⟨fun b hb => absurd hb List.not_mem_nil, rfl⟩
  | cons p behind ih =>
    obtain ⟨b, o⟩ := p
    obtain ⟨hOthers, hAsked⟩ := ih (fun q hq => hBehind q (List.mem_cons_of_mem _ hq))
      fun q hq => hChecks q (List.mem_cons_of_mem _ hq)
    have hNow := hChecks (b, o) List.mem_cons_self
    rcases hBehind (b, o) List.mem_cons_self with hAbsent | ⟨f, hf⟩
    · have hCheck : checks b = .ok false := Outcome.ofCheck_eq_presence (hAbsent.symm.trans hNow)
      exact ⟨List.forall_mem_cons.mpr ⟨by simp [hCheck], hOthers⟩, by simp [askedOf, hCheck, hAsked]⟩
    · have hCheck : checks b = .error f := Outcome.ofCheck_eq_failed (hf.symm.trans hNow)
      exact ⟨List.forall_mem_cons.mpr ⟨by simp [hCheck], hOthers⟩, by simp [askedOf, hCheck, hAsked]⟩

/-- Of backends that have failed the failures are noted one by one. -/
theorem forall₂_noted? (names : Nat → String) (hFailed : AllFailed outcomes)
    (hChecks : ∀ p ∈ outcomes, p.2 = .ofCheck (checks p.1)) :
    List.Forall₂ (fun b error => ∃ f, checks b = .error f ∧ error = .backend (names b) .holds f)
      (outcomes.map (·.1)) (outcomes.filterMap (Outcome.noted? names .holds)) := by
  induction outcomes with
  | nil => exact .nil
  | cons p rest ih =>
    obtain ⟨b, o⟩ := p
    obtain ⟨f, hf⟩ := hFailed (b, o) List.mem_cons_self
    obtain rfl : o = .failed f := hf
    have hCheck := Outcome.ofCheck_eq_failed (hChecks (b, .failed f) List.mem_cons_self)
    exact .cons ⟨f, hCheck, rfl⟩ (ih (fun q hq => hFailed q (List.mem_cons_of_mem _ hq))
      fun q hq => hChecks q (List.mem_cons_of_mem _ hq))

theorem checked_present (hAsked : trail.called = askedOf checks order)
    (hHas : ∃ b ∈ order, checks b = .ok true) :
    Checked names checks order trail (.returned (.ok (.presence true))) := by
  refine ⟨hAsked, iff_of_true rfl hHas, iff_of_false nofun fun hAbsent => hAbsent.1 hHas,
    iff_of_false nofun fun hFailed => ?_, nofun⟩
  obtain ⟨b, hb, hCheck⟩ := hHas
  obtain ⟨f, hf⟩ := hFailed b hb
  rw [hCheck] at hf
  contradiction

theorem checked_absent (hAsked : trail.called = askedOf checks order)
    (hNone : ¬ ∃ b ∈ order, checks b = .ok true) (hNot : ∃ b ∈ order, checks b = .ok false) :
    Checked names checks order trail (.returned (.ok (.presence false))) := by
  refine ⟨hAsked, iff_of_false nofun hNone, iff_of_true rfl ⟨hNone, hNot⟩,
    iff_of_false nofun fun hFailed => ?_, nofun⟩
  obtain ⟨b, hb, hCheck⟩ := hNot
  obtain ⟨f, hf⟩ := hFailed b hb
  rw [hCheck] at hf
  contradiction

theorem checked_failed {error : StoreError} {errors : List StoreError}
    (hAsked : trail.called = askedOf checks order)
    (hNoted : List.Forall₂ (fun b error => ∃ f, checks b = .error f ∧ error = .backend (names b) .holds f)
      order errors)
    (hError : StoreError.aggregate .holds order.length errors = some error) :
    Checked names checks order trail (.returned (.error error)) := by
  have hAll : ∀ b ∈ order, ∃ f, checks b = .error f := by
    intro b hb
    obtain ⟨i, hi, rfl⟩ := List.getElem_of_mem hb
    obtain ⟨f, hf, -⟩ := hNoted.get hi (hNoted.length_eq ▸ hi)
    exact ⟨f, hf⟩
  have hNever (is : Bool) : ¬ ∃ b ∈ order, checks b = .ok is := by
    rintro ⟨b, hb, hCheck⟩
    obtain ⟨f, hf⟩ := hAll b hb
    rw [hCheck] at hf
    contradiction
  refine ⟨hAsked, iff_of_false nofun (hNever true), iff_of_false nofun fun hAbsent => hNever false hAbsent.2,
    iff_of_true ⟨error, rfl⟩ hAll, ?_⟩
  rintro error' ⟨⟩
  exact ⟨errors, hNoted, StoreError.aggregate_of_length hNoted.length_eq.symm hError⟩

/-- A check ends as the answers of the backends tell, and it asks no more of them. -/
theorem checked_of_probed (h : Probed names order trail e)
    (hChecks : trail.Checks checks) : Checked names checks order trail e := by
  cases h with
  | @found behind b rest hOrder hCalled hOutcomes hBehind =>
    have hPassed : ∀ p ∈ behind, p.2 = .ofCheck (checks p.1) := fun p hp =>
      hChecks p (by rw [hOutcomes]; exact List.mem_append_left _ hp)
    have hLast := hChecks (b, .answered (.presence true)) (by rw [hOutcomes]; simp)
    have hCheck : checks b = .ok true := Outcome.ofCheck_eq_presence hLast
    obtain ⟨-, hAsked⟩ := of_undecided hBehind hPassed (b :: rest)
    -- who comes after the backend that has it is not asked
    refine checked_present ?_ ⟨b, by rw [hOrder]; simp, hCheck⟩
    rw [hCalled, hOrder, hAsked]
    simp [askedOf, hCheck]
  | @crashed behind b rest reason hOrder hCalled hOutcomes hBehind =>
    -- answers of backends are no crashes
    have hLast := hChecks (b, .crashed reason) (by rw [hOutcomes]; simp)
    cases hCheck : checks b with
    | ok is => simp [hCheck, Outcome.ofCheck] at hLast
    | error f => simp [hCheck, Outcome.ofCheck] at hLast
  | absent hOrder hCalled hUndecided hAbsent =>
    obtain ⟨hNone, hAsked⟩ := of_undecided hUndecided hChecks []
    rw [List.append_nil, ← hOrder, askedOf, List.append_nil] at hAsked
    rw [← hOrder] at hNone
    obtain ⟨⟨b, o⟩, hp, hAnswer⟩ := hAbsent
    have hMem : b ∈ order := by
      rw [hOrder]
      exact List.mem_map_of_mem hp
    exact checked_absent (hCalled.trans hAsked.symm) (fun ⟨b', hb', hHas⟩ => hNone b' hb' hHas)
      ⟨b, hMem, Outcome.ofCheck_eq_presence (hAnswer.symm.trans (hChecks (b, o) hp))⟩
  | @lost error hOrder hCalled hFailed hError =>
    obtain ⟨-, hAsked⟩ := of_undecided (fun p hp => .inr (hFailed p hp)) hChecks []
    rw [List.append_nil, ← hOrder, askedOf, List.append_nil] at hAsked
    have hNoted := forall₂_noted? names hFailed hChecks
    rw [← hOrder] at hNoted
    exact checked_failed (hCalled.trans hAsked.symm) hNoted hError

end ReplicatedStore
