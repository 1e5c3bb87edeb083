import Mathlib.Data.List.Count
import Mathlib.Data.List.Nodup
import ReplicatedStore.Pipeline.Chain

/-!
# What steps hold is released exactly once

The steps of a writing chain may hold on to something until their outcome has been consumed. Whatever
the steps do, a run either passes through all of them or breaks off at the first one that fails, and
what was held until then is released exactly once, the last held first: before the failure of the step
is returned, or by the guard, on request as well as without one.

A run is described by the outputs of the steps that succeed (`Passes`); which of them hold is read off
these outputs and not off the guard.

Main results:

* `Guard.release_eq` and `Guard.discard_eq` — a guard releases once what it holds.
* `WriteChain.applyFrom_of_passes` — a run through steps that succeed, whatever comes behind them.
* `WriteChain.released_once` — every way in which a run or an encoding can end.
-/

namespace ReplicatedStore

namespace Guard

/-- A guard that has released everything holds nothing any more. -/
theorem releaseAll_eq (g : Guard) : g.releaseAll = (g.map .released, []) := by
  induction g with
  | nil => rfl
  | cons position held ih => rw [releaseAll, ih, List.map_cons]

theorem discard_eq (g : Guard) : g.discard = g.map .released := by
  rw [discard, releaseAll_eq]

/-- What was released on request is not released again when the guard goes out of use. -/
theorem release_eq (g : Guard) : g.release = g.map .released := by
  rw [release, releaseAll_eq, discard_eq, List.map_nil, List.append_nil]

end Guard

namespace WriteChain

variable {nonces : Nat → Nonce}

/-- The steps succeed one after the other, the first of them at a position, with these outputs, and
`last` is the stream behind the last of them. -/
inductive Passes (nonces : Nat → Nonce) :
    (position : Nat) → (input : Stream) → List WriteStep → List StepOutput → (last : Stream) → Prop
  | nil (position : Nat) (input : Stream) : Passes nonces position input [] [] input
  | cons {position : Nat} {input last : Stream} {step : WriteStep} {steps : List WriteStep}
      {output : StepOutput} {outputs : List StepOutput}
      (first : step.apply (nonces position) input = .ok output)
      (others : Passes nonces (position + 1) output.stream steps outputs last) :
      Passes nonces position input (step :: steps) (output :: outputs) last

/-- The positions whose steps hold on to something, in the order of the steps. -/
def heldFrom (position : Nat) (outputs : List StepOutput) : List Nat :=
  outputs.findIdxs (·.holds) position

/-- The events of the first steps of a chain, in order. -/
def runs (count : Nat) : List ChainEvent := (List.range count).map .ran

/-- The events that release what the first steps of a chain hold, the last held first. -/
def releases (outputs : List StepOutput) : List ChainEvent :=
  (heldFrom 0 outputs).reverse.map .released

/-! ## Runs -/

/-- A run ends with all steps passed, or at the first one that fails. -/
theorem exists_passes (position : Nat) (input : Stream) (steps : List WriteStep) :
    (∃ outputs last, Passes nonces position input steps outputs last) ∨
      ∃ before step rest outputs reached e, steps = before ++ step :: rest ∧
        Passes nonces position input before outputs reached ∧
        step.apply (nonces (position + before.length)) reached = .error e := by
  induction steps generalizing position input with
  | nil => exact .inl ⟨[], input, .nil position input⟩
  | cons step steps ih =>
    cases hApply : step.apply (nonces position) input with
    | error e => exact .inr ⟨[], step, steps, [], input, e, rfl, .nil position input, hApply⟩
    | ok output =>
      rcases ih (position + 1) output.stream with ⟨outputs, last, hPasses⟩ |
        ⟨before, failing, rest, outputs, reached, e, rfl, hPasses, hFails⟩
      · exact .inl ⟨output :: outputs, last, .cons hApply hPasses⟩
      · refine .inr ⟨step :: before, failing, rest, output :: outputs, reached, e, rfl,
          .cons hApply hPasses, ?_⟩
        rw [List.length_cons, Nat.add_comm before.length, ← Nat.add_assoc]
        exact hFails

/-- Steps that succeed are run in order, and the guard takes what they hold, the last on top. -/
theorem applyFrom_of_passes {position : Nat} {input last : Stream} {steps : List WriteStep}
    {outputs : List StepOutput} (h : Passes nonces position input steps outputs last)
    (guard : Guard) (rest : List WriteStep) :
    applyFrom nonces position guard input (steps ++ rest) =
      (applyFrom nonces (position + steps.length) ((heldFrom position outputs).reverse ++ guard) last
        rest).after ((List.range' position steps.length).map .ran) := by
  induction h generalizing guard with
  | nil position input => rfl
  | @cons position input last step steps output outputs hApply _ ih =>
    -- the guard after the first step, as the rest of the steps find it
    have hGuard : (heldFrom (position + 1) outputs).reverse ++
        (if output.holds then position :: guard else guard) =
        (heldFrom position (output :: outputs)).reverse ++ guard := by
      cases hHolds : output.holds <;> simp [heldFrom, List.findIdxs_cons, hHolds]
    rw [List.cons_append, applyFrom, hApply]
    simp only [ih]
    rw [hGuard, List.length_cons, Nat.add_comm steps.length, ← Nat.add_assoc, Nat.add_comm 1]
    rfl

/-- A run through all steps. -/
theorem apply_of_passes {input last : Stream} {steps : List WriteStep} {outputs : List StepOutput}
    (h : Passes nonces 0 input steps outputs last) :
    apply nonces ⟨steps⟩ input =
      ⟨runs steps.length, .ok (last, (heldFrom 0 outputs).reverse)⟩ := by
  have hRun := applyFrom_of_passes h [] []
  rw [List.append_nil, List.append_nil, applyFrom] at hRun
  rw [apply, hRun, Traced.after, List.append_nil, runs, List.range_eq_range']

/-- A run that breaks off at a step. -/
theorem apply_of_fails {input reached : Stream} {before rest : List WriteStep} {step : WriteStep}
    {outputs : List StepOutput} {e : EncodingError}
    (h : Passes nonces 0 input before outputs reached)
    (hFails : step.apply (nonces before.length) reached = .error e) :
    apply nonces ⟨before ++ step :: rest⟩ input =
      ⟨runs (before.length + 1) ++ releases outputs, .error e⟩ := by
  have hRun := applyFrom_of_passes h [] (step :: rest)
  rw [Nat.zero_add, List.append_nil, applyFrom, hFails] at hRun
  rw [apply, hRun, Traced.after, Guard.release_eq, runs, releases, List.range_succ,
    List.range_eq_range', List.map_append, List.append_assoc]
  rfl

/-- An encoding in which all steps succeed. -/
theorem encode_of_passes {payload : Bytes} {last : Stream} {steps : List WriteStep}
    {outputs : List StepOutput} (h : Passes nonces 0 (.ofBytes payload) steps outputs last) :
    encode nonces ⟨steps⟩ payload =
      ⟨if steps = [] then [] else runs steps.length ++ .consumed :: releases outputs,
        match last.readAll with
        | .error reason => .error (.stream reason)
        | .ok content => .ok content⟩ := by
  cases steps with
  | nil =>
    cases h
    rfl
  | cons step steps =>
    rw [encode, isEmpty, List.isEmpty_cons, if_neg Bool.false_ne_true, apply_of_passes h,
      if_neg (List.cons_ne_nil _ _)]
    -- the guard releases the same, whether it is asked to or not
    cases hRead : last.readAll with
    | error reason => simp only [hRead, Guard.discard_eq, releases]
    | ok content => simp only [hRead, Guard.release_eq, releases]

/-- An encoding that breaks off at a step. -/
theorem encode_of_fails {payload : Bytes} {reached : Stream} {before rest : List WriteStep}
    {step : WriteStep} {outputs : List StepOutput} {e : EncodingError}
    (h : Passes nonces 0 (.ofBytes payload) before outputs reached)
    (hFails : step.apply (nonces before.length) reached = .error e) :
    encode nonces ⟨before ++ step :: rest⟩ payload =
      ⟨runs (before.length + 1) ++ releases outputs, .error e⟩ := by
  have hSteps : (⟨before ++ step :: rest⟩ : WriteChain).isEmpty = false := by
    cases before <;> rfl
  rw [encode, hSteps, if_neg Bool.false_ne_true, apply_of_fails h hFails]

/-! ## Releases -/

/-- Each position that holds on to something is released once, and no other. -/
theorem count_releases (outputs : List StepOutput) (position : Nat) :
    (releases outputs).count (.released position) =
      if outputs[position]?.any (·.holds) then 1 else 0 := by
  have hInj : Function.Injective ChainEvent.released := fun _ _ => ChainEvent.released.inj
  rw [releases, List.count_map_of_injective _ _ hInj, List.count_reverse]
  by_cases hHolds : outputs[position]?.any (·.holds) = true
  · obtain ⟨output, hOutput, hOutputHolds⟩ := (Option.any_eq_true _ _).1 hHolds
    obtain ⟨hHere, rfl⟩ := List.getElem?_eq_some_iff.1 hOutput
    have hMem : position ∈ heldFrom 0 outputs :=
      (List.mem_findIdxs_iff_pos_getElem hHere).2 hOutputHolds
    rw [if_pos hHolds]
    exact List.count_eq_one_of_mem List.nodup_findIdxs hMem
  · rw [if_neg hHolds, List.count_eq_zero]
    intro hMem
    obtain ⟨hHere, hOutputHolds⟩ := List.mem_findIdxs_iff_exists_getElem_pos.1 hMem
    exact hHolds (by rwa [List.getElem?_eq_getElem hHere, Option.any_some])

/-- **What steps hold is released exactly once, the last held first.** Whatever the steps of a chain do
and whatever stream they are given, one of two things happens.

A step fails, and it is the first one that does. Then the steps up to it were run in order and none
behind it, what the steps before it hold was released before its failure was returned, and an encoding
ends in the same way.

Or all steps succeed and were run in order, with a guard over what they hold and nothing released yet.
The guard releases the same on request and without one. An encoding reads the final stream first and
then releases all of it, also where the stream breaks off, which it reports; otherwise it gives the
octets of that stream. -/
theorem released_once (nonces : Nat → Nonce) (steps : List WriteStep) (input : Stream) :
    (∀ outputs, (heldFrom 0 outputs).Pairwise (· < ·) ∧ ∀ position,
      (releases outputs).count (.released position) =
        if outputs[position]?.any (·.holds) then 1 else 0) ∧
    ((∃ before step rest outputs reached e, steps = before ++ step :: rest ∧
        Passes nonces 0 input before outputs reached ∧
        step.apply (nonces before.length) reached = .error e ∧
        apply nonces ⟨steps⟩ input = ⟨runs (before.length + 1) ++ releases outputs, .error e⟩ ∧
        ∀ payload, input = .ofBytes payload →
          encode nonces ⟨steps⟩ payload =
            ⟨runs (before.length + 1) ++ releases outputs, .error e⟩) ∨
      ∃ outputs last guard, Passes nonces 0 input steps outputs last ∧
        apply nonces ⟨steps⟩ input = ⟨runs steps.length, .ok (last, guard)⟩ ∧
        guard.release = releases outputs ∧ guard.discard = releases outputs ∧
        ∀ payload, input = .ofBytes payload →
          encode nonces ⟨steps⟩ payload =
            ⟨if steps = [] then [] else runs steps.length ++ .consumed :: releases outputs,
              match last.readAll with
              | .error reason => .error (.stream reason)
              | .ok content => .ok content⟩) := by
  refine ⟨fun outputs => ⟨List.pairwise_findIdxs, count_releases outputs⟩, ?_⟩
  rcases exists_passes 0 input steps with ⟨outputs, last, hPasses⟩ |
    ⟨before, step, rest, outputs, reached, e, rfl, hPasses, hFails⟩
  · refine .inr ⟨outputs, last, _, hPasses, apply_of_passes hPasses, Guard.release_eq _,
      Guard.discard_eq _, ?_⟩
    rintro payload rfl
    exact encode_of_passes hPasses
  · rw [Nat.zero_add] at hFails
    refine .inl ⟨before, step, rest, outputs, reached, e, rfl, hPasses, hFails,
      apply_of_fails hPasses hFails, ?_⟩
    rintro payload rfl
    exact encode_of_fails hPasses hFails

/-- The third step fails, and of the two before it only the first holds on to something. -/
example :
    let keep : WriteStep := ⟨"keep", fun _ input => .ok ⟨input, true⟩⟩
    let pass : WriteStep := ⟨"pass", fun _ input => .ok ⟨input, false⟩⟩
    let fail : WriteStep := ⟨"fail", fun _ _ => .error (.encryption "injected")⟩
    (encode .ofNat ⟨[keep, pass, fail, keep]⟩ [1]).events = [.ran 0, .ran 1, .ran 2, .released 0] :=
  rfl

end WriteChain

end ReplicatedStore
