import ReplicatedStore.Proofs.Backend.Effects
import ReplicatedStore.Session.FanOut

/-!
# The tally of a fan-out

What is known of a fan-out from its calls alone: which branches have begun, and what the finished ones
came to, in the order of completion. Each branch is in one list or both as its state says, and the
failures noted are those of the outcomes. Once nothing is left to do, every branch has begun once and
has one outcome, in whatever order.

Main results:

* `FanOut.Tally.begin_waiting`, `FanOut.Tally.begin_over`, `FanOut.Tally.finish` — the tally is kept.
* `FanOut.Tally.perm_range` — the tally of a fan-out on which nothing is left to do.
-/

namespace ReplicatedStore

namespace FanOut

/-- The failure that an outcome of a branch means, if it means one. -/
def failureOf? (w : World) (f : FanOut) : Nat × Outcome → Option StoreError
  | (branch, o) => (f.branches[branch]?).bind fun b => f.error? branch (w.nameOf b.backend) o

/-- The branches that have begun, and the outcomes of those that are finished. -/
structure Tally (w : World) (f : FanOut) (begun : List Nat) (outcomes : List (Nat × Outcome)) :
    Prop where
  begun_nodup : begun.Nodup
  done_nodup : (outcomes.map (·.1)).Nodup
  begun_lt : ∀ j ∈ begun, j < f.branches.length
  done_lt : ∀ j ∈ outcomes.map (·.1), j < f.branches.length
  begun_iff : ∀ j b, f.branches[j]? = some b → (j ∈ begun ↔ b.state ≠ .queued)
  done_iff : ∀ j b, f.branches[j]? = some b → (j ∈ outcomes.map (·.1) ↔ b.state = .finished)
  keeps : ∀ (j : Nat) b due held, f.branches[j]? = some b → b.state = .running due held →
    w.Keeps b.backend f.request held
  alive : ∀ (j : Nat) b, f.branches[j]? = some b → b.state ≠ .dropped
  errors : f.errors = outcomes.filterMap (f.failureOf? w)

/-! ## Branches of a changed fan-out -/

theorem getElem?_setState_self {f : FanOut} {branch : Nat} {b : Branch}
    (h : f.branches[branch]? = some b) (state : BranchState) :
    (f.setState branch state).branches[branch]? = some { b with state } := by
  simp [setState, h]

theorem getElem?_setState_of_ne (f : FanOut) {branch other : Nat} (h : branch ≠ other)
    (state : BranchState) : (f.setState branch state).branches[other]? = f.branches[other]? :=
  List.getElem?_modify_ne _ _ h

/-- A branch after one has changed is the changed one, or what it was. -/
theorem setState_cases {f : FanOut} {branch j : Nat} {b c : Branch} {state : BranchState}
    (hb : f.branches[branch]? = some b) (h : (f.setState branch state).branches[j]? = some c) :
    branch = j ∧ c = { b with state } ∨ branch ≠ j ∧ f.branches[j]? = some c := by
  by_cases hj : branch = j
  · subst hj
    rw [getElem?_setState_self hb, Option.some.injEq] at h
    exact .inl ⟨rfl, h.symm⟩
  · rw [getElem?_setState_of_ne f hj] at h
    exact .inr ⟨hj, h⟩

/-- Among branches of different backends the others are of other backends than the changed one. -/
theorem setState_cases_of_nodup {f : FanOut} {branch j : Nat} {b c : Branch} {state : BranchState}
    (hNodup : (f.branches.map (·.backend)).Nodup) (hb : f.branches[branch]? = some b)
    (h : (f.setState branch state).branches[j]? = some c) :
    branch = j ∧ c = { b with state } ∨ b.backend ≠ c.backend ∧ f.branches[j]? = some c := by
  rcases setState_cases hb h with hChanged | ⟨hNe, hc⟩
  · exact .inl hChanged
  · refine .inr ⟨fun hEq => hNe ?_, hc⟩
    have hLt : branch < (f.branches.map (·.backend)).length := by
      rw [List.length_map]
      exact (List.getElem?_eq_some_iff.mp hb).1
    refine (List.getElem?_inj hLt hNodup).mp ?_
    rw [List.getElem?_map, List.getElem?_map, hb, hc, Option.map_some, Option.map_some, hEq]

@[simp] theorem length_setState (f : FanOut) (branch : Nat) (state : BranchState) :
    (f.setState branch state).branches.length = f.branches.length := List.length_modify ..

theorem backends_setState (f : FanOut) (branch : Nat) (state : BranchState) :
    (f.setState branch state).branches.map (·.backend) = f.branches.map (·.backend) := by
  apply List.ext_getElem?
  intro j
  rw [List.getElem?_map, List.getElem?_map]
  by_cases h : branch = j
  · subst h
    cases hb : f.branches[branch]? with
    | none => simp [setState, hb]
    | some b => rw [getElem?_setState_self hb]; rfl
  · rw [getElem?_setState_of_ne f h]

@[simp] theorem backends_ofBackends (r : Request) (backends : List Nat) (detached : Bool) :
    (ofBackends r backends detached).branches.map (·.backend) = backends := by
  simp [ofBackends, List.map_map, Function.comp_def]

theorem length_branches {f : FanOut} {backends : List Nat}
    (h : f.branches.map (·.backend) = backends) : f.branches.length = backends.length := by
  rw [← h, List.length_map]

/-- Failures are told by the request, the backends of the branches and their names. -/
theorem failureOf?_congr {v w : World} {f g : FanOut} (hRequest : g.request = f.request)
    (hBackends : g.branches.map (·.backend) = f.branches.map (·.backend))
    (hNames : v.nameOf = w.nameOf) : g.failureOf? v = f.failureOf? w := by
  funext ⟨branch, o⟩
  have hBranch := congrArg (fun l : List Nat => l[branch]?) hBackends
  simp only [List.getElem?_map] at hBranch
  simp only [failureOf?, hNames]
  cases hg : g.branches[branch]? with
  | none =>
    cases hf : f.branches[branch]? with
    | none => rfl
    | some b => simp [hg, hf] at hBranch
  | some b' =>
    cases hf : f.branches[branch]? with
    | none => simp [hg, hf] at hBranch
    | some b =>
      have hBackend : b'.backend = b.backend := by simpa [hg, hf] using hBranch
      simp only [Option.bind_some, hBackend]
      cases o <;> simp [error?, hRequest]

/-! ## The tally is kept -/

theorem nodup_concat {l : List Nat} {j : Nat} (h : l.Nodup) (hNew : j ∉ l) : (l ++ [j]).Nodup := by
  rw [List.nodup_append]
  refine ⟨h, by simp, ?_⟩
  intro a ha b hb hEq
  rw [List.mem_singleton] at hb
  rw [hEq, hb] at ha
  exact hNew ha

theorem tally_ofBackends (w : World) (r : Request) (backends : List Nat) (detached : Bool) :
    (ofBackends r backends detached).Tally w [] [] := by
  have hQueued (j : Nat) (b : Branch) (h : (ofBackends r backends detached).branches[j]? = some b) :
      b.state = .queued := by
    simp only [ofBackends, List.getElem?_map, Option.map_eq_some_iff] at h
    obtain ⟨backend, -, rfl⟩ := h
    rfl
  refine ⟨List.nodup_nil, List.nodup_nil, by simp, by simp, ?_, ?_, ?_, ?_, rfl⟩
  · intro j b h
    simp [hQueued j b h]
  · intro j b h
    simp [hQueued j b h]
  · intro j b due held h hRunning
    rw [hQueued j b h] at hRunning
    contradiction
  · intro j b h hDropped
    rw [hQueued j b h] at hDropped
    contradiction

namespace Tally

variable {w v : World} {f : FanOut} {begun : List Nat} {outcomes : List (Nat × Outcome)}

theorem of_frame_eq (h : f.Tally w begun outcomes) (hFrame : v.frame = w.frame) :
    f.Tally v begun outcomes := by
  refine { h with keeps := fun j b due held hb hRunning => ?_, errors := ?_ }
  · exact (h.keeps j b due held hb hRunning).of_frame_eq hFrame
  · rw [h.errors, failureOf?_congr rfl rfl (World.nameOf_of_frame_eq hFrame)]

/-- A branch that was not finished comes into another state, and is noted as that state says. -/
theorem setState (h : f.Tally w begun outcomes) {branch : Nat} {b : Branch} {state : BranchState}
    {begun' : List Nat} {outcomes' : List (Nat × Outcome)} {errors : List StoreError}
    (hb : f.branches[branch]? = some b)
    (hBegun : begun'.Nodup) (hDone : (outcomes'.map (·.1)).Nodup)
    (hQueued : state ≠ .queued) (hDropped : state ≠ .dropped) (hOpen : b.state ≠ .finished)
    (hBegunMem : ∀ j, j ∈ begun' ↔ j ∈ begun ∨ j = branch)
    (hDoneMem : ∀ j, j ∈ outcomes'.map (·.1) ↔
      j ∈ outcomes.map (·.1) ∨ j = branch ∧ state = .finished)
    (hKeeps : ∀ due held, state = .running due held → w.Keeps b.backend f.request held)
    (hErrors : errors = outcomes'.filterMap (f.failureOf? w)) :
    { f.setState branch state with errors }.Tally w begun' outcomes' := by
  have hLt : branch < f.branches.length := (List.getElem?_eq_some_iff.mp hb).1
  -- each part holds of the changed branch by what is assumed of its state, and of the others as before
  refine ⟨hBegun, hDone, ?_, ?_, ?_, ?_, ?_, ?_, ?_⟩
  · intro j hj
    rw [length_setState]
    rcases (hBegunMem j).mp hj with hj | rfl
    · exact h.begun_lt j hj
    · exact hLt
  · intro j hj
    rw [length_setState]
    rcases (hDoneMem j).mp hj with hj | ⟨rfl, -⟩
    · exact h.done_lt j hj
    · exact hLt
  · intro j c hc
    rcases setState_cases hb hc with ⟨rfl, rfl⟩ | ⟨hNe, hc⟩
    · simp [hBegunMem, hQueued]
    · rw [hBegunMem, ← h.begun_iff j c hc]
      simp [Ne.symm hNe]
  · intro j c hc
    rcases setState_cases hb hc with ⟨rfl, rfl⟩ | ⟨hNe, hc⟩
    · rw [hDoneMem, h.done_iff branch b hb]
      simp [hOpen]
    · rw [hDoneMem, ← h.done_iff j c hc]
      simp [Ne.symm hNe]
  · intro j c due held hc hRunning
    rcases setState_cases hb hc with ⟨rfl, rfl⟩ | ⟨hNe, hc⟩
    · exact hKeeps due held hRunning
    · exact h.keeps j c due held hc hRunning
  · intro j c hc
    rcases setState_cases hb hc with ⟨rfl, rfl⟩ | ⟨hNe, hc⟩
    · exact hDropped
    · exact h.alive j c hc
  · have hSame : { f.setState branch state with errors }.failureOf? w = f.failureOf? w :=
      failureOf?_congr rfl (backends_setState f branch state) rfl
    rw [hSame]
    exact hErrors

/-- A queued branch begins a call that is to be finished later. -/
theorem begin_waiting (h : f.Tally w begun outcomes) {branch : Nat} {b : Branch} {due : Duration}
    {held : Held} (hb : f.branches[branch]? = some b) (hQueued : b.state = .queued)
    (hKeeps : w.Keeps b.backend f.request held) :
    (f.setState branch (.running due held)).Tally w (begun ++ [branch]) outcomes := by
  have hNew : branch ∉ begun := by simp [h.begun_iff branch b hb, hQueued]
  refine h.setState hb (nodup_concat h.begun_nodup hNew) h.done_nodup (by simp) (by simp)
    (by simp [hQueued]) ?_ ?_ ?_ h.errors
  · simp
  · simp
  · intro due' held' hEq
    cases hEq
    exact hKeeps

/-- A branch that is not finished comes to an outcome. -/
theorem complete (h : f.Tally w begun outcomes) {branch : Nat} {b : Branch} {begun' : List Nat}
    {o : Outcome} (hb : f.branches[branch]? = some b) (hOpen : b.state ≠ .finished)
    (hBegun : begun'.Nodup) (hBegunMem : ∀ j, j ∈ begun' ↔ j ∈ begun ∨ j = branch) :
    (f.complete branch (w.nameOf b.backend) o).Tally w begun' (outcomes ++ [(branch, o)]) := by
  have hNew : branch ∉ outcomes.map (·.1) := by
    rw [h.done_iff branch b hb]
    exact hOpen
  refine h.setState hb hBegun ?_ (by simp) (by simp) hOpen hBegunMem ?_ ?_ ?_
  · rw [List.map_append]
    exact nodup_concat h.done_nodup hNew
  · intro j
    simp only [List.map_append, List.map_cons, List.map_nil, List.mem_append, List.mem_singleton,
      and_true]
  · intro due held hEq
    contradiction
  · rw [List.filterMap_append, ← h.errors]
    congr 1
    cases hError : f.error? branch (w.nameOf b.backend) o <;> simp [failureOf?, hb, hError]

/-- A queued branch begins a call that is over at once. -/
theorem begin_over (h : f.Tally w begun outcomes) {branch : Nat} {b : Branch} {o : Outcome}
    (hb : f.branches[branch]? = some b) (hQueued : b.state = .queued) :
    (f.complete branch (w.nameOf b.backend) o).Tally w (begun ++ [branch])
      (outcomes ++ [(branch, o)]) := by
  have hNew : branch ∉ begun := by simp [h.begun_iff branch b hb, hQueued]
  exact h.complete hb (by simp [hQueued]) (nodup_concat h.begun_nodup hNew) (by simp)

/-- A running branch is finished. -/
theorem finish (h : f.Tally w begun outcomes) {branch : Nat} {b : Branch} {due : Duration}
    {held : Held} {o : Outcome} (hb : f.branches[branch]? = some b)
    (hRunning : b.state = .running due held) :
    (f.complete branch (w.nameOf b.backend) o).Tally w begun (outcomes ++ [(branch, o)]) := by
  have hBegun : branch ∈ begun := by simp [h.begun_iff branch b hb, hRunning]
  refine h.complete hb (by simp [hRunning]) h.begun_nodup fun j => ?_
  constructor
  · exact .inl
  · rintro (hj | rfl)
    · exact hj
    · exact hBegun

/-! ## Nothing left to do -/

theorem state_of_isFinished (h : f.Tally w begun outcomes) (hFinished : f.isFinished = true)
    {j : Nat} {b : Branch} (hb : f.branches[j]? = some b) : b.state = .finished := by
  have hOver := List.all_eq_true.mp hFinished b (List.mem_of_getElem? hb)
  have hAlive := h.alive j b hb
  unfold Branch.isOver at hOver
  split at hOver
  · contradiction
  · contradiction
  · rename_i hState
    exact hState
  · rename_i hState
    exact absurd hState hAlive

/-- Every branch has begun once and has come to one outcome. -/
theorem perm_range (h : f.Tally w begun outcomes) (hFinished : f.isFinished = true) :
    begun.Perm (List.range f.branches.length) ∧
      (outcomes.map (·.1)).Perm (List.range f.branches.length) := by
  have hBranch (j : Nat) (hj : j < f.branches.length) :
      ∃ b, f.branches[j]? = some b ∧ b.state = .finished :=
    ⟨f.branches[j], List.getElem?_eq_getElem hj,
      h.state_of_isFinished hFinished (List.getElem?_eq_getElem hj)⟩
  constructor
  · rw [List.perm_ext_iff_of_nodup h.begun_nodup List.nodup_range]
    intro j
    rw [List.mem_range]
    refine ⟨h.begun_lt j, fun hj => ?_⟩
    obtain ⟨b, hb, hState⟩ := hBranch j hj
    rw [h.begun_iff j b hb, hState]
    simp
  · rw [List.perm_ext_iff_of_nodup h.done_nodup List.nodup_range]
    intro j
    rw [List.mem_range]
    refine ⟨h.done_lt j, fun hj => ?_⟩
    obtain ⟨b, hb, hState⟩ := hBranch j hj
    rw [h.done_iff j b hb, hState]

end Tally

end FanOut

end ReplicatedStore
