import ReplicatedStore.Quoted
import ReplicatedStore.Session.ReadOrder

/-!
# Fan-outs

A fan-out makes the same request of several backends at once. Each call is a branch of its own, which
is queued, begins, and is finished; failures are noted in the order in which branches are finished. A
fan-out that is cancelled drops the branches that are not finished, so that they have no effect any
more.

Main statements:

* `FanOut.isFinished_cancel` — nothing is left to do of a cancelled fan-out.
-/

namespace ReplicatedStore

/-- Where a branch stands. -/
inductive BranchState
  | queued
  | running (due : Duration) (held : Held)
  | finished
  | dropped
  deriving DecidableEq, Repr

/-- The call of one backend. -/
structure Branch where
  backend : Nat
  state : BranchState := .queued
  deriving DecidableEq, Repr

/-- Whether nothing is left to do of a branch. -/
def Branch.isOver (b : Branch) : Bool :=
  match b.state with
  | .queued | .running .. => false
  | .finished | .dropped => true

/-- The same request of several backends. -/
structure FanOut where
  request : Request
  branches : List Branch
  /-- what went wrong, in the order of completion -/
  errors : List StoreError := []
  /-- whether nobody waits for the result -/
  detached : Bool := false
  deriving Repr

namespace FanOut

/-- A fan-out over backends, none of which was called yet. -/
def ofBackends (request : Request) (backends : List Nat) (detached : Bool) : FanOut :=
  { request, branches := backends.map ({ backend := · }), detached }

/-- Whether nothing is left to do. -/
def isFinished (f : FanOut) : Bool := f.branches.all Branch.isOver

/-- The failures of all branches as one. -/
def verdict (f : FanOut) : Option StoreError :=
  StoreError.aggregate f.request.operation f.branches.length f.errors

/-- The branches that are not finished are dropped. -/
def cancel (f : FanOut) : FanOut :=
  { f with branches := f.branches.map fun b => if b.isOver then b else { b with state := .dropped } }

def setState (f : FanOut) (branch : Nat) (state : BranchState) : FanOut :=
  { f with branches := f.branches.modify branch fun b => { b with state } }

/-- What goes wrong in a branch, if something does. -/
def error? (f : FanOut) (branch : Nat) (name : String) : Outcome → Option StoreError
  | .answered _ => none
  | .failed failure => some (.backend name f.request.operation failure)
  | .crashed reason =>
    some (.worker f.request.operation s!"task {branch} panicked with message {Quoted.text reason}")

def complete (f : FanOut) (branch : Nat) (name : String) (o : Outcome) : FanOut :=
  { f.setState branch .finished with errors := f.errors ++ (f.error? branch name o).toList }

theorem isFinished_cancel (f : FanOut) : f.cancel.isFinished = true := by
  simp only [isFinished, cancel, List.all_map, List.all_eq_true]
  intro b _
  -- what is over stays so, and the rest is dropped
  by_cases h : b.isOver = true
  · simp [h]
  · have hDropped : ({ b with state := .dropped } : Branch).isOver = true := rfl
    simp [h, hDropped]

end FanOut

end ReplicatedStore
