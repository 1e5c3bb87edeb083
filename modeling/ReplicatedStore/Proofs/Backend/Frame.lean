import ReplicatedStore.Proofs.Backend.Directories
import ReplicatedStore.Proofs.Backend.Kept
import ReplicatedStore.Session.ReadOrder

/-!
# Frames

What calls never change of a world: how many backends there are, what they are called, their
properties, and where each of them keeps its objects; how the server behaves, and what comes in the way
of contents on the disk. Mains, replicas and names depend on the frame alone.

Main results:

* `World.frame_begin`, `World.frame_finish` — calls leave the frame alone.
* `World.mains_of_frame_eq`, `World.replicas_of_frame_eq`, `World.nameOf_of_frame_eq`.
-/

namespace ReplicatedStore

/-- A backend without what calls may change. -/
def Backend.blank (b : Backend) : Backend := { b with storage := b.storage.blank }

/-- What calls do not change of a world. -/
structure Frame where
  /-- without what calls may change -/
  backends : List Backend
  server : Server
  mishapAt : Nat → Option Mishap

namespace World

def frame (w : World) : Frame := ⟨w.backends.map Backend.blank, w.server, w.disk.mishapAt⟩

theorem blank_eq_of_frame_eq {v w : World} (h : v.frame = w.frame) (i : Nat) :
    (v.backends[i]?).map Backend.blank = (w.backends[i]?).map Backend.blank := by
  have hBackends : v.backends.map Backend.blank = w.backends.map Backend.blank :=
    congrArg Frame.backends h
  rw [← List.getElem?_map, hBackends, List.getElem?_map]

theorem frame_store {w : World} {position : Nat} {b : Backend} {st : Storage}
    (h : w.backends[position]? = some b) (hBlank : st.blank = b.storage.blank) :
    (w.store position b st).frame = w.frame := by
  have hBackends : (w.store position b st).backends.map Backend.blank = w.backends.map Backend.blank := by
    apply List.ext_getElem?
    intro i
    rw [List.getElem?_map, List.getElem?_map]
    by_cases hi : position = i
    · have hLength := (List.getElem?_eq_some_iff.mp h).1
      rw [← hi, store, List.getElem?_set_self hLength, h]
      simp [Backend.blank, hBlank]
    · rw [store, List.getElem?_set_ne hi]
  exact congrArg (Frame.mk · w.server w.disk.mishapAt) hBackends

/-- Another disk on which the same comes in the way of contents. -/
theorem frame_disk {w : World} {disk : Disk} (h : disk.mishapAt = w.disk.mishapAt) :
    { w with disk }.frame = w.frame :=
  congrArg (Frame.mk (w.backends.map Backend.blank) w.server) h

theorem exists_of_frame_eq {v w : World} (h : v.frame = w.frame) {position : Nat} {b : Backend}
    (hb : w.backends[position]? = some b) :
    ∃ b', v.backends[position]? = some b' ∧ b'.blank = b.blank := by
  have hi := blank_eq_of_frame_eq h position
  rw [hb] at hi
  cases hv : v.backends[position]? with
  | none => simp [hv] at hi
  | some b' => exact ⟨b', rfl, by simpa [hv] using hi⟩

theorem nameOf_of_frame_eq {v w : World} (h : v.frame = w.frame) : v.nameOf = w.nameOf := by
  funext i
  have hi := congrArg (Option.map Backend.name) (blank_eq_of_frame_eq h i)
  have hName : Backend.name ∘ Backend.blank = Backend.name := rfl
  rw [Option.map_map, Option.map_map, hName] at hi
  rw [nameOf, nameOf]
  exact congrArg (·.getD "") hi

theorem length_of_frame_eq {v w : World} (h : v.frame = w.frame) :
    v.backends.length = w.backends.length := by
  simpa [frame] using congrArg (·.backends.length) h

theorem isMain_of_frame_eq {v w : World} (h : v.frame = w.frame) (i : Nat) :
    (v.backends[i]?).map (·.properties.isMain) = (w.backends[i]?).map (·.properties.isMain) := by
  have hi := congrArg (Option.map (·.properties.isMain)) (blank_eq_of_frame_eq h i)
  rw [Option.map_map, Option.map_map] at hi
  exact hi

theorem mains_of_frame_eq {v w : World} (h : v.frame = w.frame) : v.mains = w.mains := by
  unfold mains
  rw [length_of_frame_eq h]
  apply List.filter_congr
  intro i _
  have hi := isMain_of_frame_eq h i
  cases hv : v.backends[i]? <;> cases hw : w.backends[i]? <;> simp_all

theorem replicas_of_frame_eq {v w : World} (h : v.frame = w.frame) : v.replicas = w.replicas := by
  unfold replicas
  rw [length_of_frame_eq h]
  apply List.filter_congr
  intro i _
  have hi := isMain_of_frame_eq h i
  cases hv : v.backends[i]? <;> cases hw : w.backends[i]? <;> simp_all

/-! ## Calls -/

theorem frame_begin (w : World) (position : Nat) (r : Request) :
    (w.begin position r).1.frame = w.frame := by
  unfold begin
  split
  · rfl
  · rename_i b hb
    split
    · rename_i codec content hStorage
      exact frame_store hb (by rw [hStorage]; rfl)
    · rfl
    · rfl
    · rename_i script hStorage
      exact frame_store hb (by rw [hStorage]; rfl)

theorem frame_finish (w : World) (position : Nat) (held : Held) :
    (w.finish position held).1.frame = w.frame := by
  unfold finish
  split
  · rfl
  · rename_i b hb
    split
    · rename_i codec content _ hStorage
      exact frame_store hb (by rw [hStorage]; rfl)
    · rename_i codec place r hStorage
      exact frame_disk (place.mishapAt_call codec w.supply w.disk r)
    · split <;> rfl
    · rename_i script r number hStorage
      exact frame_store hb (by rw [hStorage]; rfl)
    · rfl

end World

end ReplicatedStore
