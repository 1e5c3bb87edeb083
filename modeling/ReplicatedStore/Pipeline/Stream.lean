import ReplicatedStore.Bytes

/-!
# Streams

What flows between the steps of a pipeline: octets, and at their end possibly a failure in place of
the end mark.
-/

namespace ReplicatedStore

/-- Octets that end, or break off with a reason. -/
structure Stream where
  content : Bytes
  failure : Option String := none
  deriving DecidableEq, Repr

namespace Stream

/-- A stream that ends after its octets. -/
def ofBytes (content : Bytes) : Stream := { content }

/-- All octets of a stream that ends, or the reason why it breaks off. -/
def readAll (s : Stream) : Except String Bytes :=
  match s.failure with
  | none => .ok s.content
  | some reason => .error reason

/-- How many octets are copied at once. -/
def copySize : Nat := 8192

/-- The first pieces of some octets, each of a given size as long as they last. -/
def cut (size : Nat) : (count : Nat) → Bytes → List Bytes
  | 0, _ => []
  | count + 1, content => content.take size :: cut size count (content.drop size)

/-- Octets in the pieces in which a copy takes them. -/
def pieces (content : Bytes) : List Bytes :=
  cut copySize ((content.length + (copySize - 1)) / copySize) content

theorem flatten_cut {size count : Nat} {content : Bytes} (h : content.length ≤ count * size) :
    (cut size count content).flatten = content := by
  induction count generalizing content with
  | zero =>
    rw [Nat.zero_mul, Nat.le_zero, List.length_eq_zero_iff] at h
    rw [h]
    rfl
  | succ count ih =>
    have hRest : (content.drop size).length ≤ count * size := by
      rw [Nat.succ_mul] at h
      rw [List.length_drop]
      omega
    rw [cut, List.flatten_cons, ih hRest, List.take_append_drop]

/-- Nothing is lost between the pieces. -/
theorem flatten_pieces (content : Bytes) : (pieces content).flatten = content := by
  refine flatten_cut ?_
  rw [copySize]
  omega

@[simp] theorem readAll_ofBytes (content : Bytes) : (ofBytes content).readAll = .ok content := rfl

end Stream

end ReplicatedStore
