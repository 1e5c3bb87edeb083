import ReplicatedStore.Address
import ReplicatedStore.Bytes

/-!
# Collections of objects

A collection holds at most one content for each address.

Main statements:

* `Objects.get?_insert_self`, `Objects.get?_insert_of_ne`, `Objects.get?_erase_self`,
  `Objects.get?_erase_of_ne` — a change at an address is a change at that address alone.
-/

namespace ReplicatedStore

/-- Contents at addresses, the newest first. -/
structure Objects where
  entries : List (Address × Bytes) := []
  deriving DecidableEq, Repr

namespace Objects

def get? (o : Objects) (a : Address) : Option Bytes := o.entries.lookup a

/-- The collection without what is at an address. -/
def erase (o : Objects) (a : Address) : Objects := ⟨o.entries.filter (·.1 != a)⟩

/-- The collection with a content at an address. -/
def insert (o : Objects) (a : Address) (content : Bytes) : Objects :=
  ⟨(a, content) :: (o.erase a).entries⟩

/-- How many addresses have a content. -/
def size (o : Objects) : Nat := o.entries.length

@[simp] theorem get?_insert_self (o : Objects) (a : Address) (content : Bytes) :
    (o.insert a content).get? a = some content := by
  simp [get?, insert]

@[simp] theorem get?_erase_self (o : Objects) (a : Address) : (o.erase a).get? a = none := by
  simp only [get?, erase]
  induction o.entries with
  | nil => rfl
  | cons e rest ih =>
    obtain ⟨other, content⟩ := e
    by_cases h : other = a
    · simp [h, ih]
    · have : (a == other) = false := by simpa using fun e => h e.symm
      simp [h, List.lookup_cons, this, ih]

theorem get?_erase_of_ne (o : Objects) {a other : Address} (h : other ≠ a) :
    (o.erase a).get? other = o.get? other := by
  simp only [get?, erase]
  induction o.entries with
  | nil => rfl
  | cons e rest ih =>
    obtain ⟨key, content⟩ := e
    by_cases hKey : key = a
    · have hOther : (other == a) = false := by simpa using h
      simp [hKey, List.lookup_cons, hOther, ih]
    · simp [hKey, List.lookup_cons, ih]

theorem get?_insert_of_ne (o : Objects) {a other : Address} (content : Bytes) (h : other ≠ a) :
    (o.insert a content).get? other = o.get? other := by
  rw [← get?_erase_of_ne o h]
  have : (other == a) = false := by simpa using h
  simp [get?, insert, List.lookup_cons, this]

end Objects

end ReplicatedStore
