import ReplicatedStore.Backend.Basic

/-!
# The order of reads

Backends are read in groups, replicas before mains. The classic strategy reads the groups as they
stand. Taking turns starts each read one place further in the first group and wraps around; the
other groups are read as they stand. A read claims its order when it starts.

Main statements:

* `ReadOrder.perm_rotate` — where a group is started does not change which backends are read.
-/

namespace ReplicatedStore

/-- How reads are spread over backends. -/
inductive Balancing
  | classic
  | roundRobin
  deriving DecidableEq, Repr, Inhabited

namespace Balancing

def word : Balancing → String
  | classic => "classic"
  | roundRobin => "round_robin"

def choices : List (String × Balancing) := [("classic", classic), ("round_robin", roundRobin)]

end Balancing

/-- Groups of backends, by their positions, and where the next read starts in the first group. -/
structure ReadOrder where
  strategy : Balancing := .classic
  groups : List (List Nat) := []
  cursor : Nat := 0
  deriving DecidableEq, Repr

namespace ReadOrder

/-- A list from a place on, wrapping around. -/
def rotate {α : Type} (list : List α) (start : Nat) : List α := list.drop start ++ list.take start

/-- The order of the next read, and what the one after it finds. -/
def claim (o : ReadOrder) : List Nat × ReadOrder :=
  match o.strategy, o.groups with
  | .classic, groups => (groups.flatten, o)
  | .roundRobin, [] => ([], o)
  | .roundRobin, first :: rest =>
    if first.length = 0 then (rest.flatten, o)
    else
      let start := o.cursor % first.length
      (rotate first start ++ rest.flatten, { o with cursor := (start + 1) % first.length })

theorem perm_rotate {α : Type} (list : List α) (start : Nat) : (rotate list start).Perm list := by
  have h : (rotate list start).Perm (list.take start ++ list.drop start) := List.perm_append_comm
  rwa [List.take_append_drop] at h

end ReadOrder

namespace World

/-- The positions of the main backends, in order. -/
def mains (w : World) : List Nat :=
  (List.range w.backends.length).filter fun i => (w.backends[i]?).any (·.properties.isMain)

/-- The positions of the replicas, in order. -/
def replicas (w : World) : List Nat :=
  (List.range w.backends.length).filter fun i => (w.backends[i]?).any fun b => !b.properties.isMain

/-- The groups in which backends are read: replicas, then mains. -/
def readGroups (w : World) : List (List Nat) := [w.replicas, w.mains]

def nameOf (w : World) (position : Nat) : String := ((w.backends[position]?).map (·.name)).getD ""

end World

end ReplicatedStore
