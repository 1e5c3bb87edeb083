import ReplicatedStore.Disk.Basic

/-!
# Changes of a disk

What has to be done to one disk so that it becomes another: directories are made from the top, then
files are written, then places are cleared.
-/

namespace ReplicatedStore

/-- A change at one place of a disk. -/
inductive Change
  | makeDirectory (place : Place)
  | write (place : Place) (content : Bytes)
  | clear (place : Place)
  deriving DecidableEq, Repr

namespace Disk

/-- The nodes of a disk that another one does not have, those put there first at the front. -/
def newNodes (old new : Disk) : List (Place × Node) :=
  (new.nodes.filter fun (place, node) => old.node? place ≠ some node).reverse

/-- The changes that lead from one disk to another. -/
def changes (old new : Disk) : List Change :=
  let made := newNodes old new
  (made.filterMap fun (place, node) =>
    match node with
    | .directory => some (.makeDirectory place)
    | .file _ => none) ++
  (made.filterMap fun (place, node) =>
    match node with
    | .directory => none
    | .file content => some (.write place content)) ++
  (old.nodes.filterMap fun (place, _) =>
    if (new.node? place).isNone then some (.clear place) else none)

/-- The places that a path leads through, the first one first. -/
def placesOf (d : Disk) (path : String) : List Place :=
  ((piecesOf path).foldl (fun (places, at_) piece =>
    let next : Place := match Path.part? piece with
      | some .up => at_.dropLast
      | some (.name t) => at_ ++ [t]
      | _ => at_
    (places ++ [next], next)) ([d.startOf path], d.startOf path)).1

end Disk

end ReplicatedStore
