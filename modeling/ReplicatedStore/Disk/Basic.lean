import ReplicatedStore.Bytes
import ReplicatedStore.Disk.Path

/-!
# The disk

A disk is a tree of directories and files, as a list of the places that are taken and what is there.
The root is always a directory. Paths are followed component by component, each from a directory, and
a path that ends with a slash has to lead to one.

A file that is written is opened first, which empties it, and filled then. What comes in the way of its
content after it was opened is up to the disk, and leaves a file with a front part of the content.

Main statements:

* `Disk.node?_set_self`, `Disk.node?_set_of_ne`, `Disk.node?_erase_of_ne` — a change at a place is a
  change at that place alone.
-/

namespace ReplicatedStore

/-- The names that lead from the root to a place. -/
abbrev Place := List String

/-- What is at a place. -/
inductive Node
  | directory
  | file (content : Bytes)
  deriving DecidableEq, Repr

/-- Whether a directory is at a place. -/
def Node.isDirectory : Node → Bool
  | .directory => true
  | .file _ => false

/-- Why a disk refuses an action. -/
inductive Refusal
  | missing
  | notDirectory
  | isDirectory
  | alreadyThere
  | nameTooLong
  | invalidName
  | invalidAction
  | noSpace
  | brokenDevice
  deriving DecidableEq, Repr

def Refusal.message : Refusal → String
  | missing => "No such file or directory (os error 2)"
  | notDirectory => "Not a directory (os error 20)"
  | isDirectory => "Is a directory (os error 21)"
  | alreadyThere => "File exists (os error 17)"
  | nameTooLong => "File name too long (os error 36)"
  | invalidName => "file name contained an unexpected NUL byte"
  | invalidAction => "Invalid argument (os error 22)"
  | noSpace => "No space left on device (os error 28)"
  | brokenDevice => "Input/output error (os error 5)"

/-- What comes in the way of a content when its file is open. -/
structure Mishap where
  /-- how many octets have come into the file -/
  taken : Nat
  refusal : Refusal
  /-- whether it shows only when what was written is flushed -/
  late : Bool := false
  deriving DecidableEq, Repr

/-- A tree of directories and files, and the directory from which relative paths are followed. -/
structure Disk where
  nodes : List (Place × Node) := []
  origin : Place := []
  /-- how many files were opened to be filled -/
  filled : Nat := 0
  /-- what comes in the way of the contents, in the order in which they are written -/
  mishapAt : Nat → Option Mishap := fun _ => none

namespace Disk

/-- The longest name, in octets. -/
def maxName : Nat := 255

/-- The octets of a path have to stay below this number. -/
def maxPath : Nat := 4096

def node? (d : Disk) (place : Place) : Option Node :=
  if place = [] then some .directory else (d.nodes.find? (·.1 == place)).map (·.2)

/-- The disk without what is at a place. -/
def erase (d : Disk) (place : Place) : Disk :=
  { d with nodes := d.nodes.filter (·.1 != place) }

/-- The disk with something put at a place. -/
def set (d : Disk) (place : Place) (node : Node) : Disk :=
  { d with nodes := (place, node) :: (d.erase place).nodes }

/-- The disk with a file that was opened to be filled, and what is in it then. -/
def holding (d : Disk) (place : Place) (content : Bytes) : Disk :=
  { d.set place (.file content) with filled := d.filled + 1 }

/-- Whether nothing ever comes in the way of a content. -/
def IsSound (d : Disk) : Prop := ∀ n, d.mishapAt n = none

/-! ## Following paths -/

/-- The place that pieces of a path lead to. Every piece has to start from a directory. -/
def follow (d : Disk) : (at_ : Place) → List (List Char) → Except Refusal Place
  | at_, [] => .ok at_
  | at_, piece :: rest =>
    match d.node? at_ with
    | none => .error .missing
    | some (.file _) => .error .notDirectory
    | some .directory =>
      match Path.part? piece with
      | none => follow d at_ rest
      | some .up => follow d at_.dropLast rest
      | some (.name t) =>
        if maxName < t.utf8ByteSize then .error .nameTooLong else follow d (at_ ++ [t]) rest
      | some _ => follow d at_ rest

/-- The pieces of a path between slashes, without empty ones. -/
def piecesOf (path : String) : List (List Char) :=
  (Text.pieces '/' path.toList).filter (· ≠ [])

/-- The place from which a path is followed. -/
def startOf (d : Disk) (path : String) : Place := if path.startsWith "/" then [] else d.origin

/-- What is wrong with a path before it is followed. -/
def objection? (path : String) : Option Refusal :=
  if path.toList.contains '\x00' then some .invalidName
  else if path = "" then some .missing
  else if maxPath ≤ path.utf8ByteSize then some .nameTooLong
  else none

def stat (d : Disk) (path : String) : Except Refusal Node :=
  match objection? path with
  | some r => .error r
  | none =>
    match d.follow (d.startOf path) (piecesOf path) with
    | .error r => .error r
    | .ok place =>
      match d.node? place with
      | none => .error .missing
      | some node =>
        -- a slash at the end asks for a directory
        if path.endsWith "/" && !node.isDirectory then .error .notDirectory else .ok node

/-- Whether a path leads to a directory. -/
def isDirectory (d : Disk) (path : String) : Bool :=
  match d.stat path with
  | .ok node => node.isDirectory
  | .error _ => false

/-- Whether a path leads to something. -/
def isThere (d : Disk) (path : String) : Bool :=
  match d.stat path with
  | .ok _ => true
  | .error _ => false

/-- What the last piece of a path is. -/
inductive Last
  /-- a name, at a place, with what is there; and whether a slash follows -/
  | named (place : Place) (node : Option Node) (slash : Bool)
  /-- a directory that is not named: the root, or one given by dots -/
  | unnamed
  deriving Repr

/-- The directory that a path leads through, and its last piece. -/
def locate (d : Disk) (path : String) : Except Refusal Last :=
  match objection? path with
  | some r => .error r
  | none =>
    match (piecesOf path).reverse with
    | [] => .ok .unnamed
    | last :: before =>
      match d.follow (d.startOf path) before.reverse with
      | .error r => .error r
      | .ok place =>
        match d.node? place with
        | none => .error .missing
        | some (.file _) => .error .notDirectory
        | some .directory =>
          match Path.part? last with
          | some (.name t) =>
            if maxName < t.utf8ByteSize then .error .nameTooLong
            else .ok (.named (place ++ [t]) (d.node? (place ++ [t])) (path.endsWith "/"))
          | _ => .ok .unnamed

/-! ## Actions -/

def read (d : Disk) (path : String) : Except Refusal Bytes :=
  match d.stat path with
  | .error r => .error r
  | .ok .directory => .error .isDirectory
  | .ok (.file content) => .ok content

/-- An open file gets its content, or a front part of it if something comes in the way. -/
def fill (d : Disk) (place : Place) (content : Bytes) : Disk × Option Mishap :=
  match d.mishapAt d.filled with
  | none => (d.holding place content, none)
  | some m => (d.holding place (content.take m.taken), some m)

/-- A file with a content; one that is there is overwritten. A refusal leaves the disk as it is, what
comes in the way later does not. -/
def write (d : Disk) (path : String) (content : Bytes) : Except Refusal (Disk × Option Mishap) :=
  match d.locate path with
  | .error r => .error r
  | .ok .unnamed => .error .isDirectory
  | .ok (.named _ _ true) => .error .isDirectory
  | .ok (.named _ (some .directory) false) => .error .isDirectory
  | .ok (.named place _ false) => .ok (d.fill place content)

/-- The disk without a file. -/
def remove (d : Disk) (path : String) : Except Refusal Disk :=
  match d.locate path with
  | .error r => .error r
  | .ok .unnamed => .error .invalidAction
  | .ok (.named _ none _) => .error .missing
  | .ok (.named _ (some .directory) _) => .error .isDirectory
  | .ok (.named _ (some (.file _)) true) => .error .notDirectory
  | .ok (.named place (some (.file _)) false) => .ok (d.erase place)

/-- The disk with one more directory, where nothing was. -/
def makeDirectory (d : Disk) (path : String) : Except Refusal Disk :=
  match d.locate path with
  | .error r => .error r
  | .ok .unnamed => .error .alreadyThere
  | .ok (.named _ (some _) _) => .error .alreadyThere
  | .ok (.named place none _) => .ok (d.set place .directory)

/-- The disk with a directory and those above it, made from the top as far as they are missing. The
directories made stay even if a later one is refused. `fuel` bounds the components of the path. -/
def makeDirectoriesFrom : (fuel : Nat) → Disk → String → Disk × Option Refusal
  | 0, d, _ => (d, some .invalidAction)
  | fuel + 1, d, path =>
    if path = "" then (d, none)
    else
      let settle (d : Disk) (r : Refusal) : Disk × Option Refusal :=
        -- a refusal does not matter where the directory is there after all
        if d.isDirectory path then (d, none) else (d, some r)
      match d.makeDirectory path with
      | .ok d => (d, none)
      -- the directory above is made first, then this one is tried again
      | .error .missing =>
        match Path.parent? path with
        | none => (d, some .invalidAction)
        | some parent =>
          match makeDirectoriesFrom fuel d parent with
          | (d, some r) => (d, some r)
          | (d, none) =>
            match d.makeDirectory path with
            | .ok d => (d, none)
            | .error r => settle d r
      | .error r => settle d r

/-- The disk with a directory and those above it. -/
def makeDirectories (d : Disk) (path : String) : Disk × Option Refusal :=
  makeDirectoriesFrom ((Path.parts path).length + 1) d path

/-! ## Laws -/

theorem node?_erase_of_ne (d : Disk) {place other : Place} (h : other ≠ place) :
    (d.erase place).node? other = d.node? other := by
  -- looking for another place, one does not miss what was erased
  have hSame : (fun x : Place × Node => decide ((x.1 != place) = true ∧ (x.1 == other) = true)) =
      fun x => x.1 == other := by
    funext ⟨p, n⟩
    by_cases hp : p = other
    · simp [hp, h]
    · simp [hp]
  simp only [node?, erase, List.find?_filter, hSame]

theorem node?_set_self (d : Disk) (place : Place) (node : Node) (h : place ≠ []) :
    (d.set place node).node? place = some node := by
  simp [node?, set, h]

theorem node?_set_of_ne (d : Disk) {place other : Place} (node : Node) (h : other ≠ place) :
    (d.set place node).node? other = d.node? other := by
  rw [← node?_erase_of_ne d h]
  have : place ≠ other := fun e => h e.symm
  simp [node?, set, this]

theorem fill_of_isSound {d : Disk} (h : d.IsSound) (place : Place) (content : Bytes) :
    d.fill place content = (d.holding place content, none) := by
  rw [fill, h]

/-- Whatever comes in the way, a file is there then with some content. -/
theorem exists_fill_eq (d : Disk) (place : Place) (content : Bytes) :
    ∃ stored, (d.fill place content).1 = d.holding place stored ∧
      ((d.fill place content).2 = none → stored = content) := by
  unfold fill
  split
  · exact ⟨content, rfl, fun _ => rfl⟩
  · exact ⟨_, rfl, fun h => nomatch h⟩

end Disk

end ReplicatedStore
