import ReplicatedStore.Text

/-!
# Paths

A path is a text of components between slashes. Empty components count for nothing, nor does a dot
that stands for the directory before it; a path that starts with a slash starts at the root. Joining
puts one path behind another, unless the second starts at the root itself.

Main statements:

* `Path.isPlain_iff` — a plain path is a text all of whose components are names.
-/

namespace ReplicatedStore

/-- One component of a path. -/
inductive PathPart
  | root
  /-- a dot at the very start -/
  | here
  /-- two dots -/
  | up
  | name (text : String)
  deriving DecidableEq, Repr

namespace Path

/-- The component that a piece of a path is; an empty piece or a dot is none. -/
def part? (piece : List Char) : Option PathPart :=
  if piece = [] ∨ piece = ['.'] then none
  else if piece = ['.', '.'] then some .up
  else some (.name (String.ofList piece))

/-- The components of a path in order. -/
def parts (path : String) : List PathPart :=
  let pieces := Text.pieces '/' path.toList
  let body := pieces.filterMap part?
  match path.toList with
  | [] => []
  | '/' :: _ => .root :: body
  | _ => if pieces.head? = some ['.'] then .here :: body else body

/-- Whether all components of a path are names, so that it leads downwards only. -/
def isPlain (path : String) : Bool :=
  path ≠ "" && (parts path).all fun p => match p with
    | .name _ => true
    | _ => false

/-- The second path seen from the first. -/
def join (base path : String) : String :=
  if path.startsWith "/" then path
  else if base = "" || base.endsWith "/" then base ++ path
  else base ++ "/" ++ path

def ofParts : List PathPart → String
  | [] => ""
  | p :: rest =>
    let word := match p with
      | .root => ""
      | .here => "."
      | .up => ".."
      | .name t => t
    match p, rest with
    | .root, [] => "/"
    | _, [] => word
    | _, rest => word ++ "/" ++ ofParts rest

/-- The path without its last component; none of the root and of the empty path. -/
def parent? (path : String) : Option String :=
  match (parts path).reverse with
  | [] => none
  | .root :: _ => none
  | _ :: before => some (ofParts before.reverse)

theorem isPlain_iff (path : String) :
    isPlain path = true ↔ path ≠ "" ∧ ∀ p ∈ parts path, ∃ t, p = .name t := by
  simp only [isPlain, Bool.and_eq_true, decide_eq_true_eq, List.all_eq_true, ne_eq]
  refine and_congr Iff.rfl (forall_congr' fun p => forall_congr' fun _ => ?_)
  cases p <;> simp

end Path

end ReplicatedStore
