import ReplicatedStore.Disk.Basic

/-!
# Files at paths

The place that a path leads to is told by its pieces alone, so it is the same before and after any
action. Writing a path puts a file at that place and removing it takes the file away, while making
directories touches no file.

Main results:

* `Disk.content?_write`, `Disk.content?_remove` — what a path leads to after it was written or removed.
* `Disk.sameFiles_makeDirectories` — directories are made where no files are.
-/

namespace ReplicatedStore

namespace Disk

/-- The place that one more piece leads to. -/
def enter (place : Place) (piece : List Char) : Place :=
  match Path.part? piece with
  | some .up => place.dropLast
  | some (.name t) => place ++ [t]
  | _ => place

/-- The place that a path leads to, whatever is there. -/
def placeOf (d : Disk) (path : String) : Place := (piecesOf path).foldl enter (d.startOf path)

/-- The content of the file that a path leads to, if it leads to one. -/
def content? (d : Disk) (path : String) : Option Bytes :=
  match d.node? (d.placeOf path) with
  | some (.file content) => some content
  | _ => none

theorem follow_eq_ok {d : Disk} {start place : Place} {pieces : List (List Char)}
    (h : d.follow start pieces = .ok place) : place = pieces.foldl enter start := by
  -- on the pieces of the path, with the place that those before lead to
  induction pieces generalizing start with
  | nil =>
    rw [follow, Except.ok.injEq] at h
    rw [List.foldl_nil, h]
  | cons piece rest ih =>
    rw [List.foldl_cons]
    unfold follow at h
    split at h
    · contradiction
    · contradiction
    · split at h
      · rename_i hPart
        rw [ih h, enter, hPart]
      · rename_i hPart
        rw [ih h, enter, hPart]
      · rename_i t hPart
        split at h
        · contradiction
        · rw [ih h, enter, hPart]
      · rename_i part hUp hName hPart
        rw [ih h, enter, hPart]
        split
        · rename_i hEq
          exact absurd (Option.some.inj hEq) hUp
        · rename_i t hEq
          exact absurd (Option.some.inj hEq) (hName t)
        · rfl

/-- What it takes to locate a path that ends in a name. -/
theorem exists_of_locate {d : Disk} {path : String} {place : Place} {node : Option Node}
    {slash : Bool} (h : d.locate path = .ok (.named place node slash)) :
    ∃ before last above t, objection? path = none ∧ piecesOf path = before ++ [last] ∧
      d.follow (d.startOf path) before = .ok above ∧ d.node? above = some .directory ∧
      Path.part? last = some (.name t) ∧ t.utf8ByteSize ≤ maxName ∧ place = above ++ [t] ∧
      node = d.node? place := by
  unfold locate at h
  split at h
  · contradiction
  · rename_i hObjection
    split at h
    · simp at h
    · rename_i last before hPieces
      -- the path without its last piece leads to the directory that the name is in
      have hPath : piecesOf path = before.reverse ++ [last] := by
        rw [← List.reverse_reverse (piecesOf path), hPieces, List.reverse_cons]
      split at h
      · contradiction
      · rename_i above hFollow
        split at h
        · contradiction
        · contradiction
        · rename_i hAbove
          split at h
          · rename_i t hPart
            split at h
            · contradiction
            · rename_i hShort
              simp only [Except.ok.injEq, Last.named.injEq] at h
              obtain ⟨rfl, rfl, -⟩ := h
              exact ⟨before.reverse, last, above, t, hObjection, hPath, hFollow, hAbove, hPart,
                Nat.le_of_not_lt hShort, rfl, rfl⟩
          · simp at h

/-- Where a path that ends in a name is located. -/
theorem locate_eq_named {d : Disk} {path : String} {place : Place} {node : Option Node}
    {slash : Bool} (h : d.locate path = .ok (.named place node slash)) :
    place = d.placeOf path ∧ place ≠ [] ∧ node = d.node? place := by
  obtain ⟨before, last, above, t, -, hPath, hFollow, -, hPart, -, rfl, hNode⟩ := exists_of_locate h
  refine ⟨?_, by simp, hNode⟩
  rw [placeOf, hPath, List.foldl_append, ← follow_eq_ok hFollow, List.foldl_cons, List.foldl_nil,
    enter, hPart]

/-- What is found at the end of a path is at the place that the path leads to. -/
theorem node?_of_stat {d : Disk} {path : String} {node : Node} (h : d.stat path = .ok node) :
    d.node? (d.placeOf path) = some node := by
  unfold stat at h
  split at h
  · contradiction
  · split at h
    · contradiction
    · rename_i place hFollow
      split at h
      · contradiction
      · rename_i found hFound
        split at h
        · contradiction
        · rw [placeOf, ← follow_eq_ok hFollow, hFound, Except.ok.inj h]

@[simp] theorem placeOf_holding (d : Disk) (place : Place) (content : Bytes) :
    (d.holding place content).placeOf = d.placeOf := rfl

@[simp] theorem placeOf_erase (d : Disk) (place : Place) : (d.erase place).placeOf = d.placeOf := rfl

theorem node?_holding (d : Disk) (place other : Place) (content : Bytes) :
    (d.holding place content).node? other = (d.set place (.file content)).node? other := rfl

theorem node?_erase_self (d : Disk) {place : Place} (h : place ≠ []) :
    (d.erase place).node? place = none := by
  simp [node?, erase, h]

/-! ## Files that stay -/

/-- Whether two disks have the same files, paths start at the same place, and what comes in the way of
contents is the same. -/
structure SameFiles (d e : Disk) : Prop where
  origin : e.origin = d.origin
  mishapAt : e.mishapAt = d.mishapAt
  file : ∀ place content, e.node? place = some (.file content) ↔ d.node? place = some (.file content)

theorem SameFiles.refl (d : Disk) : d.SameFiles d := ⟨rfl, rfl, fun _ _ => Iff.rfl⟩

theorem SameFiles.trans {d e f : Disk} (h : d.SameFiles e) (h' : e.SameFiles f) : d.SameFiles f :=
  ⟨h'.origin.trans h.origin, h'.mishapAt.trans h.mishapAt,
    fun place content => (h'.file place content).trans (h.file place content)⟩

theorem SameFiles.placeOf_eq {d e : Disk} (h : d.SameFiles e) (path : String) :
    e.placeOf path = d.placeOf path := by
  rw [placeOf, placeOf, startOf, startOf, h.origin]

theorem content?_eq_some_iff (d : Disk) (path : String) (content : Bytes) :
    d.content? path = some content ↔ d.node? (d.placeOf path) = some (.file content) := by
  unfold content?
  split
  · rename_i stored hNode
    rw [hNode]
    simp
  · rename_i hNode
    constructor
    · intro h
      contradiction
    · intro h
      exact absurd h (hNode content)

theorem SameFiles.content?_eq {d e : Disk} (h : d.SameFiles e) (path : String) :
    e.content? path = d.content? path := by
  apply Option.ext
  intro content
  rw [content?_eq_some_iff, content?_eq_some_iff, h.placeOf_eq]
  exact h.file _ content

/-- A directory is made where nothing was. -/
theorem makeDirectory_eq_ok {d e : Disk} {path : String} (h : d.makeDirectory path = .ok e) :
    d.placeOf path ≠ [] ∧ d.node? (d.placeOf path) = none ∧ e = d.set (d.placeOf path) .directory := by
  unfold makeDirectory at h
  split at h
  · contradiction
  · contradiction
  · contradiction
  · rename_i place slash hLocate
    cases h
    obtain ⟨rfl, hPlace, hFree⟩ := locate_eq_named hLocate
    exact ⟨hPlace, hFree.symm, rfl⟩

/-- What is left of a path when components are taken away at its end. -/
inductive IsAbove (path : String) : String → Prop
  | refl : IsAbove path path
  | parent {way parent : String} : IsAbove path way → Path.parent? way = some parent →
      IsAbove path parent

theorem IsAbove.trans {path way other : String} (h : IsAbove path way) (h' : IsAbove way other) :
    IsAbove path other := by
  induction h' with
  | refl => exact h
  | parent _ hParent ih => exact .parent ih hParent

/-- Making directories comes down to making one after the other, of those on the way. -/
theorem makeDirectoriesFrom_induct {R : Disk → Disk → Prop} (refl : ∀ d, R d d)
    (trans : ∀ d e f, R d e → R e f → R d f) (fuel : Nat) (d : Disk) (path : String)
    (step : ∀ d e way, IsAbove path way → d.makeDirectory way = .ok e → R d e) :
    R d (makeDirectoriesFrom fuel d path).1 := by
  induction fuel generalizing d path with
  | zero => exact refl d
  | succ fuel ih =>
    unfold makeDirectoriesFrom
    split
    · exact refl d
    · split
      · rename_i hMade
        exact step _ _ _ .refl hMade
      · split
        · exact refl d
        · rename_i parent hParent
          have hAbove := ih d parent fun d e way hWay =>
            step d e way ((IsAbove.parent .refl hParent).trans hWay)
          split
          · rename_i hFrom
            rwa [hFrom] at hAbove
          · rename_i above hFrom
            rw [hFrom] at hAbove
            split
            · rename_i hMade
              exact trans _ _ _ hAbove (step _ _ _ .refl hMade)
            · rename_i refusal hMade
              -- a refusal changes nothing, whether it matters or not
              show R d (if above.isDirectory path then (above, none) else (above, some refusal)).1
              split
              · exact hAbove
              · exact hAbove
      · rename_i refusal _ _
        show R d (if d.isDirectory path then (d, none) else (d, some refusal)).1
        split
        · exact refl d
        · exact refl d

theorem sameFiles_makeDirectory {d e : Disk} {path : String} (h : d.makeDirectory path = .ok e) :
    d.SameFiles e := by
  obtain ⟨hPlace, hFree, rfl⟩ := makeDirectory_eq_ok h
  refine ⟨rfl, rfl, fun other content => ?_⟩
  by_cases hOther : other = d.placeOf path
  · -- nothing was there, and a directory is no file
    rw [hOther, node?_set_self d _ .directory hPlace, hFree]
    simp
  · rw [node?_set_of_ne d .directory hOther]

theorem sameFiles_makeDirectories (d : Disk) (path : String) :
    d.SameFiles (d.makeDirectories path).1 :=
  makeDirectoriesFrom_induct SameFiles.refl (fun _ _ _ => SameFiles.trans) _ d path fun _ _ _ _ =>
    sameFiles_makeDirectory

/-! ## Files that change -/

/-- What is written is filled into the file at its place. -/
theorem write_eq_ok {d e : Disk} {path : String} {content : Bytes} {mishap : Option Mishap}
    (h : d.write path content = .ok (e, mishap)) :
    d.placeOf path ≠ [] ∧ d.fill (d.placeOf path) content = (e, mishap) := by
  unfold write at h
  split at h
  · contradiction
  · contradiction
  · contradiction
  · contradiction
  · rename_i place node _ hLocate
    obtain ⟨rfl, hPlace, -⟩ := locate_eq_named hLocate
    exact ⟨hPlace, Except.ok.inj h⟩

/-- Whatever comes in the way, there is a file then, and it has the whole content if nothing does. -/
theorem holding_of_write {d e : Disk} {path : String} {content : Bytes} {mishap : Option Mishap}
    (h : d.write path content = .ok (e, mishap)) :
    d.placeOf path ≠ [] ∧ ∃ stored, e = d.holding (d.placeOf path) stored ∧
      (mishap = none → stored = content) := by
  obtain ⟨hPlace, hFill⟩ := write_eq_ok h
  obtain ⟨stored, hHolding, hWhole⟩ := exists_fill_eq d (d.placeOf path) content
  rw [hFill] at hHolding hWhole
  exact ⟨hPlace, stored, hHolding, hWhole⟩

/-- What is removed is a file. -/
theorem remove_eq_ok {d e : Disk} {path : String} (h : d.remove path = .ok e) :
    (∃ content, d.node? (d.placeOf path) = some (.file content)) ∧ d.placeOf path ≠ [] ∧
      e = d.erase (d.placeOf path) := by
  unfold remove at h
  split at h
  · contradiction
  · contradiction
  · contradiction
  · contradiction
  · contradiction
  · rename_i place content hLocate
    cases h
    obtain ⟨rfl, hPlace, hNode⟩ := locate_eq_named hLocate
    exact ⟨⟨content, hNode.symm⟩, hPlace, rfl⟩

/-- A path that was written with nothing in the way leads to what was written. -/
theorem content?_write {d e : Disk} {path : String} {content : Bytes}
    (h : d.write path content = .ok (e, none)) : e.content? path = some content := by
  obtain ⟨hPlace, stored, rfl, hWhole⟩ := holding_of_write h
  rw [content?_eq_some_iff, placeOf_holding, node?_holding, hWhole rfl]
  exact node?_set_self d _ _ hPlace

/-- A path that was removed leads to no file. -/
theorem content?_remove {d e : Disk} {path : String} (h : d.remove path = .ok e) :
    e.content? path = none := by
  obtain ⟨-, hPlace, rfl⟩ := remove_eq_ok h
  rw [content?, placeOf_erase, node?_erase_self d hPlace]

/-- What is read is the content of the file that a path leads to. -/
theorem content?_of_read {d : Disk} {path : String} {content : Bytes}
    (h : d.read path = .ok content) : d.content? path = some content := by
  refine (content?_eq_some_iff ..).mpr (node?_of_stat ?_)
  unfold read at h
  split at h
  · contradiction
  · contradiction
  · rename_i found hFound
    rw [hFound, Except.ok.inj h]

end Disk

end ReplicatedStore
