import Mathlib.Data.List.Induction
import ReplicatedStore.Proofs.Disk.Ways

/-!
# What paths lead to

What a path leads to depends on the directories it goes through and on what is at its end. So a path
still leads where it did when directories are only added, and two disks with directories at the same
places differ at most in what they have at the end.

Main results:

* `Disk.stat_congr` — what is told of a path when only contents of files differ elsewhere.
* `Disk.GoesOn` — a path that goes on from a directory by names; `Disk.GoesOn.found_eq` and
  `Disk.GoesOn.locate_eq` say what it leads to and where it is located.
* `Disk.GoesOn.ofParts` — a path that goes on from where another one leads.
-/

namespace ReplicatedStore

namespace Disk

variable {d e : Disk} {path base : String} {start place above : Place} {node : Node}
  {before pieces : List (List Char)} {names fs : List String} {t : String}

/-- What is at a place, or that nothing is. -/
def look (d : Disk) (place : Place) : Except Refusal Node :=
  match d.node? place with
  | none => .error .missing
  | some node => .ok node

theorem look_of_none (h : d.node? place = none) : d.look place = .error .missing := by rw [look, h]

theorem look_of_some (h : d.node? place = some node) : d.look place = .ok node := by rw [look, h]

/-- What is found at the end of pieces of a path. -/
def reach (d : Disk) (start : Place) (pieces : List (List Char)) : Except Refusal Node :=
  match d.follow start pieces with
  | .error r => .error r
  | .ok place => d.look place

/-- What a path leads to, whether or not a slash at its end asks for a directory. -/
def found (d : Disk) (path : String) : Except Refusal Node := d.reach (d.startOf path) (piecesOf path)

theorem stat_eq_found (hObjection : objection? path = none) (hEnd : path.endsWith "/" = false) :
    d.stat path = d.found path := by
  unfold stat found reach look
  rw [hObjection]
  cases d.follow (d.startOf path) (piecesOf path) with
  | error r => rfl
  | ok place =>
    rw [hEnd]
    rfl

theorem isDirectory_iff : d.isDirectory path = true ↔ d.stat path = .ok .directory := by
  unfold isDirectory
  cases d.stat path with
  | error r => simp
  | ok node => cases node <;> simp [Node.isDirectory]

theorem stat_eq_directory_iff :
    d.stat path = .ok .directory ↔ objection? path = none ∧ d.found path = .ok .directory := by
  unfold stat found reach look
  cases objection? path with
  | some r => simp
  | none =>
    cases d.follow (d.startOf path) (piecesOf path) with
    | error r => simp
    | ok place =>
      rcases hNode : d.node? place with _ | (_ | content)
      · simp [hNode]
      · simp [hNode, Node.isDirectory]
      · by_cases hEnd : path.endsWith "/" = true <;> simp [hNode, Node.isDirectory, hEnd]

/-! ## Following -/

theorem follow_append (pieces more : List (List Char)) :
    d.follow start (pieces ++ more) =
      match d.follow start pieces with
      | .error r => .error r
      | .ok place => d.follow place more := by
  induction pieces generalizing start with
  | nil => rfl
  | cons piece rest ih =>
    rw [List.cons_append, follow, follow]
    cases d.node? start with
    | none => rfl
    | some node =>
      cases node with
      | file content => rfl
      | directory =>
        simp only
        split
        · exact ih
        · exact ih
        · split
          · rfl
          · exact ih
        · exact ih

theorem reach_append (hFollow : d.follow start pieces = .ok place) (more : List (List Char)) :
    d.reach start (pieces ++ more) = d.reach place more := by
  rw [reach, follow_append, hFollow]
  rfl

/-- Where a directory is missing, there is nothing beyond. -/
theorem reach_append_missing (hReach : d.reach start pieces = .error .missing)
    (more : List (List Char)) : d.reach start (pieces ++ more) = .error .missing := by
  rw [reach] at hReach
  rw [reach, follow_append]
  cases hFollow : d.follow start pieces with
  | error r =>
    rw [hFollow] at hReach
    exact hReach
  | ok place =>
    rw [hFollow] at hReach
    cases hNode : d.node? place with
    | some node =>
      simp only [look_of_some hNode] at hReach
      contradiction
    | none =>
      cases more with
      | nil => exact look_of_none hNode
      | cons piece rest => simp [follow, hNode]

theorem follow_eq_ok_of_reach (hReach : d.reach start pieces = .ok node) :
    ∃ place, d.follow start pieces = .ok place ∧ d.node? place = some node := by
  unfold reach look at hReach
  split at hReach
  · contradiction
  · rename_i place hFollow
    split at hReach
    · contradiction
    · rename_i other hNode
      exact ⟨place, hFollow, by rw [hNode, Except.ok.inj hReach]⟩

theorem follow_of_found (hFound : d.found path = .ok node) :
    d.follow (d.startOf path) (piecesOf path) = .ok (d.placeOf path) ∧
      d.node? (d.placeOf path) = some node := by
  obtain ⟨place, hFollow, hNode⟩ := follow_eq_ok_of_reach hFound
  obtain rfl : place = d.placeOf path := follow_eq_ok hFollow
  exact ⟨hFollow, hNode⟩

/-! ## Disks that differ -/

/-- Whether two disks have directories at the same places, and files at the same places. -/
structure SameKinds (d e : Disk) : Prop where
  origin : e.origin = d.origin
  kind : ∀ place, (e.node? place).map Node.isDirectory = (d.node? place).map Node.isDirectory

/-- Whether a disk has all directories of another one. -/
structure Keeps (d e : Disk) : Prop where
  origin : e.origin = d.origin
  directory : ∀ place, d.node? place = some .directory → e.node? place = some .directory

theorem follow_congr (h : d.SameKinds e) (start : Place) (pieces : List (List Char)) :
    e.follow start pieces = d.follow start pieces := by
  induction pieces generalizing start with
  | nil => rfl
  | cons piece rest ih =>
    have hKind := h.kind start
    unfold follow
    rcases hOld : d.node? start with _ | (_ | content) <;>
      rcases hNew : e.node? start with _ | (_ | content') <;>
        simp [hOld, hNew, Node.isDirectory] at hKind ⊢
    simp only [ih]

/-- What is told of a path depends on where there are directories and files, and on what the path leads
to. -/
theorem stat_congr (h : d.SameKinds e) (hNode : e.node? (d.placeOf path) = d.node? (d.placeOf path)) :
    e.stat path = d.stat path := by
  have hStart : e.startOf path = d.startOf path := by rw [startOf, startOf, h.origin]
  unfold stat
  rw [hStart, follow_congr h]
  split
  · rfl
  · split
    · rfl
    · rename_i place hFollow
      rw [follow_eq_ok hFollow]
      change e.node? ((piecesOf path).foldl enter (d.startOf path)) = _ at hNode
      rw [hNode]
      rfl

/-- A way through directories stays one as long as they stay. -/
theorem follow_keeps (h : d.Keeps e) (hFollow : d.follow start pieces = .ok place) :
    e.follow start pieces = .ok place := by
  induction pieces generalizing start with
  | nil => exact hFollow
  | cons piece rest ih =>
    unfold follow at hFollow ⊢
    split at hFollow
    · contradiction
    · contradiction
    · rename_i hDirectory
      rw [h.directory start hDirectory]
      simp only
      split at hFollow
      · exact ih hFollow
      · exact ih hFollow
      · split at hFollow
        · contradiction
        · rename_i hShort
          rw [if_neg hShort]
          exact ih hFollow
      · exact ih hFollow

theorem reach_keeps (h : d.Keeps e) (hReach : d.reach start pieces = .ok .directory) :
    e.reach start pieces = .ok .directory := by
  obtain ⟨place, hFollow, hNode⟩ := follow_eq_ok_of_reach hReach
  rw [reach, follow_keeps h hFollow]
  exact look_of_some (h.directory place hNode)

theorem Keeps.startOf_eq (h : d.Keeps e) (path : String) : e.startOf path = d.startOf path := by
  rw [startOf, startOf, h.origin]

theorem keeps_set (hFree : d.node? place ≠ some .directory) (node : Node) : d.Keeps (d.set place node) := by
  refine ⟨rfl, fun other hDirectory => ?_⟩
  have hOther : other ≠ place := fun hEq => hFree (hEq ▸ hDirectory)
  rw [node?_set_of_ne d node hOther, hDirectory]

theorem keeps_erase (hFree : d.node? place ≠ some .directory) : d.Keeps (d.erase place) := by
  refine ⟨rfl, fun other hDirectory => ?_⟩
  have hOther : other ≠ place := fun hEq => hFree (hEq ▸ hDirectory)
  rw [node?_erase_of_ne d hOther, hDirectory]

theorem Keeps.placeOf_eq (h : d.Keeps e) (path : String) : e.placeOf path = d.placeOf path := by
  rw [placeOf, placeOf, h.startOf_eq]

theorem Keeps.found (h : d.Keeps e) (hFound : d.found path = .ok .directory) :
    e.found path = .ok .directory := by
  rw [Disk.found, h.startOf_eq]
  exact reach_keeps h hFound

/-! ## Down by names -/

/-- Whether names can be those of files on a disk. -/
def AreUsable (names : List String) : Prop :=
  ∀ t ∈ names, Path.IsComponent t ∧ t.utf8ByteSize ≤ maxName

/-- Whether what is below a place is in directories, down from there. -/
def IsTree (d : Disk) (root : Place) : Prop :=
  ∀ place t, root <+: place → d.node? (place ++ [t]) ≠ none → d.node? place = some .directory

theorem AreUsable.of_front (h : AreUsable names) (hPrefix : fs <+: names) : AreUsable fs :=
  fun t ht => h t (hPrefix.subset ht)

theorem IsTree.mono (h : d.IsTree start) (hPrefix : start <+: place) : d.IsTree place :=
  fun other t hOther => h other t (hPrefix.trans hOther)

/-- All that is on the way to something in a tree is a directory. -/
theorem IsTree.directory (h : d.IsTree start) (hNode : d.node? (start ++ names) ≠ none)
    (hPrefix : fs <+: names) (hNe : fs ≠ names) : d.node? (start ++ fs) = some .directory := by
  obtain ⟨rest, rfl⟩ := hPrefix
  induction rest using List.reverseRecOn with
  | nil => exact absurd (List.append_nil fs).symm hNe
  | append_singleton rest t ih =>
    have hAbove := h (start ++ (fs ++ rest)) t (List.prefix_append _ _) (by simpa using hNode)
    by_cases hRest : rest = []
    · simpa [hRest] using hAbove
    · exact ih (by simp [hAbove]) (by simpa using hRest)

theorem IsTree.missing (h : d.IsTree start) (hNode : d.node? (start ++ fs) = none)
    (hPrefix : fs <+: names) : d.node? (start ++ names) = none := by
  by_cases hEq : fs = names
  · rw [← hEq, hNode]
  · by_contra hThere
    rw [h.directory hThere hPrefix hEq] at hNode
    contradiction

/-- A file can be put into a directory of a tree. -/
theorem IsTree.set_file (h : d.IsTree start) (hAbove : d.node? place = some .directory)
    (hFree : d.node? (place ++ [t]) ≠ some .directory) (content : Bytes) :
    (d.set (place ++ [t]) (.file content)).IsTree start := by
  intro other s hStart hNode
  refine (keeps_set hFree _).directory other ?_
  by_cases hSame : other ++ [s] = place ++ [t]
  · rw [(List.append_inj' hSame rfl).1, hAbove]
  · rw [node?_set_of_ne d _ hSame] at hNode
    exact h other s hStart hNode

theorem IsTree.erase_file (h : d.IsTree start) (hFree : d.node? place ≠ some .directory) :
    (d.erase place).IsTree start := by
  intro other s hStart hNode
  refine (keeps_erase hFree).directory other (h other s hStart ?_)
  by_cases hSame : other ++ [s] = place
  · rw [← hSame, node?_erase_self d (by simp)] at hNode
    contradiction
  · rwa [node?_erase_of_ne d hSame] at hNode

/-- Names lead to what is at their end, unless a file is in the way. -/
theorem reach_names (hTree : d.IsTree start) (hUsable : AreUsable names)
    (hWay : ∀ front, front <+: names → front ≠ names →
      d.node? (start ++ front) = some .directory ∨ d.node? (start ++ front) = none) :
    d.reach start (names.map String.toList) = d.look (start ++ names) := by
  induction names generalizing start with
  | nil => simp [reach, follow]
  | cons t rest ih =>
    obtain ⟨hComponent, hShort⟩ := hUsable t List.mem_cons_self
    rcases hWay [] List.nil_prefix (List.cons_ne_nil t rest).symm with hDirectory | hMissing
    · rw [List.append_nil] at hDirectory
      have hStep : d.reach start ((t :: rest).map String.toList) =
          d.reach (start ++ [t]) (rest.map String.toList) := by
        simp [reach, follow, hDirectory, hComponent.part?, Nat.not_lt.2 hShort]
      rw [hStep, ih (hTree.mono (List.prefix_append _ _)) fun s hs => hUsable s (List.mem_cons_of_mem t hs)]
      · rw [List.append_assoc]
        rfl
      · intro front hFront hNe
        rw [List.append_assoc]
        exact hWay (t :: front) (List.prefix_cons_inj t |>.2 hFront) fun hEq => hNe (List.cons.inj hEq).2
    · rw [look_of_none (hTree.missing hMissing List.nil_prefix)]
      rw [List.append_nil] at hMissing
      simp [reach, follow, hMissing]

/-! ## Paths that go on -/

/-- Whether a path goes on by names from a place that what is before them leads to. -/
structure GoesOn (d : Disk) (path : String) (above : Place) (names : List String) : Prop where
  usable : AreUsable names
  way : ∃ before, piecesOf path = before ++ names.map String.toList ∧
    d.follow (d.startOf path) before = .ok above

theorem foldl_enter_names (hUsable : AreUsable names) (place : Place) :
    (names.map String.toList).foldl enter place = place ++ names := by
  induction names generalizing place with
  | nil => simp
  | cons t rest ih =>
    have hEnter : enter place t.toList = place ++ [t] := by
      rw [enter, (hUsable t List.mem_cons_self).1.part?]
    rw [List.map_cons, List.foldl_cons, hEnter, ih fun s hs => hUsable s (List.mem_cons_of_mem t hs),
      List.append_assoc]
    rfl

theorem GoesOn.placeOf_eq (h : d.GoesOn path above names) : d.placeOf path = above ++ names := by
  obtain ⟨before, hPieces, hFollow⟩ := h.way
  rw [placeOf, hPieces, List.foldl_append, ← follow_eq_ok hFollow, foldl_enter_names h.usable]

theorem GoesOn.found_eq (h : d.GoesOn path above names) :
    d.found path = d.reach above (names.map String.toList) := by
  obtain ⟨before, hPieces, hFollow⟩ := h.way
  rw [found, hPieces, reach_append hFollow]

theorem GoesOn.keeps (h : d.GoesOn path above names) (hKeeps : d.Keeps e) :
    e.GoesOn path above names := by
  obtain ⟨before, hPieces, hFollow⟩ := h.way
  refine ⟨h.usable, before, hPieces, ?_⟩
  rw [hKeeps.startOf_eq]
  exact follow_keeps hKeeps hFollow

/-- The last piece of a path if it is a name, by what is found above it. -/
def lastIn (d : Disk) (place : Place) (slash : Bool) : Except Refusal Node → Except Refusal Last
  | .error r => .error r
  | .ok (.file _) => .error .notDirectory
  | .ok .directory => .ok (.named place (d.node? place) slash)

/-- Where a path is located that ends in a name, by what all before the name leads to. -/
theorem locate_eq (hObjection : objection? path = none) (hPieces : piecesOf path = before ++ [t.toList])
    (hComponent : Path.IsComponent t) (hShort : t.utf8ByteSize ≤ maxName) :
    d.locate path =
      d.lastIn (d.placeOf path) (path.endsWith "/") (d.reach (d.startOf path) before) := by
  have hReverse : (piecesOf path).reverse = t.toList :: before.reverse := by
    rw [hPieces, List.reverse_append]
    rfl
  unfold locate reach
  rw [hObjection, hReverse]
  simp only [List.reverse_reverse]
  cases hFollow : d.follow (d.startOf path) before with
  | error r => simp [lastIn]
  | ok place =>
    have hPlace : d.placeOf path = place ++ [t] := by
      rw [placeOf, hPieces, List.foldl_append, ← follow_eq_ok hFollow, List.foldl_cons, List.foldl_nil,
        enter, hComponent.part?]
    rcases hNode : d.node? place with _ | (_ | content)
    · simp [hNode, look_of_none hNode, lastIn]
    · simp [hNode, look_of_some hNode, lastIn, hComponent.part?, Nat.not_lt.2 hShort, hPlace]
    · simp [hNode, look_of_some hNode, lastIn]

theorem GoesOn.locate_eq (h : d.GoesOn path above (names ++ [t])) (hObjection : objection? path = none) :
    d.locate path =
      d.lastIn (above ++ names ++ [t]) (path.endsWith "/") (d.reach above (names.map String.toList)) := by
  obtain ⟨before, hPieces, hFollow⟩ := h.way
  obtain ⟨hComponent, hShort⟩ := h.usable t (by simp)
  rw [List.map_append, ← List.append_assoc] at hPieces
  rw [Disk.locate_eq hObjection hPieces hComponent hShort, reach_append hFollow, h.placeOf_eq,
    List.append_assoc]

/-! ## Paths put together -/

theorem startOf_of_parts (d : Disk) (h : Path.parts path = Path.parts base ++ names.map .name) :
    d.startOf path = d.startOf base := by
  rw [startOf_eq_foldl_lead, startOf_eq_foldl_lead, Path.lead_of_parts h]

theorem goesOn_of_follow (h : d.follow (d.startOf path) (piecesOf path) = .ok place) :
    d.GoesOn path place [] :=
  ⟨fun t ht => by simp at ht, piecesOf path, (List.append_nil _).symm, h⟩

/-- Pieces that are no components can be left out of a way that is there. -/
theorem follow_words (hFollow : d.follow start pieces = .ok place) :
    d.follow start ((pieces.filterMap Path.part?).map Path.word) = .ok place := by
  induction pieces generalizing start with
  | nil => exact hFollow
  | cons piece rest ih =>
    rw [List.filterMap_cons]
    cases hPart : Path.part? piece with
    | none =>
      unfold follow at hFollow
      rw [hPart] at hFollow
      split at hFollow
      · contradiction
      · contradiction
      · exact ih hFollow
    | some p =>
      rw [List.map_cons, Path.word_eq_of_part? hPart]
      unfold follow at hFollow ⊢
      rw [hPart] at hFollow ⊢
      split at hFollow
      · contradiction
      · contradiction
      · cases p with
        | root => exact ih hFollow
        | here => exact ih hFollow
        | up => exact ih hFollow
        | name t =>
          simp only at hFollow ⊢
          split at hFollow
          · contradiction
          · rename_i hShort
            rw [if_neg hShort]
            exact ih hFollow

theorem follow_parts (hFollow : d.follow (d.startOf base) (piecesOf base) = .ok place) :
    d.follow (d.startOf base) (((Path.parts base).map Path.word).filter (· ≠ [])) = .ok place := by
  have hWords := follow_words hFollow
  have hBody : (((piecesOf base).filterMap Path.part?).map Path.word).filter (· ≠ []) =
      ((piecesOf base).filterMap Path.part?).map Path.word := by
    rw [List.filter_eq_self]
    intro w hw
    obtain ⟨p, hp, rfl⟩ := List.mem_map.1 hw
    obtain ⟨piece, hPiece, hPart⟩ := List.mem_filterMap.1 hp
    rw [Path.word_eq_of_part? hPart]
    exact (List.mem_filter.1 hPiece).2
  rw [Path.parts_eq, List.map_append, List.filter_append, hBody]
  rcases Path.lead_cases base with hLead | hLead | hLead <;> rw [hLead]
  · exact hWords
  · exact hWords
  · -- the dot at the start needs a directory there, as it did in the path
    obtain ⟨rest, hPieces⟩ : ∃ rest, piecesOf base = ['.'] :: rest := by
      obtain ⟨rest, hRest⟩ := List.head?_eq_some_iff.1 (Path.head?_of_lead_eq_here hLead)
      exact ⟨_, by rw [piecesOf, hRest, List.filter_cons_of_pos (by decide)]⟩
    have hStart : d.node? (d.startOf base) = some .directory := by
      rw [hPieces] at hFollow
      unfold follow at hFollow
      split at hFollow
      · contradiction
      · contradiction
      · assumption
    show d.follow (d.startOf base) (['.'] :: _) = _
    rw [follow, hStart]
    exact hWords

theorem GoesOn.ofParts (h : d.GoesOn base above []) (hUsable : AreUsable fs) :
    d.GoesOn (Path.ofParts (Path.parts base ++ fs.map .name)) above fs := by
  obtain ⟨before, hPieces, hFollow⟩ := h.way
  rw [List.map_nil, List.append_nil] at hPieces
  have hNormal := (Path.isNormal_parts base).append_names fun t ht => (hUsable t ht).1
  refine ⟨hUsable, ((Path.parts base).map Path.word).filter (· ≠ []), ?_, ?_⟩
  · rw [Path.piecesOf_ofParts hNormal, List.map_append, List.filter_append, List.map_map]
    congr 1
    rw [List.filter_eq_self.2]
    · rfl
    · intro w hw
      obtain ⟨t, ht, rfl⟩ := List.mem_map.1 hw
      simpa [Path.word] using (hUsable t ht).1.ne_empty
  · rw [startOf_of_parts d (Path.parts_ofParts hNormal)]
    exact follow_parts (hPieces ▸ hFollow)

end Disk

end ReplicatedStore
