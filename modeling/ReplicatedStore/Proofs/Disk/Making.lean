import ReplicatedStore.Proofs.Disk.Reaching

/-!
# Making directories

Directories are made on the way that a path goes, where nothing was. If no refusal comes back, the path
leads to a directory. No refusal comes back where a path goes on by names in a tree, unless a file is in
the way.

Main results:

* `Disk.grows_makeDirectories` — what making directories changes, on any disk.
* `Disk.isDirectory_of_makeDirectories` — what it comes to if it is not refused.
* `Disk.makeDirectories_names` — when it is not refused.
-/

namespace ReplicatedStore

namespace Disk

variable {d e f : Disk} {path base way : String} {start place above : Place} {names fs : List String}
  {t : String}

/-! ## What is made -/

/-- What one disk has more than another are directories on the way that a path goes. -/
structure Grows (d e : Disk) (path : String) : Prop where
  origin : e.origin = d.origin
  node : ∀ place, e.node? place = d.node? place ∨
    (d.node? place = none ∧ e.node? place = some .directory ∧
      ∃ ps, ps <+: Path.parts path ∧ place = d.placeAt ps)

theorem Grows.refl (d : Disk) (path : String) : d.Grows d path := ⟨rfl, fun _ => .inl rfl⟩

theorem Grows.trans (h : d.Grows e path) (h' : e.Grows f path) : d.Grows f path := by
  refine ⟨h'.origin.trans h.origin, fun place => ?_⟩
  have hPlaceAt (ps : List PathPart) : e.placeAt ps = d.placeAt ps := by
    rw [placeAt, placeAt, h.origin]
  rcases h.node place, h'.node place with ⟨hOld | ⟨hNone, hOld, hWay⟩, hNew | ⟨hFree, hNew, ps, hps, hPlace⟩⟩
  · exact .inl (hNew.trans hOld)
  · exact .inr ⟨hOld.symm.trans hFree, hNew, ps, hps, hPlace.trans (hPlaceAt ps)⟩
  · exact .inr ⟨hNone, hNew.trans hOld, hWay⟩
  · exact .inr ⟨hNone, hNew, hWay⟩

/-- What is left of a path has components that the path starts with. -/
theorem IsAbove.parts_front (h : IsAbove path way) : Path.parts way <+: Path.parts path := by
  induction h with
  | refl => exact List.prefix_refl _
  | @parent way parent _ hParent ih =>
    refine List.IsPrefix.trans ?_ ih
    unfold Path.parent? at hParent
    split at hParent
    · contradiction
    · contradiction
    · rename_i last before _ hReverse
      have hParts : Path.parts way = before.reverse ++ [last] := by
        rw [← List.reverse_reverse (Path.parts way), hReverse, List.reverse_cons]
      have hPrefix : before.reverse <+: Path.parts way := hParts ▸ List.prefix_append _ _
      rw [← Option.some.inj hParent, Path.parts_ofParts ((Path.isNormal_parts way).of_front hPrefix)]
      exact hPrefix

theorem grows_makeDirectory (hWay : IsAbove path way) (h : d.makeDirectory way = .ok e) :
    d.Grows e path := by
  obtain ⟨hPlace, hFree, rfl⟩ := makeDirectory_eq_ok h
  refine ⟨rfl, fun place => ?_⟩
  by_cases hSame : place = d.placeOf way
  · subst hSame
    exact .inr ⟨hFree, node?_set_self d _ _ hPlace, Path.parts way, hWay.parts_front,
      placeOf_eq_placeAt d way⟩
  · exact .inl (node?_set_of_ne d _ hSame)

/-- Directories are made on the way that a path goes, where nothing was. -/
theorem grows_makeDirectories (d : Disk) (path : String) : d.Grows (d.makeDirectories path).1 path :=
  makeDirectoriesFrom_induct (R := fun d e => d.Grows e path) (Grows.refl · path)
    (fun _ _ _ => Grows.trans) _ d path fun _ _ _ => grows_makeDirectory

theorem Grows.keeps (h : d.Grows e path) : d.Keeps e := by
  refine ⟨h.origin, fun place hDirectory => ?_⟩
  rcases h.node place with hSame | ⟨hNone, -, -⟩
  · rw [hSame, hDirectory]
  · rw [hNone] at hDirectory
    contradiction

/-! ## What making comes to -/

theorem isDirectory_of_makeDirectory (h : d.makeDirectory path = .ok e) : e.isDirectory path = true := by
  have hKeeps := (grows_makeDirectory .refl h).keeps
  obtain ⟨hPlace, -, hSet⟩ := makeDirectory_eq_ok h
  unfold makeDirectory at h
  split at h
  · contradiction
  · contradiction
  · contradiction
  · rename_i place slash hLocate
    obtain ⟨before, last, above, t, hObjection, hPieces, hFollow, hAbove, hPart, hShort, rfl, -⟩ :=
      exists_of_locate hLocate
    obtain ⟨hPlaceOf, -, -⟩ := locate_eq_named hLocate
    have hMade : e.node? (above ++ [t]) = some .directory := by
      rw [hPlaceOf, hSet]
      exact node?_set_self d _ _ hPlace
    rw [isDirectory_iff, stat_eq_directory_iff, found, hPieces, hKeeps.startOf_eq,
      reach_append (follow_keeps hKeeps hFollow)]
    refine ⟨hObjection, ?_⟩
    simp [reach, follow, hKeeps.directory above hAbove, hPart, Nat.not_lt.2 hShort,
      look_of_some hMade]

/-- Where making directories is not refused, the path leads to a directory. -/
theorem isDirectory_of_makeDirectories (h : d.makeDirectories path = (e, none)) (hNe : path ≠ "") :
    e.isDirectory path = true := by
  have hSettled {f : Disk} {r : Refusal}
      (h : (if f.isDirectory path then (f, none) else (f, some r)) = (e, none)) :
      e.isDirectory path = true := by
    split at h
    · rename_i hThere
      obtain rfl : f = e := congrArg Prod.fst h
      exact hThere
    · simp at h
  unfold makeDirectories makeDirectoriesFrom at h
  rw [if_neg hNe] at h
  split at h
  · rename_i made hMade
    obtain rfl : made = e := congrArg Prod.fst h
    exact isDirectory_of_makeDirectory hMade
  · split at h
    · simp at h
    · split at h
      · simp at h
      · split at h
        · rename_i made hMade
          obtain rfl : made = e := congrArg Prod.fst h
          exact isDirectory_of_makeDirectory hMade
        · exact hSettled h
  · exact hSettled h

/-! ## Down by names -/

/-- Whether names lead down from a directory in a tree and no file is in the way. -/
structure IsPassable (d : Disk) (above : Place) (names : List String) : Prop where
  usable : AreUsable names
  tree : d.IsTree above
  start : d.node? above = some .directory
  way : ∀ front, front <+: names →
    d.node? (above ++ front) = some .directory ∨ d.node? (above ++ front) = none

/-- Whether one disk has directories all the way that names lead down from a place, and is like another
one elsewhere. -/
structure Paved (d e : Disk) (above : Place) (names : List String) : Prop where
  origin : e.origin = d.origin
  way : ∀ front, front <+: names → e.node? (above ++ front) = some .directory
  off : ∀ place, (∀ front, front <+: names → place ≠ above ++ front) → e.node? place = d.node? place

theorem IsPassable.of_front (h : d.IsPassable above names) (hPrefix : fs <+: names) :
    d.IsPassable above fs :=
  ⟨h.usable.of_front hPrefix, h.tree, h.start, fun front hFront => h.way front (hFront.trans hPrefix)⟩

theorem IsPassable.reach_eq (h : d.IsPassable above names) :
    d.reach above (names.map String.toList) = d.look (above ++ names) :=
  reach_names h.tree h.usable fun front hFront _ => h.way front hFront

theorem Paved.keeps (h : d.Paved e above names) : d.Keeps e := by
  refine ⟨h.origin, fun place hDirectory => ?_⟩
  by_cases hOn : ∃ front, front <+: names ∧ place = above ++ front
  · obtain ⟨front, hFront, rfl⟩ := hOn
    exact h.way front hFront
  · push Not at hOn
    rw [h.off place hOn, hDirectory]

theorem Paved.isTree (h : d.Paved e above names) (hTree : d.IsTree above) : e.IsTree above := by
  rintro place t ⟨front, rfl⟩ hNode
  by_cases hOn : ∃ on, on <+: names ∧ above ++ front ++ [t] = above ++ on
  · obtain ⟨on, hPrefix, hEq⟩ := hOn
    rw [List.append_assoc, List.append_cancel_left_eq] at hEq
    exact h.way front ((List.prefix_append front [t]).trans (hEq ▸ hPrefix))
  · push Not at hOn
    rw [h.off _ hOn] at hNode
    exact h.keeps.directory _ (hTree _ t (List.prefix_append _ _) hNode)

theorem Paved.of_directory (hTree : d.IsTree above) (hNode : d.node? (above ++ names) = some .directory) :
    d.Paved d above names := by
  refine ⟨rfl, fun front hFront => ?_, fun _ _ => rfl⟩
  by_cases hEq : front = names
  · rw [hEq, hNode]
  · exact hTree.directory (by simp [hNode]) hFront hEq

theorem append_ne_of_front (h : fs <+: names) : above ++ fs ≠ above ++ names ++ [t] := by
  intro hEq
  have hLength := congrArg List.length hEq
  have hLe := h.length_le
  simp at hLength
  omega

/-- One more directory at the end of a paved way. -/
theorem Paved.extend (h : d.Paved e above names) :
    d.Paved (e.set (above ++ names ++ [t]) .directory) above (names ++ [t]) := by
  refine ⟨h.origin, fun front hFront => ?_, fun place hOff => ?_⟩
  · rcases List.prefix_concat_iff.1 hFront with rfl | hBefore
    · rw [← List.append_assoc]
      exact node?_set_self e _ _ (by simp)
    · rw [node?_set_of_ne _ _ (append_ne_of_front hBefore), h.way front hBefore]
  · rw [node?_set_of_ne, h.off place]
    · exact fun front hFront => hOff front (hFront.trans (List.prefix_append _ _))
    · rw [List.append_assoc]
      exact hOff _ (List.prefix_refl _)

/-- A directory is made at the end of names, if only it is missing. -/
theorem makeDirectory_names (hGoes : d.GoesOn path above (names ++ [t]))
    (hObjection : objection? path = none) (hAbove : d.reach above (names.map String.toList) = .ok .directory) :
    d.makeDirectory path =
      match d.node? (above ++ names ++ [t]) with
      | none => .ok (d.set (above ++ names ++ [t]) .directory)
      | some _ => .error .alreadyThere := by
  rw [makeDirectory, hGoes.locate_eq hObjection, hAbove, lastIn]
  cases d.node? (above ++ names ++ [t]) <;> rfl

/-- A paved way leads to a directory. -/
theorem Paved.reach_eq (h : d.Paved e above names) (hTree : d.IsTree above) (hUsable : AreUsable names) :
    e.reach above (names.map String.toList) = .ok .directory := by
  rw [reach_names (h.isTree hTree) hUsable fun front hFront _ => .inl (h.way front hFront),
    look_of_some (h.way names (List.prefix_refl _))]

/-- What is beyond the end of a paved way has not changed. -/
theorem Paved.node?_beyond (h : d.Paved e above names) (t : String) :
    e.node? (above ++ names ++ [t]) = d.node? (above ++ names ++ [t]) :=
  h.off _ fun _ hFront => (append_ne_of_front hFront).symm

theorem makeDirectoriesFrom_of_made {fuel : Nat} (hNe : path ≠ "") (hMade : d.makeDirectory path = .ok e) :
    makeDirectoriesFrom (fuel + 1) d path = (e, none) := by
  rw [makeDirectoriesFrom, if_neg hNe]
  simp only [hMade]

theorem makeDirectoriesFrom_of_isDirectory {fuel : Nat} (hNe : path ≠ "")
    (hMade : d.makeDirectory path = .error .alreadyThere) (hThere : d.isDirectory path = true) :
    makeDirectoriesFrom (fuel + 1) d path = (d, none) := by
  rw [makeDirectoriesFrom, if_neg hNe]
  simp only [hMade, hThere, if_true]

theorem makeDirectoriesFrom_of_missing {fuel : Nat} {parent : String} (hNe : path ≠ "")
    (hMissing : d.makeDirectory path = .error .missing) (hParent : Path.parent? path = some parent)
    (hFrom : makeDirectoriesFrom fuel d parent = (e, none)) (hMade : e.makeDirectory path = .ok f) :
    makeDirectoriesFrom (fuel + 1) d path = (f, none) := by
  rw [makeDirectoriesFrom, if_neg hNe]
  simp only [hMissing, hParent, hFrom, hMade]

theorem makeDirectoriesFrom_names (hBase : d.GoesOn base above []) (h : d.IsPassable above names)
    (hNe : names ≠ [])
    (hObjection : objection? (Path.ofParts (Path.parts base ++ names.map .name)) = none) {fuel : Nat}
    (hFuel : names.length ≤ fuel) :
    ∃ e, makeDirectoriesFrom fuel d (Path.ofParts (Path.parts base ++ names.map .name)) = (e, none) ∧
      d.Paved e above names := by
  -- on the fuel, which is used up by the names from the last one to the first one that is missing
  induction fuel generalizing names with
  | zero => exact absurd (List.length_eq_zero_iff.1 (Nat.le_zero.1 hFuel)) hNe
  | succ fuel ih =>
    obtain ⟨before, t, rfl⟩ : ∃ before t, names = before ++ [t] :=
      (List.eq_nil_or_concat' names).resolve_left hNe
    have hWay := h.of_front (List.prefix_append before [t])
    have hReach := hWay.reach_eq
    have hGoes := hBase.ofParts h.usable
    have hParts : Path.parts (Path.ofParts (Path.parts base ++ (before ++ [t]).map .name)) =
        (Path.parts base ++ before.map .name) ++ [.name t] := by
      rw [Path.parts_ofParts ((Path.isNormal_parts base).append_names fun s hs => (h.usable s hs).1),
        List.map_append, List.append_assoc]
      rfl
    generalize Path.ofParts (Path.parts base ++ (before ++ [t]).map .name) = path at *
    have hPath : path ≠ "" := ((objection?_eq_none_iff path).1 hObjection).2.1
    rcases hWay.way before (List.prefix_refl _) with hThere | hMissing
    · rw [look_of_some hThere] at hReach
      have hMade := makeDirectory_names hGoes hObjection hReach
      rcases h.way _ (List.prefix_refl _) with hDirectory | hFree
      · have hIs : d.isDirectory path = true := by
          rw [isDirectory_iff, stat_eq_directory_iff, hGoes.found_eq, h.reach_eq,
            look_of_some hDirectory]
          exact ⟨hObjection, rfl⟩
        refine ⟨d, ?_, .of_directory h.tree hDirectory⟩
        rw [← List.append_assoc] at hDirectory
        rw [hDirectory] at hMade
        exact makeDirectoriesFrom_of_isDirectory hPath hMade hIs
      · rw [← List.append_assoc] at hFree
        rw [hFree] at hMade
        exact ⟨_, makeDirectoriesFrom_of_made hPath hMade, (Paved.of_directory h.tree hThere).extend⟩
    · -- the directory above is missing, so that is made first
      rw [look_of_none hMissing] at hReach
      have hBefore : before ≠ [] := by
        rintro rfl
        rw [List.append_nil, h.start] at hMissing
        contradiction
      have hAbove : objection? (Path.ofParts (Path.parts base ++ before.map .name)) = none :=
        objection?_ofParts hObjection (hParts ▸ List.prefix_append _ _) (by simp [hBefore])
      obtain ⟨e, hFrom, hPaved⟩ := ih hWay hBefore hAbove (by simpa using hFuel)
      have hFree : e.node? (above ++ before ++ [t]) = none := by
        rw [hPaved.node?_beyond, List.append_assoc]
        exact h.tree.missing hMissing (List.prefix_append _ _)
      have hMade := makeDirectory_names (hGoes.keeps hPaved.keeps) hObjection
        (hPaved.reach_eq h.tree hWay.usable)
      rw [hFree] at hMade
      have hRefused : d.makeDirectory path = .error .missing := by
        rw [makeDirectory, hGoes.locate_eq hObjection, hReach, lastIn]
      exact ⟨_, makeDirectoriesFrom_of_missing hPath hRefused (Path.parent?_of_parts hParts) hFrom hMade,
        hPaved.extend⟩

/-- Directories are made all the way down, and nothing else, where no file is in the way. -/
theorem makeDirectories_names (hBase : d.GoesOn base above []) (h : d.IsPassable above names)
    (hNe : names ≠ [])
    (hObjection : objection? (Path.ofParts (Path.parts base ++ names.map .name)) = none) :
    ∃ e, d.makeDirectories (Path.ofParts (Path.parts base ++ names.map .name)) = (e, none) ∧
      d.Paved e above names := by
  refine makeDirectoriesFrom_names hBase h hNe hObjection ?_
  rw [Path.parts_ofParts ((Path.isNormal_parts base).append_names fun t ht => (h.usable t ht).1)]
  simp
  omega

end Disk

end ReplicatedStore
