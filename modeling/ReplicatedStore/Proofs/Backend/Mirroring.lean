import ReplicatedStore.Proofs.Backend.PlainMap
import ReplicatedStore.Proofs.Backend.Rejected

/-!
# A plain map on a disk

A directory backend that makes no containers keeps a plain map on a disk: its containers are directories
below the base, and its payloads are in files below them, encoded. A put makes the directories on the way
to its file, which a removal leaves behind. They are in the way of no other object as long as no object's
name leads through another one's, so a call gives what the map gives.

Main results:

* `Directory.Mirrors.of_change` — what may change on a disk that goes on mirroring a map.
* `Directory.Mirrors.put`, `Directory.Mirrors.remove` — what a write comes to on the disk.
* `Directory.Mirrors.call` — a call gives what the map gives, and the disk goes on mirroring it.
-/

namespace ReplicatedStore

/-- Whether names are clean and none of them leads through another one. -/
structure AreSeparate (names : String → Prop) : Prop where
  clean : ∀ n, names n → Path.IsClean n
  apart : ∀ n m, names n → names m → Path.names n <+: Path.names m → Path.names n = Path.names m

/-- What a call gives, if it is answered. -/
def Outcome.answer? : Outcome → Option Answer
  | answered a => some a
  | failed _ => none
  | crashed _ => none

namespace Directory

/-- Whether an address has one component for its container and one of some names, and a disk accepts its
path. -/
structure Suits (d : Directory) (names : String → Prop) (a : Address) : Prop where
  container : Path.IsComponent a.container
  name : names a.name
  accepted : Disk.objection? (Path.join (Path.join d.base a.container) a.name) = none
  short : ∀ t ∈ a.container :: Path.names a.name, t.utf8ByteSize ≤ Disk.maxName

instance (d : Directory) (names : String → Prop) [DecidablePred names] (a : Address) :
    Decidable (d.Suits names a) :=
  decidable_of_iff (Path.IsComponent a.container ∧ names a.name ∧
      Disk.objection? (Path.join (Path.join d.base a.container) a.name) = none ∧
      ∀ t ∈ a.container :: Path.names a.name, t.utf8ByteSize ≤ Disk.maxName)
    ⟨fun h => ⟨h.1, h.2.1, h.2.2.1, h.2.2.2⟩, fun ⟨a, b, c, d⟩ => ⟨a, b, c, d⟩⟩

/-- Where a disk has the object at an address. -/
def placeFor (d : Directory) (disk : Disk) (a : Address) : Place :=
  disk.placeOf d.base ++ a.container :: Path.names a.name

/-- Whether a disk has the containers of a map as directories, and its payloads in files. -/
structure Mirrors (d : Directory) (codec : Codec) (names : String → Prop) (p : PlainMap) (disk : Disk) :
    Prop where
  base : disk.found d.base = .ok .directory ∨
    (p.containers = [] ∧ disk.found d.base = .error .missing)
  tree : disk.IsTree (disk.placeOf d.base)
  container : ∀ c, disk.node? (disk.placeOf d.base ++ [c]) =
    if c ∈ p.containers then some .directory else none
  file : ∀ a data, names a.name → p.find? a = some data → ∃ content,
    disk.node? (d.placeFor disk a) = some (.file content) ∧ codec.payload? content = some data
  nothing : ∀ a, names a.name → p.find? a = none → disk.node? (d.placeFor disk a) = none
  /-- no file is on the way to an object; directories may be, whether or not there is one -/
  way : ∀ (a : Address) front, names a.name → front <+: Path.names a.name → front ≠ Path.names a.name →
    disk.node? (disk.placeOf d.base ++ a.container :: front) = some .directory ∨
      disk.node? (disk.placeOf d.base ++ a.container :: front) = none

variable {d : Directory} {codec : Codec} {names : String → Prop} {p : PlainMap} {disk : Disk}
  {a b : Address} {nonces : Nat → Nonce} {front : List String}

/-! ## Paths of objects -/

theorem Suits.clean (h : d.Suits names a) (hNames : AreSeparate names) : Path.IsClean a.name :=
  hNames.clean a.name h.name

theorem Suits.objectPath_eq (h : d.Suits names a) (hNames : AreSeparate names) :
    d.objectPath a = .ok (Path.join (Path.join d.base a.container) a.name) :=
  objectPath_eq_ok_iff_leadsDown.2 ⟨h.container.isClean.leadsDown, (h.clean hNames).leadsDown, rfl⟩

theorem Suits.usable (h : d.Suits names a) (hNames : AreSeparate names) :
    Disk.AreUsable (a.container :: Path.names a.name) := by
  intro t ht
  refine ⟨?_, h.short t ht⟩
  rcases List.mem_cons.1 ht with rfl | ht
  · exact h.container
  · exact (h.clean hNames).isComponent t ht

theorem Suits.placeOf_eq (h : d.Suits names a) (hNames : AreSeparate names) (disk : Disk) :
    disk.placeOf (Path.join (Path.join d.base a.container) a.name) = d.placeFor disk a := by
  rw [Disk.placeOf_join (h.clean hNames).leadsDown, Disk.placeOf_join h.container.isClean.leadsDown,
    h.container.names_eq, placeFor, List.append_assoc]
  rfl

theorem Suits.piecesOf_eq (h : d.Suits names a) (hNames : AreSeparate names) :
    Disk.piecesOf (Path.join (Path.join d.base a.container) a.name) =
      Disk.piecesOf d.base ++ (a.container :: Path.names a.name).map String.toList := by
  have hName := h.clean hNames
  have hContainer := h.container.isClean
  rw [Path.piecesOf_join hName.leadsDown.relative, Path.piecesOf_join hContainer.leadsDown.relative,
    hName.piecesOf_eq, hContainer.piecesOf_eq, h.container.names_eq, List.append_assoc]
  rfl

theorem Suits.startOf_eq (h : d.Suits names a) (hNames : AreSeparate names) (disk : Disk) :
    disk.startOf (Path.join (Path.join d.base a.container) a.name) = disk.startOf d.base := by
  rw [Disk.startOf_of_parts disk (Path.parts_join (h.clean hNames).leadsDown _),
    Disk.startOf_of_parts disk (Path.parts_join h.container.isClean.leadsDown _)]

theorem Suits.names_ne_nil (h : d.Suits names a) (hNames : AreSeparate names) :
    Path.names a.name ≠ [] := (h.clean hNames).leadsDown.names_ne_nil

/-- The places of objects differ, and no object is on the way to another one. -/
theorem eq_of_placeFor_eq (hNames : AreSeparate names) (hA : names a.name) (hB : names b.name)
    (hFront : front <+: Path.names b.name)
    (hPlace : d.placeFor disk a = disk.placeOf d.base ++ b.container :: front) :
    a = b ∧ front = Path.names b.name := by
  obtain ⟨hContainer, hName⟩ := List.cons.inj (List.append_cancel_left hPlace)
  have hSame := hNames.apart a.name b.name hA hB (hName ▸ hFront)
  refine ⟨?_, hName.symm.trans hSame⟩
  obtain ⟨c, n⟩ := a
  obtain ⟨c', n'⟩ := b
  obtain rfl : c = c' := hContainer
  obtain rfl : n = n' := (hNames.clean n hA).eq_of_names_eq (hNames.clean n' hB) hSame
  rfl

/-! ## What the disk tells -/

/-- Names lead down from the base to what is at their end, also where the base is missing. -/
theorem Mirrors.reach_eq (h : d.Mirrors codec names p disk) (hNames : AreSeparate names)
    (hSuits : d.Suits names a) (hFront : front <+: Path.names a.name) :
    disk.reach (disk.startOf d.base) (Disk.piecesOf d.base ++ (a.container :: front).map String.toList) =
      disk.look (disk.placeOf d.base ++ a.container :: front) := by
  have hUsable := (hSuits.usable hNames).of_front ((List.prefix_cons_inj a.container).2 hFront)
  rcases h.base with hBase | ⟨hEmpty, hBase⟩
  · obtain ⟨hFollow, hDirectory⟩ := Disk.follow_of_found hBase
    rw [Disk.reach_append hFollow, Disk.reach_names h.tree hUsable]
    intro on hOn hNe
    rcases List.prefix_cons_iff.1 hOn with rfl | ⟨rest, rfl, hRest⟩
    · rw [List.append_nil]
      exact .inl hDirectory
    · refine h.way a rest hSuits.name (hRest.trans hFront) ?_
      rintro rfl
      have hLe := hFront.length_le
      exact hNe (by rw [hRest.eq_of_length_le hLe])
  · rw [Disk.reach_append_missing hBase]
    have hNone := h.container a.container
    rw [hEmpty, if_neg (by simp)] at hNone
    exact (Disk.look_of_none
      (h.tree.missing hNone ((List.prefix_cons_inj a.container).2 front.nil_prefix))).symm

theorem Mirrors.stat_eq (h : d.Mirrors codec names p disk) (hNames : AreSeparate names)
    (hSuits : d.Suits names a) :
    disk.stat (Path.join (Path.join d.base a.container) a.name) = disk.look (d.placeFor disk a) := by
  have hEnd : (Path.join (Path.join d.base a.container) a.name).endsWith "/" = false := by
    have hClean := hSuits.clean hNames
    rw [Path.endsWith_join hClean.leadsDown.relative hClean.leadsDown.ne_empty, hClean.endsWith_eq]
  rw [Disk.stat_eq_found hSuits.accepted hEnd, Disk.found, hSuits.piecesOf_eq hNames,
    hSuits.startOf_eq hNames, h.reach_eq hNames hSuits (List.prefix_refl _)]
  rfl

theorem Mirrors.isDirectory_eq (h : d.Mirrors codec names p disk) (hNames : AreSeparate names)
    (hSuits : d.Suits names a) :
    disk.isDirectory (Path.join d.base a.container) = decide (a.container ∈ p.containers) := by
  have hDown := hSuits.container.isClean.leadsDown
  have hObjection := Disk.objection?_of_join hSuits.accepted (hSuits.clean hNames).leadsDown.relative
    (Path.join_ne_empty hDown d.base)
  have hFound : disk.found (Path.join d.base a.container) =
      disk.look (disk.placeOf d.base ++ [a.container]) := by
    rw [← h.reach_eq hNames hSuits List.nil_prefix, Disk.found,
      Disk.startOf_of_parts disk (Path.parts_join hDown _), Path.piecesOf_join hDown.relative,
      hSuits.container.isClean.piecesOf_eq, hSuits.container.names_eq]
  rw [Bool.eq_iff_iff, Disk.isDirectory_iff, Disk.stat_eq_directory_iff, hFound, Disk.look,
    h.container a.container, decide_eq_true_eq]
  split_ifs with hIn <;> simp [hObjection, hIn]

theorem Mirrors.ne_directory (h : d.Mirrors codec names p disk) (hSuits : d.Suits names a) :
    disk.node? (d.placeFor disk a) ≠ some .directory := by
  cases hFound : p.find? a with
  | none => simp [h.nothing a hSuits.name hFound]
  | some data =>
    obtain ⟨content, hNode, -⟩ := h.file a data hSuits.name hFound
    simp [hNode]

/-! ## Changes -/

/-- A disk goes on mirroring if nothing has changed but one object and directories on the way to it. -/
theorem Mirrors.of_change {q : PlainMap} {after : Disk} (h : d.Mirrors codec names p disk)
    (hNames : AreSeparate names) (hA : names a.name) (hIn : a.container ∈ p.containers)
    (hKeeps : disk.Keeps after) (hTree : after.IsTree (disk.placeOf d.base))
    (hOff : ∀ place, place ≠ d.placeFor disk a → after.node? place = disk.node? place ∨
      (after.node? place = some .directory ∧ ∃ front, front <+: Path.names a.name ∧
        front ≠ Path.names a.name ∧ place = disk.placeOf d.base ++ a.container :: front))
    (hContainers : q.containers = p.containers) (hOthers : ∀ b, b ≠ a → q.find? b = p.find? b)
    (hFile : ∀ data, q.find? a = some data → ∃ content,
      after.node? (d.placeFor disk a) = some (.file content) ∧ codec.payload? content = some data)
    (hNothing : q.find? a = none → after.node? (d.placeFor disk a) = none) :
    d.Mirrors codec names q after := by
  have hPlaces (b : Address) : d.placeFor after b = d.placeFor disk b := by
    rw [placeFor, placeFor, hKeeps.placeOf_eq]
  -- another object is neither at the place of this one nor on the way to it
  have hApart {b : Address} (hB : names b.name) (hNe : b ≠ a) :
      after.node? (d.placeFor disk b) = disk.node? (d.placeFor disk b) := by
    have hSame := hOff (d.placeFor disk b) fun hEq =>
      hNe (eq_of_placeFor_eq hNames hB hA (List.prefix_refl _) hEq).1
    rcases hSame with hSame | ⟨-, front, hFront, hProper, hEq⟩
    · exact hSame
    · exact absurd (eq_of_placeFor_eq hNames hB hA hFront hEq).1 hNe
  constructor
  case base =>
    rcases h.base with hBase | ⟨hEmpty, -⟩
    · exact .inl (hKeeps.found hBase)
    · rw [hEmpty] at hIn
      contradiction
  case tree => rwa [hKeeps.placeOf_eq]
  case container =>
    intro c
    rw [hKeeps.placeOf_eq, hContainers]
    have hNe : disk.placeOf d.base ++ [c] ≠ d.placeFor disk a := fun hEq =>
      (hNames.clean a.name hA).leadsDown.names_ne_nil
        (List.cons.inj (List.append_cancel_left hEq)).2.symm
    rcases hOff _ hNe with hSame | ⟨hDirectory, front, -, -, hEq⟩
    · rw [hSame, h.container]
    · obtain rfl : c = a.container := (List.cons.inj (List.append_cancel_left hEq)).1
      rw [hDirectory, if_pos hIn]
  case file =>
    intro b data hB hFound
    rw [hPlaces]
    by_cases hEq : b = a
    · subst hEq
      exact hFile data hFound
    · rw [hApart hB hEq]
      exact h.file b data hB (hOthers b hEq ▸ hFound)
  case nothing =>
    intro b hB hFound
    rw [hPlaces]
    by_cases hEq : b = a
    · subst hEq
      exact hNothing hFound
    · rw [hApart hB hEq]
      exact h.nothing b hB (hOthers b hEq ▸ hFound)
  case way =>
    intro b front hB hFront hProper
    rw [hKeeps.placeOf_eq]
    have hNe : disk.placeOf d.base ++ b.container :: front ≠ d.placeFor disk a := fun hEq =>
      hProper (eq_of_placeFor_eq hNames hA hB hFront hEq.symm).2
    rcases hOff _ hNe with hSame | ⟨hDirectory, -⟩
    · rw [hSame]
      exact h.way b front hB hFront hProper
    · exact .inl hDirectory

/-- A disk goes on mirroring if an answered write has changed one object as it changes the map. -/
theorem Mirrors.of_write {r : Request} {after : Disk} (h : d.Mirrors codec names p disk)
    (hNames : AreSeparate names) (hA : names r.address.name) (hIn : r.address.container ∈ p.containers)
    (hAnswered : (p.answer? r).isSome = true) (hKeeps : disk.Keeps after)
    (hTree : after.IsTree (disk.placeOf d.base))
    (hElsewhere : ∀ place, place ≠ d.placeFor disk r.address → after.node? place = disk.node? place)
    (hFile : ∀ data, r.after p.find? r.address = some data → ∃ content,
      after.node? (d.placeFor disk r.address) = some (.file content) ∧ codec.payload? content = some data)
    (hNothing : r.after p.find? r.address = none → after.node? (d.placeFor disk r.address) = none) :
    d.Mirrors codec names (p.after r) after := by
  have hAfter := p.find?_after hAnswered
  rw [← hAfter] at hFile hNothing
  refine h.of_change hNames hA hIn hKeeps hTree (fun place hPlace => .inl (hElsewhere place hPlace)) rfl
    (fun b hb => ?_) hFile hNothing
  rw [hAfter]
  exact Request.after_of_ne hb _

/-! ## Calls -/

theorem Mirrors.get (h : d.Mirrors codec names p disk) (hNames : AreSeparate names)
    (hSuits : d.Suits names a) : (d.get codec disk a).answer? = p.answer? (.get a) := by
  unfold Directory.get Disk.read
  rw [hSuits.objectPath_eq hNames, PlainMap.answer?]
  simp only [h.stat_eq hNames hSuits]
  cases hFound : p.find? a with
  | none =>
    rw [Disk.look_of_none (h.nothing a hSuits.name hFound)]
    rfl
  | some data =>
    obtain ⟨content, hNode, hPayload⟩ := h.file a data hSuits.name hFound
    rw [Disk.look_of_some hNode]
    unfold Codec.payload? at hPayload
    split at hPayload
    · rename_i hDecode
      cases hPayload
      simp only [hDecode]
      rfl
    · contradiction

theorem Mirrors.holds (h : d.Mirrors codec names p disk) (hNames : AreSeparate names)
    (hSuits : d.Suits names a) : (d.holds disk a).answer? = p.answer? (.holds a) := by
  unfold Directory.holds
  rw [hSuits.objectPath_eq hNames, PlainMap.answer?]
  simp only [h.stat_eq hNames hSuits]
  cases hFound : p.find? a with
  | none =>
    rw [Disk.look_of_none (h.nothing a hSuits.name hFound)]
    rfl
  | some data =>
    obtain ⟨content, hNode, -⟩ := h.file a data hSuits.name hFound
    rw [Disk.look_of_some hNode]
    rfl

theorem placeFor_eq {t : String} (hSplit : Path.names a.name = front ++ [t]) :
    d.placeFor disk a = disk.placeOf d.base ++ a.container :: front ++ [t] := by
  rw [placeFor, hSplit, List.append_assoc]
  rfl

/-- Where the file of an object is located, by what is above it. -/
theorem Mirrors.locate_eq {t : String} (h : d.Mirrors codec names p disk) (hNames : AreSeparate names)
    (hSuits : d.Suits names a) (hSplit : Path.names a.name = front ++ [t]) :
    disk.locate (Path.join (Path.join d.base a.container) a.name) =
      disk.lastIn (d.placeFor disk a) false
        (disk.look (disk.placeOf d.base ++ a.container :: front)) := by
  have hClean := hSuits.clean hNames
  obtain ⟨hComponent, hShort⟩ := hSuits.usable hNames t (by simp [hSplit])
  have hPieces : Disk.piecesOf (Path.join (Path.join d.base a.container) a.name) =
      (Disk.piecesOf d.base ++ (a.container :: front).map String.toList) ++ [t.toList] := by
    rw [hSuits.piecesOf_eq hNames, hSplit, List.append_assoc]
    simp
  rw [Disk.locate_eq hSuits.accepted hPieces hComponent hShort, hSuits.startOf_eq hNames,
    h.reach_eq hNames hSuits (hSplit ▸ List.prefix_append _ _), hSuits.placeOf_eq hNames,
    Path.endsWith_join hClean.leadsDown.relative hClean.leadsDown.ne_empty, hClean.endsWith_eq]

theorem Suits.exists_split (h : d.Suits names a) (hNames : AreSeparate names) :
    ∃ front t, Path.names a.name = front ++ [t] :=
  (List.eq_nil_or_concat' _).resolve_left (h.names_ne_nil hNames)

theorem Mirrors.remove_eq_missing (h : d.Mirrors codec names p disk) (hNames : AreSeparate names)
    (hSuits : d.Suits names a) (hFound : p.find? a = none) :
    disk.remove (Path.join (Path.join d.base a.container) a.name) = .error .missing := by
  obtain ⟨front, t, hSplit⟩ := hSuits.exists_split hNames
  rw [Disk.remove, h.locate_eq hNames hSuits hSplit]
  rcases h.way a front hSuits.name (hSplit ▸ List.prefix_append _ _) (by simp [hSplit]) with
    hAbove | hAbove
  · rw [Disk.look_of_some hAbove, Disk.lastIn, h.nothing a hSuits.name hFound]
  · rw [Disk.look_of_none hAbove, Disk.lastIn]

theorem Mirrors.remove_eq_erase {content : Bytes} (h : d.Mirrors codec names p disk)
    (hNames : AreSeparate names) (hSuits : d.Suits names a)
    (hNode : disk.node? (d.placeFor disk a) = some (.file content)) :
    disk.remove (Path.join (Path.join d.base a.container) a.name) =
      .ok (disk.erase (d.placeFor disk a)) := by
  obtain ⟨front, t, hSplit⟩ := hSuits.exists_split hNames
  have hAbove : disk.node? (disk.placeOf d.base ++ a.container :: front) = some .directory :=
    h.tree _ t (List.prefix_append _ _) (by rw [← placeFor_eq hSplit, hNode]; simp)
  rw [Disk.remove, h.locate_eq hNames hSuits hSplit, Disk.look_of_some hAbove, Disk.lastIn, hNode]

/-- A removal takes the file away if the map has a payload, and leaves the directories on the way to it. -/
theorem Mirrors.remove (h : d.Mirrors codec names p disk) (hNames : AreSeparate names)
    (hSuits : d.Suits names a) :
    (d.remove disk a).2.answer? = p.answer? (.remove a) ∧
      d.Mirrors codec names (p.after (.remove a)) (d.remove disk a).1 := by
  unfold Directory.remove
  rw [hSuits.objectPath_eq hNames]
  cases hFound : p.find? a with
  | none =>
    have hAnswer : p.answer? (.remove a) = none := by simp [PlainMap.answer?, hFound]
    rw [p.after_of_none hAnswer, hAnswer]
    simp only [h.remove_eq_missing hNames hSuits hFound]
    exact ⟨rfl, h⟩
  | some data =>
    obtain ⟨content, hNode, -⟩ := h.file a data hSuits.name hFound
    have hAnswer : p.answer? (.remove a) = some .done := by simp [PlainMap.answer?, hFound]
    have hFree := h.ne_directory hSuits
    simp only [h.remove_eq_erase hNames hSuits hNode]
    refine ⟨hAnswer.symm, h.of_write hNames hSuits.name (p.within a (by simp [hFound]))
      (by rw [hAnswer]; rfl) (Disk.keeps_erase hFree) (h.tree.erase_file hFree)
      (fun place hPlace => Disk.node?_erase_of_ne disk hPlace) (fun data' hFound' => ?_) fun _ => ?_⟩
    · simp [Request.after, Request.address] at hFound'
    · exact Disk.node?_erase_self disk (by simp [placeFor])

theorem proper_of_split {all rest : List String} {t : String} (hSplit : all = front ++ [t])
    (hRest : rest <+: front) : rest <+: all ∧ rest ≠ all := by
  subst hSplit
  refine ⟨hRest.trans (List.prefix_append _ _), fun hEq => ?_⟩
  have hLe := hRest.length_le
  simp [hEq] at hLe

/-- Directories on the way to an object make no difference. -/
theorem Mirrors.of_paved {t : String} {above : Disk} (h : d.Mirrors codec names p disk)
    (hNames : AreSeparate names) (hSuits : d.Suits names a) (hSplit : Path.names a.name = front ++ [t])
    (hIn : a.container ∈ p.containers)
    (hPaved : disk.Paved above (disk.placeOf d.base) (a.container :: front)) :
    d.Mirrors codec names p above := by
  have hPlace : above.node? (d.placeFor disk a) = disk.node? (d.placeFor disk a) := by
    rw [placeFor_eq hSplit]
    exact hPaved.off _ fun on hOn => (Disk.append_ne_of_front hOn).symm
  refine h.of_change hNames hSuits.name hIn hPaved.keeps (hPaved.isTree h.tree) (fun place _ => ?_) rfl
    (fun _ _ => rfl) (fun data hFound => ?_) fun hFound => ?_
  · by_cases hOn : ∃ on, on <+: a.container :: front ∧ place = disk.placeOf d.base ++ on
    · obtain ⟨on, hPrefix, rfl⟩ := hOn
      have hDirectory := hPaved.way on hPrefix
      rcases List.prefix_cons_iff.1 hPrefix with rfl | ⟨rest, rfl, hRest⟩
      · -- the base is there already
        rcases h.base with hBase | ⟨hEmpty, -⟩
        · rw [List.append_nil] at hDirectory ⊢
          exact .inl (hDirectory.trans (Disk.follow_of_found hBase).2.symm)
        · rw [hEmpty] at hIn
          contradiction
      · obtain ⟨hFront, hProper⟩ := proper_of_split hSplit hRest
        exact .inr ⟨hDirectory, rest, hFront, hProper, rfl⟩
    · push Not at hOn
      exact .inl (hPaved.off place hOn)
  · rw [hPlace]
    exact h.file a data hSuits.name hFound
  · rw [hPlace]
    exact h.nothing a hSuits.name hFound

/-- The directories on the way to an object can be made. -/
theorem Mirrors.exists_paved {t : String} (h : d.Mirrors codec names p disk) (hNames : AreSeparate names)
    (hSuits : d.Suits names a) (hSplit : Path.names a.name = front ++ [t])
    (hIn : a.container ∈ p.containers) :
    ∃ above, needParent disk (Path.join (Path.join d.base a.container) a.name) = (above, none) ∧
      disk.Paved above (disk.placeOf d.base) (a.container :: front) := by
  have hBase : disk.found d.base = .ok .directory :=
    h.base.resolve_right fun hMissing => by simp [hMissing.1] at hIn
  obtain ⟨hFollow, hStart⟩ := Disk.follow_of_found hBase
  have hFront : front <+: Path.names a.name := hSplit ▸ List.prefix_append _ _
  have hPassable : disk.IsPassable (disk.placeOf d.base) (a.container :: front) := by
    refine ⟨(hSuits.usable hNames).of_front ((List.prefix_cons_inj _).2 hFront), h.tree, hStart, ?_⟩
    intro on hOn
    rcases List.prefix_cons_iff.1 hOn with rfl | ⟨rest, rfl, hRest⟩
    · rw [List.append_nil]
      exact .inl hStart
    · obtain ⟨hPrefix, hProper⟩ := proper_of_split hSplit hRest
      exact h.way a rest hSuits.name hPrefix hProper
  have hParts : Path.parts (Path.join (Path.join d.base a.container) a.name) =
      (Path.parts d.base ++ (a.container :: front).map .name) ++ [.name t] := by
    rw [Path.parts_join (hSuits.clean hNames).leadsDown,
      Path.parts_join hSuits.container.isClean.leadsDown, hSuits.container.names_eq, hSplit]
    simp
  obtain ⟨above, hMade, hPaved⟩ := Disk.makeDirectories_names (Disk.goesOn_of_follow hFollow) hPassable
    (List.cons_ne_nil _ _)
    (Disk.objection?_ofParts hSuits.accepted (hParts ▸ List.prefix_append _ _) (by simp))
  refine ⟨above, ?_, hPaved⟩
  simp only [needParent, Path.parent?_of_parts hParts, makeAll, hMade]
  rfl

theorem Mirrors.write_eq {t : String} (h : d.Mirrors codec names p disk) (hNames : AreSeparate names)
    (hSuits : d.Suits names a) (hSplit : Path.names a.name = front ++ [t])
    (hAbove : disk.node? (disk.placeOf d.base ++ a.container :: front) = some .directory)
    (content : Bytes) :
    disk.write (Path.join (Path.join d.base a.container) a.name) content =
      .ok (disk.fill (d.placeFor disk a) content) := by
  rw [Disk.write, h.locate_eq hNames hSuits hSplit, Disk.look_of_some hAbove, Disk.lastIn]
  rcases hNode : disk.node? (d.placeFor disk a) with _ | (_ | old)
  · rfl
  · exact absurd hNode (h.ne_directory hSuits)
  · rfl

/-- What was made of a payload is written where the directories on the way are there. -/
theorem Mirrors.holding {t : String} {content data : Bytes} (h : d.Mirrors codec names p disk)
    (hNames : AreSeparate names) (hSuits : d.Suits names a) (hSplit : Path.names a.name = front ++ [t])
    (hAbove : disk.node? (disk.placeOf d.base ++ a.container :: front) = some .directory)
    (hIn : a.container ∈ p.containers) (hPayload : codec.payload? content = some data) :
    d.Mirrors codec names (p.after (.put a data)) (disk.holding (d.placeFor disk a) content) := by
  have hFree := h.ne_directory hSuits
  have hTree : (disk.holding (d.placeFor disk a) content).IsTree (disk.placeOf d.base) := by
    rw [placeFor_eq hSplit] at hFree ⊢
    exact h.tree.set_file hAbove hFree content
  refine h.of_write hNames hSuits.name hIn ?_ ⟨rfl, (Disk.keeps_set hFree _).directory⟩ hTree
    (fun place hPlace => Disk.node?_set_of_ne disk _ hPlace) (fun data' hFound => ?_) fun hFound => ?_
  · rw [PlainMap.answer?, if_pos hIn]
    rfl
  · obtain rfl : data = data' := by simpa [Request.after, Request.address] using hFound
    exact ⟨content, Disk.node?_set_self disk _ _ (by simp [placeFor]), hPayload⟩
  · simp [Request.after, Request.address] at hFound

/-- On a sound disk, a put writes what was made of the payload if the map has the container, and makes the
directories on the way to it. -/
theorem Mirrors.put (h : d.Mirrors codec names p disk) (hNames : AreSeparate names)
    (hSuits : d.Suits names a) (hLossless : codec.Lossless) (hCreate : d.createContainers = false)
    (hSound : disk.IsSound) (data : Bytes) :
    (d.put codec nonces disk a data).2.answer? = p.answer? (.put a data) ∧
      d.Mirrors codec names (p.after (.put a data)) (d.put codec nonces disk a data).1 := by
  obtain ⟨front, t, hSplit⟩ := hSuits.exists_split hNames
  have hContainer : d.containerPath a.container = .ok (Path.join d.base a.container) :=
    ((d.containerPath_cases a.container).resolve_left
      fun hUp => hUp.1 hSuits.container.isClean.leadsDown).2
  by_cases hIn : a.container ∈ p.containers
  · have hNeed : d.needContainer disk a.container = (disk, none) := by
      simp [needContainer, hContainer, h.isDirectory_eq hNames hSuits, hIn]
    obtain ⟨above, hParent, hPaved⟩ := h.exists_paved hNames hSuits hSplit hIn
    have hAbove := h.of_paved hNames hSuits hSplit hIn hPaved
    have hStaysSound : above.IsSound := by
      have hFiles := sameFiles_needParent disk (Path.join (Path.join d.base a.container) a.name)
      rw [hParent] at hFiles
      exact fun n => (congrFun hFiles.mishapAt n).trans (hSound n)
    have hDirectory : above.node? (above.placeOf d.base ++ a.container :: front) = some .directory := by
      rw [hPaved.keeps.placeOf_eq]
      exact hPaved.way _ (List.prefix_refl _)
    obtain ⟨content, hEncode, -⟩ := hLossless nonces data
    have hAnswer : p.answer? (.put a data) = some .done := if_pos hIn
    simp only [Directory.put, hNeed, hSuits.objectPath_eq hNames, hParent, hEncode,
      hAbove.write_eq hNames hSuits hSplit hDirectory content, Disk.fill_of_isSound hStaysSound]
    exact ⟨hAnswer.symm, hAbove.holding hNames hSuits hSplit hDirectory hIn
      (Storage.exists_payload hLossless hEncode)⟩
  · have hNeed : d.needContainer disk a.container = (disk, some (noContainer a.container)) := by
      simp [needContainer, hContainer, h.isDirectory_eq hNames hSuits, hIn, hCreate]
    have hAnswer : p.answer? (.put a data) = none := if_neg hIn
    rw [Directory.put, hNeed, p.after_of_none hAnswer, hAnswer]
    exact ⟨rfl, h⟩

/-- A call gives what the map gives, and comes to the same. -/
theorem Mirrors.call {r : Request} (h : d.Mirrors codec names p disk) (hNames : AreSeparate names)
    (hSuits : d.Suits names r.address) (hLossless : codec.Lossless) (hCreate : d.createContainers = false)
    (hSound : disk.IsSound) (nonces : Nat → Nonce) :
    (d.call codec nonces disk r).2.answer? = p.answer? r ∧
      d.Mirrors codec names (p.after r) (d.call codec nonces disk r).1 := by
  cases r with
  | put a data => exact h.put hNames hSuits hLossless hCreate hSound data
  | remove a => exact h.remove hNames hSuits
  | get a =>
    rw [p.after_of_read rfl]
    exact ⟨h.get hNames hSuits, h⟩
  | holds a =>
    rw [p.after_of_read rfl]
    exact ⟨h.holds hNames hSuits, h⟩

end Directory

end ReplicatedStore
