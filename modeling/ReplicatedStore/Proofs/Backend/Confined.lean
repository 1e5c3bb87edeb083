import ReplicatedStore.Proofs.Backend.Effects
import ReplicatedStore.Proofs.Disk.Reaching

/-!
# Objects below their containers

An object of a directory lies below its container, and that below the base, whatever texts the base, the
container and the name are. Calls read and write files there and nowhere else; what has no path is
refused.

Main results:

* `Directory.parts_objectPath` — the components of an object's path.
* `Directory.confined` — what a call does to files, and from which file its answer comes.
* `Directory.stays_below` — both, for every address.
-/

namespace ReplicatedStore

namespace Directory

variable {d : Directory} {a : Address} {path container : String} {codec : Codec}
  {nonces : Nat → Nonce} {disk : Disk} {r : Request}

/-- Whether a call turns to no file but the one at a place. -/
structure Confined (d : Directory) (codec : Codec) (nonces : Nat → Nonce) (disk : Disk) (r : Request)
    (place : Place) : Prop where
  elsewhere : ∀ other content, other ≠ place →
    ((d.call codec nonces disk r).1.node? other = some (.file content) ↔
      disk.node? other = some (.file content))
  /-- a read changes nothing at all -/
  quiet : r.isWrite = false → (d.call codec nonces disk r).1 = disk
  /-- what a put has written is there -/
  written : ∀ a data, r = .put a data → (d.call codec nonces disk r).2 = .answered .done →
    ∃ content, (codec.write.encode nonces data).result = .ok content ∧
      (d.call codec nonces disk r).1.node? place = some (.file content)
  /-- what was removed was there -/
  removed : ∀ a, r = .remove a → (d.call codec nonces disk r).2 = .answered .done →
    (∃ content, disk.node? place = some (.file content)) ∧
      (d.call codec nonces disk r).1.node? place = none
  /-- what was read is there -/
  told : ∀ data, (d.call codec nonces disk r).2 = .answered (.content data) →
    ∃ content, disk.node? place = some (.file content) ∧ (codec.read.decode content).result = .ok data
  /-- what was found is there -/
  present : (d.call codec nonces disk r).2 = .answered (.presence true) →
    ∃ content, disk.node? place = some (.file content)
  /-- a read is blind to the contents of all other files -/
  blind : r.isWrite = false → ∀ other, disk.SameKinds other → other.node? place = disk.node? place →
    (d.call codec nonces other r).2 = (d.call codec nonces disk r).2

/-- Where an object with a path is. -/
structure LiesBelow (d : Directory) (a : Address) (path container : String) : Prop where
  containerPath : d.containerPath a.container = .ok container
  /-- at least one name leads to the container, and at least one from there to the object -/
  down : Path.names a.container ≠ [] ∧ Path.names a.name ≠ []
  components : ∀ t ∈ Path.names a.container ++ Path.names a.name, Path.IsComponent t
  parts : Path.parts path = Path.parts d.base ++ (Path.names a.container).map .name ++
    (Path.names a.name).map .name
  containerPlace : ∀ disk : Disk, disk.placeOf container = disk.placeOf d.base ++ Path.names a.container
  place : ∀ disk : Disk, disk.placeOf path =
    disk.placeOf d.base ++ Path.names a.container ++ Path.names a.name

/-! ## Paths -/

/-- An object has a path exactly if container and name are texts that lead downwards. -/
theorem objectPath_eq_ok_iff_leadsDown : d.objectPath a = .ok path ↔
    Path.LeadsDown a.container ∧ Path.LeadsDown a.name ∧
      path = Path.join (Path.join d.base a.container) a.name := by
  rw [← Path.isPlain_iff_leadsDown, ← Path.isPlain_iff_leadsDown]
  unfold objectPath containerPath
  by_cases hContainer : Path.isPlain a.container = true
  · by_cases hName : Path.isPlain a.name = true
    · simp [hContainer, hName, eq_comm]
    · simp [hContainer, hName]
  · simp [hContainer]

/-- The components of an object's path are those of the base, the names of the container and the names
of the object. -/
theorem parts_objectPath (h : d.objectPath a = .ok path) :
    Path.parts path = Path.parts d.base ++ (Path.names a.container).map .name ++
      (Path.names a.name).map .name := by
  obtain ⟨hContainer, hName, rfl⟩ := objectPath_eq_ok_iff_leadsDown.1 h
  rw [Path.parts_join hName, Path.parts_join hContainer]

theorem liesBelow (h : d.objectPath a = .ok path) :
    d.LiesBelow a path (Path.join d.base a.container) := by
  obtain ⟨hContainer, hName, hPath⟩ := objectPath_eq_ok_iff_leadsDown.1 h
  have hParts := parts_objectPath h
  refine ⟨?_, ⟨hContainer.names_ne_nil, hName.names_ne_nil⟩, fun t ht => ?_, hParts, fun disk => ?_,
    fun disk => ?_⟩
  · rw [containerPath, if_pos (Path.isPlain_iff_leadsDown.2 hContainer)]
  · refine (Path.isNormal_parts path).names t ?_
    rw [hParts, List.append_assoc, ← List.map_append]
    exact List.mem_append_right _ (List.mem_map_of_mem ht)
  · exact Disk.placeOf_join hContainer disk d.base
  · rw [hPath, Disk.placeOf_join hName, Disk.placeOf_join hContainer]

/-! ## Calls -/

/-- A file that is written is all that changes, also if something comes in the way of its content. -/
theorem files_of_write {above e : Disk} {content : Bytes} {mishap : Option Mishap}
    (hFiles : disk.SameFiles above) (hWrite : above.write path content = .ok (e, mishap)) :
    (mishap = none → e.node? (disk.placeOf path) = some (.file content)) ∧
      ∀ other c, other ≠ disk.placeOf path →
        (e.node? other = some (.file c) ↔ disk.node? other = some (.file c)) := by
  obtain ⟨hPlace, stored, rfl, hWhole⟩ := Disk.holding_of_write hWrite
  rw [hFiles.placeOf_eq] at hPlace ⊢
  refine ⟨fun hNone => ?_, fun other c hOther => ?_⟩
  · rw [Disk.node?_holding, hWhole hNone]
    exact Disk.node?_set_self above _ _ hPlace
  · rw [Disk.node?_holding, Disk.node?_set_of_ne above _ hOther]
    exact hFiles.file other c

theorem confined_put (h : d.objectPath a = .ok path) (data : Bytes) :
    d.Confined codec nonces disk (.put a data) (disk.placeOf path) := by
  have hWrite : (Request.put a data).isWrite ≠ false := by simp [Request.isWrite]
  have hPuts : d.Puts codec nonces disk a data (d.call codec nonces disk (.put a data)) :=
    d.puts codec nonces disk a data
  constructor
  case elsewhere =>
    intro other c hOther
    generalize d.call codec nonces disk (.put a data) = result at hPuts
    cases hPuts with
    | unopened hFiles => exact hFiles.file other c
    | spoilt hFiles hPath hWritten | written hFiles hPath _ hWritten =>
      obtain rfl := Except.ok.inj (h.symm.trans hPath)
      exact (files_of_write hFiles hWritten).2 other c hOther
  case written =>
    intro b other hPut hDone
    cases hPut
    generalize d.call codec nonces disk (.put a data) = result at hPuts hDone
    cases hPuts with
    | unopened => contradiction
    | spoilt => contradiction
    | @written _ _ _ content hFiles hPath hEncode hWritten =>
      obtain rfl := Except.ok.inj (h.symm.trans hPath)
      exact ⟨content, hEncode, (files_of_write hFiles hWritten).1 rfl⟩
  case quiet => exact (absurd · hWrite)
  case blind => exact (absurd · hWrite)
  case removed =>
    intro b hRemove
    contradiction
  case told => exact fun data' hTold => absurd (hPuts.eq_done hTold) (by simp)
  case present => exact fun hPresent => absurd (hPuts.eq_done hPresent) (by simp)

theorem confined_remove (h : d.objectPath a = .ok path) :
    d.Confined codec nonces disk (.remove a) (disk.placeOf path) := by
  have hWrite : (Request.remove a).isWrite ≠ false := by simp [Request.isWrite]
  rcases d.remove_cases disk a with ⟨f, hFailed⟩ | ⟨hDone, path', hPath, hRemoved⟩
  · have hCall : d.call codec nonces disk (.remove a) = (disk, .failed f) := hFailed
    refine ⟨?_, (absurd · hWrite), ?_, ?_, ?_, ?_, (absurd · hWrite)⟩
    all_goals simp [hCall]
  · obtain rfl : path = path' := Except.ok.inj (h.symm.trans hPath)
    have hOutcome : (d.call codec nonces disk (.remove a)).2 = .answered .done := hDone
    obtain ⟨hThere, hPlace, hErased⟩ := Disk.remove_eq_ok hRemoved
    have hAfter : (d.call codec nonces disk (.remove a)).1 = disk.erase (disk.placeOf path) := hErased
    refine ⟨fun other c hOther => ?_, (absurd · hWrite), ?_, fun b _ _ => ⟨hThere, ?_⟩, ?_, ?_,
      (absurd · hWrite)⟩
    · rw [hAfter, Disk.node?_erase_of_ne disk hOther]
    · simp
    · rw [hAfter, Disk.node?_erase_self disk hPlace]
    all_goals simp [hOutcome]

/-- What a read gives depends on the disk only by what the path is said to lead to. -/
theorem call_congr {other : Disk} (hRead : r.isWrite = false) (h : d.objectPath r.address = .ok path)
    (hStat : other.stat path = disk.stat path) :
    (d.call codec nonces other r).2 = (d.call codec nonces disk r).2 := by
  cases r with
  | put a data => contradiction
  | remove a => contradiction
  | get a =>
    rw [Request.address] at h
    simp only [call, get, h, Disk.read, hStat]
  | holds a =>
    rw [Request.address] at h
    simp only [call, holds, h, hStat]

theorem confined_get (h : d.objectPath a = .ok path) :
    d.Confined codec nonces disk (.get a) (disk.placeOf path) := by
  refine ⟨fun _ _ _ => Iff.rfl, fun _ => rfl, fun b data hb => (nomatch hb), fun b hb => (nomatch hb),
    fun data hData => ?_, fun hPresence => ?_, fun hRead other hKinds hNode =>
      call_congr hRead h (Disk.stat_congr hKinds hNode)⟩
  · rcases d.get_cases codec disk a with ⟨f, hFailed⟩ | ⟨path', content, hPath, hContent, hGives⟩
    · rw [call, hFailed] at hData
      contradiction
    · obtain rfl : path = path' := Except.ok.inj (h.symm.trans hPath)
      refine ⟨content, (Disk.content?_eq_some_iff ..).1 hContent, ?_⟩
      rw [call, hGives, Memory.decoded] at hData
      split at hData
      · rename_i hDecode
        cases hData
        exact hDecode
      · contradiction
  · rcases d.get_cases codec disk a with ⟨f, hFailed⟩ | ⟨path', content, -, -, hGives⟩
    · rw [call, hFailed] at hPresence
      contradiction
    · rw [call, hGives, Memory.decoded] at hPresence
      split at hPresence <;> simp at hPresence

theorem confined_holds (h : d.objectPath a = .ok path) :
    d.Confined codec nonces disk (.holds a) (disk.placeOf path) := by
  have hHolds : (d.call codec nonces disk (.holds a)).2 = d.holds disk a := rfl
  refine ⟨fun _ _ _ => Iff.rfl, fun _ => rfl, fun b data hb => (nomatch hb), fun b hb => (nomatch hb),
    fun data hData => ?_, fun hPresence => ?_, fun hRead other hKinds hNode =>
      call_congr hRead h (Disk.stat_congr hKinds hNode)⟩
  · rw [hHolds] at hData
    unfold holds at hData
    rw [h] at hData
    simp only at hData
    split at hData <;> simp at hData
  · rw [hHolds] at hPresence
    unfold holds at hPresence
    rw [h] at hPresence
    simp only at hPresence
    split at hPresence
    · rename_i node hStat
      rw [Disk.node?_of_stat hStat]
      cases node with
      | directory => simp [Node.isDirectory] at hPresence
      | file content => exact ⟨content, rfl⟩
    · simp at hPresence
    · contradiction

/-- A call turns to no file but the one that the path of its address leads to. -/
theorem confined (h : d.objectPath r.address = .ok path) :
    d.Confined codec nonces disk r (disk.placeOf path) := by
  cases r with
  | put a data => exact confined_put h data
  | get a => exact confined_get h
  | remove a => exact confined_remove h
  | holds a => exact confined_holds h

/-- Without a path, a call fails and leaves all files alone. -/
theorem refused_of_objectPath {f : Failure} (h : d.objectPath r.address = .error f) :
    (d.call codec nonces disk r).2.isAnswered = false ∧
      disk.SameFiles (d.call codec nonces disk r).1 := by
  cases r with
  | put a data =>
    have hPuts := d.puts codec nonces disk a data
    rw [call]
    generalize d.put codec nonces disk a data = result at hPuts
    cases hPuts with
    | unopened hFiles => exact ⟨rfl, hFiles⟩
    | spoilt _ hPath | written _ hPath =>
      rw [Request.address, hPath] at h
      contradiction
  | get a =>
    refine ⟨?_, Disk.SameFiles.refl disk⟩
    rw [Request.address] at h
    simp [call, get, h, Outcome.isAnswered]
  | remove a =>
    rw [Request.address] at h
    refine ⟨?_, ?_⟩ <;> simp [call, remove, h, Outcome.isAnswered, Disk.SameFiles.refl]
  | holds a =>
    refine ⟨?_, Disk.SameFiles.refl disk⟩
    rw [Request.address] at h
    simp [call, holds, h, Outcome.isAnswered]

/-- Objects stay below their containers. An address has a path exactly if its container and its name are
texts that lead downwards. The path goes on from the base by at least one name to the container, and by
at least one from there; a call turns to the file there and to no other one. Without a path, a call fails
and turns to no file. -/
theorem stays_below (d : Directory) (a : Address) :
    ((∃ path, d.objectPath a = .ok path) ↔ Path.LeadsDown a.container ∧ Path.LeadsDown a.name) ∧
    (∀ path, d.objectPath a = .ok path → (∃ container, d.LiesBelow a path container) ∧
      ∀ codec nonces disk r, r.address = a → d.Confined codec nonces disk r (disk.placeOf path)) ∧
    (∀ f, d.objectPath a = .error f → ∀ codec nonces disk r, r.address = a →
      (d.call codec nonces disk r).2.isAnswered = false ∧
        disk.SameFiles (d.call codec nonces disk r).1) := by
  refine ⟨⟨?_, ?_⟩, fun path h => ⟨⟨_, liesBelow h⟩, ?_⟩, ?_⟩
  · rintro ⟨path, h⟩
    obtain ⟨hContainer, hName, -⟩ := objectPath_eq_ok_iff_leadsDown.1 h
    exact ⟨hContainer, hName⟩
  · rintro ⟨hContainer, hName⟩
    exact ⟨_, objectPath_eq_ok_iff_leadsDown.2 ⟨hContainer, hName, rfl⟩⟩
  · rintro codec nonces disk r rfl
    exact confined h
  · rintro f h codec nonces disk r rfl
    exact refused_of_objectPath h

/-- Empty components and dots within a container and a name do not matter, two dots do. -/
theorem stays_below_dotted :
    (∃ path, objectPath ⟨"./data/", true⟩ ⟨"a//b/.", "x/./y/"⟩ = .ok path ∧
      Path.parts path = [.here, .name "data", .name "a", .name "b", .name "x", .name "y"] ∧
      ∀ codec nonces disk, Confined ⟨"./data/", true⟩ codec nonces disk (.get ⟨"a//b/.", "x/./y/"⟩)
        (disk.placeOf "./data/" ++ ["a", "b", "x", "y"])) ∧
    ¬ ∃ path, objectPath ⟨"./data/", true⟩ ⟨"a", "x/../../y"⟩ = .ok path := by
  have hContainer : Path.LeadsDown "a//b/." := Path.isPlain_iff_leadsDown.1 (by decide)
  have hName : Path.LeadsDown "x/./y/" := Path.isPlain_iff_leadsDown.1 (by decide)
  obtain ⟨hPath, hBelow, -⟩ := stays_below ⟨"./data/", true⟩ ⟨"a//b/.", "x/./y/"⟩
  constructor
  · obtain ⟨path, h⟩ := hPath.2 ⟨hContainer, hName⟩
    obtain ⟨⟨container, hLies⟩, hConfined⟩ := hBelow path h
    refine ⟨path, h, hLies.parts, fun codec nonces disk => ?_⟩
    have hPlace := hLies.place disk
    rw [List.append_assoc] at hPlace
    exact hPlace ▸ hConfined codec nonces disk _ rfl
  · intro hUp
    obtain ⟨-, hUpless⟩ := (stays_below ⟨"./data/", true⟩ ⟨"a", "x/../../y"⟩).1.1 hUp
    exact hUpless.upless (by decide)

end Directory

end ReplicatedStore
