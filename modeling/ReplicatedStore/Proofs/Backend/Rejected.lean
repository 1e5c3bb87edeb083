import ReplicatedStore.Proofs.Backend.Confined
import ReplicatedStore.Proofs.Disk.Making

/-!
# Writes that are refused for their address

A write into a directory is refused if its container or its name does not lead downwards, or if the
container is missing and is not made. The name is looked at after the container was made, so that a
refused write can leave its container behind, and nothing else.

Main results:

* `Directory.needContainer_cases` — what becomes of the container of a write.
* `Directory.leaves_of_rejected` — what a refused write leaves behind.
-/

namespace ReplicatedStore

namespace Directory

variable {d : Directory} {a : Address} {codec : Codec} {nonces : Nat → Nonce} {disk : Disk}
  {data : Bytes} {f : Failure} {container : String}

/-- The failures of a write that are due to its address. -/
inductive Rejects (d : Directory) (disk : Disk) (a : Address) : Failure → Prop
  | container : ¬ Path.LeadsDown a.container → Rejects d disk a (invalidPath a.container)
  | name : ¬ Path.LeadsDown a.name → Rejects d disk a (invalidPath a.name)
  | missing : disk.isDirectory (Path.join d.base a.container) = false → d.createContainers = false →
      Rejects d disk a (noContainer a.container)

/-- Whether a refused write has made its container. -/
structure MakesContainer (d : Directory) (disk : Disk) (a : Address) : Prop where
  allowed : d.createContainers = true
  container : Path.LeadsDown a.container
  missing : disk.isDirectory (Path.join d.base a.container) = false

/-- What a refused write leaves behind. -/
structure Leaves (d : Directory) (disk : Disk) (a : Address) (after : Disk) : Prop where
  /-- nothing, unless it has made its container -/
  eq_iff : after = disk ↔ ¬ d.MakesContainer disk a
  /-- then the container is there, and was not before -/
  made : d.MakesContainer disk a → after.isDirectory (Path.join d.base a.container) = true
  /-- and the name is what it was refused for -/
  name : d.MakesContainer disk a → ¬ Path.LeadsDown a.name
  /-- all that is new are directories on the way to the container, where nothing was -/
  grows : disk.Grows after (Path.join d.base a.container)

theorem containerPath_cases (d : Directory) (container : String) :
    (¬ Path.LeadsDown container ∧ d.containerPath container = .error (invalidPath container)) ∨
      (Path.LeadsDown container ∧ d.containerPath container = .ok (Path.join d.base container)) := by
  rw [← Path.isPlain_iff_leadsDown, containerPath]
  by_cases h : Path.isPlain container = true <;> simp [h]

/-- The container of a write is refused; or it is there; or it is missing and is made, unless that is
refused. -/
theorem needContainer_cases (d : Directory) (disk : Disk) (container : String) :
    (¬ Path.LeadsDown container ∧
      d.needContainer disk container = (disk, some (invalidPath container))) ∨
    (Path.LeadsDown container ∧ disk.isDirectory (Path.join d.base container) = true ∧
      d.needContainer disk container = (disk, none)) ∨
    (Path.LeadsDown container ∧ disk.isDirectory (Path.join d.base container) = false ∧
      d.createContainers = false ∧
      d.needContainer disk container = (disk, some (noContainer container))) ∨
    (Path.LeadsDown container ∧ disk.isDirectory (Path.join d.base container) = false ∧
      d.createContainers = true ∧
      d.needContainer disk container =
        makeAll disk "Failed to create container directory" (Path.join d.base container)) := by
  rcases containerPath_cases d container with ⟨hUp, hPath⟩ | ⟨hDown, hPath⟩
  · exact .inl ⟨hUp, by simp only [needContainer, hPath]⟩
  · refine .inr ?_
    cases hThere : disk.isDirectory (Path.join d.base container) with
    | true => exact .inl ⟨hDown, rfl, by simp [needContainer, hPath, hThere]⟩
    | false =>
      cases hCreate : d.createContainers with
      | false => exact .inr (.inl ⟨hDown, rfl, rfl, by simp [needContainer, hPath, hThere, hCreate]⟩)
      | true => exact .inr (.inr ⟨hDown, rfl, rfl, by simp [needContainer, hPath, hThere, hCreate]⟩)

theorem Leaves.of_not_makes (h : ¬ d.MakesContainer disk a) : d.Leaves disk a disk :=
  ⟨iff_of_true rfl h, (absurd · h), (absurd · h), Disk.Grows.refl disk _⟩

/-- What there is after the container of a refused write was made. -/
theorem Leaves.of_made {after : Disk} (hMakes : d.MakesContainer disk a)
    (hName : ¬ Path.LeadsDown a.name)
    (hMake : disk.makeDirectories (Path.join d.base a.container) = (after, none)) :
    d.Leaves disk a after := by
  have hThere : after.isDirectory (Path.join d.base a.container) = true :=
    Disk.isDirectory_of_makeDirectories hMake (Path.join_ne_empty hMakes.container d.base)
  have hGrows := Disk.grows_makeDirectories disk (Path.join d.base a.container)
  rw [hMake] at hGrows
  refine ⟨iff_of_false ?_ (not_not_intro hMakes), fun _ => hThere, fun _ => hName, hGrows⟩
  rintro rfl
  rw [hMakes.missing] at hThere
  contradiction

/-- A write whose address has a path is only refused for its address if its container is missing. -/
theorem Rejects.of_objectPath {path : String} (h : d.Rejects disk a f) (hPath : d.objectPath a = .ok path) :
    disk.isDirectory (Path.join d.base a.container) = false ∧ d.createContainers = false := by
  obtain ⟨hContainer, hName, -⟩ := objectPath_eq_ok_iff_leadsDown.1 hPath
  cases h with
  | container hUp => exact absurd hContainer hUp
  | name hUp => exact absurd hName hUp
  | missing hMissing hCreate => exact ⟨hMissing, hCreate⟩

/-- No refusal of the disk is due to the address alone. -/
theorem not_rejects_refused {doing : String} {r : Refusal} : ¬ d.Rejects disk a (refused doing r) := by
  intro h
  cases h

/-- A write that is refused for its address leaves its container behind if it has made it, and nothing
else. It has if it may make containers, the container leads downwards and is missing, and the name does not
lead downwards. -/
theorem leaves_of_rejected (h : (d.put codec nonces disk a data).2 = .failed f)
    (hRejects : d.Rejects disk a f) : d.Leaves disk a (d.put codec nonces disk a data).1 := by
  rcases d.needContainer_cases disk a.container with ⟨hUp, hNeed⟩ | ⟨hDown, hThere, hNeed⟩ |
    ⟨hDown, hMissing, hCreate, hNeed⟩ | ⟨hDown, hMissing, hCreate, hNeed⟩
  · rw [put, hNeed]
    exact .of_not_makes fun hMakes => hUp hMakes.container
  · have hAfter : (d.put codec nonces disk a data).1 = disk := by
      cases hPath : d.objectPath a with
      | error f => simp only [put, hNeed, hPath]
      | ok path =>
        have hGone := (hRejects.of_objectPath hPath).1
        rw [hThere] at hGone
        contradiction
    rw [hAfter]
    refine .of_not_makes fun hMakes => ?_
    rw [hMakes.missing] at hThere
    contradiction
  · rw [put, hNeed]
    refine .of_not_makes fun hMakes => ?_
    rw [hMakes.allowed] at hCreate
    contradiction
  · rcases hMake : disk.makeDirectories (Path.join d.base a.container) with ⟨after, refusal⟩
    rw [makeAll, hMake] at hNeed
    cases refusal with
    | some r =>
      rw [put, hNeed] at h
      cases h
      exact absurd hRejects not_rejects_refused
    | none =>
      cases hPath : d.objectPath a with
      | ok path =>
        have hNever := (hRejects.of_objectPath hPath).2
        rw [hCreate] at hNever
        contradiction
      | error g =>
        have hAfter : (d.put codec nonces disk a data).1 = after := by
          simp only [put, hNeed, Option.map_none, hPath]
        have hName : ¬ Path.LeadsDown a.name := by
          intro hName
          rw [objectPath_eq_ok_iff_leadsDown.2 ⟨hDown, hName, rfl⟩] at hPath
          contradiction
        rw [hAfter]
        exact .of_made ⟨hCreate, hDown, hMissing⟩ hName hMake

/-- A disk with a directory for containers that has just been prepared. -/
def preparedDisk : Disk := { nodes := [(["data"], .directory)] }

/-- A write below containers that are made, by a name that leads upwards. -/
def putUpwards : Disk × Outcome :=
  put ⟨"data", true⟩ ⟨⟨[]⟩, ⟨[]⟩⟩ Nonce.ofNat preparedDisk ⟨"docs", "../escape.txt"⟩ []

/-- A name that leads upwards is refused, and the container is there all the same. -/
theorem leaves_of_rejected_upwards :
    putUpwards.2 = .failed (invalidPath "../escape.txt") ∧
      Leaves ⟨"data", true⟩ preparedDisk ⟨"docs", "../escape.txt"⟩ putUpwards.1 ∧
      putUpwards.1 ≠ preparedDisk ∧ preparedDisk.node? ["data", "docs"] = none ∧
      putUpwards.1.node? ["data", "docs"] = some .directory := by
  have hFailed : putUpwards.2 = .failed (invalidPath "../escape.txt") := by decide +kernel
  have hBefore : preparedDisk.node? ["data", "docs"] = none := by decide +kernel
  have hAfter : putUpwards.1.node? ["data", "docs"] = some .directory := by decide +kernel
  have hName : ¬ Path.LeadsDown "../escape.txt" := by
    rw [← Path.isPlain_iff_leadsDown]
    decide
  refine ⟨hFailed, leaves_of_rejected hFailed (.name hName), fun hSame => ?_, hBefore, hAfter⟩
  rw [hSame, hBefore] at hAfter
  contradiction

end Directory

end ReplicatedStore
