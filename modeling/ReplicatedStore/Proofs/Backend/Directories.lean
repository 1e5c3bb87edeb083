import ReplicatedStore.Backend.Directory
import ReplicatedStore.Backend.Memory
import ReplicatedStore.Proofs.Backend.Files

/-!
# Calls of directories

What a call of a directory does to its disk. Directories may be made on the way to a file, which touches no
file; then the file is opened and filled. A write that fails leaves all files alone unless something came
in the way of the content when its file was open already. All other calls that fail leave the disk as it is.

Main results:

* `Directory.puts`, `Directory.remove_cases`, `Directory.get_cases` — how calls come to their ends.
* `Directory.mishapAt_call` — calls do not change what comes in the way of contents.
-/

namespace ReplicatedStore.Directory

theorem sameFiles_makeAll (disk : Disk) (doing path : String) :
    disk.SameFiles (makeAll disk doing path).1 := Disk.sameFiles_makeDirectories disk path

theorem sameFiles_needContainer (d : Directory) (disk : Disk) (container : String) :
    disk.SameFiles (d.needContainer disk container).1 := by
  unfold needContainer
  split
  · exact Disk.SameFiles.refl disk
  · split
    · exact Disk.SameFiles.refl disk
    · split
      · exact sameFiles_makeAll ..
      · exact Disk.SameFiles.refl disk

theorem sameFiles_needParent (disk : Disk) (path : String) :
    disk.SameFiles (needParent disk path).1 := by
  unfold needParent
  split
  · exact Disk.SameFiles.refl disk
  · exact sameFiles_makeAll ..

/-- How a write of a directory has come to its end. -/
inductive Puts (d : Directory) (codec : Codec) (nonces : Nat → Nonce) (disk : Disk) (a : Address)
    (data : Bytes) : Disk × Outcome → Prop
  /-- it has failed before any file was opened -/
  | unopened {after : Disk} {f : Failure} (h : disk.SameFiles after) :
      Puts d codec nonces disk a data (after, .failed f)
  /-- something came in the way when the file was open -/
  | spoilt {above after : Disk} {path : String} {content : Bytes} {m : Mishap}
      (hFiles : disk.SameFiles above) (hPath : d.objectPath a = .ok path)
      (h : above.write path content = .ok (after, some m)) :
      Puts d codec nonces disk a data (after, .failed (Directory.spoilt m))
  /-- what was made of the payload is in the file -/
  | written {above after : Disk} {path : String} {content : Bytes} (hFiles : disk.SameFiles above)
      (hPath : d.objectPath a = .ok path) (hEncode : (codec.write.encode nonces data).result = .ok content)
      (h : above.write path content = .ok (after, none)) :
      Puts d codec nonces disk a data (after, .answered .done)

/-- Directories may be made before a failure, files are not touched until the last step. -/
theorem puts (d : Directory) (codec : Codec) (nonces : Nat → Nonce) (disk : Disk) (a : Address)
    (data : Bytes) : d.Puts codec nonces disk a data (d.put codec nonces disk a data) := by
  have hContainer := sameFiles_needContainer d disk a.container
  unfold put
  split
  · rename_i above f hNeed
    rw [hNeed] at hContainer
    exact .unopened hContainer
  · rename_i above hNeed
    rw [hNeed] at hContainer
    cases hPath : d.objectPath a with
    | error f => exact .unopened hContainer
    | ok path =>
      have hParent := sameFiles_needParent above path
      simp only
      split
      · rename_i below f hNeed
        rw [hNeed] at hParent
        exact .unopened (hContainer.trans hParent)
      · rename_i below hNeed
        rw [hNeed] at hParent
        cases hEncode : (codec.write.encode nonces data).result with
        | error e => exact .unopened (hContainer.trans hParent)
        | ok content =>
          simp only
          split
          · exact .unopened (hContainer.trans hParent)
          · rename_i after m hWrite
            exact .spoilt (hContainer.trans hParent) hPath hWrite
          · rename_i after hWrite
            exact .written (hContainer.trans hParent) hPath hEncode hWrite

/-- On a disk that is full when the file is open, the write fails and the file is empty. -/
example :
    let disk : Disk := { nodes := [(["c"], .directory), (["c", "x"], .file [1])]
                         mishapAt := fun _ => some ⟨0, .noSpace, false⟩ }
    let (after, o) := put ⟨"/", false⟩ ⟨⟨[]⟩, ⟨[]⟩⟩ Nonce.ofNat disk ⟨"c", "x"⟩ [2]
    (o, disk.content? "/c/x", after.content? "/c/x") =
      (.failed (.refused "Failed to write data" "No space left on device (os error 28)"),
        some [1], some []) := by decide +kernel

theorem Puts.eq_done {d : Directory} {codec : Codec} {nonces : Nat → Nonce} {disk : Disk}
    {a : Address} {data : Bytes} {result : Disk × Outcome} (h : d.Puts codec nonces disk a data result)
    {x : Answer} (hAnswered : result.2 = .answered x) : x = .done := by
  cases h with
  | unopened | spoilt => contradiction
  | written => exact (Outcome.answered.inj hAnswered).symm

/-- A removal fails and leaves the disk alone, or the file is removed. -/
theorem remove_cases (d : Directory) (disk : Disk) (a : Address) :
    (∃ f, d.remove disk a = (disk, .failed f)) ∨
      ((d.remove disk a).2 = .answered .done ∧ ∃ path, d.objectPath a = .ok path ∧
        disk.remove path = .ok (d.remove disk a).1) := by
  unfold remove
  cases hPath : d.objectPath a with
  | error f => exact .inl ⟨f, rfl⟩
  | ok path =>
    simp only
    split
    · exact .inl ⟨_, rfl⟩
    · rename_i removed hRemove
      exact .inr ⟨rfl, path, rfl, hRemove⟩

/-- A read fails, or it gives what the content of a file is decoded to. -/
theorem get_cases (d : Directory) (codec : Codec) (disk : Disk) (a : Address) :
    (∃ f, d.get codec disk a = .failed f) ∨ ∃ path content, d.objectPath a = .ok path ∧
      disk.content? path = some content ∧ d.get codec disk a = Memory.decoded codec content := by
  unfold get Memory.decoded
  cases hPath : d.objectPath a with
  | error f => exact .inl ⟨f, rfl⟩
  | ok path =>
    simp only
    cases hRead : disk.read path with
    | error refusal => exact .inl ⟨_, rfl⟩
    | ok content => exact .inr ⟨path, content, rfl, Disk.content?_of_read hRead, rfl⟩

/-- What comes in the way of contents on a disk is up to the disk. -/
theorem mishapAt_call (d : Directory) (codec : Codec) (nonces : Nat → Nonce) (disk : Disk) (r : Request) :
    (d.call codec nonces disk r).1.mishapAt = disk.mishapAt := by
  cases r with
  | get a => rfl
  | holds a => rfl
  | put a data =>
    have hPuts := d.puts codec nonces disk a data
    rw [call]
    generalize d.put codec nonces disk a data = result at hPuts
    cases hPuts with
    | unopened h => exact h.mishapAt
    | spoilt hFiles _ h | written hFiles _ _ h =>
      obtain ⟨-, stored, rfl, -⟩ := Disk.holding_of_write h
      exact hFiles.mishapAt
  | remove a =>
    rw [call]
    rcases d.remove_cases disk a with ⟨f, hFailed⟩ | ⟨-, path, -, hRemove⟩
    · rw [hFailed]
    · obtain ⟨-, -, hErased⟩ := Disk.remove_eq_ok hRemove
      rw [hErased]
      rfl

end ReplicatedStore.Directory
