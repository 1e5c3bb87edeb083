import ReplicatedStore.Cache.Basic

/-!
# Validation passes

A pass notes the keys and times of all entries, picks some of them, and keeps as candidates those that
have outlived their time. Then it removes each candidate whose entry still bears the noted time; an
entry that was written since stays. Which entries are picked is up to a `Picker`, and each pass of a task
has one of its own.
-/

namespace ReplicatedStore

/-- What a pass notes of an entry. -/
structure Candidate where
  key : String
  storedAt : Duration
  deriving DecidableEq, Repr

/-- A choice of `count` places below `total`. -/
abbrev Picker := (total count : Nat) → List Nat

/-- A choice for each pass, told by when the pass is due. -/
abbrev Picks := (due : Duration) → Picker

namespace Picker

/-- The choice of the first places. -/
def first : Picker := fun _ count => List.range count

/-- Whether a picker chooses as many places as asked, each below the total, none twice. -/
def Fair (p : Picker) : Prop :=
  ∀ total count, count ≤ total →
    (p total count).length = count ∧ (p total count).Nodup ∧ ∀ i ∈ p total count, i < total

end Picker

/-- The choice of the first places in every pass. -/
def Picks.first : Picks := fun _ => Picker.first

namespace Cache

/-- The keys and times of all entries. -/
def snapshot (c : Cache) : List Candidate := c.entries.map fun e => ⟨e.key, e.storedAt⟩

/-- The picked entries that have outlived their time; none without a time to live. -/
def expiredSample? (c : Cache) (picker : Picker) (now : Duration) (percent : Nat) :
    Option (List Candidate) :=
  if c.options.ttl.nanos = 0 then none
  else
    let noted := c.snapshot
    let picked := (picker noted.length (sampleSize noted.length percent)).filterMap (noted[·]?)
    some (picked.filter fun k => c.options.ttl < now - k.storedAt)

/-- The cache without a candidate's entry, unless it was written since; and whether it was removed. -/
def pruneOne (c : Cache) (k : Candidate) : Bool × Cache :=
  match c.find? k.key with
  -- another time than the noted one means that the entry was written since
  | some e => if e.storedAt = k.storedAt then (true, c.erase k.key) else (false, c)
  | none => (false, c)

/-- The cache without the candidates' entries, and how many were removed. -/
def prune (c : Cache) : List Candidate → Nat × Cache
  | [] => (0, c)
  | k :: rest =>
    let (removed, c) := c.pruneOne k
    let (count, c) := c.prune rest
    (removed.toNat + count, c)

/-- A whole pass: how many entries it removed, none if it cannot be made, and the cache afterwards. -/
def validate (c : Cache) (picker : Picker) (now : Duration) (percent : Nat) : Option Nat × Cache :=
  match c.expiredSample? picker now percent with
  | none => (none, c)
  | some candidates =>
    let (count, c) := c.prune candidates
    (some count, c)

end Cache

end ReplicatedStore
