import ReplicatedStore.Bytes
import ReplicatedStore.Cache.Policy

/-!
# The cache of objects

A cache keeps payloads under keys for a limited time. It is bounded by the number of entries and by
the size of each: a payload above the size limit is not taken, and an entry beyond the number drives
out the least recently written one. Every operation that looks at ages is given the clock's reading.

Main statements:

* `Cache.find?_erase_self`, `Cache.find?_erase_of_ne` — erasing a key affects that key alone.
-/

namespace ReplicatedStore

/-- The settings of a cache. -/
structure CacheOptions where
  enabled : Bool := false
  /-- the largest payload taken, in units of 2^20 octets -/
  maxSizeMb : Nat := 1024
  /-- how old an entry may be to be returned -/
  ttl : Duration := .ofSeconds 600
  maxItems : Nat := 5
  validation : ValidationPolicy := .none
  deriving DecidableEq, Repr

/-- The largest payload taken, in octets; it is stated as a number of 64 bits, at which it stops. -/
def CacheOptions.maxSize (o : CacheOptions) : Nat := min (o.maxSizeMb * 0x100000) 0xFFFFFFFFFFFFFFFF

/-- A payload under its key, with the time when it was stored. -/
structure CacheEntry where
  key : String
  data : Bytes
  storedAt : Duration
  deriving DecidableEq, Repr

/-- How long an entry has been stored. -/
def CacheEntry.age (e : CacheEntry) (now : Duration) : Duration := now - e.storedAt

/-- Entries under different keys, oldest place first, and the settings. -/
structure Cache where
  options : CacheOptions := {}
  entries : List CacheEntry := []
  deriving Repr

namespace Cache

def find? (c : Cache) (key : String) : Option CacheEntry := c.entries.find? (·.key == key)

/-- Whether there is an entry under a key, of any age. -/
def contains (c : Cache) (key : String) : Bool := (c.find? key).isSome

def size (c : Cache) : Nat := c.entries.length

/-- The cache without the entry under a key. -/
def erase (c : Cache) (key : String) : Cache :=
  { c with entries := c.entries.filter (·.key != key) }

def clear (c : Cache) : Cache := { c with entries := [] }

/-- The entry stored before all others in a list. Of several that were stored at one instant the first in
the list is taken, which is one choice of many: nothing orders them. -/
def oldest? : List CacheEntry → Option CacheEntry
  | [] => none
  | e :: rest =>
    match oldest? rest with
    | none => some e
    | some other => if e.storedAt ≤ other.storedAt then some e else some other

/-- Whether a payload may be stored at all. -/
def accepts (c : Cache) (data : Bytes) : Bool :=
  c.options.enabled && c.options.maxItems ≠ 0 && data.length ≤ c.options.maxSize

/-- The cache without its least recently written entry other than the one under `key`. -/
def evictBeside (c : Cache) (key : String) : Cache :=
  match oldest? (c.entries.filter (·.key != key)) with
  | some e => c.erase e.key
  | none => c

/-- The cache after a payload was stored under a key. An entry under that key is overwritten and
counts as written now; a new one may drive out another. -/
def store (c : Cache) (now : Duration) (key : String) (data : Bytes) : Cache :=
  if c.accepts data then
    if c.contains key then
      { c with entries := c.entries.map fun e =>
          if e.key == key then { e with data, storedAt := now } else e }
    else
      let grown := { c with entries := c.entries ++ [⟨key, data, now⟩] }
      -- the entry just written is never the one that goes
      if c.options.maxItems < grown.size then grown.evictBeside key else grown
  else c

/-- The payload under a key if it is fresh, and the cache afterwards: an entry that has outlived its
time is removed. -/
def lookup (c : Cache) (now : Duration) (key : String) : Option Bytes × Cache :=
  if c.options.enabled then
    match c.find? key with
    | none => (none, c)
    -- an entry is fresh up to the very end of its time
    | some e => if e.age now ≤ c.options.ttl then (some e.data, c) else (none, c.erase key)
  else (none, c)

/-! ## Laws -/

@[simp] theorem find?_erase_self (c : Cache) (key : String) : (c.erase key).find? key = none := by
  simp [find?, erase]

theorem find?_erase_of_ne (c : Cache) {key other : String} (h : other ≠ key) :
    (c.erase key).find? other = c.find? other := by
  simp only [find?, erase, List.find?_filter]
  congr 1
  funext e
  by_cases hKey : e.key = other
  · simp [hKey, h]
  · simp [hKey]

@[simp] theorem options_erase (c : Cache) (key : String) : (c.erase key).options = c.options := rfl

end Cache

end ReplicatedStore
