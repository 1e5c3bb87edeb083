import Mathlib.Data.List.Induction
import ReplicatedStore.Proofs.Cache.History

/-!
# What a cache may be trusted with

However a cache is used, it stays within its bounds, and what it answers was stored in it: by the last
store that it accepted under that key, no longer ago than its entries may live, and nothing has dropped
it since. An entry that has outlived its time goes when it is looked up, and takes no other with it.

Main results:

* `TimedCache.lastStored_of_mem` — every entry is the last word on its key.
* `TimedCache.safe_after` — all of this, of every run.
-/

namespace ReplicatedStore

namespace TimedCache

variable {options : CacheOptions} {moves : List CacheMove} {key : String} {data : Bytes}

/-- Whether a payload was put under a key at a time, and that is the last word on the key: the store
was accepted, and no move since then has put an end to it. -/
def LastStored (options : CacheOptions) (moves : List CacheMove) (key : String) (data : Bytes)
    (time : Duration) : Prop :=
  ∃ before rest, moves = before ++ .store key data :: rest ∧
    (after options before).cache.accepts data = true ∧ (after options before).now = time ∧
    ∀ mid m tail, rest = mid ++ m :: tail →
      ¬ (after options (before ++ .store key data :: mid)).Ends key m

theorem lastStored_store (h : (after options moves).cache.accepts data = true) :
    LastStored options (moves ++ [.store key data]) key data (after options moves).now := by
  refine ⟨moves, [], rfl, h, rfl, ?_⟩
  intro mid m tail hNil
  exact absurd hNil.symm (List.append_ne_nil_of_right_ne_nil _ (List.cons_ne_nil _ _))

theorem LastStored.concat {time : Duration} (h : LastStored options moves key data time)
    {m : CacheMove} (hEnds : ¬ (after options moves).Ends key m) :
    LastStored options (moves ++ [m]) key data time := by
  obtain ⟨before, rest, rfl, hAccepts, hTime, hRest⟩ := h
  refine ⟨before, rest ++ [m], by simp, hAccepts, hTime, ?_⟩
  intro mid m' tail hEq
  rcases List.eq_nil_or_concat tail with rfl | ⟨tail, last, rfl⟩
  · -- the move that was added
    obtain ⟨rfl, hLast⟩ := List.append_inj' hEq rfl
    cases hLast
    exact hEnds
  · -- one of those from before
    rw [List.concat_eq_append, ← List.cons_append, ← List.append_assoc] at hEq
    exact hRest mid m' tail (List.append_inj' hEq rfl).1

/-- Every entry is the last word on its key. -/
theorem lastStored_of_mem {e : CacheEntry} (he : e ∈ (after options moves).cache.entries) :
    LastStored options moves e.key e.data e.storedAt := by
  induction moves using List.reverseRecOn with
  | nil => exact absurd he List.not_mem_nil
  | append_singleton moves m ih =>
    rw [after_concat] at he
    rcases mem_step (tidy_after options moves) he with ⟨rfl, hAccepts, hTime⟩ | ⟨hMem, hEnds⟩
    · rw [hTime]
      exact lastStored_store hAccepts
    · exact (ih hMem).concat hEnds

/-- What a cache made with some settings may be trusted with after some moves. -/
structure Safe (options : CacheOptions) (moves : List CacheMove) (s : TimedCache) : Prop where
  /-- there are no more entries than the settings in force allow -/
  size : s.cache.size ≤ s.cache.options.maxItems
  /-- no entry is larger than the settings in force allow -/
  payload : ∀ e ∈ s.cache.entries, e.data.length ≤ s.cache.options.maxSizeMb * 0x100000
  /-- what is found is what was stored last, within the time that the settings in force allow -/
  found : ∀ key data, (s.cache.lookup s.now key).1 = some data →
    s.cache.options.enabled = true ∧ ∃ time, LastStored options moves key data time ∧
      time ≤ s.now ∧ s.now - time ≤ s.cache.options.ttl
  /-- an entry that has outlived its time is not found but removed, and no other is -/
  outlived : ∀ key e, s.cache.find? key = some e → s.cache.options.enabled = true →
    s.cache.options.ttl < e.age s.now → (s.cache.lookup s.now key).1 = none ∧
      ∀ other, other ∈ (s.step (.lookup key)).cache.entries ↔ other ∈ s.cache.entries ∧ other ≠ e

/-- A lookup that meets an entry past its time takes that one away. -/
theorem lookup_of_outlived {c : Cache} {now : Duration} {e : CacheEntry}
    (hFound : c.find? key = some e) (hEnabled : c.options.enabled = true)
    (hAge : c.options.ttl < e.age now) : c.lookup now key = (none, c.erase key) := by
  have hOld : ¬ e.age now ≤ c.options.ttl := Nat.not_le_of_lt hAge
  simp [Cache.lookup, hEnabled, hFound, hOld]

/-- A cache may be trusted with all of this, however it is used. -/
theorem safe_after (options : CacheOptions) (moves : List CacheMove) :
    Safe options moves (after options moves) := by
  have hTidy := tidy_after options moves
  refine ⟨hTidy.size, ?_, ?_, ?_⟩
  · intro e he
    exact Nat.le_trans (hTidy.payload e he) (Nat.min_le_left _ _)
  · intro key data hFound
    obtain ⟨hEnabled, e, he, rfl, rfl, hFresh⟩ := (Cache.lookup_eq_some_iff hTidy.keys).mp hFound
    exact ⟨hEnabled, e.storedAt, lastStored_of_mem he, hTidy.past e he, hFresh⟩
  · intro key e hFound hEnabled hAge
    have hLookup := lookup_of_outlived hFound hEnabled hAge
    obtain ⟨hMem, hKey⟩ := (Cache.find?_eq_some_iff hTidy.keys).mp hFound
    refine ⟨by rw [hLookup], fun other => ?_⟩
    have hStep : ((after options moves).step (.lookup key)).cache =
        (after options moves).cache.erase key := congrArg Prod.snd hLookup
    rw [hStep, Cache.mem_erase_iff]
    -- the entry is the only one under its key
    have hOnly : other ∈ (after options moves).cache.entries → (other.key = key ↔ other = e) := by
      intro hOther
      constructor
      · intro hSame
        exact List.inj_on_of_nodup_map hTidy.keys hOther hMem (hSame.trans hKey.symm)
      · rintro rfl
        exact hKey
    constructor
    · rintro ⟨hOther, hNe⟩
      exact ⟨hOther, fun hEq => hNe ((hOnly hOther).mpr hEq)⟩
    · rintro ⟨hOther, hNe⟩
      exact ⟨hOther, fun hEq => hNe ((hOnly hOther).mp hEq)⟩

end TimedCache

end ReplicatedStore
