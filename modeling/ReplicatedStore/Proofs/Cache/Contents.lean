import Mathlib.Data.List.Nodup
import ReplicatedStore.Proofs.Cache.Entries

/-!
# What a cache has in it

A cache in order has one entry a key, none from the future, and all of them within its bounds. Two
things can happen to its content: an accepted store puts in its own entry, in the place of the one
under the same key or of the oldest one if there is no room, and everything else takes entries away at
most. Both keep the cache in order.

Main results:

* `Cache.mem_store_iff` — what is in a cache after an accepted store.
* `Cache.Tidy.store`, `Cache.Tidy.loses` — a cache in order stays so.
* `Cache.lookup_eq_some_iff` — what a lookup finds.
* `Cache.mem_validate_of_isFresh` — a pass removes nothing that is fresh.
-/

namespace ReplicatedStore

/-- Whether an entry may still be returned. -/
def CacheEntry.IsFresh (e : CacheEntry) (ttl now : Duration) : Prop := e.age now ≤ ttl

/-- What is fresh has been fresh ever since it was stored. -/
theorem CacheEntry.IsFresh.of_le {e : CacheEntry} {ttl now earlier : Duration}
    (h : e.IsFresh ttl now) (hLe : earlier ≤ now) : e.IsFresh ttl earlier := by
  unfold IsFresh age at *
  rw [Duration.le_def, Duration.nanos_sub] at h ⊢
  rw [Duration.le_def] at hLe
  omega

namespace Cache

/-- Whether a cache has no other entries than another one, and the same bounds on them. -/
structure Loses (c d : Cache) : Prop where
  entries : d.entries.Sublist c.entries
  ttl : d.options.ttl = c.options.ttl
  maxItems : d.options.maxItems = c.options.maxItems
  maxSizeMb : d.options.maxSizeMb = c.options.maxSizeMb

theorem Removes.loses {c d : Cache} (h : c.Removes d) : c.Loses d :=
  ⟨h.entries, by rw [h.options], by rw [h.options], by rw [h.options]⟩

/-- Whether a cache is in order at a time. -/
structure Tidy (c : Cache) (now : Duration) : Prop where
  keys : (c.entries.map (·.key)).Nodup
  size : c.size ≤ c.options.maxItems
  payload : ∀ e ∈ c.entries, e.data.length ≤ c.options.maxSize
  past : ∀ e ∈ c.entries, e.storedAt ≤ now

variable {c d : Cache} {now : Duration} {key : String} {data : Bytes} {e : CacheEntry}

theorem Tidy.loses (h : c.Tidy now) (hLoses : c.Loses d) {later : Duration} (hLater : now ≤ later) :
    d.Tidy later := by
  have hSize : d.entries.length ≤ c.entries.length := hLoses.entries.length_le
  have hMaxSize : d.options.maxSize = c.options.maxSize := by
    rw [CacheOptions.maxSize, CacheOptions.maxSize, hLoses.maxSizeMb]
  refine ⟨(hLoses.entries.map _).nodup h.keys, ?_, ?_, ?_⟩
  · rw [hLoses.maxItems]
    exact Nat.le_trans hSize h.size
  · intro e he
    rw [hMaxSize]
    exact h.payload e (hLoses.entries.subset he)
  · intro e he
    exact Nat.le_trans (h.past e (hLoses.entries.subset he)) hLater

/-! ## Looking for keys -/

/-- In a cache in order an entry is the one that is found under its key. -/
theorem find?_eq_some_iff (hKeys : (c.entries.map (·.key)).Nodup) :
    c.find? key = some e ↔ e ∈ c.entries ∧ e.key = key := by
  constructor
  · intro hFound
    exact ⟨List.mem_of_find?_eq_some hFound, by simpa using List.find?_some hFound⟩
  · rintro ⟨hMem, hKey⟩
    cases hFound : c.find? key with
    | none =>
      have hNone := List.find?_eq_none.mp hFound e hMem
      simp [hKey] at hNone
    | some other =>
      have hOther : other ∈ c.entries := List.mem_of_find?_eq_some hFound
      have hOtherKey : other.key = key := by simpa using List.find?_some hFound
      rw [List.inj_on_of_nodup_map hKeys hMem hOther (hKey.trans hOtherKey.symm)]

theorem contains_eq_false_iff : c.contains key = false ↔ ∀ e ∈ c.entries, e.key ≠ key := by
  simp [contains, find?]

theorem contains_eq_true_iff : c.contains key = true ↔ ∃ e ∈ c.entries, e.key = key := by
  simp [contains, find?]

theorem mem_erase_iff : e ∈ (c.erase key).entries ↔ e ∈ c.entries ∧ e.key ≠ key := by
  simp [erase]

/-- What a lookup finds: the payload of a fresh entry under the key. -/
theorem lookup_eq_some_iff (hKeys : (c.entries.map (·.key)).Nodup) :
    (c.lookup now key).1 = some data ↔ c.options.enabled = true ∧
      ∃ e ∈ c.entries, e.key = key ∧ e.data = data ∧ e.IsFresh c.options.ttl now := by
  unfold lookup
  cases hEnabled : c.options.enabled with
  | false => simp
  | true =>
    cases hFound : c.find? key with
    | none =>
      have hNone : c.contains key = false := by rw [contains, hFound]; rfl
      have hNobody := contains_eq_false_iff.mp hNone
      simp only [if_true, reduceCtorEq, true_and, false_iff]
      rintro ⟨e, he, hKey, -⟩
      exact hNobody e he hKey
    | some e =>
      obtain ⟨hMem, hKey⟩ := (find?_eq_some_iff hKeys).mp hFound
      -- no other entry is under this key, so all depends on the age of this one
      have hOnly (other : CacheEntry) (hOther : other ∈ c.entries) (hSame : other.key = key) :
          other = e := List.inj_on_of_nodup_map hKeys hOther hMem (hSame.trans hKey.symm)
      simp only [if_true, true_and]
      split
      · rename_i hAge
        rw [Option.some.injEq]
        constructor
        · intro hData
          exact ⟨e, hMem, hKey, hData, hAge⟩
        · rintro ⟨other, hOther, hSame, hData, -⟩
          rw [← hOnly other hOther hSame]
          exact hData
      · rename_i hAge
        simp only [reduceCtorEq, false_iff]
        rintro ⟨other, hOther, hSame, -, hFresh⟩
        rw [hOnly other hOther hSame] at hFresh
        exact hAge hFresh

/-! ## What is fresh stays -/

/-- A lookup removes nothing that is fresh. -/
theorem mem_lookup_of_isFresh (hKeys : (c.entries.map (·.key)).Nodup) (hMem : e ∈ c.entries)
    (hFresh : e.IsFresh c.options.ttl now) : e ∈ (c.lookup now key).2.entries := by
  unfold lookup
  split
  · split
    · exact hMem
    · rename_i found hFound
      split
      · exact hMem
      · rename_i hAge
        obtain ⟨hFoundMem, hFoundKey⟩ := (find?_eq_some_iff hKeys).mp hFound
        refine mem_erase_iff.mpr ⟨hMem, fun hKey => hAge ?_⟩
        -- the entry that has outlived its time would be this one
        rw [List.inj_on_of_nodup_map hKeys hFoundMem hMem (hFoundKey.trans hKey.symm)]
        exact hFresh
  · exact hMem

/-- A candidate takes away the entry under its key only if that bears the noted time. -/
theorem mem_pruneOne (hKeys : (c.entries.map (·.key)).Nodup) (hMem : e ∈ c.entries) {k : Candidate}
    (hOther : ¬ (e.key = k.key ∧ e.storedAt = k.storedAt)) : e ∈ (c.pruneOne k).2.entries := by
  unfold pruneOne
  split
  · rename_i found hFound
    split
    · rename_i hTime
      obtain ⟨hFoundMem, hFoundKey⟩ := (find?_eq_some_iff hKeys).mp hFound
      refine mem_erase_iff.mpr ⟨hMem, fun hKey => hOther ⟨hKey, ?_⟩⟩
      rw [List.inj_on_of_nodup_map hKeys hMem hFoundMem (hKey.trans hFoundKey.symm)]
      exact hTime
    · exact hMem
  · exact hMem

/-- What a pass has noted is out of its time. -/
theorem not_le_of_mem_expiredSample? {picker : Picker} {percent : Nat} {candidates : List Candidate}
    (h : c.expiredSample? picker now percent = some candidates) {k : Candidate} (hk : k ∈ candidates) :
    k ∈ c.snapshot ∧ ¬ now - k.storedAt ≤ c.options.ttl := by
  unfold expiredSample? at h
  split at h
  · contradiction
  · rw [Option.some.injEq] at h
    rw [← h, List.mem_filter, List.mem_filterMap, decide_eq_true_eq] at hk
    obtain ⟨⟨i, -, hAt⟩, hOld⟩ := hk
    exact ⟨List.mem_of_getElem? hAt, Nat.not_le_of_lt hOld⟩

/-- A pass removes nothing that is fresh. -/
theorem mem_validate_of_isFresh (hKeys : (c.entries.map (·.key)).Nodup) (hMem : e ∈ c.entries)
    (hFresh : e.IsFresh c.options.ttl now) (picker : Picker) (percent : Nat) :
    e ∈ (c.validate picker now percent).2.entries := by
  unfold validate
  cases hNoted : c.expiredSample? picker now percent with
  | none => exact hMem
  | some candidates =>
    have hOther : ∀ k ∈ candidates, ¬ (e.key = k.key ∧ e.storedAt = k.storedAt) := by
      rintro k hk ⟨-, hTime⟩
      refine (not_le_of_mem_expiredSample? hNoted hk).2 ?_
      rw [← hTime]
      exact hFresh
    -- none of the candidates is this entry, one after the other
    clear hNoted hFresh
    show e ∈ (c.prune candidates).2.entries
    induction candidates generalizing c with
    | nil => exact hMem
    | cons k rest ih =>
      have hStays := mem_pruneOne hKeys hMem (hOther k List.mem_cons_self)
      have hStill := ((removes_pruneOne c k).entries.map (·.key)).nodup hKeys
      exact ih hStill hStays fun other hRest => hOther other (List.mem_cons_of_mem _ hRest)

/-! ## Making room -/

theorem oldest?_eq_none_iff {l : List CacheEntry} : oldest? l = none ↔ l = [] := by
  cases l with
  | nil => simp [oldest?]
  | cons e rest =>
    simp only [oldest?, reduceCtorEq, iff_false]
    cases oldest? rest with
    | none => simp
    | some other =>
      simp only
      split <;> simp

/-- The oldest entry of a list is one of them, and none was stored before it. -/
theorem oldest?_spec {l : List CacheEntry} {o : CacheEntry} (h : oldest? l = some o) :
    o ∈ l ∧ ∀ e ∈ l, o.storedAt ≤ e.storedAt := by
  induction l generalizing o with
  | nil => contradiction
  | cons first rest ih =>
    unfold oldest? at h
    cases hRest : oldest? rest with
    | none =>
      rw [hRest] at h
      have hNil := oldest?_eq_none_iff.mp hRest
      cases h
      rw [hNil]
      refine ⟨List.mem_singleton_self _, fun e he => ?_⟩
      rw [List.mem_singleton.mp he]
      exact Nat.le_refl _
    | some other =>
      obtain ⟨hMem, hLeast⟩ := ih hRest
      simp only [hRest] at h
      split at h
      · rename_i hFirst
        cases h
        refine ⟨List.mem_cons_self, fun e he => ?_⟩
        rcases List.mem_cons.mp he with rfl | he
        · exact Nat.le_refl _
        · exact Nat.le_trans hFirst (hLeast e he)
      · rename_i hFirst
        cases h
        refine ⟨List.mem_cons_of_mem _ hMem, fun e he => ?_⟩
        rcases List.mem_cons.mp he with rfl | he
        · exact Nat.le_of_lt (Nat.lt_of_not_le hFirst)
        · exact hLeast e he

/-- The entry that a store under a key drives out, if it drives out one. -/
def evicted? (c : Cache) (key : String) : Option CacheEntry :=
  if c.contains key = false ∧ c.options.maxItems ≤ c.size then oldest? c.entries else none

theorem evicted?_of_contains (h : c.contains key = true) : c.evicted? key = none := by
  simp [evicted?, h]

theorem mem_of_evicted? {o : CacheEntry} (h : c.evicted? key = some o) : o ∈ c.entries := by
  unfold evicted? at h
  split at h
  · exact (oldest?_spec h).1
  · contradiction

/-- A store under a key that is there overwrites its entry. -/
theorem entries_store_of_contains (hAccepts : c.accepts data = true) (h : c.contains key = true) :
    (c.store now key data).entries =
      c.entries.map fun e => if e.key == key then { e with data, storedAt := now } else e := by
  simp [store, hAccepts, h]

/-- A store under a new key puts its entry behind the others, without the one that it drives out. -/
theorem entries_store_of_not_contains (hAccepts : c.accepts data = true)
    (h : c.contains key = false) :
    (c.store now key data).entries =
      match c.evicted? key with
      | some o => (c.entries ++ [CacheEntry.mk key data now]).filter (·.key != o.key)
      | none => c.entries ++ [.mk key data now] := by
  -- the entries beside the new one are those from before
  have hBeside : (c.entries ++ [CacheEntry.mk key data now]).filter (·.key != key) = c.entries := by
    have hOthers := contains_eq_false_iff.mp h
    rw [List.filter_append, List.filter_eq_self.mpr fun e he => by simpa using hOthers e he]
    simp
  have hSize : ({ c with entries := c.entries ++ [CacheEntry.mk key data now] } : Cache).size = c.size + 1 := by
    simp [size]
  by_cases hFull : c.options.maxItems ≤ c.size
  · have hNoRoom : c.options.maxItems < c.size + 1 := Nat.lt_succ_of_le hFull
    have hEvicted : c.evicted? key = oldest? c.entries := by simp [evicted?, h, hFull]
    simp only [store, hAccepts, h, hSize, if_true, Bool.false_eq_true, if_false, if_pos hNoRoom,
      evictBeside, hBeside, hEvicted]
    cases oldest? c.entries with
    | none => rfl
    | some o => rfl
  · have hRoom : ¬ c.options.maxItems < c.size + 1 := fun hLt => hFull (Nat.le_of_lt_succ hLt)
    have hNone : c.evicted? key = none := by simp [evicted?, hFull]
    simp only [store, hAccepts, h, hSize, if_true, Bool.false_eq_true, if_false, if_neg hRoom, hNone]

theorem store_of_not_accepts (h : c.accepts data = false) : c.store now key data = c := by
  simp [store, h]

theorem options_store (c : Cache) (now : Duration) (key : String) (data : Bytes) :
    (c.store now key data).options = c.options := by
  unfold store
  split
  · split
    · rfl
    · simp only
      split
      · unfold evictBeside
        split <;> rfl
      · rfl
  · rfl

/-- What is in a cache after an accepted store: its own entry, and those from before except the one
under the same key and the one that was driven out. -/
theorem mem_store_iff (hKeys : (c.entries.map (·.key)).Nodup) (hAccepts : c.accepts data = true) :
    e ∈ (c.store now key data).entries ↔
      e = ⟨key, data, now⟩ ∨ e ∈ c.entries ∧ e.key ≠ key ∧ c.evicted? key ≠ some e := by
  cases hContains : c.contains key with
  | true =>
    obtain ⟨old, hOld, hOldKey⟩ := contains_eq_true_iff.mp hContains
    rw [entries_store_of_contains hAccepts hContains, evicted?_of_contains hContains, List.mem_map]
    constructor
    · rintro ⟨before, hBefore, rfl⟩
      by_cases hKey : before.key = key
      · left
        simp [hKey]
      · right
        simp [hKey, hBefore]
    · rintro (rfl | ⟨hMem, hKey, -⟩)
      · exact ⟨old, hOld, by simp [hOldKey]⟩
      · exact ⟨e, hMem, by simp [hKey]⟩
  | false =>
    have hOthers := contains_eq_false_iff.mp hContains
    rw [entries_store_of_not_contains hAccepts hContains]
    cases hEvicted : c.evicted? key with
    | none =>
      simp only [List.mem_append, List.mem_singleton]
      constructor
      · rintro (hMem | hNew)
        · exact .inr ⟨hMem, hOthers e hMem, by simp⟩
        · exact .inl hNew
      · rintro (hNew | ⟨hMem, -⟩)
        · exact .inr hNew
        · exact .inl hMem
    | some o =>
      have hGone : o ∈ c.entries := mem_of_evicted? hEvicted
      simp only [List.mem_filter, List.mem_append, List.mem_singleton, bne_iff_ne, ne_eq,
        Option.some.injEq]
      constructor
      · rintro ⟨hMem | hNew, hKey⟩
        · exact .inr ⟨hMem, hOthers e hMem, fun hEq => hKey (congrArg CacheEntry.key hEq.symm)⟩
        · exact .inl hNew
      · rintro (rfl | ⟨hMem, -, hNe⟩)
        · exact ⟨.inr rfl, fun hKey => hOthers o hGone hKey.symm⟩
        · refine ⟨.inl hMem, fun hKey => hNe ?_⟩
          exact (List.inj_on_of_nodup_map hKeys hMem hGone hKey).symm

/-- No two entries are under one key after a store. -/
theorem nodup_keys_store (hKeys : (c.entries.map (·.key)).Nodup) (hAccepts : c.accepts data = true) :
    ((c.store now key data).entries.map (·.key)).Nodup := by
  cases hContains : c.contains key with
  | true =>
    have hSame : (c.store now key data).entries.map (·.key) = c.entries.map (·.key) := by
      rw [entries_store_of_contains hAccepts hContains, List.map_map]
      apply List.map_congr_left
      intro e _
      simp only [Function.comp_apply]
      split <;> rfl
    rw [hSame]
    exact hKeys
  | false =>
    have hOthers := contains_eq_false_iff.mp hContains
    have hGrown : ((c.entries ++ [CacheEntry.mk key data now]).map (·.key)).Nodup := by
      rw [List.map_append, List.nodup_append]
      refine ⟨hKeys, List.nodup_singleton _, ?_⟩
      intro k hk other hOther hEq
      obtain ⟨e, he, rfl⟩ := List.mem_map.mp hk
      rw [List.map_singleton, List.mem_singleton] at hOther
      exact hOthers e he (hEq.trans hOther)
    have hSublist : (c.store now key data).entries.Sublist (c.entries ++ [CacheEntry.mk key data now]) := by
      rw [entries_store_of_not_contains hAccepts hContains]
      split
      · exact List.filter_sublist
      · exact List.Sublist.refl _
    exact (hSublist.map _).nodup hGrown

/-- A store leaves no more entries than there may be. -/
theorem size_store_le (hSize : c.size ≤ c.options.maxItems) (hAccepts : c.accepts data = true) :
    (c.store now key data).size ≤ c.options.maxItems := by
  unfold size at hSize ⊢
  cases hContains : c.contains key with
  | true =>
    rw [entries_store_of_contains hAccepts hContains, List.length_map]
    exact hSize
  | false =>
    rw [entries_store_of_not_contains hAccepts hContains]
    have hPos : c.options.maxItems ≠ 0 := by
      simp only [accepts, Bool.and_eq_true, decide_eq_true_eq] at hAccepts
      exact hAccepts.1.2
    cases hEvicted : c.evicted? key with
    | some o =>
      -- the one that was driven out is missing
      have hGone : o ∈ c.entries ++ [CacheEntry.mk key data now] :=
        List.mem_append_left _ (mem_of_evicted? hEvicted)
      have hLess : ((c.entries ++ [CacheEntry.mk key data now]).filter (·.key != o.key)).length <
          (c.entries ++ [CacheEntry.mk key data now]).length := by
        rw [List.length_filter_lt_length_iff_exists]
        exact ⟨o, hGone, by simp⟩
      rw [List.length_append, List.length_singleton] at hLess
      simp only
      omega
    | none =>
      have hRoom : ¬ c.options.maxItems ≤ c.entries.length := by
        intro hFull
        simp only [evicted?, size, hContains, hFull, and_self, if_true] at hEvicted
        rw [oldest?_eq_none_iff] at hEvicted
        rw [hEvicted, List.length_nil] at hFull
        omega
      simp only [List.length_append, List.length_singleton]
      omega

theorem Tidy.store (h : c.Tidy now) : (c.store now key data).Tidy now := by
  cases hAccepts : c.accepts data with
  | false =>
    rw [store_of_not_accepts hAccepts]
    exact h
  | true =>
    have hFits : data.length ≤ c.options.maxSize := by
      simp only [accepts, Bool.and_eq_true, decide_eq_true_eq] at hAccepts
      exact hAccepts.2
    refine ⟨nodup_keys_store h.keys hAccepts, ?_, ?_, ?_⟩
    · rw [options_store]
      exact size_store_le h.size hAccepts
    · intro e he
      rw [options_store]
      rcases (mem_store_iff h.keys hAccepts).mp he with rfl | ⟨hMem, -⟩
      · exact hFits
      · exact h.payload e hMem
    · intro e he
      rcases (mem_store_iff h.keys hAccepts).mp he with rfl | ⟨hMem, -⟩
      · exact Nat.le_refl _
      · exact h.past e hMem

theorem tidy_empty (options : CacheOptions) (now : Duration) : Tidy { options } now :=
  ⟨List.nodup_nil, Nat.zero_le _, fun _ he => absurd he List.not_mem_nil,
    fun _ he => absurd he List.not_mem_nil⟩

end Cache

/-- The passes that are due remove nothing that is fresh when the last of them is made. -/
theorem WatchedCache.mem_passesUntil_of_isFresh {w : WatchedCache} {now : Duration} {e : CacheEntry}
    (hKeys : (w.cache.entries.map (·.key)).Nodup) (hMem : e ∈ w.cache.entries)
    (hFresh : e.IsFresh w.cache.options.ttl now) (picks : Picks) :
    e ∈ (w.passesUntil picks now).cache.entries := by
  unfold passesUntil
  split
  · exact hMem
  · rename_i t hTask
    clear hTask
    generalize w.cache = c at *
    induction c, t using passesFrom.induct picks now with
    | case1 c t hDue ih =>
      have hRemoves : c.Removes (passOf picks c t) := Cache.removes_validate c _ _ _
      have hStays : e ∈ (passOf picks c t).entries :=
        Cache.mem_validate_of_isFresh hKeys hMem (hFresh.of_le hDue) _ _
      rw [passesFrom, if_pos hDue]
      refine ih ((hRemoves.entries.map (·.key)).nodup hKeys) hStays ?_
      rw [hRemoves.options]
      exact hFresh
    | case2 c t hDue =>
      rw [passesFrom, if_neg hDue]
      exact hMem

end ReplicatedStore
