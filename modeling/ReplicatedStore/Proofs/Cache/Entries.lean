import Mathlib.Data.List.Basic
import ReplicatedStore.Address
import ReplicatedStore.Cache.Watched

/-!
# Where entries of a cache come from

Nothing gets into a cache but what is stored in it: a store adds at most its own entry, and everything
else that is done to a cache only takes entries away. What a lookup gives is the payload of an entry
under its key. Addresses have different keys if no slash is in their containers.

Main results:

* `Cache.mem_store`, `Cache.mem_of_lookup` — what a store adds, and what a lookup gives.
* `Cache.Removes`, `WatchedCache.removes_passesUntil` — what else is done to a cache takes entries away at
  most, passes of validation too.
* `Address.eq_of_key_eq` — the key of an address without a slash in its container tells the address.
-/

namespace ReplicatedStore

/-- Whether the container of an address is free of slashes. -/
def Address.IsSimple (a : Address) : Prop := '/' ∉ a.container.toList

/-- What comes before the first slash. -/
theorem takeWhile_slash {container : List Char} (h : '/' ∉ container) (name : List Char) :
    (container ++ '/' :: name).takeWhile (· != '/') = container := by
  have hAll : ∀ c ∈ container, (c != '/') = true := by
    intro c hc
    rw [bne_iff_ne]
    exact fun hEq => h (hEq ▸ hc)
  rw [List.takeWhile_append_of_pos hAll, List.takeWhile_cons_of_neg (by simp), List.append_nil]

theorem Address.eq_of_key_eq {a b : Address} (ha : a.IsSimple) (hb : b.IsSimple)
    (h : a.key = b.key) : a = b := by
  have hList := congrArg String.toList h
  have hSlash : "/".toList = ['/'] := rfl
  simp only [key, String.toList_append, hSlash, List.append_assoc, List.singleton_append] at hList
  have hContainer : a.container.toList = b.container.toList := by
    rw [← takeWhile_slash ha a.name.toList, hList, takeWhile_slash hb]
  rw [hContainer] at hList
  have hName := (List.cons.inj (List.append_cancel_left hList)).2
  cases a
  cases b
  rw [String.toList_inj] at hContainer hName
  rw [Address.mk.injEq]
  exact ⟨hContainer, hName⟩

namespace Cache

/-- Whether a cache comes from another one by losing entries alone. -/
structure Removes (c d : Cache) : Prop where
  entries : d.entries.Sublist c.entries
  options : d.options = c.options

theorem Removes.refl (c : Cache) : c.Removes c := ⟨List.Sublist.refl _, rfl⟩

theorem Removes.trans {b c d : Cache} (h : c.Removes d) (h' : d.Removes b) : c.Removes b :=
  ⟨h'.entries.trans h.entries, h'.options.trans h.options⟩

theorem removes_erase (c : Cache) (key : String) : c.Removes (c.erase key) :=
  ⟨List.filter_sublist, rfl⟩

theorem removes_clear (c : Cache) : c.Removes c.clear := ⟨List.nil_sublist _, rfl⟩

theorem removes_lookup (c : Cache) (now : Duration) (key : String) : c.Removes (c.lookup now key).2 := by
  unfold lookup
  split
  · split
    · exact .refl c
    · split
      · exact .refl c
      · exact removes_erase c key
  · exact .refl c

theorem removes_pruneOne (c : Cache) (k : Candidate) : c.Removes (c.pruneOne k).2 := by
  unfold pruneOne
  split
  · split
    · exact removes_erase c _
    · exact .refl c
  · exact .refl c

theorem removes_prune (c : Cache) (candidates : List Candidate) : c.Removes (c.prune candidates).2 := by
  induction candidates generalizing c with
  | nil => exact .refl c
  | cons k rest ih => exact (removes_pruneOne c k).trans (ih _)

theorem removes_validate (c : Cache) (picker : Picker) (now : Duration) (percent : Nat) :
    c.Removes (c.validate picker now percent).2 := by
  unfold validate
  split
  · exact .refl c
  · exact removes_prune c _

theorem entries_erase_subset (c : Cache) (key : String) : (c.erase key).entries ⊆ c.entries :=
  (removes_erase c key).entries.subset

theorem key_ne_of_mem_erase {c : Cache} {key : String} {e : CacheEntry}
    (h : e ∈ (c.erase key).entries) : e.key ≠ key := by
  simpa using (List.mem_filter.mp h).2

/-- An entry after a store was there before, or is the one that was stored. -/
theorem mem_store {c : Cache} {now : Duration} {key : String} {data : Bytes} {e : CacheEntry}
    (h : e ∈ (c.store now key data).entries) : e ∈ c.entries ∨ e.key = key ∧ e.data = data := by
  unfold store at h
  split at h
  · split at h
    · obtain ⟨old, hOld, rfl⟩ := List.mem_map.mp h
      by_cases hKey : old.key = key
      · simp [hKey]
      · simp [hKey, hOld]
    · -- making room beside the new entry only takes others away
      have hGrown : e ∈ c.entries ++ [⟨key, data, now⟩] := by
        simp only at h
        split at h
        · unfold evictBeside at h
          split at h
          · exact entries_erase_subset _ _ h
          · exact h
        · exact h
      rcases List.mem_append.mp hGrown with hOld | hNew
      · exact .inl hOld
      · rw [List.mem_singleton.mp hNew]
        exact .inr ⟨rfl, rfl⟩
  · exact .inl h

theorem entries_lookup_subset (c : Cache) (now : Duration) (key : String) :
    (c.lookup now key).2.entries ⊆ c.entries := (removes_lookup c now key).entries.subset

theorem mem_of_lookup {c : Cache} {now : Duration} {key : String} {data : Bytes}
    (h : (c.lookup now key).1 = some data) : ∃ e ∈ c.entries, e.key = key ∧ e.data = data := by
  unfold lookup at h
  split at h
  · split at h
    · contradiction
    · rename_i e hFound
      split at h
      · rw [Option.some.injEq] at h
        exact ⟨e, List.mem_of_find?_eq_some hFound, by simpa using List.find?_some hFound, h⟩
      · contradiction
  · contradiction

theorem entries_validate_subset (c : Cache) (picker : Picker) (now : Duration) (percent : Nat) :
    (c.validate picker now percent).2.entries ⊆ c.entries :=
  (removes_validate c picker now percent).entries.subset

end Cache

namespace WatchedCache

/-- A task that is started finds the cache as it is. -/
theorem cache_start (w : WatchedCache) (now : Duration) : (w.start now).cache = w.cache := by
  unfold start
  split <;> rfl

theorem entries_start (w : WatchedCache) (now : Duration) :
    (w.start now).cache.entries = w.cache.entries := by
  rw [cache_start]

theorem removes_passesFrom (picks : Picks) (time : Duration) (cache : Cache) (t : ValidationTask) :
    cache.Removes (passesFrom picks time cache t).cache := by
  induction cache, t using passesFrom.induct picks time with
  | case1 cache t hDue ih =>
    rw [passesFrom, if_pos hDue]
    exact (Cache.removes_validate cache _ _ _).trans ih
  | case2 cache t hDue =>
    rw [passesFrom, if_neg hDue]
    exact .refl cache

theorem removes_passesUntil (w : WatchedCache) (picks : Picks) (time : Duration) :
    w.cache.Removes (w.passesUntil picks time).cache := by
  unfold passesUntil
  split
  · exact .refl w.cache
  · exact removes_passesFrom picks time w.cache _

theorem entries_passesUntil_subset (w : WatchedCache) (picks : Picks) (time : Duration) :
    (w.passesUntil picks time).cache.entries ⊆ w.cache.entries :=
  (removes_passesUntil w picks time).entries.subset

end WatchedCache

end ReplicatedStore
