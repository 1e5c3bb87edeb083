import Mathlib.Data.List.Perm.Subperm
import ReplicatedStore.Proofs.Cache.History

/-!
# Validation is not seen

A cache that is validated in the background has other entries than one that is not, so it may have room
where the other has none. Still the same is found in both: they differ in entries that have outlived
their time alone. Where a store drives out a fresh entry of one cache, that cache is full of fresh
entries, so the other cache has the very same ones and drives out the same. This takes that no two
stores are made at one time, so that there is one oldest entry.

Main results:

* `Cache.AsFresh.store` — caches that differ in nothing fresh still do so after a store.
* `TimedCache.Unseen.step` — what a move keeps of two runs, one of them without validation.
* `TimedCache.found_filter` — what is found is the same without validation, which removes nothing fresh.
-/

namespace ReplicatedStore

namespace Cache

/-- Whether the entries of a cache were stored at different times, none of them at one of `times`. -/
structure Timely (c : Cache) (times : List Duration) : Prop where
  distinct : ∀ e ∈ c.entries, ∀ other ∈ c.entries, e.storedAt = other.storedAt → e = other
  ahead : ∀ e ∈ c.entries, e.storedAt ∉ times

variable {c d : Cache} {now : Duration} {key : String} {data : Bytes} {e : CacheEntry}
  {times : List Duration}

theorem Timely.loses (h : c.Timely times) (hLoses : c.Loses d) : d.Timely times where
  distinct e he other hOther :=
    h.distinct e (hLoses.entries.subset he) other (hLoses.entries.subset hOther)
  ahead e he := h.ahead e (hLoses.entries.subset he)

/-- A store takes one of the times that were still to come. -/
theorem Timely.store (h : c.Timely (now :: times)) (hTidy : c.Tidy now) (hNow : now ∉ times) :
    (c.store now key data).Timely times := by
  have hBefore : ∀ e ∈ c.entries, e.storedAt ≠ now ∧ e.storedAt ∉ times := by
    intro e he
    simpa using h.ahead e he
  cases hAccepts : c.accepts data with
  | false =>
    rw [store_of_not_accepts hAccepts]
    exact ⟨h.distinct, fun e he => (hBefore e he).2⟩
  | true =>
    refine ⟨fun e he other hOther hEq => ?_, fun e he => ?_⟩
    · rw [mem_store_iff hTidy.keys hAccepts] at he hOther
      rcases he with rfl | ⟨hMem, -⟩ <;> rcases hOther with rfl | ⟨hOtherMem, -⟩
      · rfl
      · exact absurd hEq.symm (hBefore other hOtherMem).1
      · exact absurd hEq (hBefore e hMem).1
      · exact h.distinct e hMem other hOtherMem hEq
    · rcases (mem_store_iff hTidy.keys hAccepts).mp he with rfl | ⟨hMem, -⟩
      · exact hNow
      · exact (hBefore e hMem).2

/-- Whether two caches with the same settings have the same fresh entries. -/
structure AsFresh (c d : Cache) (now : Duration) : Prop where
  options : c.options = d.options
  fresh : ∀ e, e.IsFresh c.options.ttl now → (e ∈ c.entries ↔ e ∈ d.entries)

theorem AsFresh.symm (h : c.AsFresh d now) : d.AsFresh c now :=
  ⟨h.options.symm, fun e hFresh => (h.fresh e (h.options ▸ hFresh)).symm⟩

theorem AsFresh.accepts (h : c.AsFresh d now) (data : Bytes) : c.accepts data = d.accepts data := by
  rw [Cache.accepts, Cache.accepts, h.options]

/-- One of the caches may lose what is not fresh any more. -/
theorem AsFresh.removes {c' : Cache} {later : Duration} (h : c.AsFresh d now)
    (hRemoves : c.Removes c') (hLater : now ≤ later)
    (hStays : ∀ e ∈ c.entries, e.IsFresh c.options.ttl later → e ∈ c'.entries) :
    c'.AsFresh d later := by
  refine ⟨hRemoves.options.trans h.options, fun e hFresh => ?_⟩
  rw [hRemoves.options] at hFresh
  rw [← h.fresh e (hFresh.of_le hLater)]
  exact ⟨fun he => hRemoves.entries.subset he, fun he => hStays e he hFresh⟩

/-- The same is found in both. -/
theorem AsFresh.lookup (h : c.AsFresh d now) (hc : c.Tidy now) (hd : d.Tidy now) (key : String) :
    (c.lookup now key).1 = (d.lookup now key).1 := by
  ext data
  have hFound {b b' : Cache} (hb : b.Tidy now) (hb' : b'.Tidy now) (hAs : b.AsFresh b' now)
      (hSome : (b.lookup now key).1 = some data) : (b'.lookup now key).1 = some data := by
    rw [lookup_eq_some_iff hb.keys] at hSome
    obtain ⟨hEnabled, e, he, hKey, hData, hFresh⟩ := hSome
    rw [lookup_eq_some_iff hb'.keys, ← hAs.options]
    exact ⟨hEnabled, e, (hAs.fresh e hFresh).mp he, hKey, hData, hFresh⟩
  exact ⟨hFound hc hd h, hFound hd hc h.symm⟩

/-- A store that drives out a fresh entry of one cache drives it out of the other one as well. -/
theorem AsFresh.evicted? (h : c.AsFresh d now) (hc : c.Tidy now) (hd : d.Tidy now)
    (hTimely : d.Timely times) (hEvicted : c.evicted? key = some e)
    (hFresh : e.IsFresh c.options.ttl now) : d.evicted? key = some e := by
  unfold Cache.evicted? at hEvicted ⊢
  split at hEvicted
  · rename_i hFull
    obtain ⟨hMem, hOldest⟩ := oldest?_spec hEvicted
    -- nothing in a cache is older than its oldest entry, so all of it is fresh
    have hAllFresh : ∀ other ∈ c.entries, other.IsFresh c.options.ttl now := by
      intro other hOther
      have hYounger := hOldest other hOther
      unfold CacheEntry.IsFresh CacheEntry.age at hFresh ⊢
      rw [Duration.le_def, Duration.nanos_sub] at hFresh ⊢
      rw [Duration.le_def] at hYounger
      omega
    have hSubset : c.entries ⊆ d.entries := fun other hOther =>
      (h.fresh other (hAllFresh other hOther)).mp hOther
    -- it is full, so there is nothing else in the other one
    have hSize : d.entries.length ≤ c.entries.length := by
      have hRoom := hd.size
      rw [← h.options] at hRoom
      exact Nat.le_trans hRoom hFull.2
    have hPerm : c.entries.Perm d.entries :=
      (hc.keys.of_map.subperm hSubset).perm_of_length_le hSize
    have hFull' : d.contains key = false ∧ d.options.maxItems ≤ d.size := by
      constructor
      · rw [contains_eq_false_iff]
        intro other hOther
        exact contains_eq_false_iff.mp hFull.1 other (hPerm.mem_iff.mpr hOther)
      · rw [← h.options, size, ← hPerm.length_eq]
        exact hFull.2
    rw [if_pos hFull']
    cases hOther : oldest? d.entries with
    | none =>
      rw [oldest?_eq_none_iff] at hOther
      rw [hOther] at hSubset
      exact absurd (hSubset hMem) List.not_mem_nil
    | some other =>
      obtain ⟨hOtherMem, hOtherOldest⟩ := oldest?_spec hOther
      have hLe := hOldest other (hPerm.mem_iff.mpr hOtherMem)
      have hGe := hOtherOldest e (hSubset hMem)
      have hTime : other.storedAt = e.storedAt := Duration.ext (Nat.le_antisymm hGe hLe)
      rw [hTimely.distinct other hOtherMem e (hSubset hMem) hTime]
  · contradiction

/-- Caches that differ in nothing fresh still do so after a store. -/
theorem AsFresh.store (h : c.AsFresh d now) (hc : c.Tidy now) (hd : d.Tidy now)
    (hcTimely : c.Timely times) (hdTimely : d.Timely times) :
    (c.store now key data).AsFresh (d.store now key data) now := by
  refine ⟨by rw [options_store, options_store, h.options], fun e hFresh => ?_⟩
  rw [options_store] at hFresh
  have hBefore := h.fresh e hFresh
  cases hAccepts : c.accepts data with
  | false =>
    rw [store_of_not_accepts hAccepts, store_of_not_accepts ((h.accepts data).symm.trans hAccepts)]
    exact hBefore
  | true =>
    have hEvicted : c.evicted? key = some e ↔ d.evicted? key = some e := by
      constructor
      · intro hGone
        exact h.evicted? hc hd hdTimely hGone hFresh
      · intro hGone
        exact h.symm.evicted? hd hc hcTimely hGone (h.options ▸ hFresh)
    rw [mem_store_iff hc.keys hAccepts, mem_store_iff hd.keys ((h.accepts data).symm.trans hAccepts),
      hBefore, Ne, Ne, hEvicted]

end Cache

/-- Whether a move is made by validation. -/
def CacheMove.isValidation : CacheMove → Bool
  | .passes _ | .note _ _ | .prune _ => true
  | _ => false

/-- The times at which moves store something, from a reading of the clock on. -/
def CacheMove.storeTimes (now : Duration) : List CacheMove → List Duration
  | [] => []
  | .store _ _ :: rest => now :: storeTimes now rest
  | .advance span :: rest => storeTimes (now + span) rest
  | _ :: rest => storeTimes now rest

namespace TimedCache

/-- What the lookups among moves find, in turn. -/
def found (s : TimedCache) : List CacheMove → List (Option Bytes)
  | [] => []
  | .lookup key :: rest => (s.cache.lookup s.now key).1 :: found (s.step (.lookup key)) rest
  | m :: rest => found (s.step m) rest

variable {s t : TimedCache} {m : CacheMove} {times : List Duration}

/-! ## One run -/

/-- Whether the entries of a cache are told apart by their times, and what has been noted is past its
time or gone for good. -/
structure Orderly (s : TimedCache) (times : List Duration) : Prop where
  tidy : s.cache.Tidy s.now
  timely : s.cache.Timely times
  noted : ∀ k ∈ s.noted, k.storedAt ∉ times
  stale : ∀ k ∈ s.noted, ∀ e ∈ s.cache.entries, e.storedAt = k.storedAt →
    ¬ e.IsFresh s.cache.options.ttl s.now

/-- Moves by which nothing is stored or noted. -/
theorem Orderly.of_loses (h : s.Orderly times) (hLoses : s.cache.Loses t.cache) (hNow : s.now ≤ t.now)
    (hNoted : t.noted = s.noted) : t.Orderly times := by
  refine ⟨h.tidy.loses hLoses hNow, h.timely.loses hLoses, hNoted ▸ h.noted, ?_⟩
  intro k hk e he hTime hFresh
  rw [hLoses.ttl] at hFresh
  exact h.stale k (hNoted ▸ hk) e (hLoses.entries.subset he) hTime (hFresh.of_le hNow)

theorem Orderly.store (h : s.Orderly (s.now :: times)) (hNow : s.now ∉ times) (key : String)
    (data : Bytes) : (s.step (.store key data)).Orderly times := by
  have hNoted : ∀ k ∈ s.noted, k.storedAt ≠ s.now ∧ k.storedAt ∉ times := by
    intro k hk
    simpa using h.noted k hk
  refine ⟨h.tidy.store, h.timely.store h.tidy hNow, fun k hk => (hNoted k hk).2, ?_⟩
  intro k hk e he hTime hFresh
  rcases mem_step h.tidy he with ⟨-, -, hNew⟩ | ⟨hMem, -⟩
  · exact (hNoted k hk).1 (hTime.symm.trans hNew)
  · rw [cache_store, Cache.options_store] at hFresh
    exact h.stale k hk e hMem hTime hFresh

/-- What a pass notes is past its time, and the clock will not show that time again. -/
theorem Orderly.note (h : s.Orderly times) (picker : Picker) (percent : Nat) :
    (s.step (.note picker percent)).Orderly times := by
  have hNew : ∀ k ∈ (s.cache.expiredSample? picker s.now percent).getD [],
      k.storedAt ∉ times ∧ ¬ s.now - k.storedAt ≤ s.cache.options.ttl := by
    cases hNoted : s.cache.expiredSample? picker s.now percent with
    | none => simp
    | some candidates =>
      intro k hk
      obtain ⟨hSnapshot, hOld⟩ := Cache.not_le_of_mem_expiredSample? hNoted hk
      obtain ⟨e, he, rfl⟩ := List.mem_map.mp hSnapshot
      exact ⟨h.timely.ahead e he, hOld⟩
  refine ⟨h.tidy, h.timely, ?_, ?_⟩
  · intro k hk
    rcases List.mem_append.mp hk with hk | hk
    · exact h.noted k hk
    · exact (hNew k hk).1
  · intro k hk e he hTime hFresh
    rcases List.mem_append.mp hk with hk | hk
    · exact h.stale k hk e he hTime hFresh
    · refine (hNew k hk).2 ?_
      rw [← hTime]
      exact hFresh

theorem Orderly.configure (h : s.Orderly times) (options : CacheOptions) :
    (s.step (.configure options)).Orderly times := by
  have hNone : (s.step (.configure options)).cache.entries = [] := by rw [cache_configure]
  refine ⟨tidy_step h.tidy _, ⟨?_, ?_⟩, h.noted, ?_⟩
  all_goals simp [hNone]

/-- Only a store takes one of the times that are to come. -/
theorem storeTimes_step (s : TimedCache) (hStore : ∀ key data, m ≠ .store key data)
    (rest : List CacheMove) :
    CacheMove.storeTimes (s.step m).now rest = CacheMove.storeTimes s.now (m :: rest) := by
  cases m with
  | store key data => exact absurd rfl (hStore key data)
  | prune k =>
    rw [TimedCache.step]
    split <;> rfl
  | _ => rfl

theorem nodup_storeTimes_step {rest : List CacheMove}
    (hTimes : (CacheMove.storeTimes s.now (m :: rest)).Nodup) :
    (CacheMove.storeTimes (s.step m).now rest).Nodup := by
  by_cases hStore : ∃ key data, m = .store key data
  · obtain ⟨key, data, rfl⟩ := hStore
    exact (List.nodup_cons.mp hTimes).2
  · rw [storeTimes_step s fun key data hEq => hStore ⟨key, data, hEq⟩]
    exact hTimes

/-- Every move keeps a cache orderly, whatever is still to be stored after it. -/
theorem Orderly.step {rest : List CacheMove} (h : s.Orderly (CacheMove.storeTimes s.now (m :: rest)))
    (hTimes : (CacheMove.storeTimes s.now (m :: rest)).Nodup) :
    (s.step m).Orderly (CacheMove.storeTimes (s.step m).now rest) := by
  by_cases hStore : ∃ key data, m = .store key data
  · obtain ⟨key, data, rfl⟩ := hStore
    exact h.store (List.nodup_cons.mp hTimes).1 key data
  by_cases hConfigure : ∃ options, m = .configure options
  · obtain ⟨options, rfl⟩ := hConfigure
    exact h.configure options
  by_cases hNote : ∃ picker percent, m = .note picker percent
  · obtain ⟨picker, percent, rfl⟩ := hNote
    exact h.note picker percent
  have hNotStore : ∀ key data, m ≠ .store key data := fun key data hEq => hStore ⟨key, data, hEq⟩
  have hLoses : s.cache.Loses (s.step m).cache :=
    loses_step hNotStore fun options hEq => hConfigure ⟨options, hEq⟩
  have hNoted : (s.step m).noted = s.noted := by
    cases m with
    | note picker percent => exact absurd ⟨picker, percent, rfl⟩ hNote
    | prune k =>
      rw [TimedCache.step]
      split <;> rfl
    | _ => rfl
  rw [storeTimes_step s hNotStore]
  exact h.of_loses hLoses (now_le_step s m) hNoted

theorem Orderly.run {moves rest : List CacheMove}
    (h : s.Orderly (CacheMove.storeTimes s.now (moves ++ rest)))
    (hTimes : (CacheMove.storeTimes s.now (moves ++ rest)).Nodup) :
    (s.run moves).Orderly (CacheMove.storeTimes (s.run moves).now rest) := by
  induction moves generalizing s with
  | nil => exact h
  | cons m moves ih => exact ih (h.step hTimes) (nodup_storeTimes_step hTimes)

theorem orderly_start (options : CacheOptions) (times : List Duration) :
    (after options []).Orderly times :=
  ⟨Cache.tidy_empty options _, ⟨by simp [after, cache, WatchedCache.ofOptions],
    by simp [after, cache, WatchedCache.ofOptions]⟩, by simp [after], by simp [after]⟩

/-- Validation removes nothing fresh. -/
theorem Orderly.mem_step_of_isFresh (h : s.Orderly times) (hValidation : m.isValidation = true)
    {e : CacheEntry} (he : e ∈ s.cache.entries) (hFresh : e.IsFresh s.cache.options.ttl s.now) :
    e ∈ (s.step m).cache.entries := by
  cases m with
  | passes picks => exact WatchedCache.mem_passesUntil_of_isFresh h.tidy.keys he hFresh picks
  | note picker percent => exact he
  | prune k =>
    by_cases hk : k ∈ s.noted
    · rw [step_prune hk]
      refine Cache.mem_pruneOne h.tidy.keys he ?_
      rintro ⟨-, hTime⟩
      exact h.stale k hk e he hTime hFresh
    · rw [TimedCache.step, if_neg hk]
      exact he
  | _ => contradiction

/-! ## Two runs -/

/-- Whether two runs have come to caches that differ in nothing fresh, and that are told apart by the
times of their entries, with some moves still to come. -/
structure Unseen (s t : TimedCache) (moves : List CacheMove) : Prop where
  now : s.now = t.now
  left : s.Orderly (CacheMove.storeTimes s.now moves)
  right : t.Orderly (CacheMove.storeTimes t.now moves)
  asFresh : s.cache.AsFresh t.cache s.now

/-- What a move does to caches that differ in nothing fresh, if both make it. -/
theorem asFresh_step (hNow : s.now = t.now) (hs : s.Orderly times) (ht : t.Orderly times)
    (h : s.cache.AsFresh t.cache s.now) (hOther : m.isValidation = false) :
    (s.step m).cache.AsFresh (t.step m).cache (s.step m).now := by
  cases m with
  | store key data =>
    rw [cache_store, cache_store, ← hNow]
    exact h.store hs.tidy (hNow ▸ ht.tidy) hs.timely ht.timely
  | lookup key =>
    have hLeft : (s.step (.lookup key)).cache.AsFresh t.cache s.now :=
      h.removes (Cache.removes_lookup _ _ _) (Nat.le_refl _) fun e he hFresh =>
        Cache.mem_lookup_of_isFresh hs.tidy.keys he hFresh
    have hBoth : (t.step (.lookup key)).cache.AsFresh (s.step (.lookup key)).cache s.now :=
      hLeft.symm.removes (Cache.removes_lookup _ _ _) (Nat.le_refl _) fun e he hFresh =>
        Cache.mem_lookup_of_isFresh ht.tidy.keys he (hNow ▸ hFresh)
    exact hBoth.symm
  | invalidate key =>
    refine ⟨h.options, fun e hFresh => ?_⟩
    have hBefore := h.fresh e hFresh
    show e ∈ (s.cache.erase key).entries ↔ e ∈ (t.cache.erase key).entries
    rw [Cache.mem_erase_iff, Cache.mem_erase_iff, hBefore]
  | clear => exact ⟨h.options, fun e _ => Iff.rfl⟩
  | configure options =>
    rw [cache_configure, cache_configure]
    exact ⟨rfl, fun e _ => Iff.rfl⟩
  | setEnabled enabled =>
    rw [cache_setEnabled, cache_setEnabled, h.options]
    exact ⟨rfl, fun e hFresh => h.fresh e (h.options ▸ hFresh)⟩
  | setPolicy policy =>
    rw [cache_setPolicy, cache_setPolicy, h.options]
    exact ⟨rfl, fun e hFresh => h.fresh e (h.options ▸ hFresh)⟩
  | startValidation =>
    rw [cache_startValidation, cache_startValidation]
    exact h
  | advance span =>
    -- what is fresh then is fresh now
    exact ⟨h.options, fun e hFresh => h.fresh e (hFresh.of_le (Nat.le_add_right _ _))⟩
  | contains key => exact h
  | stopValidation => exact h
  | passes picks => contradiction
  | note picker percent => contradiction
  | prune k => contradiction

variable {rest : List CacheMove}

theorem Unseen.step_both (h : Unseen s t (m :: rest))
    (hTimes : (CacheMove.storeTimes s.now (m :: rest)).Nodup) (hOther : m.isValidation = false) :
    Unseen (s.step m) (t.step m) rest := by
  have hNow : (s.step m).now = (t.step m).now := by
    cases m with
    | advance span => exact congrArg (· + span) h.now
    | prune k => contradiction
    | _ => exact h.now
  refine ⟨hNow, h.left.step hTimes, h.right.step (h.now ▸ hTimes), ?_⟩
  exact asFresh_step h.now h.left (h.now ▸ h.right) h.asFresh hOther

theorem Unseen.step_left (h : Unseen s t (m :: rest))
    (hTimes : (CacheMove.storeTimes s.now (m :: rest)).Nodup) (hValidation : m.isValidation = true) :
    Unseen (s.step m) t rest := by
  have hNow : (s.step m).now = s.now := by
    cases m with
    | prune k =>
      rw [TimedCache.step]
      split <;> rfl
    | _ => first | rfl | contradiction
  have hRight : t.Orderly (CacheMove.storeTimes t.now rest) := by
    have hNotStore : ∀ key data, m ≠ .store key data := by
      intro key data hEq
      rw [hEq] at hValidation
      contradiction
    have hSame := storeTimes_step s hNotStore rest
    rw [hNow] at hSame
    rw [← h.now, hSame, h.now]
    exact h.right
  have hRemoves : s.cache.Removes (s.step m).cache := by
    cases m with
    | passes picks => exact WatchedCache.removes_passesUntil _ _ _
    | note picker percent => exact .refl _
    | prune k => exact removes_prune s k
    | _ => contradiction
  refine ⟨hNow.trans h.now, h.left.step hTimes, hRight, ?_⟩
  rw [hNow]
  exact h.asFresh.removes hRemoves (Nat.le_refl _) fun e he hFresh =>
    h.left.mem_step_of_isFresh hValidation he hFresh

/-- A run finds what one without the moves of validation finds. -/
theorem Unseen.found {moves : List CacheMove} (h : Unseen s t moves)
    (hTimes : (CacheMove.storeTimes s.now moves).Nodup) :
    s.found moves = t.found (moves.filter fun m => !m.isValidation) := by
  induction moves generalizing s t with
  | nil => rfl
  | cons m rest ih =>
    have hRest := nodup_storeTimes_step hTimes
    cases hValidation : m.isValidation with
    | true =>
      rw [List.filter_cons_of_neg (by simp [hValidation]), ← ih (h.step_left hTimes hValidation) hRest]
      cases m with
      | lookup key => contradiction
      | _ => rfl
    | false =>
      rw [List.filter_cons_of_pos (by simp [hValidation])]
      have hBoth := ih (h.step_both hTimes hValidation) hRest
      cases m with
      | lookup key =>
        have hAnswer : (s.cache.lookup s.now key).1 = (t.cache.lookup t.now key).1 := by
          rw [← h.now]
          exact h.asFresh.lookup h.left.tidy (h.now ▸ h.right.tidy) key
        rw [TimedCache.found, TimedCache.found, hAnswer, hBoth]
      | _ => exact hBoth

/-- If no two stores are made at one time, what is found does not depend on validation, and nothing
that validation removes is fresh. -/
theorem found_filter (options : CacheOptions) (moves : List CacheMove)
    (hTimes : (CacheMove.storeTimes .zero moves).Nodup) :
    (after options []).found moves =
        (after options []).found (moves.filter fun m => !m.isValidation) ∧
      ∀ before m rest, moves = before ++ m :: rest → m.isValidation = true →
        ∀ e ∈ (after options before).cache.entries,
          e.IsFresh (after options before).cache.options.ttl (after options before).now →
            e ∈ (after options (before ++ [m])).cache.entries := by
  constructor
  · have hStart : Unseen (after options []) (after options []) moves :=
      ⟨rfl, orderly_start options _, orderly_start options _, rfl, fun _ _ => Iff.rfl⟩
    exact hStart.found hTimes
  · rintro before m rest rfl hValidation e he hFresh
    have hOrderly : (after options before).Orderly
        (CacheMove.storeTimes (after options before).now (m :: rest)) :=
      (orderly_start options _).run hTimes
    rw [after_concat]
    exact hOrderly.mem_step_of_isFresh hValidation he hFresh

/-- An entry is written anew after a pass has noted it, and is found afterwards. -/
theorem found_filter_refreshed :
    (after { enabled := true, ttl := .ofSeconds 10 } []).found
      [.store "docs/a" [1], .advance (.ofSeconds 11), .note .first 100, .store "docs/a" [2],
        .prune ⟨"docs/a", .zero⟩, .lookup "docs/a"] = [some [2]] :=
  (found_filter { enabled := true, ttl := .ofSeconds 10 } _ (by decide)).1.trans (by decide)

end TimedCache

end ReplicatedStore
