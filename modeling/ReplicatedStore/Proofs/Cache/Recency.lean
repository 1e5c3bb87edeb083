import Mathlib.Data.List.Dedup
import Mathlib.Data.List.Induction
import Mathlib.Data.List.Perm.Subperm
import ReplicatedStore.Proofs.Cache.History

/-!
# The least recently written goes first

What a cache has in it is told by what was written into it: an entry is there and fresh exactly if it
was the last one written under its key, has not outlived its time, and too few other keys were written
since to drive it out. The cache itself keeps no such record. It drops one entry at a time, and what
has outlived its time goes at any moment, or never. Two facts about it are enough: with an entry
everything is there that was written later and is still fresh, and what was driven out was so by as many
later keys as there may be entries.

Main results:

* `TimedCache.makesRoom_store` — which entry a store drives out, and when.
* `TimedCache.Recalls.step` — what a cache has to do with what was written stays true.
* `TimedCache.content_after` — what is found after any ordinary use.
-/

namespace ReplicatedStore

/-- Whether a move is ordinary use: nothing is dropped before its time, and no settings change. -/
def CacheMove.isOrdinary : CacheMove → Bool
  | .invalidate _ | .clear | .configure _ | .setEnabled _ | .setPolicy _ => false
  | _ => true

/-- Whether an entry is the last one written under its key, with others written after it. -/
def LastWritten (log : List CacheEntry) (e : CacheEntry) (later : List CacheEntry) : Prop :=
  (∃ before, log = before ++ e :: later) ∧ ∀ x ∈ later, x.key ≠ e.key

/-- Under how many keys something was written. -/
def keyCount (log : List CacheEntry) : Nat := (log.map (·.key)).dedup.length

variable {log later : List CacheEntry} {e new x : CacheEntry}

theorem keyCount_mono {more : List CacheEntry} (h : ∀ y ∈ log, ∃ z ∈ more, z.key = y.key) :
    keyCount log ≤ keyCount more := by
  refine ((List.nodup_dedup _).subperm fun k hk => ?_).length_le
  obtain ⟨y, hy, rfl⟩ := List.mem_map.mp (List.mem_dedup.mp hk)
  obtain ⟨z, hz, hKey⟩ := h y hy
  exact List.mem_dedup.mpr (List.mem_map.mpr ⟨z, hz, hKey⟩)

theorem keyCount_eq_length (h : (log.map (·.key)).Nodup) : keyCount log = log.length := by
  rw [keyCount, h.dedup, List.length_map]

namespace LastWritten

theorem mem (h : LastWritten log e later) : e ∈ log := by
  obtain ⟨⟨before, rfl⟩, -⟩ := h
  simp

theorem mem_of_later (h : LastWritten log e later) (hx : x ∈ later) : x ∈ log := by
  obtain ⟨⟨before, rfl⟩, -⟩ := h
  simp [hx]

theorem self (log : List CacheEntry) (new : CacheEntry) : LastWritten (log ++ [new]) new [] :=
  ⟨⟨log, rfl⟩, fun _ hx => nomatch hx⟩

/-- It is still the last one when another key was written. -/
theorem concat (h : LastWritten log e later) (hKey : new.key ≠ e.key) :
    LastWritten (log ++ [new]) e (later ++ [new]) := by
  obtain ⟨⟨before, rfl⟩, hLater⟩ := h
  refine ⟨⟨before, by simp⟩, fun x hx => ?_⟩
  rcases List.mem_append.mp hx with hx | hx
  · exact hLater x hx
  · rwa [List.mem_singleton.mp hx]

/-- It is what was written at the very end, or it was the last one before. -/
theorem concat_cases (h : LastWritten (log ++ [new]) e later) :
    e = new ∧ later = [] ∨
      ∃ rest, later = rest ++ [new] ∧ new.key ≠ e.key ∧ LastWritten log e rest := by
  obtain ⟨⟨before, hSplit⟩, hLater⟩ := h
  rcases List.eq_nil_or_concat later with rfl | ⟨rest, last, rfl⟩
  · left
    obtain ⟨-, hLast⟩ := List.append_inj' hSplit rfl
    cases hLast
    exact ⟨rfl, rfl⟩
  · right
    rw [List.concat_eq_append] at hSplit hLater ⊢
    rw [← List.cons_append, ← List.append_assoc] at hSplit
    obtain ⟨hBefore, hLast⟩ := List.append_inj' hSplit rfl
    cases hLast
    refine ⟨rest, rfl, hLater new (by simp), ⟨before, hBefore⟩, fun x hx => hLater x (by simp [hx])⟩

end LastWritten

/-- Of the last one written under a key there is one. -/
theorem exists_lastWritten (h : x ∈ log) :
    ∃ e rest, LastWritten log e rest ∧ e.key = x.key := by
  induction log using List.reverseRecOn with
  | nil => contradiction
  | append_singleton log new ih =>
    by_cases hKey : new.key = x.key
    · exact ⟨new, [], .self log new, hKey⟩
    · have hOld : x ∈ log := by
        rcases List.mem_append.mp h with hOld | hNew
        · exact hOld
        · rw [List.mem_singleton.mp hNew] at hKey
          exact absurd rfl hKey
      obtain ⟨e, rest, hLast, hSame⟩ := ih hOld
      exact ⟨e, rest ++ [new], hLast.concat fun hEq => hKey (hEq.trans hSame), hSame⟩

namespace TimedCache

/-- What a move writes: the entry of a store that is accepted. -/
def writes (s : TimedCache) : CacheMove → List CacheEntry
  | .store key data => if s.cache.accepts data then [⟨key, data, s.now⟩] else []
  | _ => []

/-- What moves write, in turn. -/
def written (s : TimedCache) : List CacheMove → List CacheEntry
  | [] => []
  | m :: rest => s.writes m ++ written (s.step m) rest

variable {s t : TimedCache} {m : CacheMove} {moves : List CacheMove} {key : String} {data : Bytes}

theorem written_append (s : TimedCache) (moves more : List CacheMove) :
    s.written (moves ++ more) = s.written moves ++ (s.run moves).written more := by
  induction moves generalizing s with
  | nil => rfl
  | cons m rest ih => rw [List.cons_append, written, written, ih, List.append_assoc, run_cons]

theorem written_concat (s : TimedCache) (moves : List CacheMove) (m : CacheMove) :
    s.written (moves ++ [m]) = s.written moves ++ (s.run moves).writes m := by
  rw [written_append, written, written, List.append_nil]

/-! ## Making room -/

/-- Whether a store that makes one cache of another drives out an entry: nothing is left under its
key. -/
def DrivenOut (c d : Cache) (e : CacheEntry) : Prop := e ∈ c.entries ∧ d.contains e.key = false

/-- How a store makes room in a cache. -/
structure MakesRoom (c : Cache) (now : Duration) (key : String) (data : Bytes) : Prop where
  stored : c.accepts data = true → ⟨key, data, now⟩ ∈ (c.store now key data).entries
  /-- at most one entry goes -/
  single : ∀ e o, DrivenOut c (c.store now key data) e → DrivenOut c (c.store now key data) o → e = o
  /-- it is not the one just stored -/
  other : ∀ e, DrivenOut c (c.store now key data) e → e.key ≠ key
  /-- it goes because there would be one too many with the new key -/
  needed : ∀ e, DrivenOut c (c.store now key data) e →
    c.contains key = false ∧ c.size = c.options.maxItems
  oldest : ∀ e, DrivenOut c (c.store now key data) e → ∀ o ∈ c.entries, e.storedAt ≤ o.storedAt
  /-- if it is fresh then so is everything that stays -/
  fresh : ∀ e, DrivenOut c (c.store now key data) e → e.IsFresh c.options.ttl now →
    ∀ o ∈ (c.store now key data).entries, o.IsFresh c.options.ttl now

variable {c : Cache} {now : Duration}

/-- An entry written now is fresh, and so is one that is no older than a fresh one. -/
theorem isFresh_of_le {ttl : Duration} (h : e.IsFresh ttl now) (hLe : e.storedAt ≤ x.storedAt) :
    x.IsFresh ttl now := by
  unfold CacheEntry.IsFresh CacheEntry.age at *
  rw [Duration.le_def, Duration.nanos_sub] at h ⊢
  rw [Duration.le_def] at hLe
  omega

theorem evicted?_of_drivenOut (hKeys : (c.entries.map (·.key)).Nodup)
    (h : DrivenOut c (c.store now key data) e) :
    c.accepts data = true ∧ e.key ≠ key ∧ c.evicted? key = some e := by
  obtain ⟨hMem, hGone⟩ := h
  have hNobody := Cache.contains_eq_false_iff.mp hGone
  cases hAccepts : c.accepts data with
  | false =>
    rw [Cache.store_of_not_accepts hAccepts] at hNobody
    exact absurd rfl (hNobody e hMem)
  | true =>
    have hOther : e.key ≠ key := fun hKey =>
      hNobody _ ((Cache.mem_store_iff hKeys hAccepts).mpr (.inl rfl)) hKey.symm
    refine ⟨rfl, hOther, ?_⟩
    by_contra hStays
    exact hNobody e ((Cache.mem_store_iff hKeys hAccepts).mpr (.inr ⟨hMem, hOther, hStays⟩)) rfl

/-- What is driven out is the oldest of as many entries as there may be. -/
theorem evicted?_spec (h : c.evicted? key = some e) :
    c.contains key = false ∧ c.options.maxItems ≤ c.size ∧ e ∈ c.entries ∧
      ∀ o ∈ c.entries, e.storedAt ≤ o.storedAt := by
  unfold Cache.evicted? at h
  split at h
  · rename_i hFull
    obtain ⟨hMem, hOldest⟩ := Cache.oldest?_spec h
    exact ⟨hFull.1, hFull.2, hMem, hOldest⟩
  · contradiction

theorem makesRoom_store (h : c.Tidy now) (key : String) (data : Bytes) : MakesRoom c now key data := by
  refine ⟨fun hAccepts => ?_, fun e o he ho => ?_, fun e he => ?_, fun e he => ?_, fun e he => ?_,
    fun e he hFresh o ho => ?_⟩
  · exact (Cache.mem_store_iff h.keys hAccepts).mpr (.inl rfl)
  · have hEvicted := (evicted?_of_drivenOut h.keys he).2.2
    rw [(evicted?_of_drivenOut h.keys ho).2.2, Option.some.injEq] at hEvicted
    exact hEvicted.symm
  · exact (evicted?_of_drivenOut h.keys he).2.1
  · obtain ⟨hNew, hFull, -⟩ := evicted?_spec (evicted?_of_drivenOut h.keys he).2.2
    exact ⟨hNew, Nat.le_antisymm h.size hFull⟩
  · exact (evicted?_spec (evicted?_of_drivenOut h.keys he).2.2).2.2.2
  · obtain ⟨hAccepts, -, hEvicted⟩ := evicted?_of_drivenOut h.keys he
    obtain ⟨-, -, hMem, hOldest⟩ := evicted?_spec hEvicted
    refine isFresh_of_le hFresh ?_
    rcases (Cache.mem_store_iff h.keys hAccepts).mp ho with rfl | ⟨hOld, -⟩
    · exact h.past e hMem
    · exact hOldest o hOld

/-! ## Ordinary use -/

theorem options_step (h : m.isOrdinary = true) : (s.step m).cache.options = s.cache.options := by
  cases m with
  | store key data => exact Cache.options_store ..
  | lookup key => exact (Cache.removes_lookup ..).options
  | passes picks => exact (WatchedCache.removes_passesUntil ..).options
  | prune k => exact (removes_prune s k).options
  | startValidation => rw [cache_startValidation]
  | contains key => rfl
  | stopValidation => rfl
  | advance span => rfl
  | note picker percent => rfl
  | invalidate key => contradiction
  | clear => contradiction
  | configure options => contradiction
  | setEnabled enabled => contradiction
  | setPolicy policy => contradiction

/-- What a cache has to do with what was written into it. -/
structure Recalls (s : TimedCache) (log : List CacheEntry) : Prop where
  tidy : s.cache.Tidy s.now
  ordered : log.Pairwise fun x y => x.storedAt < y.storedAt
  past : ∀ x ∈ log, x.storedAt ≤ s.now
  /-- what validation has noted is past its time -/
  noted : ∀ k ∈ s.noted, ¬ s.now - k.storedAt ≤ s.cache.options.ttl
  last : ∀ e ∈ s.cache.entries, ∃ later, LastWritten log e later
  /-- with an entry everything is there that was written later and is fresh -/
  follows : ∀ e ∈ s.cache.entries, ∀ x later, LastWritten log x later →
    e.storedAt < x.storedAt → x.IsFresh s.cache.options.ttl s.now → x ∈ s.cache.entries
  /-- what is fresh is there, unless enough other keys were written since -/
  stays : ∀ x later, LastWritten log x later → x.IsFresh s.cache.options.ttl s.now →
    x ∈ s.cache.entries ∨ s.cache.options.maxItems ≤ keyCount later

/-- What was written later is younger. -/
theorem Recalls.lt_of_later (h : s.Recalls log) (hLast : LastWritten log e later)
    (hx : x ∈ later) : e.storedAt < x.storedAt := by
  obtain ⟨⟨before, rfl⟩, -⟩ := hLast
  have hTail := (List.pairwise_append.mp h.ordered).2.1
  exact (List.pairwise_cons.mp hTail).1 x hx

/-- What was written and is no older was written later. -/
theorem Recalls.mem_later (h : s.Recalls log) (hLast : LastWritten log e later) (hx : x ∈ log)
    (hNe : x ≠ e) (hLe : e.storedAt ≤ x.storedAt) : x ∈ later := by
  obtain ⟨⟨before, rfl⟩, -⟩ := hLast
  rcases List.mem_append.mp hx with hBefore | hx
  · have hLt := (List.pairwise_append.mp h.ordered).2.2 x hBefore e List.mem_cons_self
    exact absurd hLt (Nat.not_lt_of_le hLe)
  · rcases List.mem_cons.mp hx with hSame | hLater
    · exact absurd hSame hNe
    · exact hLater

/-- What is fresh stays in all ordinary use but stores. -/
theorem Recalls.mem_step_of_isFresh (h : s.Recalls log) (hOrdinary : m.isOrdinary = true)
    (hStore : ∀ key data, m ≠ .store key data) (he : e ∈ s.cache.entries)
    (hFresh : e.IsFresh s.cache.options.ttl s.now) : e ∈ (s.step m).cache.entries := by
  cases m with
  | store key data => exact absurd rfl (hStore key data)
  | lookup key => exact Cache.mem_lookup_of_isFresh h.tidy.keys he hFresh
  | passes picks => exact WatchedCache.mem_passesUntil_of_isFresh h.tidy.keys he hFresh picks
  | prune k =>
    by_cases hk : k ∈ s.noted
    · rw [step_prune hk]
      refine Cache.mem_pruneOne h.tidy.keys he ?_
      rintro ⟨-, hTime⟩
      refine h.noted k hk ?_
      rw [← hTime]
      exact hFresh
    · rw [step, if_neg hk]
      exact he
  | startValidation => rwa [cache_startValidation]
  | contains key => exact he
  | stopValidation => exact he
  | advance span => exact he
  | note picker percent => exact he
  | invalidate key => contradiction
  | clear => contradiction
  | configure options => contradiction
  | setEnabled enabled => contradiction
  | setPolicy policy => contradiction

theorem noted_step (hOrdinary : m.isOrdinary = true)
    (h : ∀ k ∈ s.noted, ¬ s.now - k.storedAt ≤ s.cache.options.ttl) :
    ∀ k ∈ (s.step m).noted, ¬ (s.step m).now - k.storedAt ≤ (s.step m).cache.options.ttl := by
  intro k hk hFresh
  rw [options_step hOrdinary] at hFresh
  have hNow := now_le_step s m
  have hBefore : s.now - k.storedAt ≤ s.cache.options.ttl := by
    rw [Duration.le_def, Duration.nanos_sub] at hFresh ⊢
    rw [Duration.le_def] at hNow
    omega
  have hOld : k ∉ s.noted := fun hk => h k hk hBefore
  cases m with
  | note picker percent =>
    rcases List.mem_append.mp hk with hk | hk
    · exact hOld hk
    · cases hNoted : s.cache.expiredSample? picker s.now percent with
      | none =>
        rw [hNoted] at hk
        contradiction
      | some candidates =>
        rw [hNoted] at hk
        exact (Cache.not_le_of_mem_expiredSample? hNoted hk).2 hBefore
  | prune other =>
    rw [step] at hk
    split at hk <;> exact hOld hk
  | _ => exact hOld hk

/-- Ordinary use that stores nothing. -/
theorem Recalls.step_of_not_store (h : s.Recalls log) (hOrdinary : m.isOrdinary = true)
    (hStore : ∀ key data, m ≠ .store key data) : (s.step m).Recalls log := by
  have hLoses : s.cache.Loses (s.step m).cache := by
    refine loses_step hStore fun options hEq => ?_
    rw [hEq] at hOrdinary
    contradiction
  have hOptions := options_step (s := s) hOrdinary
  have hNow := now_le_step s m
  -- an entry that is fresh afterwards was fresh before, so it is still there
  have hThere {x : CacheEntry} (hx : x ∈ s.cache.entries)
      (hFresh : x.IsFresh s.cache.options.ttl (s.step m).now) : x ∈ (s.step m).cache.entries :=
    h.mem_step_of_isFresh hOrdinary hStore hx (hFresh.of_le hNow)
  refine ⟨tidy_step h.tidy m, h.ordered, fun x hx => Nat.le_trans (h.past x hx) hNow,
    noted_step hOrdinary h.noted, fun e he => h.last e (hLoses.entries.subset he), ?_, ?_⟩
  · intro e he x later hLast hLt hFresh
    rw [hOptions] at hFresh
    exact hThere (h.follows e (hLoses.entries.subset he) x later hLast hLt (hFresh.of_le hNow)) hFresh
  · intro x later hLast hFresh
    rw [hOptions] at hFresh ⊢
    rcases h.stays x later hLast (hFresh.of_le hNow) with hx | hFull
    · exact .inl (hThere hx hFresh)
    · exact .inr hFull

/-- An entry is driven out only if as many other keys were written since as there may be entries. -/
theorem Recalls.le_keyCount_of_evicted (h : s.Recalls log) (hLast : LastWritten log e later)
    (hEvicted : s.cache.evicted? key = some e) (new : CacheEntry) (hNew : new.key = key) :
    s.cache.options.maxItems ≤ keyCount (later ++ [new]) := by
  obtain ⟨hAbsent, hFull, hMem, hOldest⟩ := evicted?_spec hEvicted
  have hNobody := Cache.contains_eq_false_iff.mp hAbsent
  -- the others were written after this one, each under a key of its own, and so was the new one
  let others := s.cache.entries.erase e ++ [new]
  have hOthersKeys : (others.map (·.key)).Nodup := by
    rw [List.map_append, List.nodup_append]
    refine ⟨(List.erase_sublist.map _).nodup h.tidy.keys, List.nodup_singleton _, ?_⟩
    intro k hk k' hk' hEq
    obtain ⟨o, ho, rfl⟩ := List.mem_map.mp hk
    rw [List.map_singleton, List.mem_singleton] at hk'
    exact hNobody o (List.mem_of_mem_erase ho) (hEq.trans (hk'.trans hNew))
  have hOthersLength : others.length = s.cache.size := by
    rw [List.length_append, List.length_erase_of_mem hMem, List.length_singleton]
    have hPos := List.length_pos_of_mem hMem
    show s.cache.entries.length - 1 + 1 = s.cache.entries.length
    omega
  calc s.cache.options.maxItems ≤ s.cache.size := hFull
    _ = keyCount others := by rw [keyCount_eq_length hOthersKeys, hOthersLength]
    _ ≤ keyCount (later ++ [new]) := keyCount_mono fun o ho => by
      rcases List.mem_append.mp ho with ho | ho
      · obtain ⟨hNe, hOther⟩ := h.tidy.keys.of_map.mem_erase_iff.mp ho
        refine ⟨o, List.mem_append_left _ ?_, rfl⟩
        obtain ⟨rest, hOtherLast⟩ := h.last o hOther
        exact h.mem_later hLast hOtherLast.mem hNe (hOldest o hOther)
      · exact ⟨o, List.mem_append_right _ ho, rfl⟩

/-- A store that is accepted, at a time when nothing else was written. -/
theorem Recalls.store (h : s.Recalls log) (hAccepts : s.cache.accepts data = true)
    (hTime : ∀ x ∈ log, x.storedAt ≠ s.now) :
    (s.step (.store key data)).Recalls (log ++ [⟨key, data, s.now⟩]) := by
  have hOptions := options_step (s := s) (m := .store key data) rfl
  have hMem {e : CacheEntry} : e ∈ (s.step (.store key data)).cache.entries ↔
      e = ⟨key, data, s.now⟩ ∨ e ∈ s.cache.entries ∧ e.key ≠ key ∧ s.cache.evicted? key ≠ some e :=
    Cache.mem_store_iff h.tidy.keys hAccepts
  have hBefore (x : CacheEntry) (hx : x ∈ log) : x.storedAt < s.now :=
    Nat.lt_of_le_of_ne (h.past x hx) fun hEq => hTime x hx (Duration.ext hEq)
  refine ⟨h.tidy.store, ?_, ?_, noted_step rfl h.noted, ?_, ?_, ?_⟩
  · rw [List.pairwise_append]
    refine ⟨h.ordered, List.pairwise_singleton _ _, fun x hx y hy => ?_⟩
    rw [List.mem_singleton.mp hy]
    exact hBefore x hx
  · intro x hx
    rcases List.mem_append.mp hx with hx | hx
    · exact h.past x hx
    · rw [List.mem_singleton.mp hx]
      exact Nat.le_refl _
  · intro e he
    rcases hMem.mp he with rfl | ⟨hOld, hKey, -⟩
    · exact ⟨[], .self ..⟩
    · obtain ⟨later, hLast⟩ := h.last e hOld
      exact ⟨later ++ [_], hLast.concat (Ne.symm hKey)⟩
  · intro e he x later hLast hLt hFresh
    rw [hOptions] at hFresh
    rcases hLast.concat_cases with ⟨rfl, -⟩ | ⟨rest, rfl, hKey, hLast⟩
    · exact hMem.mpr (.inl rfl)
    rcases hMem.mp he with rfl | ⟨hOld, -⟩
    · exact absurd (hBefore x hLast.mem) (Nat.not_lt_of_lt hLt)
    · refine hMem.mpr (.inr ⟨h.follows e hOld x rest hLast hLt hFresh, Ne.symm hKey, fun hEvicted => ?_⟩)
      -- the oldest goes, and there is an older one
      exact Nat.not_le_of_lt hLt ((evicted?_spec hEvicted).2.2.2 e hOld)
  · intro x later hLast hFresh
    rw [hOptions] at hFresh ⊢
    rcases hLast.concat_cases with ⟨rfl, -⟩ | ⟨rest, rfl, hKey, hLast⟩
    · exact .inl (hMem.mpr (.inl rfl))
    by_cases hEvicted : s.cache.evicted? key = some x
    · exact .inr (h.le_keyCount_of_evicted hLast hEvicted _ rfl)
    rcases h.stays x rest hLast hFresh with hx | hFull
    · exact .inl (hMem.mpr (.inr ⟨hx, Ne.symm hKey, hEvicted⟩))
    · refine .inr (Nat.le_trans hFull (keyCount_mono fun y hy => ⟨y, ?_, rfl⟩))
      exact List.mem_append_left _ hy

/-- Ordinary use keeps what a cache has to do with what was written, if no two entries were written at
one time. -/
theorem Recalls.step (h : s.Recalls log) (hOrdinary : m.isOrdinary = true)
    (hTimes : ((log ++ s.writes m).map (·.storedAt)).Nodup) :
    (s.step m).Recalls (log ++ s.writes m) := by
  by_cases hStore : ∃ key data, m = .store key data
  · obtain ⟨key, data, rfl⟩ := hStore
    cases hAccepts : s.cache.accepts data with
    | true =>
      simp only [writes, hAccepts, if_true] at hTimes ⊢
      refine h.store hAccepts fun x hx hEq => ?_
      rw [List.map_append, List.nodup_append] at hTimes
      exact hTimes.2.2 _ (List.mem_map_of_mem hx) s.now (by simp) hEq
    | false =>
      have hSame : s.step (.store key data) = s := by
        show { s with watched := { s.watched with cache := s.cache.store s.now key data } } = s
        rw [Cache.store_of_not_accepts hAccepts]
        rfl
      simp only [writes, hAccepts, Bool.false_eq_true, if_false, List.append_nil, hSame]
      exact h
  · have hNone : s.writes m = [] := by
      cases m with
      | store key data => exact absurd ⟨key, data, rfl⟩ hStore
      | _ => rfl
    rw [hNone, List.append_nil]
    exact h.step_of_not_store hOrdinary fun key data hEq => hStore ⟨key, data, hEq⟩

/-! ## Whole runs -/

theorem recalls_after (options : CacheOptions) (hOrdinary : ∀ m ∈ moves, m.isOrdinary = true)
    (hTimes : (((after options []).written moves).map (·.storedAt)).Nodup) :
    (after options moves).Recalls ((after options []).written moves) ∧
      (after options moves).cache.options = options := by
  induction moves using List.reverseRecOn with
  | nil =>
    -- nothing was written, and nothing is there
    refine ⟨{
      tidy := Cache.tidy_empty options _
      ordered := List.Pairwise.nil
      past := fun _ hx => absurd hx List.not_mem_nil
      noted := fun _ hk => absurd hk List.not_mem_nil
      last := fun _ he => absurd he List.not_mem_nil
      follows := fun _ he => absurd he List.not_mem_nil
      stays := fun _ _ hLast => absurd hLast.mem List.not_mem_nil }, rfl⟩
  | append_singleton moves m ih =>
    have hLast : m.isOrdinary = true := hOrdinary m (by simp)
    have hWritten : (after options []).written (moves ++ [m]) =
        (after options []).written moves ++ (after options moves).writes m := written_concat _ _ _
    rw [hWritten] at hTimes ⊢
    have hShort : (((after options []).written moves).map (·.storedAt)).Nodup := by
      rw [List.map_append] at hTimes
      exact (List.nodup_append.mp hTimes).1
    obtain ⟨hRecalls, hOptions⟩ := ih (fun m' hm' => hOrdinary m' (by simp [hm'])) hShort
    rw [after_concat, options_step hLast, hOptions]
    exact ⟨hRecalls.step hLast hTimes, rfl⟩

/-- What is fresh and there has fewer other keys written since than there may be entries. -/
theorem Recalls.keyCount_lt (h : s.Recalls log) (hLast : LastWritten log e later)
    (he : e ∈ s.cache.entries) (hFresh : e.IsFresh s.cache.options.ttl s.now) :
    keyCount later < s.cache.options.maxItems := by
  -- each key written since has its entry there, beside this one
  have hOthers : keyCount later ≤ keyCount (s.cache.entries.erase e) := by
    refine keyCount_mono fun x hx => ?_
    obtain ⟨y, rest, hOwn, hKey⟩ := exists_lastWritten (hLast.mem_of_later hx)
    have hNe : y.key ≠ e.key := fun hEq => hLast.2 x hx (hKey.symm.trans hEq)
    have hLt : e.storedAt < y.storedAt := by
      by_contra hNot
      -- otherwise `y` would be older than `x`, and not the last one under the key
      have hOlder := Nat.lt_of_le_of_lt (Nat.le_of_not_lt hNot) (h.lt_of_later hLast hx)
      have hDiffers : x ≠ y := fun hEq => Nat.lt_irrefl _ (hEq ▸ hOlder)
      have hAfter := h.mem_later hOwn (hLast.mem_of_later hx) hDiffers (Nat.le_of_lt hOlder)
      exact hOwn.2 x hAfter hKey.symm
    have hThere := h.follows e he y rest hOwn hLt (isFresh_of_le hFresh (Nat.le_of_lt hLt))
    refine ⟨y, (List.mem_erase_of_ne fun hEq => hNe (by rw [hEq])).mpr hThere, hKey⟩
  have hLess : keyCount (s.cache.entries.erase e) < s.cache.size := by
    have hKeys : ((s.cache.entries.erase e).map (·.key)).Nodup :=
      (List.erase_sublist.map _).nodup h.tidy.keys
    rw [keyCount_eq_length hKeys, List.length_erase_of_mem he]
    have hPos := List.length_pos_of_mem he
    show s.cache.entries.length - 1 < s.cache.entries.length
    omega
  exact Nat.lt_of_le_of_lt hOthers (Nat.lt_of_lt_of_le hLess h.tidy.size)

/-- What a cache has in it after ordinary use in which no two payloads are taken at one time: it finds
what was last written under a key, within its time, unless as many other keys were written since as
there may be entries. And each store makes room as it should. -/
theorem content_after (options : CacheOptions) (hEnabled : options.enabled = true)
    (moves : List CacheMove) (hOrdinary : ∀ m ∈ moves, m.isOrdinary = true)
    (hTimes : (((after options []).written moves).map (·.storedAt)).Nodup) :
    (∀ key data, ((after options moves).cache.lookup (after options moves).now key).1 = some data ↔
      ∃ time later, LastWritten ((after options []).written moves) ⟨key, data, time⟩ later ∧
        (after options moves).now - time ≤ options.ttl ∧ keyCount later < options.maxItems) ∧
    ∀ before key data rest, moves = before ++ .store key data :: rest →
      (after options (before ++ [.store key data])).cache =
          (after options before).cache.store (after options before).now key data ∧
        MakesRoom (after options before).cache (after options before).now key data := by
  constructor
  · obtain ⟨hRecalls, hOptions⟩ := recalls_after options hOrdinary hTimes
    intro key data
    rw [Cache.lookup_eq_some_iff hRecalls.tidy.keys, hOptions]
    constructor
    · rintro ⟨-, e, he, rfl, rfl, hFresh⟩
      obtain ⟨later, hLast⟩ := hRecalls.last e he
      refine ⟨e.storedAt, later, hLast, hFresh, ?_⟩
      have hLess := hRecalls.keyCount_lt hLast he (by rwa [hOptions])
      rwa [hOptions] at hLess
    · rintro ⟨time, later, hLast, hFresh, hLess⟩
      refine ⟨hEnabled, ⟨key, data, time⟩, ?_, rfl, rfl, hFresh⟩
      rcases hRecalls.stays _ later hLast (hOptions.symm ▸ hFresh) with hThere | hFull
      · exact hThere
      · rw [hOptions] at hFull
        exact absurd hLess (Nat.not_lt_of_le hFull)
  · intro before key data rest _
    exact ⟨by rw [after_concat, cache_store], makesRoom_store (tidy_after options before) key data⟩

/-- A cache of two entries. -/
def small : CacheOptions := { enabled := true, ttl := .ofSeconds 10, maxItems := 2 }

/-- The first key is written again before a third one comes, and a pass is made on the way. -/
def rewriting : List CacheMove :=
  [.store "a" [1], .advance (.ofSeconds 1), .store "b" [2], .advance (.ofSeconds 1), .store "a" [3],
    .note .first 100, .advance (.ofSeconds 1)]

/-- The key that was written again stays, and the other one is driven out. -/
theorem content_after_rewriting :
    ((after small (rewriting ++ [.store "c" [4]])).cache.lookup (.ofSeconds 3) "a").1 = some [3] ∧
      MakesRoom (after small rewriting).cache (.ofSeconds 3) "c" [4] ∧
      DrivenOut (after small rewriting).cache (after small (rewriting ++ [.store "c" [4]])).cache
        ⟨"b", [2], .ofSeconds 1⟩ := by
  obtain ⟨hFound, hRoom⟩ :=
    content_after small rfl (rewriting ++ [.store "c" [4]]) (by decide) (by decide)
  have hWritten : (after small []).written (rewriting ++ [.store "c" [4]]) =
      [⟨"a", [1], .zero⟩, ⟨"b", [2], .ofSeconds 1⟩, ⟨"a", [3], .ofSeconds 2⟩,
        ⟨"c", [4], .ofSeconds 3⟩] := by decide
  have hLast : LastWritten ((after small []).written (rewriting ++ [.store "c" [4]]))
      ⟨"a", [3], .ofSeconds 2⟩ [⟨"c", [4], .ofSeconds 3⟩] := by
    rw [hWritten]
    exact ⟨⟨[⟨"a", [1], .zero⟩, ⟨"b", [2], .ofSeconds 1⟩], rfl⟩, by decide⟩
  exact ⟨(hFound "a" [3]).mpr ⟨.ofSeconds 2, _, hLast, by decide, by decide⟩,
    (hRoom rewriting "c" [4] [] rfl).2, by decide, by decide⟩

end TimedCache

end ReplicatedStore
