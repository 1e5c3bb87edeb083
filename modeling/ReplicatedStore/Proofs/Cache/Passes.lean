import Mathlib.Algebra.Order.Floor.Div
import Mathlib.Data.List.Perm.Subperm
import ReplicatedStore.Proofs.Cache.Contents

/-!
# What passes take away

A pass picks places at random, and only what is behind a picked place and past its time goes. Since no
two places are the same and no two entries are under one key, none of the candidates is refused when it
comes to be removed: nobody wrote in between. So as many entries go as there are candidates, which are
at most as many as places were picked; if everything is past its time they are exactly as many.

What is past its time stays so. A cache of such entries loses a whole share with every pass, whatever is
picked, and as a share of something is never nothing, it is empty after as many passes as it had entries.

Main results:

* `Cache.prune_of_noted` — without anybody else every candidate's entry is removed.
* `Cache.thinned_after` — what one pass takes away.
* `Cache.size_afterAll` — the sizes that a cache of spent entries goes through.
* `Cache.passes_thin` — all of it, for one pass and for many.
-/

namespace ReplicatedStore

/-- A pass: how it picks, when it is made, and which part of the entries it checks. -/
structure Pass where
  picker : Picker
  time : Duration
  percent : Nat

/-- Whether a pass picks as many different places as it should, of a part that there is. -/
structure Pass.IsProper (p : Pass) : Prop where
  fair : p.picker.Fair
  one_le_percent : 1 ≤ p.percent
  percent_le : p.percent ≤ 100

/-- A percentage of a number, rounded up; at least one of something. -/
def share (n percent : Nat) : Nat := if n = 0 then 0 else max 1 (n * percent ⌈/⌉ 100)

theorem share_pos {n : Nat} (percent : Nat) (h : 0 < n) : 0 < share n percent := by
  rw [share, if_neg (by omega)]
  omega

/-- A sample is a share: it is never cut to what it is taken from. -/
theorem sampleSize_eq_share (n : Nat) {percent : Nat} (h : percent ≤ 100) :
    sampleSize n percent = share n percent := by
  unfold sampleSize share
  split
  · rfl
  · have hLe : n * percent ≤ n * 100 := Nat.mul_le_mul_left n h
    rw [Nat.ceilDiv_eq_add_pred_div]
    omega

theorem sampleSize_all (n : Nat) : sampleSize n 100 = n := by
  unfold sampleSize
  split <;> omega

namespace Cache

variable {c d : Cache} {picker : Picker} {now : Duration} {percent : Nat} {p : Pass}

/-! ## Removing candidates -/

/-- Whether something noted is what an entry bears. -/
def Notes (k : Candidate) (e : CacheEntry) : Prop := e.key = k.key ∧ e.storedAt = k.storedAt

theorem pruneOne_of_notes (hKeys : (c.entries.map (·.key)).Nodup) {k : Candidate} {e : CacheEntry}
    (he : e ∈ c.entries) (hNotes : Notes k e) : c.pruneOne k = (true, c.erase k.key) := by
  have hFound : c.find? k.key = some e := (find?_eq_some_iff hKeys).2 ⟨he, hNotes.1⟩
  simp [pruneOne, hFound, hNotes.2]

theorem size_erase (hKeys : (c.entries.map (·.key)).Nodup) {e : CacheEntry} (he : e ∈ c.entries) :
    (c.erase e.key).size + 1 = c.size := by
  have hNotThere : e ∉ c.entries.filter (·.key != e.key) := by simp
  -- the other entries and this one are all entries, as its key is nobody else's
  have hPerm : c.entries.Perm (e :: c.entries.filter (·.key != e.key)) := by
    have hNodup : c.entries.Nodup := hKeys.of_map _
    rw [List.perm_ext_iff_of_nodup hNodup (List.nodup_cons.2 ⟨hNotThere, hNodup.filter _⟩)]
    intro other
    rw [List.mem_cons, List.mem_filter, bne_iff_ne]
    constructor
    · intro hOther
      by_cases hKey : other.key = e.key
      · exact .inl (List.inj_on_of_nodup_map hKeys hOther he hKey)
      · exact .inr ⟨hOther, hKey⟩
    · rintro (rfl | hOther)
      · exact he
      · exact hOther.1
  have hLength := hPerm.length_eq
  rw [List.length_cons] at hLength
  exact hLength.symm

/-- Without anybody else every candidate's entry is removed, and none besides. -/
theorem prune_of_noted {candidates : List Candidate} (hKeys : (c.entries.map (·.key)).Nodup)
    (hOnce : (candidates.map (·.key)).Nodup) (hNoted : ∀ k ∈ candidates, ∃ e ∈ c.entries, Notes k e) :
    (c.prune candidates).1 = candidates.length ∧
      (c.prune candidates).2.size + candidates.length = c.size ∧
      ∀ e, e ∈ (c.prune candidates).2.entries ↔ e ∈ c.entries ∧ e.key ∉ candidates.map (·.key) := by
  induction candidates generalizing c with
  | nil => simp [prune]
  | cons k rest ih =>
    rw [List.map_cons, List.nodup_cons] at hOnce
    obtain ⟨e, he, hNotes⟩ := hNoted k List.mem_cons_self
    have hFirst := pruneOne_of_notes hKeys he hNotes
    -- the entries of the other candidates are still there, under keys of their own
    have hStill : ((c.erase k.key).entries.map (·.key)).Nodup :=
      ((removes_erase c k.key).entries.map _).nodup hKeys
    have hRest : ∀ j ∈ rest, ∃ x ∈ (c.erase k.key).entries, Notes j x := fun j hj => by
      obtain ⟨x, hx, hNotesX⟩ := hNoted j (List.mem_cons_of_mem _ hj)
      refine ⟨x, mem_erase_iff.2 ⟨hx, fun hKey => hOnce.1 ?_⟩, hNotesX⟩
      rw [← hKey, hNotesX.1]
      exact List.mem_map_of_mem hj
    obtain ⟨hCount, hSize, hMem⟩ := ih hStill hOnce.2 hRest
    have hErased := size_erase hKeys he
    rw [hNotes.1] at hErased
    simp only [prune, hFirst, List.length_cons, List.map_cons, List.mem_cons, not_or]
    refine ⟨?_, ?_, fun x => ?_⟩
    · rw [hCount, Bool.toNat_true]
      omega
    · omega
    · rw [hMem, mem_erase_iff, and_assoc]

/-! ## Noting candidates -/

/-- What is noted behind places that are picked. -/
def picked (c : Cache) (p : Pass) : List Candidate :=
  (p.picker c.snapshot.length (sampleSize c.snapshot.length p.percent)).filterMap (c.snapshot[·]?)

/-- The candidates of a pass. -/
def candidates (c : Cache) (p : Pass) : List Candidate :=
  (c.picked p).filter fun k => c.options.ttl < p.time - k.storedAt

theorem length_snapshot (c : Cache) : c.snapshot.length = c.size := List.length_map _

theorem notes_of_mem_snapshot {k : Candidate} (h : k ∈ c.snapshot) : ∃ e ∈ c.entries, Notes k e := by
  obtain ⟨e, he, rfl⟩ := List.mem_map.1 h
  exact ⟨e, he, rfl, rfl⟩

theorem mem_snapshot_of_notes {k : Candidate} {e : CacheEntry} (he : e ∈ c.entries) (h : Notes k e) :
    k ∈ c.snapshot := by
  refine List.mem_map.2 ⟨e, he, ?_⟩
  rw [h.1, h.2]

theorem nodup_keys_snapshot (hKeys : (c.entries.map (·.key)).Nodup) :
    (c.snapshot.map (·.key)).Nodup := by
  rw [snapshot, List.map_map]
  exact hKeys

/-- As much is picked as there should be, and nothing twice. -/
theorem picked_spec (hKeys : (c.entries.map (·.key)).Nodup) (hp : p.IsProper) :
    (c.picked p).length = share c.size p.percent ∧ ((c.picked p).map (·.key)).Nodup ∧
      c.picked p ⊆ c.snapshot := by
  obtain ⟨hCount, hPlaces, hBelow⟩ :=
    hp.fair c.snapshot.length _ (sampleSize_le c.snapshot.length p.percent)
  have hSubset : c.picked p ⊆ c.snapshot := fun k hk => by
    obtain ⟨i, -, hAt⟩ := List.mem_filterMap.1 hk
    exact List.mem_of_getElem? hAt
  have hNodup : c.snapshot.Nodup := (nodup_keys_snapshot hKeys).of_map _
  refine ⟨?_, ?_, hSubset⟩
  · -- every place picked has something behind it
    have hAll : ∀ i ∈ p.picker c.snapshot.length (sampleSize c.snapshot.length p.percent),
        (c.snapshot[i]?).isSome := fun i hi => by
      rw [List.getElem?_eq_getElem (hBelow i hi)]
      rfl
    rw [picked, List.length_filterMap_eq_countP, List.countP_eq_length.2 hAll, hCount,
      sampleSize_eq_share _ hp.percent_le, length_snapshot]
  · have hOnce : (c.picked p).Nodup := by
      refine hPlaces.filterMap fun i j k hk hk' => ?_
      have hAt : i < c.snapshot.length := (List.getElem?_eq_some_iff.1 hk).1
      exact (List.getElem?_inj hAt hNodup).1 (hk.trans hk'.symm)
    exact hOnce.map_on fun k hk j hj hKey =>
      List.inj_on_of_nodup_map (nodup_keys_snapshot hKeys) (hSubset hk) (hSubset hj) hKey

/-- A pass at 100 percent picks everything. -/
theorem mem_picked_of_all (hp : p.IsProper) (hAll : p.percent = 100) {k : Candidate}
    (hk : k ∈ c.snapshot) : k ∈ c.picked p := by
  obtain ⟨hCount, hPlaces, hBelow⟩ :=
    hp.fair c.snapshot.length _ (sampleSize_le c.snapshot.length p.percent)
  obtain ⟨i, hAt, rfl⟩ := List.mem_iff_getElem.1 hk
  -- so many different places below a number are all places below it
  have hSome := List.subperm_of_subset hPlaces fun j hj => List.mem_range.2 (hBelow j hj)
  have hEvery := hSome.perm_of_length_le (by
    rw [hCount, hAll, sampleSize_all, List.length_range])
  exact List.mem_filterMap.2 ⟨i, hEvery.mem_iff.2 (List.mem_range.2 hAt), List.getElem?_eq_getElem hAt⟩

theorem expiredSample?_eq (p : Pass) :
    c.expiredSample? p.picker p.time p.percent =
      if c.options.ttl.nanos = 0 then none else some (c.candidates p) := rfl

/-! ## One pass -/

/-- The cache after a pass. -/
def afterPass (c : Cache) (p : Pass) : Cache := (c.validate p.picker p.time p.percent).2

/-- Without a time to live there is no pass. -/
theorem validate_of_no_ttl (h : c.options.ttl.nanos = 0) :
    c.validate p.picker p.time p.percent = (none, c) := by
  rw [validate, expiredSample?_eq, if_pos h]

theorem validate_of_ttl (h : c.options.ttl.nanos ≠ 0) :
    c.validate p.picker p.time p.percent =
      (some (c.prune (c.candidates p)).1, (c.prune (c.candidates p)).2) := by
  rw [validate, expiredSample?_eq, if_neg h]

theorem removes_afterPass (c : Cache) (p : Pass) : c.Removes (c.afterPass p) :=
  removes_validate c _ _ _

/-- What a pass takes away from a cache, if it removes `count` entries. -/
structure Thinned (c : Cache) (p : Pass) (count : Nat) (d : Cache) : Prop where
  /-- what stays is as it was, its payload and its time -/
  removes : c.Removes d
  /-- what goes is past its time -/
  spent : ∀ e ∈ c.entries, e ∉ d.entries → c.options.ttl < e.age p.time
  /-- what goes is counted -/
  size : d.size + count = c.size
  le_share : count ≤ share c.size p.percent
  /-- a pass over everything takes all that is past its time -/
  all : p.percent = 100 → ∀ e, e ∈ d.entries ↔ e ∈ c.entries ∧ e.age p.time ≤ c.options.ttl
  /-- if everything is past its time, a whole share goes -/
  whole : (∀ e ∈ c.entries, c.options.ttl < e.age p.time) → count = share c.size p.percent

/-- Every candidate of a pass is removed, and is counted. -/
theorem prune_candidates (hKeys : (c.entries.map (·.key)).Nodup) (hp : p.IsProper) :
    (c.prune (c.candidates p)).1 = (c.candidates p).length ∧
      (c.prune (c.candidates p)).2.size + (c.candidates p).length = c.size ∧
      ∀ e, e ∈ (c.prune (c.candidates p)).2.entries ↔
        e ∈ c.entries ∧ e.key ∉ (c.candidates p).map (·.key) := by
  obtain ⟨-, hOnce, hSubset⟩ := picked_spec hKeys hp
  have hSublist : (c.candidates p).Sublist (c.picked p) := List.filter_sublist
  exact prune_of_noted hKeys ((hSublist.map _).nodup hOnce) fun k hk =>
    notes_of_mem_snapshot (hSubset (hSublist.subset hk))

/-- What goes is behind a picked place and past its time. -/
theorem key_mem_candidates_iff (hKeys : (c.entries.map (·.key)).Nodup) (hp : p.IsProper)
    {e : CacheEntry} (he : e ∈ c.entries) :
    e.key ∈ (c.candidates p).map (·.key) ↔
      ⟨e.key, e.storedAt⟩ ∈ c.picked p ∧ c.options.ttl < e.age p.time := by
  rw [List.mem_map]
  constructor
  · -- a candidate under the key of an entry is what was noted of that entry
    rintro ⟨k, hk, hKey⟩
    obtain ⟨hPicked, hPast⟩ := List.mem_filter.1 hk
    obtain ⟨x, hx, hNotes⟩ := notes_of_mem_snapshot ((picked_spec hKeys hp).2.2 hPicked)
    obtain rfl := List.inj_on_of_nodup_map hKeys hx he (hNotes.1.trans hKey)
    rw [CacheEntry.age, hNotes.1, hNotes.2]
    exact ⟨hPicked, of_decide_eq_true hPast⟩
  · rintro ⟨hPicked, hPast⟩
    exact ⟨_, List.mem_filter.2 ⟨hPicked, decide_eq_true hPast⟩, rfl⟩

/-- If everything is past its time, nothing that is picked is held back. -/
theorem candidates_eq_picked (hKeys : (c.entries.map (·.key)).Nodup) (hp : p.IsProper)
    (hPast : ∀ e ∈ c.entries, c.options.ttl < e.age p.time) : c.candidates p = c.picked p := by
  refine List.filter_eq_self.2 fun k hk => ?_
  obtain ⟨e, he, hNotes⟩ := notes_of_mem_snapshot ((picked_spec hKeys hp).2.2 hk)
  have hOld := hPast e he
  rw [CacheEntry.age, hNotes.2] at hOld
  exact decide_eq_true hOld

theorem thinned_after (hKeys : (c.entries.map (·.key)).Nodup) (hp : p.IsProper)
    (hTtl : c.options.ttl.nanos ≠ 0) :
    ∃ count, c.validate p.picker p.time p.percent = (some count, c.afterPass p) ∧
      c.Thinned p count (c.afterPass p) := by
  obtain ⟨hCount, hSize, hMem⟩ := prune_candidates hKeys hp
  have hLength := (picked_spec hKeys hp).1
  have hAfter : c.afterPass p = (c.prune (c.candidates p)).2 := by rw [afterPass, validate_of_ttl hTtl]
  refine ⟨(c.candidates p).length, ?_, removes_afterPass c p, fun e he hGone => ?_, ?_, ?_,
    fun hAll e => ?_, fun hPast => ?_⟩
  · rw [hAfter, validate_of_ttl hTtl, hCount]
  · rw [hAfter, hMem, not_and_not_right] at hGone
    exact ((key_mem_candidates_iff hKeys hp he).1 (hGone he)).2
  · rw [hAfter]
    exact hSize
  · rw [← hLength]
    exact List.length_filter_le _ _
  · rw [hAfter, hMem]
    refine and_congr_right fun he => ?_
    have hPicked : ⟨e.key, e.storedAt⟩ ∈ c.picked p :=
      mem_picked_of_all hp hAll (mem_snapshot_of_notes he ⟨rfl, rfl⟩)
    rw [key_mem_candidates_iff hKeys hp he, and_iff_right hPicked]
    exact Nat.not_lt
  · rw [candidates_eq_picked hKeys hp hPast, hLength]

/-! ## Many passes -/

/-- Whether all entries are past their time. -/
def IsSpent (c : Cache) (now : Duration) : Prop := ∀ e ∈ c.entries, c.options.ttl < e.age now

instance (c : Cache) (now : Duration) : Decidable (c.IsSpent now) :=
  inferInstanceAs (Decidable (∀ e ∈ c.entries, _))

theorem IsSpent.loses (h : c.IsSpent now) (hLoses : c.Loses d) {later : Duration} (hLater : now ≤ later) :
    d.IsSpent later := by
  intro e he
  have hPast := h e (hLoses.entries.subset he)
  rw [hLoses.ttl]
  unfold CacheEntry.age at *
  rw [Duration.lt_def, Duration.nanos_sub] at hPast ⊢
  rw [Duration.le_def] at hLater
  omega

/-- The cache after passes, one after the other. -/
def afterAll (c : Cache) (passes : List Pass) : Cache := passes.foldl afterPass c

/-- Passes over a cache that loses entries in between at most: nothing is stored. -/
inductive Checked : Cache → List Pass → Cache → Prop
  | done {c d : Cache} : c.Loses d → Checked c [] d
  | pass {c between d : Cache} {p : Pass} {rest : List Pass} :
    c.Loses between → Checked (between.afterPass p) rest d → Checked c (p :: rest) d

/-- The size of a cache of spent entries after a pass. -/
theorem size_afterPass (hKeys : (c.entries.map (·.key)).Nodup) (hTtl : c.options.ttl.nanos ≠ 0)
    (hp : p.IsProper) (hSpent : c.IsSpent p.time) :
    (c.afterPass p).size = c.size - share c.size p.percent := by
  obtain ⟨count, -, hThinned⟩ := thinned_after hKeys hp hTtl
  have hSize := hThinned.size
  rw [hThinned.whole hSpent] at hSize
  omega

/-- The sizes that a cache of spent entries goes through do not depend on what is picked, or when. -/
theorem size_afterAll {start : Duration} {passes : List Pass} (hKeys : (c.entries.map (·.key)).Nodup)
    (hTtl : c.options.ttl.nanos ≠ 0) (hSpent : c.IsSpent start)
    (hPasses : ∀ p ∈ passes, p.IsProper ∧ start ≤ p.time) :
    (c.afterAll passes).size = passes.foldl (fun n p => n - share n p.percent) c.size := by
  induction passes generalizing c with
  | nil => rfl
  | cons p rest ih =>
    obtain ⟨hp, hStart⟩ := hPasses p List.mem_cons_self
    have hRemoves := removes_afterPass c p
    have hNow : c.IsSpent p.time := hSpent.loses (Removes.refl c).loses hStart
    have hAfter := ih ((hRemoves.entries.map _).nodup hKeys) (by rwa [hRemoves.options])
      (hSpent.loses hRemoves.loses (Nat.le_refl _)) fun q hq => hPasses q (List.mem_cons_of_mem _ hq)
    rw [size_afterPass hKeys hTtl hp hNow] at hAfter
    exact hAfter

/-- Every pass takes something of what is left. -/
theorem size_le_of_checked {start : Duration} {passes : List Pass} (h : Checked c passes d)
    (hKeys : (c.entries.map (·.key)).Nodup) (hTtl : c.options.ttl.nanos ≠ 0) (hSpent : c.IsSpent start)
    (hPasses : ∀ p ∈ passes, p.IsProper ∧ start ≤ p.time) : d.size ≤ c.size - passes.length := by
  induction h with
  | done hLoses => exact hLoses.entries.length_le
  | @pass c between d p rest hLoses _ ih =>
    obtain ⟨hp, hStart⟩ := hPasses p List.mem_cons_self
    have hKeysThen := (hLoses.entries.map (·.key)).nodup hKeys
    have hTtlThen : between.options.ttl.nanos ≠ 0 := by rwa [hLoses.ttl]
    have hSpentThen := hSpent.loses hLoses (Nat.le_refl _)
    have hRemoves := removes_afterPass between p
    have hAfter := ih ((hRemoves.entries.map _).nodup hKeysThen) (by rwa [hRemoves.options])
      (hSpentThen.loses hRemoves.loses (Nat.le_refl _)) fun q hq => hPasses q (List.mem_cons_of_mem _ hq)
    have hPass := size_afterPass hKeysThen hTtlThen hp (hSpent.loses hLoses hStart)
    have hFewer : between.size ≤ c.size := hLoses.entries.length_le
    have hShare := share_pos (n := between.size) p.percent
    rw [List.length_cons]
    omega

theorem checked_afterAll (c : Cache) (passes : List Pass) : Checked c passes (c.afterAll passes) := by
  induction passes generalizing c with
  | nil => exact .done (Removes.refl c).loses
  | cons p rest ih => exact .pass (Removes.refl c).loses (ih (c.afterPass p))

/-- **What passes take away.** A pass over a cache whose entries have a time to live removes nothing but
what is past it and counts what it removes: a share of all entries at most, everything that is past its
time if it checks all, and a whole share if everything is past its time. So the sizes that a cache of such
entries goes through in any passes are told by the shares alone, and after as many passes as there were
entries it is empty, also if more was lost in between. Without a time to live a pass is refused and changes
nothing. -/
theorem passes_thin (c : Cache) (hKeys : (c.entries.map (·.key)).Nodup) :
    (c.options.ttl.nanos = 0 → ∀ p : Pass, c.validate p.picker p.time p.percent = (none, c)) ∧
    (c.options.ttl.nanos ≠ 0 →
      (∀ p : Pass, p.IsProper → ∃ count,
        c.validate p.picker p.time p.percent = (some count, c.afterPass p) ∧
          c.Thinned p count (c.afterPass p)) ∧
      ∀ (start : Duration) (passes : List Pass), c.IsSpent start →
        (∀ p ∈ passes, p.IsProper ∧ start ≤ p.time) →
          (c.afterAll passes).size = passes.foldl (fun n p => n - share n p.percent) c.size ∧
          (c.size ≤ passes.length →
            (c.afterAll passes).entries = [] ∧ ∀ d, Checked c passes d → d.entries = [])) := by
  refine ⟨fun hTtl p => validate_of_no_ttl hTtl, fun hTtl => ⟨fun p hp => thinned_after hKeys hp hTtl,
    fun start passes hSpent hPasses => ⟨size_afterAll hKeys hTtl hSpent hPasses, fun hEnough => ?_⟩⟩⟩
  have hEmpty : ∀ d, Checked c passes d → d.entries = [] := fun d hChecked => by
    have hSize := size_le_of_checked hChecked hKeys hTtl hSpent hPasses
    rw [Nat.sub_eq_zero_of_le hEnough] at hSize
    exact List.eq_nil_of_length_eq_zero (Nat.le_zero.1 hSize)
  exact ⟨hEmpty _ (checked_afterAll c passes), hEmpty⟩

/-- The choice of the first places is a proper one. -/
theorem fair_first : Picker.first.Fair := by
  intro total count hLe
  refine ⟨List.length_range, List.nodup_range, fun i hi => ?_⟩
  exact Nat.lt_of_lt_of_le (List.mem_range.1 hi) hLe

/-- A cache of three entries that were stored at different times. -/
def threeStored : Cache where
  options := { enabled := true, ttl := .ofSeconds 10 }
  entries := [⟨"docs/a", [1], .ofSeconds 1⟩, ⟨"docs/b", [2], .ofSeconds 2⟩, ⟨"docs/c", [], .ofSeconds 8⟩]

/-- Once all three are past their time, a pass over 34 percent takes two of them, and three passes over
one percent, made whenever, take all. -/
theorem passes_thin_three :
    (threeStored.entries.map (·.key)).Nodup ∧ threeStored.IsSpent (.ofSeconds 20) ∧
    (∃ d, threeStored.validate .first (.ofSeconds 20) 34 = (some 2, d)) ∧
    (threeStored.afterAll [⟨.first, .ofSeconds 20, 1⟩, ⟨.first, .ofSeconds 50, 1⟩,
      ⟨.first, .ofSeconds 21, 1⟩]).entries = [] := by
  have hKeys : (threeStored.entries.map (·.key)).Nodup := by decide
  have hSpent : threeStored.IsSpent (.ofSeconds 20) := by decide
  have hTtl : threeStored.options.ttl.nanos ≠ 0 := by decide
  obtain ⟨-, hPasses⟩ := passes_thin threeStored hKeys
  obtain ⟨hOne, hMany⟩ := hPasses hTtl
  refine ⟨hKeys, hSpent, ?_, ((hMany (.ofSeconds 20) _ hSpent ?_).2 (by decide)).1⟩
  · obtain ⟨count, hValidate, hThinned⟩ := hOne ⟨.first, .ofSeconds 20, 34⟩
      ⟨fair_first, by decide, by decide⟩
    obtain rfl : count = 2 := hThinned.whole hSpent
    exact ⟨_, hValidate⟩
  · intro p hp
    simp only [List.mem_cons, List.not_mem_nil, or_false] at hp
    rcases hp with rfl | rfl | rfl <;> exact ⟨⟨fair_first, by decide, by decide⟩, by decide⟩

end Cache

end ReplicatedStore
