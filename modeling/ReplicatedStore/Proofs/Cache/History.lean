import ReplicatedStore.Proofs.Cache.Contents

/-!
# The history of a cache

A cache on its own, with its clock and with what validation passes have noted and not removed yet.
Whoever uses it, its task and other passes take turns in any order: a pass may be made at once, or
note what has outlived its time and remove it key by key while others use the cache. Whatever the
move, a store puts in its entry, new settings drop everything, and any other move takes entries away
at most.

Main results:

* `TimedCache.tidy_after` — the cache is in order all along.
* `TimedCache.mem_step` — where the entries of a cache come from in one move.
* `TimedCache.run_note_prune` — a pass is made of its moves.
-/

namespace ReplicatedStore

/-- What can happen to a cache. -/
inductive CacheMove
  | store (key : String) (data : Bytes)
  | lookup (key : String)
  | contains (key : String)
  | invalidate (key : String)
  | clear
  | configure (options : CacheOptions)
  | setEnabled (enabled : Bool)
  | setPolicy (policy : ValidationPolicy)
  | startValidation
  | stopValidation
  | advance (span : Duration)
  /-- the task makes the passes that are due -/
  | passes (picks : Picks)
  /-- a pass notes some of the entries that have outlived their time -/
  | note (picker : Picker) (percent : Nat)
  /-- a pass removes the entry of something noted, unless it was written since -/
  | prune (k : Candidate)

/-- A cache with its task, the reading of its clock, and all that passes have noted so far. -/
structure TimedCache where
  watched : WatchedCache
  now : Duration := .zero
  noted : List Candidate := []

namespace TimedCache

def cache (s : TimedCache) : Cache := s.watched.cache

def step (s : TimedCache) : CacheMove → TimedCache
  | .store key data => { s with watched := s.watched.store s.now key data }
  | .lookup key => { s with watched := (s.watched.lookup s.now key).2 }
  | .contains _ => s
  | .invalidate key => { s with watched := s.watched.invalidate key }
  | .clear => { s with watched := s.watched.clear }
  | .configure options => { s with watched := s.watched.configure s.now options }
  | .setEnabled enabled => { s with watched := s.watched.setEnabled s.now enabled }
  | .setPolicy policy => { s with watched := s.watched.setPolicy s.now policy }
  | .startValidation => { s with watched := s.watched.start s.now }
  | .stopValidation => { s with watched := s.watched.stop }
  | .advance span => { s with now := s.now + span }
  | .passes picks => { s with watched := s.watched.passesUntil picks s.now }
  | .note picker percent =>
    { s with noted := s.noted ++ (s.cache.expiredSample? picker s.now percent).getD [] }
  | .prune k =>
    if k ∈ s.noted then
      { s with watched := { s.watched with cache := (s.cache.pruneOne k).2 } }
    else s

def run (s : TimedCache) (moves : List CacheMove) : TimedCache := moves.foldl step s

/-- A new cache with given settings, after moves. -/
def after (options : CacheOptions) (moves : List CacheMove) : TimedCache :=
  run { watched := .ofOptions options } moves

@[simp] theorem run_nil (s : TimedCache) : s.run [] = s := rfl

@[simp] theorem run_cons (s : TimedCache) (m : CacheMove) (moves : List CacheMove) :
    s.run (m :: moves) = (s.step m).run moves := rfl

theorem run_append (s : TimedCache) (moves more : List CacheMove) :
    s.run (moves ++ more) = (s.run moves).run more := List.foldl_append

theorem after_concat (options : CacheOptions) (moves : List CacheMove) (m : CacheMove) :
    after options (moves ++ [m]) = (after options moves).step m := by
  rw [after, run_append]
  rfl

/-- Whether a move puts an end to what is stored under a key: another payload takes its place, or it
is dropped, whatever its age. -/
inductive Ends (s : TimedCache) (key : String) : CacheMove → Prop
  | store (data : Bytes) : s.cache.accepts data = true → Ends s key (.store key data)
  | invalidate : Ends s key (.invalidate key)
  | clear : Ends s key .clear
  | configure (options : CacheOptions) : Ends s key (.configure options)

/-! ## One move -/

variable {s : TimedCache} {m : CacheMove} {e : CacheEntry} {key : String}

theorem cache_store (s : TimedCache) (key : String) (data : Bytes) :
    (s.step (.store key data)).cache = s.cache.store s.now key data := rfl

theorem cache_configure (s : TimedCache) (options : CacheOptions) :
    (s.step (.configure options)).cache = { options } := WatchedCache.cache_start _ _

theorem step_prune {k : Candidate} (h : k ∈ s.noted) :
    s.step (.prune k) = { s with watched := { s.watched with cache := (s.cache.pruneOne k).2 } } :=
  if_pos h

theorem cache_setEnabled (s : TimedCache) (enabled : Bool) :
    (s.step (.setEnabled enabled)).cache =
      { s.cache with options := { s.cache.options with enabled } } := by
  show (s.watched.setEnabled s.now enabled).cache = _
  unfold WatchedCache.setEnabled
  cases enabled with
  | true => exact WatchedCache.cache_start _ _
  | false => rfl

theorem cache_setPolicy (s : TimedCache) (policy : ValidationPolicy) :
    (s.step (.setPolicy policy)).cache =
      { s.cache with options := { s.cache.options with validation := policy } } :=
  WatchedCache.cache_start _ _

theorem cache_startValidation (s : TimedCache) : (s.step .startValidation).cache = s.cache :=
  WatchedCache.cache_start _ _

theorem removes_prune (s : TimedCache) (k : Candidate) :
    s.cache.Removes (s.step (.prune k)).cache := by
  by_cases hNoted : k ∈ s.noted
  · rw [step_prune hNoted]
    exact Cache.removes_pruneOne _ k
  · rw [step, if_neg hNoted]
    exact .refl _

/-- A move that is neither a store nor new settings takes entries away at most. -/
theorem loses_step (hStore : ∀ key data, m ≠ .store key data) (hConfigure : ∀ o, m ≠ .configure o) :
    s.cache.Loses (s.step m).cache := by
  have hKept : s.cache.Loses s.cache := (Cache.Removes.refl _).loses
  cases m with
  | store key data => exact absurd rfl (hStore key data)
  | configure options => exact absurd rfl (hConfigure options)
  | lookup key => exact (Cache.removes_lookup _ _ _).loses
  | invalidate key => exact (Cache.removes_erase _ _).loses
  | clear => exact (Cache.removes_clear _).loses
  | passes picks => exact (WatchedCache.removes_passesUntil _ _ _).loses
  | prune k => exact (removes_prune s k).loses
  | setEnabled enabled =>
    rw [cache_setEnabled]
    exact ⟨List.Sublist.refl _, rfl, rfl, rfl⟩
  | setPolicy policy =>
    rw [cache_setPolicy]
    exact ⟨List.Sublist.refl _, rfl, rfl, rfl⟩
  | startValidation =>
    rw [cache_startValidation]
    exact hKept
  | contains key => exact hKept
  | stopValidation => exact hKept
  | advance span => exact hKept
  | note picker percent => exact hKept

/-- The clock never goes back. -/
theorem now_le_step (s : TimedCache) (m : CacheMove) : s.now ≤ (s.step m).now := by
  cases m with
  | advance span => exact Nat.le_add_right _ _
  | prune k =>
    rw [step]
    split <;> exact Nat.le_refl _
  | _ => exact Nat.le_refl _

theorem tidy_step (h : s.cache.Tidy s.now) (m : CacheMove) :
    (s.step m).cache.Tidy (s.step m).now := by
  by_cases hStore : ∃ key data, m = .store key data
  · obtain ⟨key, data, rfl⟩ := hStore
    exact h.store
  by_cases hConfigure : ∃ options, m = .configure options
  · obtain ⟨options, rfl⟩ := hConfigure
    rw [cache_configure]
    exact Cache.tidy_empty options _
  · have hLoses : s.cache.Loses (s.step m).cache :=
      loses_step (fun key data hEq => hStore ⟨key, data, hEq⟩) fun o hEq => hConfigure ⟨o, hEq⟩
    exact h.loses hLoses (now_le_step s m)

/-- An entry after a move was just stored, or it was there and the move has not put an end to it. -/
theorem mem_step (h : s.cache.Tidy s.now) (he : e ∈ (s.step m).cache.entries) :
    m = .store e.key e.data ∧ s.cache.accepts e.data = true ∧ e.storedAt = s.now ∨
      e ∈ s.cache.entries ∧ ¬ s.Ends e.key m := by
  by_cases hStore : ∃ key data, m = .store key data
  · obtain ⟨key, data, rfl⟩ := hStore
    rw [cache_store] at he
    cases hAccepts : s.cache.accepts data with
    | false =>
      rw [Cache.store_of_not_accepts hAccepts] at he
      refine .inr ⟨he, fun hEnds => ?_⟩
      cases hEnds with
      | store _ hYes => exact Bool.false_ne_true (hAccepts.symm.trans hYes)
    | true =>
      rcases (Cache.mem_store_iff h.keys hAccepts).mp he with rfl | ⟨hMem, hKey, -⟩
      · exact .inl ⟨rfl, hAccepts, rfl⟩
      · refine .inr ⟨hMem, fun hEnds => ?_⟩
        cases hEnds with
        | store _ _ => exact hKey rfl
  by_cases hConfigure : ∃ options, m = .configure options
  · obtain ⟨options, rfl⟩ := hConfigure
    rw [cache_configure] at he
    exact absurd he List.not_mem_nil
  · have hLoses : s.cache.Loses (s.step m).cache :=
      loses_step (fun key data hEq => hStore ⟨key, data, hEq⟩) fun o hEq => hConfigure ⟨o, hEq⟩
    refine .inr ⟨hLoses.entries.subset he, fun hEnds => ?_⟩
    cases hEnds with
    | store data _ => exact hStore ⟨_, data, rfl⟩
    | configure options => exact hConfigure ⟨options, rfl⟩
    | invalidate => exact Cache.key_ne_of_mem_erase he rfl
    | clear => exact List.not_mem_nil he

/-! ## Runs -/

theorem tidy_run (h : s.cache.Tidy s.now) (moves : List CacheMove) :
    (s.run moves).cache.Tidy (s.run moves).now := by
  induction moves generalizing s with
  | nil => exact h
  | cons m rest ih => exact ih (tidy_step h m)

theorem tidy_after (options : CacheOptions) (moves : List CacheMove) :
    (after options moves).cache.Tidy (after options moves).now :=
  tidy_run (s := { watched := .ofOptions options }) (Cache.tidy_empty options _) moves

/-- A whole pass is what it notes, and then the removal of each candidate. -/
theorem run_note_prune (s : TimedCache) (picker : Picker) (percent : Nat) :
    (s.run (.note picker percent ::
      ((s.cache.expiredSample? picker s.now percent).getD []).map .prune)).cache =
        (s.cache.validate picker s.now percent).2 := by
  -- all that is left to prune stays noted
  have hPrune (candidates : List Candidate) (t : TimedCache) (hNoted : candidates ⊆ t.noted) :
      (t.run (candidates.map .prune)).cache = (t.cache.prune candidates).2 := by
    induction candidates generalizing t with
    | nil => rfl
    | cons k rest ih =>
      have hk : k ∈ t.noted := hNoted List.mem_cons_self
      rw [List.map_cons, run_cons, step_prune hk]
      exact ih _ fun other hOther => hNoted (List.mem_cons_of_mem _ hOther)
  rw [run_cons, hPrune _ _ (List.subset_append_right _ _)]
  unfold Cache.validate
  cases s.cache.expiredSample? picker s.now percent with
  | none => rfl
  | some candidates => rfl

end TimedCache

end ReplicatedStore
