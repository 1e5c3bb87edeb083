import Mathlib.Data.List.Induction
import ReplicatedStore.Proofs.Cache.History

/-!
# The tasks of a cache

A cache knows of the task that it has started last, and stops that one. To tell that no other is left
alive, a roster keeps all tasks that were started and have not ended, each under a number of its own,
and notes which of them has removed which entry: a task is started beside those that are alive, only
the one in the slot is stopped, and whoever is alive makes its passes. What the roster shows is what
the cache shows, so there is never more than one task, it is the one that the settings ask for, and
one that was stopped removes nothing any more.

Main results:

* `Roster.timed_step` — the roster shows what the cache shows, whatever the move.
* `Roster.InOrder.step` — the task that is alive is in the slot, and the settings ask for it.
* `Roster.GoesOn.retired` — a task that was stopped is never alive again and removes nothing.
* `Roster.staffed_after` — all of this, of every run.
-/

namespace ReplicatedStore

namespace CacheMove

/-- Whether a move ends by starting a task if the settings ask for one. -/
def decides : CacheMove → Bool
  | .startValidation | .configure _ | .setEnabled _ | .setPolicy _ => true
  | _ => false

/-- Whether a move stops the task that is alive. -/
def stops : CacheMove → Bool
  | .stopValidation | .configure _ | .setPolicy _ | .setEnabled false => true
  | _ => false

/-- Whether a move starts a task only where none is alive, and stops none. -/
def onlyStarts : CacheMove → Bool
  | .startValidation | .setEnabled true => true
  | _ => false

end CacheMove

/-- A task that is alive, under its number. -/
structure Posted where
  number : Nat
  task : ValidationTask
  deriving DecidableEq, Repr

/-- A cache with all tasks that are alive. -/
structure Roster where
  /-- the cache with its clock, apart from any task -/
  base : TimedCache
  /-- the task that the cache stops -/
  slot : Option Nat := none
  alive : List Posted := []
  /-- how many tasks were started -/
  posted : Nat := 0
  /-- the entries that tasks have removed, in turn -/
  removals : List (Nat × CacheEntry) := []

namespace Roster

def cache (r : Roster) : Cache := r.base.cache

def withCache (r : Roster) (cache : Cache) : Roster :=
  { r with base := { r.base with watched := { cache } } }

/-- The cache as it shows itself: with a task if one is alive. -/
def timed (r : Roster) : TimedCache :=
  { r.base with watched := ⟨r.cache, r.alive.head?.map (·.task)⟩ }

def start (r : Roster) : Roster :=
  match r.slot, r.cache.options.enabled, r.cache.options.validation with
  | none, true, .sampling how =>
    { r with
      slot := some r.posted
      alive := r.alive ++ [⟨r.posted, ⟨how, r.base.now + how.interval⟩⟩]
      posted := r.posted + 1 }
  | _, _, _ => r

/-- The task in the slot ends. -/
def stop (r : Roster) : Roster :=
  match r.slot with
  | none => r
  | some number => { r with slot := none, alive := r.alive.filter (·.number != number) }

/-- Tasks make their passes that are due by a time, one task after the other. -/
def workAll (picks : Picks) (time : Duration) :
    Cache → List Posted → Cache × List Posted × List (Nat × CacheEntry)
  | cache, [] => (cache, [], [])
  | cache, p :: rest =>
    let worked := WatchedCache.passesFrom picks time cache p.task
    let gone := cache.entries.filter (· ∉ worked.cache.entries)
    let (cache, rest, others) := workAll picks time worked.cache rest
    (cache, { p with task := worked.task.getD p.task } :: rest, gone.map (p.number, ·) ++ others)

def passes (r : Roster) (picks : Picks) : Roster :=
  let (cache, alive, gone) := workAll picks r.base.now r.cache r.alive
  { r.withCache cache with alive, removals := r.removals ++ gone }

def step (r : Roster) : CacheMove → Roster
  | .configure options => (r.stop.withCache { options }).start
  | .setEnabled enabled =>
    let changed := r.withCache { r.cache with options := { r.cache.options with enabled } }
    if enabled then changed.start else changed.stop
  | .setPolicy validation =>
    (r.stop.withCache { r.cache with options := { r.cache.options with validation } }).start
  | .startValidation => r.start
  | .stopValidation => r.stop
  | .passes picks => r.passes picks
  -- no other move is about tasks
  | m => { r with base := r.base.step m }

def run (r : Roster) (moves : List CacheMove) : Roster := moves.foldl step r

/-- A new cache with given settings, after moves. -/
def after (options : CacheOptions) (moves : List CacheMove) : Roster :=
  run { base := TimedCache.after options [] } moves

theorem run_append (r : Roster) (moves more : List CacheMove) :
    r.run (moves ++ more) = (r.run moves).run more := List.foldl_append

theorem after_append (options : CacheOptions) (moves more : List CacheMove) :
    after options (moves ++ more) = (after options moves).run more := run_append _ _ _

theorem after_concat (options : CacheOptions) (moves : List CacheMove) (m : CacheMove) :
    after options (moves ++ [m]) = (after options moves).step m := after_append _ _ _

variable {r : Roster} {m : CacheMove} {moves : List CacheMove} {n : Nat} {options : CacheOptions}

/-! ## One task at most -/

/-- Whether the task in the slot is the only one that is alive. -/
def OneAtMost (r : Roster) : Prop :=
  r.slot = none ∧ r.alive = [] ∨ ∃ p, r.slot = some p.number ∧ r.alive = [p]

theorem OneAtMost.withCache (h : r.OneAtMost) (cache : Cache) : (r.withCache cache).OneAtMost := h

/-- Whether there is one task at most, the one in the slot, and the settings ask for it. -/
structure InOrder (r : Roster) : Prop where
  base : r.base.watched.task = none
  alive : r.OneAtMost
  numbers : ∀ p ∈ r.alive, p.number < r.posted
  asked : ∀ p ∈ r.alive, r.cache.options.enabled = true ∧
    r.cache.options.validation = .sampling p.task.sampling

theorem stop_eq (h : r.OneAtMost) : r.stop = { r with slot := none, alive := [] } := by
  rcases h with ⟨hSlot, hNone⟩ | ⟨p, hSlot, hOne⟩
  · simp only [stop, hSlot]
    rw [← hSlot, ← hNone]
  · simp [stop, hSlot, hOne]

theorem alive_stop (h : r.OneAtMost) : r.stop.alive = [] := by
  rw [stop_eq h]

theorem cache_stop (h : r.OneAtMost) : r.stop.cache = r.cache := by
  rw [stop_eq h]
  rfl

theorem inOrder_stop (hBase : r.base.watched.task = none) (h : r.OneAtMost) : r.stop.InOrder := by
  rw [stop_eq h]
  exact {
    base := hBase
    alive := .inl ⟨rfl, rfl⟩
    numbers := fun p hp => absurd hp List.not_mem_nil
    asked := fun p hp => absurd hp List.not_mem_nil }

/-- Whether the settings ask for a task. -/
def Asked (o : CacheOptions) : Prop := o.enabled = true ∧ ∃ how, o.validation = .sampling how

/-- What starting does: a task is started where none is in the slot and the settings ask for one. -/
theorem start_cases (r : Roster) :
    (∃ how, r.slot = none ∧ r.cache.options.enabled = true ∧
        r.cache.options.validation = .sampling how ∧
        r.start = { r with
          slot := some r.posted
          alive := r.alive ++ [⟨r.posted, ⟨how, r.base.now + how.interval⟩⟩]
          posted := r.posted + 1 }) ∨
      (r.slot = none → ¬ Asked r.cache.options) ∧ r.start = r := by
  unfold start
  split
  · rename_i how hSlot hEnabled hPolicy
    exact .inl ⟨how, hSlot, hEnabled, hPolicy, rfl⟩
  · rename_i hOther
    refine .inr ⟨fun hSlot hAsked => ?_, rfl⟩
    obtain ⟨hEnabled, how, hPolicy⟩ := hAsked
    exact hOther how hSlot hEnabled hPolicy

theorem InOrder.start (h : r.InOrder) : r.start.InOrder := by
  rcases start_cases r with ⟨how, hSlot, hEnabled, hPolicy, hStart⟩ | ⟨-, hStart⟩
  · have hNone : r.alive = [] := by
      rcases h.alive with ⟨-, hNone⟩ | ⟨p, hSome, -⟩
      · exact hNone
      · rw [hSlot] at hSome
        contradiction
    rw [hStart, hNone]
    refine ⟨h.base, .inr ⟨_, rfl, rfl⟩, fun p hp => ?_, fun p hp => ?_⟩
    · rw [List.mem_singleton.mp hp]
      exact Nat.lt_succ_self _
    · rw [List.mem_singleton.mp hp]
      exact ⟨hEnabled, hPolicy⟩
  · rw [hStart]
    exact h

/-- When a task may have been started, one is alive if the settings ask for one. -/
theorem alive_start (h : r.InOrder) : r.start.alive ≠ [] ↔ Asked r.start.cache.options := by
  constructor
  · intro hSome
    obtain ⟨p, hp⟩ := List.exists_mem_of_ne_nil _ hSome
    obtain ⟨hEnabled, hPolicy⟩ := h.start.asked p hp
    exact ⟨hEnabled, _, hPolicy⟩
  · intro hAsked
    rcases start_cases r with ⟨how, -, -, -, hStart⟩ | ⟨hNot, hStart⟩
    · rw [hStart]
      exact List.append_ne_nil_of_right_ne_nil _ (List.cons_ne_nil _ _)
    · rw [hStart] at hAsked ⊢
      rcases h.alive with ⟨hSlot, -⟩ | ⟨p, -, hOne⟩
      · exact absurd hAsked (hNot hSlot)
      · rw [hOne]
        exact List.cons_ne_nil p []

theorem InOrder.withCache (h : r.InOrder) {cache : Cache}
    (hAsked : ∀ p ∈ r.alive, cache.options.enabled = true ∧
      cache.options.validation = .sampling p.task.sampling) : (r.withCache cache).InOrder :=
  ⟨rfl, h.alive, h.numbers, hAsked⟩

/-- A task that has made its passes samples as before. -/
theorem sampling_passesFrom (picks : Picks) (time : Duration) (cache : Cache) (t : ValidationTask) :
    ∃ due, (WatchedCache.passesFrom picks time cache t).task = some ⟨t.sampling, due⟩ := by
  induction cache, t using WatchedCache.passesFrom.induct picks time with
  | case1 cache t hDue ih =>
    rw [WatchedCache.passesFrom, if_pos hDue]
    exact ih
  | case2 cache t hDue =>
    rw [WatchedCache.passesFrom, if_neg hDue]
    exact ⟨t.due, rfl⟩

/-- What becomes of the tasks that are alive when they make their passes: they stay who they are, and
what they remove is noted under their numbers. -/
theorem workAll_spec (picks : Picks) (time : Duration) (cache : Cache) (alive : List Posted) :
    ((workAll picks time cache alive).2.1.map fun p => (p.number, p.task.sampling)) =
        (alive.map fun p => (p.number, p.task.sampling)) ∧
      (∀ x ∈ (workAll picks time cache alive).2.2, ∃ p ∈ alive, p.number = x.1) ∧
      (workAll picks time cache alive).1.options = cache.options := by
  induction alive generalizing cache with
  | nil => exact ⟨rfl, fun _ hx => absurd hx List.not_mem_nil, rfl⟩
  | cons p rest ih =>
    obtain ⟨hSame, hNoted, hOptions⟩ := ih (WatchedCache.passesFrom picks time cache p.task).cache
    obtain ⟨due, hTask⟩ := sampling_passesFrom picks time cache p.task
    have hKept := (WatchedCache.removes_passesFrom picks time cache p.task).options
    refine ⟨?_, fun x hx => ?_, hOptions.trans hKept⟩
    · simp only [workAll, List.map_cons, hSame, hTask, Option.getD_some]
    · rcases List.mem_append.mp hx with hOwn | hOther
      · obtain ⟨e, -, rfl⟩ := List.mem_map.mp hOwn
        exact ⟨p, List.mem_cons_self, rfl⟩
      · obtain ⟨q, hq, hNumber⟩ := hNoted x hOther
        exact ⟨q, List.mem_cons_of_mem _ hq, hNumber⟩

theorem mem_passes {picks : Picks} {q : Posted} (h : q ∈ (r.passes picks).alive) :
    ∃ p ∈ r.alive, p.number = q.number ∧ p.task.sampling = q.task.sampling := by
  obtain ⟨hSame, -, -⟩ := workAll_spec picks r.base.now r.cache r.alive
  have hPair : (q.number, q.task.sampling) ∈
      (r.passes picks).alive.map fun p => (p.number, p.task.sampling) :=
    List.mem_map.mpr ⟨q, h, rfl⟩
  rw [show (r.passes picks).alive = (workAll picks r.base.now r.cache r.alive).2.1 from rfl,
    hSame] at hPair
  obtain ⟨p, hp, hEq⟩ := List.mem_map.mp hPair
  exact ⟨p, hp, congrArg Prod.fst hEq, congrArg Prod.snd hEq⟩

theorem InOrder.passes (h : r.InOrder) (picks : Picks) : (r.passes picks).InOrder := by
  obtain ⟨-, -, hOptions⟩ := workAll_spec picks r.base.now r.cache r.alive
  refine ⟨rfl, ?_, fun p hp => ?_, fun p hp => ?_⟩
  · rcases h.alive with ⟨hSlot, hNone⟩ | ⟨p, hSlot, hOne⟩
    · left
      simp [Roster.passes, Roster.withCache, hSlot, hNone, workAll]
    · right
      simp [Roster.passes, Roster.withCache, hSlot, hOne, workAll]
  · obtain ⟨q, hq, hNumber, -⟩ := mem_passes hp
    rw [← hNumber]
    exact h.numbers q hq
  · obtain ⟨q, hq, -, hSampling⟩ := mem_passes hp
    rw [← hSampling]
    show (workAll picks r.base.now r.cache r.alive).1.options.enabled = true ∧
      (workAll picks r.base.now r.cache r.alive).1.options.validation = _
    rw [hOptions]
    exact h.asked q hq

/-- Settings that change while no task is alive may have one started. -/
theorem inOrder_restart (hBase : r.base.watched.task = none) (h : r.OneAtMost) (cache : Cache) :
    (r.stop.withCache cache).InOrder := by
  refine (inOrder_stop hBase h).withCache fun p hp => ?_
  rw [alive_stop h] at hp
  exact absurd hp List.not_mem_nil

/-- A cache that is enabled keeps its task. -/
theorem InOrder.enable (h : r.InOrder) :
    (r.withCache { r.cache with options := { r.cache.options with enabled := true } }).InOrder :=
  h.withCache fun p hp => ⟨rfl, (h.asked p hp).2⟩

/-- A move that is not about tasks. -/
theorem InOrder.base_step (h : r.InOrder) (hTask : (r.base.step m).watched.task = none)
    (hOptions : (r.base.step m).cache.options = r.cache.options) :
    { r with base := r.base.step m }.InOrder := by
  refine ⟨hTask, h.alive, h.numbers, fun p hp => ?_⟩
  show (r.base.step m).cache.options.enabled = true ∧
    (r.base.step m).cache.options.validation = _
  rw [hOptions]
  exact h.asked p hp

theorem InOrder.step (h : r.InOrder) (m : CacheMove) : (r.step m).InOrder := by
  cases m with
  | configure options => exact (inOrder_restart h.base h.alive _).start
  | setPolicy policy => exact (inOrder_restart h.base h.alive _).start
  | setEnabled enabled =>
    cases enabled with
    | true => exact h.enable.start
    | false => exact inOrder_stop rfl h.alive
  | startValidation => exact h.start
  | stopValidation => exact inOrder_stop h.base h.alive
  | passes picks => exact h.passes picks
  | store key data => exact h.base_step h.base (Cache.options_store ..)
  | lookup key => exact h.base_step h.base (Cache.removes_lookup ..).options
  | prune k =>
    refine h.base_step ?_ (TimedCache.removes_prune r.base k).options
    rw [TimedCache.step]
    split <;> exact h.base
  | contains key => exact h.base_step h.base rfl
  | invalidate key => exact h.base_step h.base rfl
  | clear => exact h.base_step h.base rfl
  | advance span => exact h.base_step h.base rfl
  | note picker percent => exact h.base_step h.base rfl

theorem InOrder.run (h : r.InOrder) (moves : List CacheMove) : (r.run moves).InOrder := by
  induction moves generalizing r with
  | nil => exact h
  | cons m rest ih => exact ih (h.step m)

theorem inOrder_after (options : CacheOptions) (moves : List CacheMove) :
    (after options moves).InOrder :=
  InOrder.run {
    base := rfl
    alive := .inl ⟨rfl, rfl⟩
    numbers := fun _ hp => absurd hp List.not_mem_nil
    asked := fun _ hp => absurd hp List.not_mem_nil } moves

/-! ## What the roster shows -/

theorem timed_eq_of_alone {p : Posted} (h : r.alive = [p]) :
    r.timed = { r.base with watched := ⟨r.cache, some p.task⟩ } := by
  simp [timed, h]

theorem timed_eq_of_vacant (h : r.alive = []) :
    r.timed = { r.base with watched := ⟨r.cache, none⟩ } := by
  simp [timed, h]

theorem timed_start (h : r.OneAtMost) :
    r.start.timed = { r.timed with watched := r.timed.watched.start r.timed.now } := by
  rcases h with ⟨hSlot, hNone⟩ | ⟨p, hSlot, hOne⟩
  · rw [timed_eq_of_vacant hNone]
    unfold WatchedCache.start
    rcases start_cases r with ⟨how, -, hEnabled, hPolicy, hStart⟩ | ⟨hNot, hStart⟩
    · rw [hStart, hNone]
      simp only [hEnabled, hPolicy]
      rfl
    · rw [hStart, timed_eq_of_vacant hNone]
      split
      · rename_i how _ hEnabled hPolicy
        exact absurd ⟨hEnabled, how, hPolicy⟩ (hNot hSlot)
      · rfl
  · simp [start, timed, WatchedCache.start, hSlot, hOne]

theorem timed_stop (h : r.OneAtMost) :
    r.stop.timed = { r.timed with watched := r.timed.watched.stop } := by
  rw [stop_eq h]
  rfl

theorem timed_withCache (r : Roster) (cache : Cache) :
    (r.withCache cache).timed = { r.timed with watched := { r.timed.watched with cache } } := rfl

theorem timed_passes (h : r.OneAtMost) (picks : Picks) :
    (r.passes picks).timed =
      { r.timed with watched := r.timed.watched.passesUntil picks r.timed.now } := by
  rcases h with ⟨-, hNone⟩ | ⟨p, -, hOne⟩
  · rw [timed_eq_of_vacant hNone, passes, hNone]
    rfl
  · -- the task is still there, so what is shown is what its passes have made
    have hWorked : let w := WatchedCache.passesFrom picks r.base.now r.cache p.task
        (⟨w.cache, some (w.task.getD p.task)⟩ : WatchedCache) = w := by
      obtain ⟨due, hTask⟩ := sampling_passesFrom picks r.base.now r.cache p.task
      cases hMade : WatchedCache.passesFrom picks r.base.now r.cache p.task with
      | mk cache task =>
        rw [hMade] at hTask
        rw [show task = some _ from hTask]
        rfl
    rw [timed_eq_of_alone hOne, passes, hOne]
    exact congrArg (fun w => ({ r.base with watched := w } : TimedCache)) hWorked

/-- The roster shows what the cache shows. -/
theorem timed_step (h : r.InOrder) (m : CacheMove) : (r.step m).timed = r.timed.step m := by
  cases m with
  | configure options =>
    show ((r.stop.withCache _).start).timed = _
    rw [timed_start (inOrder_restart h.base h.alive _).alive, timed_withCache, timed_stop h.alive]
    rfl
  | setPolicy policy =>
    show ((r.stop.withCache _).start).timed = _
    rw [timed_start (inOrder_restart h.base h.alive _).alive, timed_withCache, timed_stop h.alive]
    rfl
  | setEnabled enabled =>
    cases enabled with
    | true =>
      show ((r.withCache _).start).timed = _
      rw [timed_start (h.alive.withCache _)]
      rfl
    | false =>
      show ((r.withCache _).stop).timed = _
      rw [timed_stop (h.alive.withCache _)]
      rfl
  | startValidation => exact timed_start h.alive
  | stopValidation => exact timed_stop h.alive
  | passes picks => exact timed_passes h.alive picks
  | prune k =>
    show ({ r with base := r.base.step (.prune k) } : Roster).timed = _
    by_cases hk : k ∈ r.base.noted
    · rw [TimedCache.step_prune hk, TimedCache.step_prune (s := r.timed) hk]
      rfl
    · rw [TimedCache.step, if_neg hk, TimedCache.step, if_neg (show k ∉ r.timed.noted from hk)]
  | store key data => rfl
  | lookup key => rfl
  | contains key => rfl
  | invalidate key => rfl
  | clear => rfl
  | advance span => rfl
  | note picker percent => rfl

theorem timed_after (options : CacheOptions) (moves : List CacheMove) :
    (after options moves).timed = TimedCache.after options moves := by
  induction moves using List.reverseRecOn with
  | nil => rfl
  | append_singleton moves m ih =>
    rw [after_concat, TimedCache.after_concat, timed_step (inOrder_after options moves), ih]

/-! ## Tasks that were stopped -/

/-- How one roster goes on from another: every task is one of those that were alive or was started
since, and no other has removed anything since. -/
structure GoesOn (r r' : Roster) : Prop where
  posted : r.posted ≤ r'.posted
  alive : ∀ q ∈ r'.alive, (∃ p ∈ r.alive, p.number = q.number) ∨ r.posted ≤ q.number
  removals : ∃ gone, r'.removals = r.removals ++ gone ∧
    ∀ x ∈ gone, (∃ p ∈ r.alive, p.number = x.1) ∨ r.posted ≤ x.1

/-- All tasks are among those that were alive, and nothing was removed. -/
theorem goesOn_of_alive {r' : Roster} (hPosted : r'.posted = r.posted)
    (hRemovals : r'.removals = r.removals) (hAlive : r'.alive ⊆ r.alive) : r.GoesOn r' :=
  ⟨Nat.le_of_eq hPosted.symm, fun q hq => .inl ⟨q, hAlive hq, rfl⟩,
    [], by rw [hRemovals, List.append_nil], fun _ hx => absurd hx List.not_mem_nil⟩

theorem goesOn_refl (r : Roster) : r.GoesOn r := goesOn_of_alive rfl rfl (List.Subset.refl _)

theorem GoesOn.trans {r₁ r₂ r₃ : Roster} (h : r₁.GoesOn r₂) (h' : r₂.GoesOn r₃) : r₁.GoesOn r₃ := by
  obtain ⟨gone, hGone, hOwners⟩ := h.removals
  obtain ⟨more, hMore, hOthers⟩ := h'.removals
  -- who was alive in between was alive before, or was started since
  have hBack {number : Nat}
      (hNumber : (∃ p ∈ r₂.alive, p.number = number) ∨ r₂.posted ≤ number) :
      (∃ p ∈ r₁.alive, p.number = number) ∨ r₁.posted ≤ number := by
    rcases hNumber with ⟨p, hp, rfl⟩ | hLe
    · exact h.alive p hp
    · exact .inr (Nat.le_trans h.posted hLe)
  refine ⟨Nat.le_trans h.posted h'.posted, fun q hq => hBack (h'.alive q hq), gone ++ more, ?_, ?_⟩
  · rw [hMore, hGone, List.append_assoc]
  · intro x hx
    rcases List.mem_append.mp hx with hx | hx
    · exact hOwners x hx
    · exact hBack (hOthers x hx)

theorem goesOn_stop (r : Roster) : r.GoesOn r.stop := by
  unfold stop
  split
  · exact goesOn_refl r
  · exact goesOn_of_alive rfl rfl fun q hq => (List.mem_filter.mp hq).1

theorem goesOn_withCache (r : Roster) (cache : Cache) : r.GoesOn (r.withCache cache) :=
  goesOn_of_alive rfl rfl (List.Subset.refl _)

theorem goesOn_start (r : Roster) : r.GoesOn r.start := by
  rcases start_cases r with ⟨how, -, -, -, hStart⟩ | ⟨-, hStart⟩
  · rw [hStart]
    refine ⟨Nat.le_succ _, fun q hq => ?_, [], (List.append_nil _).symm,
      fun _ hx => absurd hx List.not_mem_nil⟩
    rcases List.mem_append.mp hq with hOld | hNew
    · exact .inl ⟨q, hOld, rfl⟩
    · rw [List.mem_singleton.mp hNew]
      exact .inr (Nat.le_refl _)
  · rw [hStart]
    exact goesOn_refl r

theorem goesOn_passes (r : Roster) (picks : Picks) : r.GoesOn (r.passes picks) := by
  obtain ⟨-, hNoted, -⟩ := workAll_spec picks r.base.now r.cache r.alive
  refine ⟨Nat.le_refl _, fun q hq => .inl ?_, _, rfl, fun x hx => .inl (hNoted x hx)⟩
  obtain ⟨p, hp, hNumber, -⟩ := mem_passes hq
  exact ⟨p, hp, hNumber⟩

theorem goesOn_step (r : Roster) (m : CacheMove) : r.GoesOn (r.step m) := by
  cases m with
  | configure options =>
    exact ((goesOn_stop r).trans (goesOn_withCache _ _)).trans (goesOn_start _)
  | setPolicy policy => exact ((goesOn_stop r).trans (goesOn_withCache _ _)).trans (goesOn_start _)
  | setEnabled enabled =>
    cases enabled with
    | true => exact (goesOn_withCache r _).trans (goesOn_start _)
    | false => exact (goesOn_withCache r _).trans (goesOn_stop _)
  | startValidation => exact goesOn_start r
  | stopValidation => exact goesOn_stop r
  | passes picks => exact goesOn_passes r picks
  | _ => exact goesOn_of_alive rfl rfl (List.Subset.refl _)

theorem goesOn_run (r : Roster) (moves : List CacheMove) : r.GoesOn (r.run moves) := by
  induction moves generalizing r with
  | nil => exact goesOn_refl r
  | cons m rest ih => exact (goesOn_step r m).trans (ih (r.step m))

/-- The entries that the task with a number has removed. -/
def removedBy (r : Roster) (number : Nat) : List (Nat × CacheEntry) :=
  r.removals.filter (·.1 == number)

/-- A task that is not alive any more never is again, and removes nothing. -/
theorem GoesOn.retired {r' : Roster} (h : r.GoesOn r') (hPosted : n < r.posted)
    (hGone : ∀ p ∈ r.alive, p.number ≠ n) :
    (∀ q ∈ r'.alive, q.number ≠ n) ∧ r'.removedBy n = r.removedBy n := by
  have hOther {number : Nat}
      (hNumber : (∃ p ∈ r.alive, p.number = number) ∨ r.posted ≤ number) : number ≠ n := by
    rcases hNumber with ⟨p, hp, rfl⟩ | hLe
    · exact hGone p hp
    · omega
  obtain ⟨gone, hRemovals, hOwners⟩ := h.removals
  refine ⟨fun q hq => hOther (h.alive q hq), ?_⟩
  have hNone : gone.filter (·.1 == n) = [] := by
    refine List.filter_eq_nil_iff.mpr fun x hx => ?_
    rw [beq_iff_eq]
    exact hOther (hOwners x hx)
  rw [removedBy, hRemovals, List.filter_append, hNone, List.append_nil, removedBy]

/-- A move that stops the task leaves none alive but one that it has started itself. -/
theorem posted_le_of_stops (h : r.OneAtMost) (hStops : m.stops = true) :
    ∀ q ∈ (r.step m).alive, r.posted ≤ q.number := by
  have hRestart (cache : Cache) : ∀ q ∈ (r.stop.withCache cache).start.alive,
      r.posted ≤ q.number := by
    intro q hq
    rcases (goesOn_start (r.stop.withCache cache)).alive q hq with ⟨p, hp, -⟩ | hLe
    · rw [show (r.stop.withCache cache).alive = r.stop.alive from rfl, alive_stop h] at hp
      exact absurd hp List.not_mem_nil
    · exact Nat.le_trans (goesOn_stop r).posted hLe
  intro q hq
  cases m with
  | configure options => exact hRestart _ q hq
  | setPolicy policy => exact hRestart _ q hq
  | stopValidation =>
    rw [step, alive_stop h] at hq
    exact absurd hq List.not_mem_nil
  | setEnabled enabled =>
    cases enabled with
    | true => contradiction
    | false =>
      rw [show (r.step (.setEnabled false)).alive = _ from alive_stop (h.withCache _)] at hq
      exact absurd hq List.not_mem_nil
  | _ => contradiction

/-! ## What each move leaves -/

/-- A move that decides about the task leaves one alive exactly if the settings ask for one. -/
theorem alive_step_of_decides (h : r.InOrder) (hDecides : m.decides = true) :
    (r.step m).alive ≠ [] ↔ Asked (r.step m).cache.options := by
  cases m with
  | configure options => exact alive_start (inOrder_restart h.base h.alive _)
  | setPolicy policy => exact alive_start (inOrder_restart h.base h.alive _)
  | startValidation => exact alive_start h
  | setEnabled enabled =>
    cases enabled with
    | true => exact alive_start h.enable
    | false =>
      have hAlive : (r.step (.setEnabled false)).alive = [] := alive_stop (h.alive.withCache _)
      have hCache : (r.step (.setEnabled false)).cache.options.enabled = false :=
        congrArg (fun c : Cache => c.options.enabled) (cache_stop (h.alive.withCache _))
      constructor
      · exact fun hSome => absurd hAlive hSome
      · rintro ⟨hEnabled, -⟩
        rw [hCache] at hEnabled
        contradiction
  | _ => contradiction

/-- A task that is alive stays as it is where another would be started. -/
theorem alive_step_of_onlyStarts (h : r.OneAtMost) (hStarts : m.onlyStarts = true)
    (hSome : r.alive ≠ []) : (r.step m).alive = r.alive := by
  have hStays (r' : Roster) (hSlot : r'.slot = r.slot) : r'.start = r' := by
    rcases h with ⟨-, hNone⟩ | ⟨p, hTaken, -⟩
    · exact absurd hNone hSome
    · rcases start_cases r' with ⟨how, hFree, -⟩ | ⟨-, hSame⟩
      · rw [hSlot, hTaken] at hFree
        contradiction
      · exact hSame
  cases m with
  | startValidation => exact congrArg alive (hStays r rfl)
  | setEnabled enabled =>
    cases enabled with
    | true =>
      show (r.withCache _).start.alive = r.alive
      rw [hStays (r.withCache _) rfl]
      rfl
    | false => contradiction
  | _ => contradiction

/-- What is true of the tasks of a cache after some moves. -/
structure Staffed (options : CacheOptions) (moves : List CacheMove) : Prop where
  /-- what is said of the roster is said of the cache -/
  shows : (after options moves).timed = TimedCache.after options moves
  one : (after options moves).alive.length ≤ 1
  /-- who is alive samples as the settings in force say -/
  asked : ∀ p ∈ (after options moves).alive,
    (TimedCache.after options moves).cache.options.enabled = true ∧
      (TimedCache.after options moves).cache.options.validation = .sampling p.task.sampling
  /-- one is alive after a move that decides about it if the settings ask for one -/
  decided : ∀ before m, moves = before ++ [m] → m.decides = true →
    ((after options moves).alive ≠ [] ↔ Asked (TimedCache.after options moves).cache.options)
  /-- who is alive is neither started anew nor put off -/
  kept : ∀ before m, moves = before ++ [m] → m.onlyStarts = true →
    (after options before).alive ≠ [] → (after options moves).alive = (after options before).alive
  /-- who was stopped is not alive, and has removed nothing since -/
  retired : ∀ before m rest, moves = before ++ m :: rest → m.stops = true →
    ∀ p ∈ (after options before).alive,
      (∀ q ∈ (after options moves).alive, q.number ≠ p.number) ∧
        (after options moves).removedBy p.number =
          (after options (before ++ [m])).removedBy p.number

theorem cache_after (options : CacheOptions) (moves : List CacheMove) :
    (after options moves).cache = (TimedCache.after options moves).cache := by
  rw [← timed_after]
  rfl

/-- A cache has the task that its settings ask for, and no other, however it is used. -/
theorem staffed_after (options : CacheOptions) (moves : List CacheMove) : Staffed options moves := by
  have hOrder := inOrder_after options
  refine ⟨timed_after options moves, ?_, ?_, ?_, ?_, ?_⟩
  · rcases (hOrder moves).alive with ⟨-, hNone⟩ | ⟨p, -, hOne⟩
    · rw [hNone]
      exact Nat.zero_le 1
    · rw [hOne]
      exact Nat.le_refl 1
  · rw [← cache_after]
    exact (hOrder moves).asked
  · rintro before m rfl hDecides
    rw [← cache_after, after_concat]
    exact alive_step_of_decides (hOrder before) hDecides
  · rintro before m rfl hStarts hSome
    rw [after_concat]
    exact alive_step_of_onlyStarts (hOrder before).alive hStarts hSome
  · rintro before m rest rfl hStops p hp
    have hLess := (hOrder before).numbers p hp
    have hMove := goesOn_step (after options before) m
    rw [List.append_cons, after_append, after_concat]
    refine (goesOn_run _ rest).retired (Nat.lt_of_lt_of_le hLess hMove.posted) fun q hq => ?_
    have hNew := posted_le_of_stops (hOrder before).alive hStops q hq
    omega

end Roster

end ReplicatedStore
