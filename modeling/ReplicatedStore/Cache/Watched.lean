import ReplicatedStore.Cache.Validation

/-!
# A cache with its validation task

At most one background task makes validation passes over a cache. It runs under the percentage and
the interval with which it was started; starting while one runs changes nothing, and every change of
the settings stops it first and starts it anew if the new settings ask for one.
-/

namespace ReplicatedStore

/-- A running validation task: how it samples, and when its next pass is due. -/
structure ValidationTask where
  sampling : Sampling
  due : Duration
  deriving DecidableEq, Repr

/-- A cache and its validation task, if one runs. -/
structure WatchedCache where
  cache : Cache := {}
  task : Option ValidationTask := none
  deriving Repr

namespace WatchedCache

/-- A cache with given settings and no task. -/
def ofOptions (options : CacheOptions) : WatchedCache := { cache := { options } }

def isRunning (w : WatchedCache) : Bool := w.task.isSome

def stop (w : WatchedCache) : WatchedCache := { w with task := none }

/-- A task is started if none runs, the cache is enabled, and its policy is to sample. Its first pass
is due one interval from now. -/
def start (w : WatchedCache) (now : Duration) : WatchedCache :=
  match w.task, w.cache.options.enabled, w.cache.options.validation with
  | none, true, .sampling how => { w with task := some ⟨how, now + how.interval⟩ }
  | _, _, _ => w

/-- All settings are replaced, and all entries dropped. -/
def configure (w : WatchedCache) (now : Duration) (options : CacheOptions) : WatchedCache :=
  { w.stop with cache := { options } }.start now

/-- The cache is enabled or disabled; its entries stay. -/
def setEnabled (w : WatchedCache) (now : Duration) (enabled : Bool) : WatchedCache :=
  let changed := { w with cache := { w.cache with options := { w.cache.options with enabled } } }
  if enabled then changed.start now else changed.stop

def setPolicy (w : WatchedCache) (now : Duration) (validation : ValidationPolicy) : WatchedCache :=
  let stopped := w.stop
  { stopped with
    cache := { stopped.cache with options := { stopped.cache.options with validation } } }.start now

def store (w : WatchedCache) (now : Duration) (key : String) (data : Bytes) : WatchedCache :=
  { w with cache := w.cache.store now key data }

def lookup (w : WatchedCache) (now : Duration) (key : String) : Option Bytes × WatchedCache :=
  let (found, cache) := w.cache.lookup now key
  (found, { w with cache })

/-- The entry under a key is dropped. -/
def invalidate (w : WatchedCache) (key : String) : WatchedCache :=
  { w with cache := w.cache.erase key }

def clear (w : WatchedCache) : WatchedCache := { w with cache := w.cache.clear }

/-- The cache after the pass of a task that is due. -/
def passOf (picks : Picks) (cache : Cache) (t : ValidationTask) : Cache :=
  (cache.validate (picks t.due) t.due t.sampling.percent).2

/-- A task whose next pass is due an interval later. -/
def nextDue (t : ValidationTask) : ValidationTask := { t with due := t.due + t.sampling.interval }

/-- The pass that is due is made, and the next one is due an interval later. -/
def pass (w : WatchedCache) (picks : Picks) : WatchedCache :=
  match w.task with
  | none => w
  | some t => ⟨passOf picks w.cache t, some (nextDue t)⟩

/-- Every pass of a task that is due by a time is made. -/
def passesFrom (picks : Picks) (time : Duration) (cache : Cache) (t : ValidationTask) :
    WatchedCache :=
  if t.due ≤ time then passesFrom picks time (passOf picks cache t) (nextDue t)
  else ⟨cache, some t⟩
termination_by time.nanos + 1 - t.due.nanos
decreasing_by
  rename_i hDue
  -- an interval is above zero, so the due time comes closer to the end
  have hPos := t.sampling.interval_pos
  rw [Duration.le_def] at hDue
  simp only [nextDue, Duration.nanos_add]
  omega

/-- Every pass that is due by a time is made. -/
def passesUntil (w : WatchedCache) (picks : Picks) (time : Duration) : WatchedCache :=
  match w.task with
  | none => w
  | some t => passesFrom picks time w.cache t

end WatchedCache

end ReplicatedStore
