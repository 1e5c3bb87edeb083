import ReplicatedStore.Duration

/-!
# Validation policies

Entries of a cache are checked when they are looked up. A sampling policy has a part of them checked
at intervals as well. Every policy has a percentage from 1 to 100 and an interval above zero, which
are part of its type; `ValidationPolicy.sample` brings any numbers into these bounds.

Main statements:

* `sampleSize_le` and `sampleSize_pos` — a sample is no larger than what it is taken from, and it is
  not empty unless that is.
-/

namespace ReplicatedStore

/-- How a part of the entries is checked at intervals. -/
structure Sampling where
  percent : Nat
  interval : Duration
  one_le_percent : 1 ≤ percent
  percent_le : percent ≤ 100
  interval_pos : 0 < interval.nanos
  deriving DecidableEq, Repr

/-- Whether entries are checked in the background, and how. -/
inductive ValidationPolicy
  | none
  | sampling (how : Sampling)
  deriving DecidableEq, Repr

namespace ValidationPolicy

/-- The percentage used in place of zero. -/
def defaultPercent : Nat := 10

/-- The interval used in place of zero. -/
def defaultInterval : Duration := .ofSeconds 1800

/-- The percentage brought into its bounds. -/
def boundedPercent (percent : Nat) : Nat := if percent = 0 then defaultPercent else min percent 100

/-- The interval, or its default in place of zero. -/
def boundedInterval (interval : Duration) : Duration :=
  if interval.nanos = 0 then defaultInterval else interval

theorem one_le_boundedPercent (percent : Nat) : 1 ≤ boundedPercent percent := by
  unfold boundedPercent defaultPercent
  split <;> omega

theorem boundedPercent_le (percent : Nat) : boundedPercent percent ≤ 100 := by
  unfold boundedPercent defaultPercent
  split <;> omega

theorem boundedInterval_pos (interval : Duration) : 0 < (boundedInterval interval).nanos := by
  unfold boundedInterval
  split
  · simp [defaultInterval, Duration.ofSeconds]
  · omega

/-- A sampling policy: a percentage above 100 is lowered to it, and a percentage or an interval of
zero is replaced by its default. -/
def sample (percent : Nat) (interval : Duration) : ValidationPolicy :=
  .sampling {
    percent := boundedPercent percent
    interval := boundedInterval interval
    one_le_percent := one_le_boundedPercent percent
    percent_le := boundedPercent_le percent
    interval_pos := boundedInterval_pos interval }

end ValidationPolicy

/-- How many of `total` entries are checked: the percentage, rounded up, but at least one. -/
def sampleSize (total percent : Nat) : Nat :=
  -- adding 99 before dividing rounds up
  if total = 0 then 0 else max 1 (min total ((total * percent + 99) / 100))

theorem sampleSize_le (total percent : Nat) : sampleSize total percent ≤ total := by
  unfold sampleSize
  split <;> omega

theorem sampleSize_pos {total : Nat} (percent : Nat) (h : 0 < total) :
    0 < sampleSize total percent := by
  unfold sampleSize
  split <;> omega

end ReplicatedStore
