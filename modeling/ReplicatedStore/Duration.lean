/-!
# Durations

Spans of time in whole nanoseconds. The same type holds the readings of a clock, as spans since its
start. `Duration.text` writes a span in the greatest unit that leaves a whole part, with a trimmed
fraction: `1.5s`, `30ms`, `1µs`, `0ns`.
-/

namespace ReplicatedStore

/-- A span of time. -/
structure Duration where
  nanos : Nat
  deriving DecidableEq, Repr, Inhabited

namespace Duration

def zero : Duration := ⟨0⟩

def ofSeconds (n : Nat) : Duration := ⟨n * 1000000000⟩

def ofMillis (n : Nat) : Duration := ⟨n * 1000000⟩

/-- The whole seconds of a span. -/
def seconds (d : Duration) : Nat := d.nanos / 1000000000

/-- What a span has beyond its whole seconds, in nanoseconds. -/
def subsecond (d : Duration) : Nat := d.nanos % 1000000000

instance : Add Duration := ⟨fun a b => ⟨a.nanos + b.nanos⟩⟩

instance : Sub Duration := ⟨fun a b => ⟨a.nanos - b.nanos⟩⟩

instance : LE Duration := ⟨fun a b => a.nanos ≤ b.nanos⟩

instance : LT Duration := ⟨fun a b => a.nanos < b.nanos⟩

instance (a b : Duration) : Decidable (a ≤ b) := inferInstanceAs (Decidable (a.nanos ≤ b.nanos))

instance (a b : Duration) : Decidable (a < b) := inferInstanceAs (Decidable (a.nanos < b.nanos))

theorem le_def (a b : Duration) : a ≤ b ↔ a.nanos ≤ b.nanos := Iff.rfl

theorem lt_def (a b : Duration) : a < b ↔ a.nanos < b.nanos := Iff.rfl

@[simp] theorem nanos_add (a b : Duration) : (a + b).nanos = a.nanos + b.nanos := rfl

@[simp] theorem nanos_sub (a b : Duration) : (a - b).nanos = a.nanos - b.nanos := rfl

@[ext] theorem ext {a b : Duration} (h : a.nanos = b.nanos) : a = b := by
  cases a; cases b; simp_all

/-- A fraction of `unit` as digits after a point, without trailing zeros; nothing if it is zero. -/
def fractionText (part unit : Nat) : String :=
  if part = 0 then ""
  else
    let digits := ((toString (unit + part)).toList.drop 1).reverse.dropWhile (· == '0')
    String.ofList ('.' :: digits.reverse)

/-- A span in one unit of `unit` nanoseconds. -/
def inUnit (d : Duration) (unit : Nat) (symbol : String) : String :=
  toString (d.nanos / unit) ++ fractionText (d.nanos % unit) unit ++ symbol

/-- The text of a span, in the greatest unit of which it holds a whole one. -/
def text (d : Duration) : String :=
  if 1000000000 ≤ d.nanos then d.inUnit 1000000000 "s"
  else if 1000000 ≤ d.nanos then d.inUnit 1000000 "ms"
  else if 1000 ≤ d.nanos then d.inUnit 1000 "µs"
  else d.inUnit 1 "ns"

end Duration

end ReplicatedStore
