import ReplicatedStore.Deflate.Bits

/-!
# Tokens

Compressed data is a list of tokens: an octet of its own, or a copy of what stands some distance
back. `tokenize` finds copies with a table of the places where three octets were last seen. What
the table says is only a hint: a copy is taken where the octets agree, so the tokens of a payload
stand for exactly that payload whatever the table holds.

Main statements:

* `Token.copyAt?_spec` — a copy reaches back no further than allowed, and covers octets that agree.
-/

namespace ReplicatedStore

/-- One piece of compressed data. -/
inductive Token
  | literal (octet : UInt8)
  | copy (length distance : Nat)
  deriving Repr, DecidableEq

namespace Token

/-- The shortest copy that a token may state. -/
def minCopy : Nat := 3

/-- The longest copy that a token may state. -/
def maxCopy : Nat := 258

/-- The greatest distance that a copy may reach back. -/
def maxDistance : Nat := 32768

/-- `length` octets copied one by one from `distance` back. -/
def copyBack (out : Array UInt8) (distance : Nat) : (length : Nat) → Array UInt8
  | 0 => out
  -- one by one: a copy longer than its distance repeats what it has just written
  | length + 1 => copyBack (out.push (out.getD (out.size - distance) 0)) distance length

/-- What a token adds to the octets before it; none if it reaches back before their start. -/
def expand? (out : Array UInt8) : Token → Option (Array UInt8)
  | literal b => some (out.push b)
  | copy length distance => if out.size < distance then none else some (copyBack out distance length)

/-- How many octets from `i` on, at most `limit`, agree with those from `j` on. -/
def agreement (data : Array UInt8) (i j : Nat) : (limit : Nat) → Nat
  | 0 => 0
  | limit + 1 =>
    if i < data.size ∧ data.getD i 0 = data.getD j 0 then agreement data (i + 1) (j + 1) limit + 1
    else 0

/-- How many slots the table of recent places has. -/
def slots : Nat := 8192

/-- The slot of the three octets from `i` on. -/
def slotAt (data : Array UInt8) (i : Nat) : Nat :=
  ((data.getD i 0).toNat * 961 + (data.getD (i + 1) 0).toNat * 31 + (data.getD (i + 2) 0).toNat) % slots

/-- The copy that the hinted place `j` allows at `i`, if it is long enough. -/
def copyAt? (data : Array UInt8) (i j : Nat) : Option Nat :=
  if j < i ∧ i - j ≤ maxDistance then
    let length := agreement data i j maxCopy
    if minCopy ≤ length then some length else none
  else none

theorem copyAt?_spec {data : Array UInt8} {i j length : Nat} (h : copyAt? data i j = some length) :
    j < i ∧ i - j ≤ maxDistance ∧ length = agreement data i j maxCopy ∧ minCopy ≤ length := by
  unfold copyAt? at h
  split at h
  · rename_i hj
    simp only [Option.ite_none_right_eq_some, Option.some.injEq] at h
    obtain ⟨hMin, rfl⟩ := h
    exact ⟨hj.1, hj.2, rfl, hMin⟩
  · contradiction

/-- The tokens of the octets from `i` on, after those already found. -/
def tokenizeFrom (data : Array UInt8) (table : Array Nat) (out : Array Token) (i : Nat) :
    Array Token :=
  if hi : i < data.size then
    let slot := slotAt data i
    let hint := table.getD slot i
    match hc : copyAt? data i hint with
    | some length =>
      tokenizeFrom data (table.setIfInBounds slot i) (out.push (.copy length (i - hint))) (i + length)
    | none =>
      tokenizeFrom data (table.setIfInBounds slot i) (out.push (.literal data[i])) (i + 1)
  else out
termination_by data.size - i
decreasing_by
  · have := (copyAt?_spec hc).2.2.2
    simp only [minCopy] at this
    omega
  · omega

def tokenize (data : Bytes) : List Token :=
  let octets := data.toArray
  -- a slot that nothing was put into holds the end, which is behind no place
  (tokenizeFrom octets (Array.replicate slots octets.size) #[] 0).toList

end Token

end ReplicatedStore
