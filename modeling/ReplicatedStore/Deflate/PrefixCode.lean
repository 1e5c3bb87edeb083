import ReplicatedStore.Deflate.Bits

/-!
# Prefix codes

A prefix code gives symbols words of bits, none of which starts another. The canonical code of a
list of word lengths numbers the words of each length in the order of the symbols, shorter words
first; that list is all that a compressed block states of its code.

Main statements:

* `PrefixTree.read_append` — reading a word does not look beyond it.
-/

namespace ReplicatedStore

/-- A prefix code as a tree: a bit chooses a branch, and a symbol stands at the end of its word. -/
inductive PrefixTree
  | vacant
  | leaf (symbol : Nat)
  | fork (zero one : PrefixTree)

namespace PrefixTree

/-- The tree with one more word; none if a word of it starts the new one or is started by it. -/
def insert? (symbol : Nat) : Bits → PrefixTree → Option PrefixTree
  | [], vacant => some (leaf symbol)
  | [], _ => none
  | _ :: _, leaf _ => none
  | b :: word, vacant =>
    (insert? symbol word vacant).map fun t => if b then fork vacant t else fork t vacant
  | b :: word, fork zero one =>
    if b then (insert? symbol word one).map (fork zero) else (insert? symbol word zero).map (fork · one)

/-- The symbol whose word comes next, and what follows it. -/
def read : PrefixTree → Bits → Option (Nat × Bits)
  | vacant, _ => none
  | leaf symbol, bits => some (symbol, bits)
  | fork _ _, [] => none
  | fork zero one, b :: rest => if b then read one rest else read zero rest

theorem read_append (t : PrefixTree) (word rest : Bits) (symbol : Nat)
    (h : t.read word = some (symbol, [])) : t.read (word ++ rest) = some (symbol, rest) := by
  induction t generalizing word with
  | vacant => simp [read] at h
  | leaf s =>
    simp only [read, Option.some.injEq, Prod.mk.injEq] at h
    simp [read, h.1, h.2]
  | fork zero one hZero hOne =>
    cases word with
    | nil => simp [read] at h
    | cons b word =>
      cases b with
      | false => simpa [read] using hZero word (by simpa [read] using h)
      | true => simpa [read] using hOne word (by simpa [read] using h)

end PrefixTree

namespace PrefixCode

/-- How long a word may be. -/
def maxLength : Nat := 15

/-- How many symbols have words of a given length. -/
def countOf (lengths : List Nat) (length : Nat) : Nat := lengths.countP (· == length)

/-- The first word of a given length, as a number. -/
def firstWord (lengths : List Nat) : (length : Nat) → Nat
  | 0 => 0
  | 1 => 0
  | length + 2 => (firstWord lengths (length + 1) + countOf lengths (length + 1)) * 2

/-- The bits of a word, most significant first. -/
def wordBits (length n : Nat) : Bits := (Bits.ofNat length n).reverse

/-- Symbols with their words; a symbol of length zero has none. -/
def words (lengths : List Nat) : List (Nat × Bits) :=
  let starts := (Array.range (maxLength + 1)).map (firstWord lengths)
  let step := fun (state : Array Nat × Nat × List (Nat × Bits)) (length : Nat) =>
    let (next, symbol, out) := state
    if length = 0 then (next, symbol + 1, out)
    else
      -- each length goes on with the number after its last word
      let n := next.getD length 0
      (next.setIfInBounds length (n + 1), symbol + 1, (symbol, wordBits length n) :: out)
  (lengths.foldl step (starts, 0, [])).2.2.reverse

/-- The share of all words of the greatest length that the words of a code start. -/
def coverage (lengths : List Nat) : Nat :=
  lengths.foldr (fun l n => if l = 0 then n else 1 <<< (maxLength - l) + n) 0

/-- Whether the words of a code start all words of the greatest length. -/
def isComplete (lengths : List Nat) : Bool := coverage lengths = 1 <<< maxLength

/-- How many symbols have a word. -/
def used (lengths : List Nat) : Nat := lengths.countP (· ≠ 0)

/-- The tree of a canonical code. The words must use up all bit strings exactly; only a code of at
most one word may leave some over. -/
def tree? (lengths : List Nat) : Option PrefixTree :=
  if !isComplete lengths && 1 < used lengths then none
  else (words lengths).foldlM (fun t (symbol, word) => t.insert? symbol word) .vacant

end PrefixCode

end ReplicatedStore
