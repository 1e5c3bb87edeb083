import ReplicatedStore.Deflate.PrefixCode
import ReplicatedStore.Deflate.Token

/-!
# The alphabets of compressed blocks

A block writes tokens with two codes. The first has the 256 octets, an end mark, and classes of copy
lengths; the second has classes of distances. A class names its least member, and extra bits tell
the members apart.

Main statements:

* `Alphabet.classOf?_spec` — a number is its class's least member and an offset that the extra bits hold.
-/

namespace ReplicatedStore

/-- A class of numbers: its least member and how many bits tell its members apart. -/
structure NumberClass where
  base : Nat
  extra : Nat
  deriving Repr, DecidableEq

namespace Alphabet

/-- The symbol that ends a block. -/
def endMark : Nat := 256

/-- The symbol of the first class of lengths. -/
def firstLength : Nat := 257

def lengthClasses : List NumberClass :=
  [⟨3, 0⟩, ⟨4, 0⟩, ⟨5, 0⟩, ⟨6, 0⟩, ⟨7, 0⟩, ⟨8, 0⟩, ⟨9, 0⟩, ⟨10, 0⟩, ⟨11, 1⟩, ⟨13, 1⟩, ⟨15, 1⟩,
   ⟨17, 1⟩, ⟨19, 2⟩, ⟨23, 2⟩, ⟨27, 2⟩, ⟨31, 2⟩, ⟨35, 3⟩, ⟨43, 3⟩, ⟨51, 3⟩, ⟨59, 3⟩, ⟨67, 4⟩,
   ⟨83, 4⟩, ⟨99, 4⟩, ⟨115, 4⟩, ⟨131, 5⟩, ⟨163, 5⟩, ⟨195, 5⟩, ⟨227, 5⟩, ⟨258, 0⟩]

def distanceClasses : List NumberClass :=
  [⟨1, 0⟩, ⟨2, 0⟩, ⟨3, 0⟩, ⟨4, 0⟩, ⟨5, 1⟩, ⟨7, 1⟩, ⟨9, 2⟩, ⟨13, 2⟩, ⟨17, 3⟩, ⟨25, 3⟩, ⟨33, 4⟩,
   ⟨49, 4⟩, ⟨65, 5⟩, ⟨97, 5⟩, ⟨129, 6⟩, ⟨193, 6⟩, ⟨257, 7⟩, ⟨385, 7⟩, ⟨513, 8⟩, ⟨769, 8⟩,
   ⟨1025, 9⟩, ⟨1537, 9⟩, ⟨2049, 10⟩, ⟨3073, 10⟩, ⟨4097, 11⟩, ⟨6145, 11⟩, ⟨8193, 12⟩,
   ⟨12289, 12⟩, ⟨16385, 13⟩, ⟨24577, 13⟩]

/-- The last class whose least member is not above `n`, counted from `index`. -/
def classFrom? (n : Nat) (index : Nat) : List NumberClass → Option (Nat × NumberClass)
  | [] => none
  | c :: rest =>
    match classFrom? n (index + 1) rest with
    | some found => some found
    | none => if c.base ≤ n ∧ n - c.base < 1 <<< c.extra then some (index, c) else none

/-- The class of a number, with its place in the list. -/
def classOf? (classes : List NumberClass) (n : Nat) : Option (Nat × NumberClass) :=
  classFrom? n 0 classes

/-- The word lengths of the fixed code for octets, the end mark and lengths. -/
def fixedLengths : List Nat :=
  List.replicate 144 8 ++ List.replicate 112 9 ++ List.replicate 24 7 ++ List.replicate 8 8

/-- The word lengths of the fixed code for distances. -/
def fixedDistances : List Nat := List.replicate 32 5

/-- The order in which a block states the word lengths of its code for word lengths. -/
def metaOrder : List Nat := [16, 17, 18, 0, 8, 7, 9, 6, 10, 5, 11, 4, 12, 3, 13, 2, 14, 1, 15]

theorem classFrom?_spec {n index : Nat} {classes : List NumberClass} {place : Nat} {c : NumberClass}
    (h : classFrom? n index classes = some (place, c)) :
    index ≤ place ∧ classes[place - index]? = some c ∧ c.base ≤ n ∧ n - c.base < 1 <<< c.extra := by
  induction classes generalizing index with
  | nil => simp [classFrom?] at h
  | cons d rest ih =>
    simp only [classFrom?] at h
    split at h
    -- a class further on has its place counted from one more
    · rename_i found hFound
      obtain rfl := Option.some.inj h
      obtain ⟨hLe, hGet, hBase, hExtra⟩ := ih hFound
      have hStep : place - index = place - (index + 1) + 1 := by omega
      exact ⟨by omega, by rw [hStep, List.getElem?_cons_succ]; exact hGet, hBase, hExtra⟩
    · simp only [Option.ite_none_right_eq_some, Option.some.injEq, Prod.mk.injEq] at h
      obtain ⟨⟨hBase, hExtra⟩, rfl, rfl⟩ := h
      exact ⟨Nat.le_refl _, by simp, hBase, hExtra⟩

theorem classOf?_spec {classes : List NumberClass} {n place : Nat} {c : NumberClass}
    (h : classOf? classes n = some (place, c)) :
    classes[place]? = some c ∧ c.base ≤ n ∧ n - c.base < 1 <<< c.extra := by
  obtain ⟨_, hGet, hBase, hExtra⟩ := classFrom?_spec h
  exact ⟨by simpa using hGet, hBase, hExtra⟩

end Alphabet

end ReplicatedStore
