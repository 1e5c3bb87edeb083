/-!
# Placeholders

A settings text may name values of its environment: `${NAME}` stands for the value of a name, and
`${NAME:-DEFAULT}` for the default if the name has none. A text is read once from left to right;
what is put in is not read again, and what is no placeholder stays as it is.

Main statements:

* `Placeholder.flatMap_text_cut` — nothing of a text is lost in its pieces.
* `Placeholder.fill_eq_self` — a text without a dollar sign stays as it is.
-/

namespace ReplicatedStore

/-- The values of an environment. -/
abbrev Environment := String → Option String

/-- A name to look up, with a default. -/
structure Placeholder where
  name : List Char
  default? : Option (List Char)
  deriving DecidableEq, Repr

namespace Placeholder

/-- Whether a character may stand in a name. -/
def isNameChar (c : Char) : Bool := c ≠ '\x7d' && c ≠ ':'

/-- What stands behind an opening brace, if it is the rest of a placeholder: a name, perhaps a colon,
a dash and a default, and a closing brace. -/
def body? (text : List Char) : Option Placeholder :=
  let name := text.takeWhile isNameChar
  if name = [] then none
  else
    match text.dropWhile isNameChar with
    | ':' :: '-' :: rest =>
      let value := rest.takeWhile (· ≠ '\x7d')
      -- an empty default, or one without a closing brace, makes no placeholder
      if value = [] || value.length = rest.length then none
      else some { name, default? := some value }
    | '\x7d' :: _ => some { name, default? := none }
    | _ => none

/-- The placeholder that a text starts with. -/
def ahead? : List Char → Option Placeholder
  | '$' :: '\x7b' :: rest => body? rest
  | _ => none

def text (p : Placeholder) : List Char :=
  let rest := match p.default? with
    | some value => ':' :: '-' :: value
    | none => []
  '$' :: '\x7b' :: (p.name ++ rest ++ ['\x7d'])

def value (env : Environment) (p : Placeholder) : List Char :=
  match env (String.ofList p.name), p.default? with
  | some v, _ => v.toList
  | none, some d => d
  | none, none => p.text

/-- A piece of a text: a character that stands for itself, or a placeholder. -/
inductive Piece
  | plain (c : Char)
  | slot (p : Placeholder)
  deriving DecidableEq, Repr

namespace Piece

def text : Piece → List Char
  | plain c => [c]
  | slot p => p.text

def value (env : Environment) : Piece → List Char
  | plain c => [c]
  | slot p => p.value env

/-- The name that a piece looks up. -/
def name? : Piece → Option String
  | plain _ => none
  | slot p => some (String.ofList p.name)

end Piece

/-- The pieces of a text. `skip` characters are still to be dropped, which belong to the placeholder
before. -/
def cutFrom : (skip : Nat) → List Char → List Piece
  | _, [] => []
  | skip + 1, _ :: rest => cutFrom skip rest
  | 0, c :: rest =>
    match ahead? (c :: rest) with
    | some p => .slot p :: cutFrom (p.text.length - 1) rest
    | none => .plain c :: cutFrom 0 rest

/-- The pieces of a text, from left to right. -/
def cut (s : List Char) : List Piece := cutFrom 0 s

/-- A text with its placeholders filled in. -/
def fill (env : Environment) (s : List Char) : List Char := (cut s).flatMap (Piece.value env)

/-- The names that a text looks up. -/
def names (s : List Char) : List String := (cut s).filterMap Piece.name?

/-! ## Laws -/

theorem eq_text_append_of_body? {s : List Char} {p : Placeholder} (h : body? s = some p) :
    ∃ rest, '$' :: '\x7b' :: s = p.text ++ rest := by
  have hSplit : s.takeWhile isNameChar ++ s.dropWhile isNameChar = s :=
    List.takeWhile_append_dropWhile
  simp only [body?] at h
  split at h
  · contradiction
  · split at h
    · rename_i rest hRest
      have hValue : rest.takeWhile (· ≠ '\x7d') ++ rest.dropWhile (· ≠ '\x7d') = rest :=
        List.takeWhile_append_dropWhile
      split at h
      · contradiction
      · rename_i hShort
        cases h
        cases hEnd : rest.dropWhile (· ≠ '\x7d') with
        -- nothing behind the default: the text was too short for a closing brace
        | nil =>
          rw [hEnd, List.append_nil] at hValue
          rw [hValue] at hShort
          simp at hShort
        | cons c more =>
          -- what ends the default is the brace
          have hBrace : c = '\x7d' := by
            have hHead := List.head?_dropWhile_not (fun c : Char => decide (c ≠ '\x7d')) rest
            rw [hEnd] at hHead
            simpa using hHead
          refine ⟨more, ?_⟩
          rw [hEnd, hBrace] at hValue
          rw [hRest] at hSplit
          simp only [text, List.append_assoc, List.cons_append, List.nil_append, List.cons.injEq,
            true_and]
          rw [hValue, hSplit]
    · rename_i rest hRest
      cases h
      refine ⟨rest, ?_⟩
      rw [hRest] at hSplit
      simp [text, hSplit]
    · contradiction

theorem eq_text_append_of_ahead? {s : List Char} {p : Placeholder} (h : ahead? s = some p) :
    ∃ rest, s = p.text ++ rest := by
  unfold ahead? at h
  split at h
  · exact eq_text_append_of_body? h
  · contradiction

theorem flatMap_text_cutFrom (skip : Nat) (s : List Char) :
    (cutFrom skip s).flatMap Piece.text = s.drop skip := by
  induction s generalizing skip with
  | nil => simp [cutFrom]
  | cons c rest ih =>
    cases skip with
    | succ skip => simpa [cutFrom] using ih skip
    | zero =>
      simp only [cutFrom]
      split
      · rename_i p hAhead
        -- the characters still to be dropped are those of the placeholder but the first
        obtain ⟨more, hMore⟩ := eq_text_append_of_ahead? hAhead
        obtain ⟨t, hText⟩ : ∃ t, p.text = '$' :: t := ⟨_, rfl⟩
        rw [hText, List.cons_append] at hMore
        obtain ⟨rfl, rfl⟩ := List.cons.inj hMore
        simp [Piece.text, ih, hText]
      · simp [Piece.text, ih]

/-- Nothing of a text is lost in its pieces. -/
theorem flatMap_text_cut (s : List Char) : (cut s).flatMap Piece.text = s := flatMap_text_cutFrom 0 s

theorem fill_eq_self (env : Environment) (s : List Char) (h : '$' ∉ s) : fill env s = s := by
  unfold fill cut
  induction s with
  | nil => rfl
  | cons c rest ih =>
    simp only [List.mem_cons, not_or] at h
    have hAhead : ahead? (c :: rest) = none := by
      unfold ahead?
      split
      · rename_i hEq
        exact absurd (List.cons.inj hEq).1.symm h.1
      · rfl
    simp [cutFrom, hAhead, ih h.2, Piece.value]

end Placeholder

end ReplicatedStore
