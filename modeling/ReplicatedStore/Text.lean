/-!
# Pieces of a text

Paths are texts of pieces between separators. `Text.pieces` cuts a text at every separator and
`Text.joined` puts the separators back.

Main statements:

* `Text.joined_pieces` — the pieces of a text, put together again, are the text.
* `Text.pieces_ne_nil` — a text has at least one piece.
* `Text.sep_notMem_of_mem_pieces` — no piece holds a separator.
* `Text.pieces_append` — a separator parts the pieces before it from those behind it.
* `Text.pieces_joined` — texts without separators, put together, are the pieces of the whole.
-/

namespace ReplicatedStore.Text

/-- The pieces of a text between separators; empty ones count. -/
def pieces (sep : Char) : List Char → List (List Char)
  | [] => [[]]
  | c :: rest =>
    if c = sep then [] :: pieces sep rest
    else
      match pieces sep rest with
      | [] => [[c]]
      | p :: ps => (c :: p) :: ps

/-- Pieces with a separator between each two. -/
def joined (sep : Char) : List (List Char) → List Char
  | [] => []
  | [p] => p
  | p :: q :: rest => p ++ sep :: joined sep (q :: rest)

/-- The pieces of a string between separators. -/
def split (sep : Char) (s : String) : List String := (pieces sep s.toList).map String.ofList

theorem pieces_ne_nil (sep : Char) (s : List Char) : pieces sep s ≠ [] := by
  cases s with
  | nil => simp [pieces]
  | cons c rest =>
    simp only [pieces]
    split
    · simp
    · split <;> simp

theorem joined_pieces (sep : Char) (s : List Char) : joined sep (pieces sep s) = s := by
  induction s with
  | nil => rfl
  | cons c rest ih =>
    simp only [pieces]
    cases hPieces : pieces sep rest with
    | nil => exact absurd hPieces (pieces_ne_nil sep rest)
    | cons p ps =>
      rw [hPieces] at ih
      split
      · rename_i hSep
        simp [joined, ih, hSep]
      · cases ps with
        | nil => simpa [joined] using ih
        | cons q qs => simpa [joined] using ih

theorem sep_notMem_of_mem_pieces {sep : Char} {s p : List Char} (h : p ∈ pieces sep s) : sep ∉ p := by
  induction s generalizing p with
  | nil =>
    simp only [pieces, List.mem_singleton] at h
    simp [h]
  | cons c rest ih =>
    simp only [pieces] at h
    split at h
    · rcases List.mem_cons.1 h with rfl | hRest
      · simp
      · exact ih hRest
    · rename_i hSep
      cases hPieces : pieces sep rest with
      | nil => exact absurd hPieces (pieces_ne_nil sep rest)
      | cons q qs =>
        rw [hPieces] at h ih
        rcases List.mem_cons.1 h with rfl | hRest
        · have := ih List.mem_cons_self
          simp only [List.mem_cons, not_or]
          exact ⟨fun hc => hSep hc.symm, this⟩
        · exact ih (List.mem_cons_of_mem _ hRest)

theorem pieces_append (sep : Char) (front rest : List Char) :
    pieces sep (front ++ sep :: rest) = pieces sep front ++ pieces sep rest := by
  induction front with
  | nil => simp [pieces]
  | cons c front ih =>
    simp only [List.cons_append, pieces, ih]
    split
    · rfl
    · cases hPieces : pieces sep front with
      | nil => exact absurd hPieces (pieces_ne_nil sep front)
      | cons p ps => rfl

theorem pieces_of_notMem {sep : Char} {s : List Char} (h : sep ∉ s) : pieces sep s = [s] := by
  induction s with
  | nil => rfl
  | cons c rest ih =>
    simp only [List.mem_cons, not_or] at h
    simp only [pieces, if_neg (Ne.symm h.1), ih h.2]

theorem pieces_joined {sep : Char} {words : List (List Char)} (hNe : words ≠ [])
    (h : ∀ w ∈ words, sep ∉ w) : pieces sep (joined sep words) = words := by
  induction words with
  | nil => exact absurd rfl hNe
  | cons w rest ih =>
    have hFirst := pieces_of_notMem (h w List.mem_cons_self)
    cases rest with
    | nil => exact hFirst
    | cons v rest =>
      show pieces sep (w ++ sep :: joined sep (v :: rest)) = _
      rw [pieces_append, hFirst, ih (List.cons_ne_nil v rest) fun u hu => h u (List.mem_cons_of_mem w hu)]
      rfl

end ReplicatedStore.Text
