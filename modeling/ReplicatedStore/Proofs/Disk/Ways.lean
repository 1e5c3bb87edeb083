import Mathlib.Data.String.Basic
import ReplicatedStore.Proofs.Disk.Paths

/-!
# Paths put together from components

The components of a path make up a path again, which leads to the same place and is not longer. The path
above another one is made so, of all components but the last.

Main results:

* `Path.parts_ofParts` — what a path is put together from can be told from it.
* `Path.parent?_of_parts` — the path above.
* `Disk.objection?_ofParts` — nothing is wrong with what is put together from components of a path with
  which nothing is wrong.
-/

namespace ReplicatedStore

namespace Path

/-- A text that is one component of a path, a name. -/
structure IsComponent (t : String) : Prop where
  ne_empty : t ≠ ""
  ne_here : t ≠ "."
  ne_up : t ≠ ".."
  slash_notMem : '/' ∉ t.toList

instance (t : String) : Decidable (IsComponent t) :=
  decidable_of_iff (t ≠ "" ∧ t ≠ "." ∧ t ≠ ".." ∧ '/' ∉ t.toList)
    ⟨fun h => ⟨h.1, h.2.1, h.2.2.1, h.2.2.2⟩, fun ⟨a, b, c, d⟩ => ⟨a, b, c, d⟩⟩

/-- The text of a component. -/
def word : PathPart → List Char
  | .root => []
  | .here => ['.']
  | .up => ['.', '.']
  | .name t => t.toList

/-- Components as a path may have them. -/
structure IsNormal (ps : List PathPart) : Prop where
  tail : ∀ p ∈ ps.tail, p ≠ .root ∧ p ≠ .here
  names : ∀ t, .name t ∈ ps → IsComponent t

variable {path : String} {ps qs : List PathPart} {p : PathPart} {t : String}

theorem IsComponent.part? (h : IsComponent t) : part? t.toList = some (.name t) := by
  have hEmpty : t.toList ≠ [] := toList_ne_nil h.ne_empty
  have hHere : t.toList ≠ ['.'] := fun hEq => h.ne_here (String.toList_inj.1 hEq)
  have hUp : t.toList ≠ ['.', '.'] := fun hEq => h.ne_up (String.toList_inj.1 hEq)
  rw [Path.part?, if_neg (not_or.2 ⟨hEmpty, hHere⟩), if_neg hUp, String.ofList_toList]

theorem isComponent_of_part? {piece : List Char} (hPiece : piece ∈ Text.pieces '/' path.toList)
    (h : part? piece = some (.name t)) : IsComponent t := by
  unfold part? at h
  split at h
  · contradiction
  · rename_i hNone
    rw [not_or] at hNone
    split at h
    · simp at h
    · rename_i hUp
      obtain rfl : String.ofList piece = t := by simpa using h
      refine ⟨?_, ?_, ?_, ?_⟩
      · exact fun hEq => hNone.1 (by simpa using congrArg String.toList hEq)
      · exact fun hEq => hNone.2 (by simpa using congrArg String.toList hEq)
      · exact fun hEq => hUp (by simpa using congrArg String.toList hEq)
      · rw [String.toList_ofList]
        exact Text.sep_notMem_of_mem_pieces hPiece

theorem lead_cases (path : String) : lead path = [] ∨ lead path = [.root] ∨ lead path = [.here] := by
  unfold lead
  split
  · simp
  · simp
  · split <;> simp

theorem head?_of_lead_eq_here (h : lead path = [.here]) :
    (Text.pieces '/' path.toList).head? = some ['.'] := by
  unfold lead at h
  split at h
  · contradiction
  · simp at h
  · split at h
    · assumption
    · contradiction

theorem ne_of_mem_filterMap_part? {pieces : List (List Char)} (h : p ∈ pieces.filterMap part?) :
    p ≠ .root ∧ p ≠ .here := by
  obtain ⟨piece, -, hPart⟩ := List.mem_filterMap.1 h
  unfold part? at hPart
  split at hPart
  · contradiction
  · split at hPart
    · obtain rfl := Option.some.inj hPart
      simp
    · obtain rfl := Option.some.inj hPart
      simp

theorem isNormal_parts (path : String) : IsNormal (parts path) := by
  rw [parts_eq]
  constructor
  · intro p hp
    rcases lead_cases path with h | h | h <;> rw [h] at hp
    · exact ne_of_mem_filterMap_part? (List.mem_of_mem_tail hp)
    · exact ne_of_mem_filterMap_part? hp
    · exact ne_of_mem_filterMap_part? hp
  · intro t ht
    rcases List.mem_append.1 ht with ht | ht
    · rcases lead_cases path with h | h | h <;> rw [h] at ht <;> simp at ht
    · obtain ⟨piece, hPiece, hPart⟩ := List.mem_filterMap.1 ht
      exact isComponent_of_part? (List.mem_filter.1 hPiece).1 hPart

/-- Names can be put behind any components that a path may have. -/
theorem IsNormal.append_names {names : List String} (h : IsNormal ps)
    (hNames : ∀ t ∈ names, IsComponent t) : IsNormal (ps ++ names.map .name) := by
  have hPlain : ∀ q ∈ names.map PathPart.name, q ≠ .root ∧ q ≠ .here := by
    intro q hq
    obtain ⟨t, -, rfl⟩ := List.mem_map.1 hq
    simp
  constructor
  · intro q hq
    cases ps with
    | nil => exact hPlain q (List.mem_of_mem_tail hq)
    | cons p ps =>
      rcases List.mem_append.1 hq with hq | hq
      · exact h.tail q hq
      · exact hPlain q hq
  · intro t ht
    rcases List.mem_append.1 ht with ht | ht
    · exact h.names t ht
    · simp only [List.mem_map, PathPart.name.injEq, exists_eq_right] at ht
      exact hNames t ht

theorem IsNormal.of_front (h : IsNormal qs) (hPrefix : ps <+: qs) : IsNormal ps := by
  obtain ⟨rest, rfl⟩ := hPrefix
  refine ⟨fun p hp => h.tail p ?_, fun t ht => h.names t (List.mem_append_left _ ht)⟩
  cases ps with
  | nil => simp at hp
  | cons q ps => exact List.mem_append_left _ hp

/-! ## Clean paths -/

/-- A text that is written as names with single slashes between them. -/
def IsClean (path : String) : Prop := ∀ t ∈ Text.split '/' path, IsComponent t

instance (path : String) : Decidable (IsClean path) :=
  inferInstanceAs (Decidable (∀ t ∈ Text.split '/' path, IsComponent t))

theorem IsClean.nil_notMem (h : IsClean path) : [] ∉ Text.pieces '/' path.toList :=
  fun hIn => (h "" ((mem_split path "").2 hIn)).ne_empty rfl

theorem IsClean.leadsDown (h : IsClean path) : LeadsDown path := by
  refine ⟨?_, ?_, fun hStart => ?_, fun hUp => (h ".." hUp).ne_up rfl⟩
  · rintro rfl
    exact h.nil_notMem List.mem_cons_self
  · rw [← Bool.not_eq_true, startsWith_slash_iff]
    rintro ⟨rest, hText⟩
    refine h.nil_notMem ?_
    rw [hText]
    exact List.mem_cons_self
  · exact (h "." (List.mem_of_mem_head? hStart)).ne_here rfl

theorem IsClean.names_eq (h : IsClean path) : names path = Text.split '/' path :=
  List.filter_eq_self.2 fun t ht => by simp [(h t ht).ne_empty, (h t ht).ne_here]

theorem IsClean.piecesOf_eq (h : IsClean path) :
    Disk.piecesOf path = (names path).map String.toList := by
  rw [h.names_eq, Text.split, List.map_map, Disk.piecesOf, List.filter_eq_self.2]
  · simp [Function.comp_def]
  · intro piece hPiece
    simpa using ne_of_mem_of_not_mem hPiece h.nil_notMem

theorem IsClean.isComponent (h : IsClean path) : ∀ t ∈ names path, IsComponent t :=
  h.names_eq ▸ h

/-- A clean path can be told from its names. -/
theorem IsClean.eq_of_names_eq {other : String} (h : IsClean path) (hOther : IsClean other)
    (hNames : names path = names other) : path = other := by
  rw [h.names_eq, hOther.names_eq, Text.split, Text.split] at hNames
  have hPieces : Text.pieces '/' path.toList = Text.pieces '/' other.toList :=
    List.map_injective_iff.2 (fun _ _ hEq => String.ofList_injective hEq) hNames
  rw [← String.toList_inj, ← Text.joined_pieces '/' path.toList, hPieces, Text.joined_pieces]

theorem IsComponent.split_eq (h : IsComponent t) : Text.split '/' t = [t] := by
  rw [Text.split, Text.pieces_of_notMem h.slash_notMem, List.map_singleton, String.ofList_toList]

theorem IsComponent.isClean (h : IsComponent t) : IsClean t := by
  intro s hs
  rw [h.split_eq, List.mem_singleton] at hs
  rwa [hs]

theorem IsComponent.names_eq (h : IsComponent t) : names t = [t] := by
  rw [h.isClean.names_eq, h.split_eq]

/-- A clean path does not end with a slash. -/
theorem IsClean.endsWith_eq (h : IsClean path) : path.endsWith "/" = false := by
  rw [← Bool.not_eq_true, endsWith_slash_iff]
  rintro ⟨front, hText⟩
  refine h.nil_notMem ?_
  rw [hText, Text.pieces_append]
  exact List.mem_append_right _ List.mem_cons_self

/-! ## Putting together -/

theorem toList_ofParts_singleton (h : p ≠ .root) : (ofParts [p]).toList = word p := by
  cases p with
  | root => exact absurd rfl h
  | here => rfl
  | up => rfl
  | name t => rfl

theorem toList_ofParts_cons (p q : PathPart) (rest : List PathPart) :
    (ofParts (p :: q :: rest)).toList = word p ++ '/' :: (ofParts (q :: rest)).toList := by
  have hText (w : String) : (w ++ "/" ++ ofParts (q :: rest)).toList =
      w.toList ++ '/' :: (ofParts (q :: rest)).toList := by
    simp [String.toList_append]
  cases p with
  | root => exact hText ""
  | here => exact hText "."
  | up => exact hText ".."
  | name t => exact hText t

theorem toList_ofParts (h : IsNormal ps) (hNe : ps ≠ [.root]) :
    (ofParts ps).toList = Text.joined '/' (ps.map word) := by
  induction ps with
  | nil => rfl
  | cons p rest ih =>
    cases rest with
    | nil => exact toList_ofParts_singleton fun hEq => hNe (by rw [hEq])
    | cons q rest =>
      have hRest : q :: rest ≠ [.root] := by
        rintro ⟨⟩
        exact (h.tail .root List.mem_cons_self).1 rfl
      have hNormal : IsNormal (q :: rest) :=
        ⟨fun r hr => h.tail r (List.mem_cons_of_mem q hr),
          fun t ht => h.names t (List.mem_cons_of_mem p ht)⟩
      rw [toList_ofParts_cons, ih hNormal hRest]
      rfl

theorem slash_notMem_word (h : IsNormal ps) : ∀ w ∈ ps.map word, '/' ∉ w := by
  intro w hw
  obtain ⟨p, hp, rfl⟩ := List.mem_map.1 hw
  cases p with
  | root => simp [word]
  | here => decide
  | up => decide
  | name t => exact (h.names t hp).slash_notMem

theorem pieces_ofParts (h : IsNormal ps) (hNe : ps ≠ [.root]) (hNil : ps ≠ []) :
    Text.pieces '/' (ofParts ps).toList = ps.map word := by
  rw [toList_ofParts h hNe, Text.pieces_joined (by simpa using hNil) (slash_notMem_word h)]

theorem piecesOf_ofParts (h : IsNormal ps) :
    Disk.piecesOf (ofParts ps) = (ps.map word).filter (· ≠ []) := by
  by_cases hNil : ps = []
  · subst hNil
    rfl
  · by_cases hRoot : ps = [.root]
    · subst hRoot
      rfl
    · rw [Disk.piecesOf, pieces_ofParts h hRoot hNil]

theorem part?_word (h : ∀ t, p = .name t → IsComponent t) :
    part? (word p) = if p = .root ∨ p = .here then none else some p := by
  cases p with
  | root => rfl
  | here => rfl
  | up => rfl
  | name t => exact (h t rfl).part?

theorem word_eq_of_part? {piece : List Char} (h : part? piece = some p) : word p = piece := by
  unfold part? at h
  split at h
  · contradiction
  · split at h
    · rename_i hUp
      rw [← Option.some.inj h, hUp]
      rfl
    · rw [← Option.some.inj h]
      exact String.toList_ofList

theorem filterMap_part?_words (h : ∀ t, .name t ∈ ps → IsComponent t)
    (hPlain : ∀ p ∈ ps, p ≠ .root ∧ p ≠ .here) : (ps.map word).filterMap part? = ps := by
  induction ps with
  | nil => rfl
  | cons p rest ih =>
    rw [List.map_cons, List.filterMap_cons, part?_word fun t ht => h t (ht ▸ List.mem_cons_self),
      if_neg (not_or.2 (hPlain p List.mem_cons_self)),
      ih (fun t ht => h t (List.mem_cons_of_mem p ht)) fun q hq => hPlain q (List.mem_cons_of_mem p hq)]

/-- A path that does not start at the root starts with the text of its first component. -/
theorem relative_ofParts (h : IsNormal (p :: qs)) (hRoot : p ≠ .root) :
    ofParts (p :: qs) ≠ "" ∧ (ofParts (p :: qs)).startsWith "/" = false := by
  obtain ⟨tail, hText⟩ : ∃ tail, (ofParts (p :: qs)).toList = word p ++ tail := by
    cases qs with
    | nil => exact ⟨[], by rw [toList_ofParts_singleton hRoot, List.append_nil]⟩
    | cons q qs => exact ⟨_, toList_ofParts_cons p q qs⟩
  have hSlash : '/' ∉ word p := slash_notMem_word h (word p) List.mem_cons_self
  have hWord : word p ≠ [] := by
    cases p with
    | root => exact absurd rfl hRoot
    | here => simp [word]
    | up => simp [word]
    | name t => exact toList_ne_nil (h.names t List.mem_cons_self).ne_empty
  obtain ⟨c, w, hFirst⟩ := List.exists_cons_of_ne_nil hWord
  rw [hFirst, List.cons_append] at hText
  rw [hFirst, List.mem_cons, not_or] at hSlash
  constructor
  · intro hEmpty
    rw [hEmpty] at hText
    contradiction
  · rw [← Bool.not_eq_true, startsWith_slash_iff]
    rintro ⟨rest, hRest⟩
    rw [hText] at hRest
    exact hSlash.1 (List.cons.inj hRest).1.symm

theorem lead_ofParts (h : IsNormal (p :: qs)) :
    lead (ofParts (p :: qs)) = if p = .root ∨ p = .here then [p] else [] := by
  by_cases hRoot : p = .root
  · subst hRoot
    cases qs with
    | nil => rfl
    | cons q qs =>
      rw [lead, toList_ofParts_cons]
      rfl
  · obtain ⟨hNe, hRelative⟩ := relative_ofParts h hRoot
    have hPieces := pieces_ofParts h (fun hEq => hRoot (List.cons.inj hEq).1) (List.cons_ne_nil p qs)
    rw [lead_of_relative hNe hRelative, hPieces, List.map_cons, List.head?_cons]
    cases hPart : p with
    | root => exact absurd hPart hRoot
    | here => rfl
    | up => rfl
    | name t =>
      have hHere := (h.names t (hPart ▸ List.mem_cons_self)).ne_here
      rw [if_neg, if_neg]
      · simp
      · exact fun hEq => hHere (String.toList_inj.1 (Option.some.inj hEq))

/-- What a path is put together from can be told from it. -/
theorem parts_ofParts (h : IsNormal ps) : parts (ofParts ps) = ps := by
  cases ps with
  | nil => rfl
  | cons p rest =>
    have hRest : (rest.map word).filterMap part? = rest :=
      filterMap_part?_words (fun t ht => h.names t (List.mem_cons_of_mem p ht)) h.tail
    have hWords : ((p :: rest).map word).filterMap part? =
        (part? (word p)).toList ++ rest := by
      rw [List.map_cons, List.filterMap_cons, hRest]
      cases part? (word p) <;> rfl
    rw [parts_eq, piecesOf_ofParts h, filterMap_part?_filter, hWords, lead_ofParts h,
      part?_word fun t ht => h.names t (ht ▸ List.mem_cons_self)]
    split <;> rfl

theorem lead_eq_takeWhile (path : String) :
    lead path = (parts path).takeWhile fun p => p = .root ∨ p = .here := by
  have hBody : ((Disk.piecesOf path).filterMap part?).takeWhile
      (fun p => decide (p = .root ∨ p = .here)) = [] := by
    cases hList : (Disk.piecesOf path).filterMap part? with
    | nil => rfl
    | cons p rest =>
      have hNe := ne_of_mem_filterMap_part? (hList ▸ List.mem_cons_self : p ∈ _)
      exact List.takeWhile_cons_of_neg (by simp [hNe])
  rw [parts_eq]
  rcases lead_cases path with h | h | h <;> rw [h]
  · exact hBody.symm
  · exact congrArg (PathPart.root :: ·) hBody.symm
  · exact congrArg (PathPart.here :: ·) hBody.symm

/-- How a path starts does not depend on the names that it goes on by. -/
theorem lead_of_parts {base : String} {names : List String}
    (h : parts path = parts base ++ names.map .name) : lead path = lead base := by
  have hNames : (names.map PathPart.name).takeWhile
      (fun p => decide (p = .root ∨ p = .here)) = [] := by
    cases names <;> simp
  rw [lead_eq_takeWhile, lead_eq_takeWhile, h, List.takeWhile_append, hNames, List.append_nil]
  split
  · rename_i hAll
    exact (List.takeWhile_prefix _).eq_of_length hAll |>.symm
  · rfl

/-- The path above one that ends in a name. -/
theorem parent?_of_parts (h : parts path = ps ++ [.name t]) : parent? path = some (ofParts ps) := by
  rw [parent?, h, List.reverse_append]
  simp

/-! ## Length -/

theorem joined_cons (sep : Char) (w : List Char) (ws : List (List Char)) :
    Text.joined sep (w :: ws) = w ++ if ws = [] then [] else sep :: Text.joined sep ws := by
  cases ws with
  | nil => simp [Text.joined]
  | cons v ws => rfl

theorem joined_sublist (sep : Char) {ws vs : List (List Char)} (h : ws.Sublist vs) :
    (Text.joined sep ws).Sublist (Text.joined sep vs) := by
  induction h with
  | slnil => exact .slnil
  | @cons ws vs v h ih =>
    rw [joined_cons]
    split
    · rename_i hNil
      subst hNil
      rw [List.eq_nil_of_sublist_nil h]
      exact List.nil_sublist _
    · exact (ih.trans (List.sublist_cons_self sep _)).trans (List.sublist_append_right v _)
  | @cons_cons ws vs w h ih =>
    rw [joined_cons, joined_cons]
    refine (List.Sublist.refl w).append ?_
    split
    · exact List.nil_sublist _
    · rename_i hNe
      have hNe' : vs ≠ [] := by
        rintro rfl
        exact hNe (List.eq_nil_of_sublist_nil h)
      rw [if_neg hNe']
      exact ih.cons_cons sep

theorem words_filterMap_sublist (pieces : List (List Char)) :
    ((pieces.filterMap part?).map word).Sublist pieces := by
  induction pieces with
  | nil => exact .slnil
  | cons piece rest ih =>
    rw [List.filterMap_cons]
    cases hPart : part? piece with
    | none => exact ih.cons piece
    | some p =>
      rw [List.map_cons, word_eq_of_part? hPart]
      exact ih.cons_cons piece

/-- The components of a path stand in it in their order. -/
theorem words_parts_sublist (path : String) :
    ((parts path).map word).Sublist (Text.pieces '/' path.toList) := by
  have hBody := words_filterMap_sublist (Text.pieces '/' path.toList)
  rw [parts_eq, ← filterMap_part?]
  unfold lead
  split
  · exact hBody
  · rename_i rest hText
    rw [hText] at hBody ⊢
    exact (words_filterMap_sublist (Text.pieces '/' rest)).cons_cons []
  · split
    · rename_i hDot
      obtain ⟨rest, hPieces⟩ := List.head?_eq_some_iff.1 hDot
      rw [hPieces]
      exact (words_filterMap_sublist rest).cons_cons ['.']
    · exact hBody

/-- What is put together from components of a path does not have more characters. -/
theorem toList_ofParts_sublist (h : ps <+: parts path) (hRoot : ps ≠ [.root]) :
    (ofParts ps).toList.Sublist path.toList := by
  have hWords := (h.sublist.map word).trans (words_parts_sublist path)
  rw [toList_ofParts ((isNormal_parts path).of_front h) hRoot, ← Text.joined_pieces '/' path.toList]
  exact joined_sublist '/' hWords

end Path

namespace Disk

theorem objection?_eq_none_iff (path : String) : objection? path = none ↔
    '\x00' ∉ path.toList ∧ path ≠ "" ∧ path.utf8ByteSize < maxPath := by
  unfold objection?
  by_cases hNul : path.toList.contains '\x00' = true
  · simp_all
  · by_cases hEmpty : path = ""
    · simp_all
    · by_cases hLong : maxPath ≤ path.utf8ByteSize <;> simp_all

theorem objection?_of_sublist {path other : String} (h : objection? path = none)
    (hSublist : other.toList.Sublist path.toList) (hNe : other ≠ "") : objection? other = none := by
  obtain ⟨hNul, -, hShort⟩ := (objection?_eq_none_iff path).1 h
  refine (objection?_eq_none_iff _).2 ⟨fun hIn => hNul (hSublist.subset hIn), hNe, ?_⟩
  have hSize := String.utf8Len_le_of_sublist hSublist
  rw [← String.utf8ByteSize_ofList, ← String.utf8ByteSize_ofList, String.ofList_toList,
    String.ofList_toList] at hSize
  omega

/-- Nothing is wrong with a path above one with which nothing is wrong. -/
theorem objection?_ofParts {path : String} {ps : List PathPart} (h : objection? path = none)
    (hPrefix : ps <+: Path.parts path) (hNe : ps ≠ []) : objection? (Path.ofParts ps) = none := by
  by_cases hRoot : ps = [.root]
  · subst hRoot
    decide
  · refine objection?_of_sublist h (Path.toList_ofParts_sublist hPrefix hRoot) fun hEmpty => ?_
    have hParts := Path.parts_ofParts ((Path.isNormal_parts path).of_front hPrefix)
    rw [hEmpty] at hParts
    exact hNe hParts.symm

/-- Nothing is wrong with a path to which another one can be joined. -/
theorem objection?_of_join {base path : String} (h : objection? (Path.join base path) = none)
    (hRelative : path.startsWith "/" = false) (hBase : base ≠ "") : objection? base = none := by
  obtain ⟨front, hText, hFront⟩ := Path.toList_join hRelative hBase
  refine objection?_of_sublist h ?_ hBase
  rw [hText]
  rcases hFront with hFront | hFront <;> rw [hFront]
  · exact List.sublist_append_left _ _
  · exact (List.Sublist.refl front).append (List.singleton_sublist.2 List.mem_cons_self)

end Disk

end ReplicatedStore
