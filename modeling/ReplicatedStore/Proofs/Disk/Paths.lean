import Mathlib.Data.List.Basic
import ReplicatedStore.Proofs.Backend.Files

/-!
# What paths are made of

Plain paths are told by their text: they start neither at the root nor with a dot, and none of their
pieces is two dots. Such a path goes down by its names, and joined to another one it goes on down from
where that leads, however either is written.

Main results:

* `Path.isPlain_iff_leadsDown` — which texts are plain paths.
* `Path.parts_join` — the components of a joined path.
* `Disk.placeOf_join` — where a joined path leads to.
-/

namespace ReplicatedStore

namespace Path

/-- A text all of whose components are names, by what may stand between its slashes. -/
structure LeadsDown (path : String) : Prop where
  ne_empty : path ≠ ""
  relative : path.startsWith "/" = false
  start : (Text.split '/' path).head? ≠ some "."
  upless : ".." ∉ Text.split '/' path

/-- The names between the slashes of a path. Empty pieces and dots are none. -/
def names (path : String) : List String :=
  (Text.split '/' path).filter fun t => t ≠ "" ∧ t ≠ "."

/-- What a path starts with that is no name: the root, or a dot at the very start. -/
def lead (path : String) : List PathPart :=
  match path.toList with
  | [] => []
  | '/' :: _ => [.root]
  | _ => if (Text.pieces '/' path.toList).head? = some ['.'] then [.here] else []

variable {base path : String} {piece : List Char}

theorem startsWith_slash_iff : path.startsWith "/" = true ↔ ∃ rest, path.toList = '/' :: rest := by
  rw [String.startsWith_string_iff]
  constructor
  · rintro ⟨rest, h⟩
    exact ⟨rest, h.symm⟩
  · rintro ⟨rest, h⟩
    exact ⟨rest, h.symm⟩

theorem endsWith_slash_iff : path.endsWith "/" = true ↔ ∃ front, path.toList = front ++ ['/'] := by
  rw [← String.endsWith_toSlice, String.Slice.endsWith_string_iff, String.copy_toSlice]
  constructor
  · rintro ⟨front, h⟩
    exact ⟨front, h.symm⟩
  · rintro ⟨front, h⟩
    exact ⟨front, h.symm⟩

theorem toList_ne_nil (h : path ≠ "") : path.toList ≠ [] := by simpa using h

theorem part?_eq_none_iff : part? piece = none ↔ piece = [] ∨ piece = ['.'] := by
  unfold part?
  split
  · simp_all
  · split <;> simp_all

theorem part?_eq_some_up_iff : part? piece = some .up ↔ piece = ['.', '.'] := by
  unfold part?
  split
  · rename_i h
    rcases h with rfl | rfl <;> simp
  · split <;> simp_all

/-! ## The components of a path -/

theorem filterMap_part?_filter (pieces : List (List Char)) :
    (pieces.filter (· ≠ [])).filterMap part? = pieces.filterMap part? := by
  rw [List.filterMap_filter]
  refine List.filterMap_congr fun piece _ => ?_
  by_cases h : piece = []
  · simp [h, part?]
  · simp [h]

theorem filterMap_part? (path : String) :
    (Text.pieces '/' path.toList).filterMap part? = (Disk.piecesOf path).filterMap part? :=
  (filterMap_part?_filter _).symm

theorem parts_eq (path : String) : parts path = lead path ++ (Disk.piecesOf path).filterMap part? := by
  rw [← filterMap_part?]
  unfold parts lead
  rcases path.toList with _ | ⟨c, rest⟩
  · rfl
  · by_cases hRoot : c = '/'
    · subst hRoot
      rfl
    · simp only [List.cons.injEq, hRoot, false_and, imp_self, implies_true]
      split <;> rfl

theorem lead_of_relative (hNe : path ≠ "") (hRelative : path.startsWith "/" = false) :
    lead path = if (Text.pieces '/' path.toList).head? = some ['.'] then [.here] else [] := by
  unfold lead
  split
  · rename_i h
    exact absurd h (toList_ne_nil hNe)
  · rename_i rest h
    rw [startsWith_slash_iff.2 ⟨rest, h⟩] at hRelative
    contradiction
  · rfl

theorem head?_split (path : String) :
    (Text.split '/' path).head? = some "." ↔ (Text.pieces '/' path.toList).head? = some ['.'] := by
  rw [Text.split, List.head?_map, Option.map_eq_some_iff]
  constructor
  · rintro ⟨piece, hHead, hDot⟩
    rw [hHead, ← String.toList_ofList (l := piece), hDot]
    rfl
  · exact fun h => ⟨_, h, rfl⟩

theorem mem_split (path : String) (t : String) :
    t ∈ Text.split '/' path ↔ t.toList ∈ Text.pieces '/' path.toList := by
  rw [Text.split, List.mem_map]
  constructor
  · rintro ⟨piece, hPiece, rfl⟩
    rwa [String.toList_ofList]
  · exact fun h => ⟨_, h, String.ofList_toList⟩

/-! ## Plain paths -/

theorem up_mem_parts_iff (path : String) : .up ∈ parts path ↔ ".." ∈ Text.split '/' path := by
  rw [parts_eq, ← filterMap_part?, List.mem_append, List.mem_filterMap, mem_split]
  have hLead : .up ∉ lead path := by
    unfold lead
    split
    · simp
    · simp
    · split <;> simp
  simp [hLead, part?_eq_some_up_iff]

theorem LeadsDown.lead_eq (h : LeadsDown path) : lead path = [] := by
  rw [lead_of_relative h.ne_empty h.relative, if_neg]
  rw [← head?_split]
  exact h.start

/-- What a plain path consists of, by its text. -/
theorem isPlain_iff_leadsDown : isPlain path = true ↔ LeadsDown path := by
  rw [isPlain_iff]
  constructor
  · rintro ⟨hNe, hNames⟩
    have hRelative : path.startsWith "/" = false := by
      rw [← Bool.not_eq_true, startsWith_slash_iff]
      rintro ⟨rest, hText⟩
      have hRoot : PathPart.root ∈ parts path := by simp [parts_eq, lead, hText]
      obtain ⟨t, ht⟩ := hNames _ hRoot
      contradiction
    refine ⟨hNe, hRelative, fun hStart => ?_, fun hUp => ?_⟩
    · have hHere : PathPart.here ∈ parts path := by
        rw [parts_eq, lead_of_relative hNe hRelative, if_pos ((head?_split path).1 hStart)]
        exact List.mem_append_left _ List.mem_cons_self
      obtain ⟨t, ht⟩ := hNames _ hHere
      contradiction
    · obtain ⟨t, ht⟩ := hNames _ ((up_mem_parts_iff path).2 hUp)
      contradiction
  · intro h
    refine ⟨h.ne_empty, fun p hp => ?_⟩
    have hUp : p ≠ .up := fun hEq => h.upless ((up_mem_parts_iff path).1 (hEq ▸ hp))
    rw [parts_eq, h.lead_eq, List.nil_append, List.mem_filterMap] at hp
    obtain ⟨piece, -, hPart⟩ := hp
    unfold part? at hPart
    split at hPart
    · contradiction
    · split at hPart
      · exact absurd (Option.some.inj hPart).symm hUp
      · exact ⟨_, (Option.some.inj hPart).symm⟩

theorem filterMap_part?_eq_names {pieces : List (List Char)} (h : ['.', '.'] ∉ pieces) :
    pieces.filterMap part? =
      ((pieces.map String.ofList).filter fun t => t ≠ "" ∧ t ≠ ".").map .name := by
  induction pieces with
  | nil => rfl
  | cons piece rest ih =>
    rw [List.mem_cons, not_or] at h
    have hEmpty : String.ofList piece = "" ↔ piece = [] := by
      rw [← String.toList_inj, String.toList_ofList]
      rfl
    have hDot : String.ofList piece = "." ↔ piece = ['.'] := by
      rw [← String.toList_inj, String.toList_ofList]
      rfl
    rw [List.filterMap_cons, ih h.2, List.map_cons, List.filter_cons]
    by_cases hNone : piece = [] ∨ piece = ['.']
    · rw [part?_eq_none_iff.2 hNone, if_neg]
      simpa [hEmpty, hDot] using fun hNe => hNone.resolve_left hNe
    · rw [part?, if_neg hNone, if_neg (Ne.symm h.1), if_pos]
      · rfl
      · rw [not_or] at hNone
        simpa [hEmpty, hDot] using hNone

theorem LeadsDown.filterMap_part?_eq (h : LeadsDown path) :
    (Disk.piecesOf path).filterMap part? = (names path).map .name := by
  rw [← filterMap_part?, filterMap_part?_eq_names]
  · rfl
  · exact fun hUp => h.upless ((mem_split path "..").2 hUp)

/-- A plain path leads somewhere: a text of nothing but slashes and dots starts with one of them. -/
theorem LeadsDown.names_ne_nil (h : LeadsDown path) : names path ≠ [] := by
  obtain ⟨first, rest, hPieces⟩ :=
    List.exists_cons_of_ne_nil (Text.pieces_ne_nil '/' path.toList)
  have hFirst : String.ofList first ∈ names path := by
    refine List.mem_filter.2 ⟨by simp [Text.split, hPieces], ?_⟩
    simp only [ne_eq, Bool.decide_and, decide_not, Bool.and_eq_true, Bool.not_eq_eq_eq_not,
      Bool.not_true, decide_eq_false_iff_not]
    constructor
    · intro hEmpty
      -- an empty first piece is followed by a slash, or by nothing at all
      obtain rfl : first = [] := by simpa using hEmpty
      have hText := Text.joined_pieces '/' path.toList
      rw [hPieces] at hText
      cases rest with
      | nil => exact toList_ne_nil h.ne_empty hText.symm
      | cons next rest =>
        have hRelative := h.relative
        rw [startsWith_slash_iff.2 ⟨_, hText.symm⟩] at hRelative
        contradiction
    · intro hDot
      apply h.start
      rw [Text.split, hPieces, List.map_cons, List.head?_cons, hDot]
  exact List.ne_nil_of_mem hFirst

/-! ## Joined paths -/

/-- A path that is joined to another one stands behind a slash. -/
theorem toList_join (hRelative : path.startsWith "/" = false) (hBase : base ≠ "") :
    ∃ front, (join base path).toList = front ++ '/' :: path.toList ∧
      (base.toList = front ∨ base.toList = front ++ ['/']) := by
  unfold join
  rw [hRelative]
  simp only [Bool.false_eq_true, if_false, Bool.or_eq_true, decide_eq_true_eq, hBase, false_or]
  split
  · rename_i hSlash
    obtain ⟨front, hFront⟩ := endsWith_slash_iff.1 hSlash
    exact ⟨front, by rw [String.toList_append, hFront, List.append_assoc]; rfl, .inr hFront⟩
  · refine ⟨base.toList, ?_, .inl rfl⟩
    rw [String.toList_append, String.toList_append, List.append_assoc]
    rfl

theorem endsWith_join (hRelative : path.startsWith "/" = false) (hNe : path ≠ "") (base : String) :
    (join base path).endsWith "/" = path.endsWith "/" := by
  by_cases hBase : base = ""
  · simp [join, hRelative, hBase]
  · obtain ⟨front, hText, -⟩ := toList_join hRelative hBase
    rw [Bool.eq_iff_iff, endsWith_slash_iff, endsWith_slash_iff, hText,
      ← List.getLast?_eq_some_iff, ← List.getLast?_eq_some_iff, List.getLast?_append,
      List.getLast?_cons_of_ne_nil (toList_ne_nil hNe)]
    cases hLast : path.toList.getLast? with
    | none => exact absurd (List.getLast?_eq_none_iff.1 hLast) (toList_ne_nil hNe)
    | some c => rfl

theorem join_empty (hRelative : path.startsWith "/" = false) : join "" path = path := by
  simp [join, hRelative]

theorem piecesOf_join (hRelative : path.startsWith "/" = false) (base : String) :
    Disk.piecesOf (join base path) = Disk.piecesOf base ++ Disk.piecesOf path := by
  by_cases hBase : base = ""
  · rw [hBase, join_empty hRelative]
    rfl
  · obtain ⟨front, hText, hFront⟩ := toList_join hRelative hBase
    have hPieces : Disk.piecesOf base = (Text.pieces '/' front).filter (· ≠ []) := by
      rcases hFront with hFront | hFront
      · rw [Disk.piecesOf, hFront]
      · rw [Disk.piecesOf, hFront, Text.pieces_append, List.filter_append]
        simp [Text.pieces]
    rw [hPieces, Disk.piecesOf, hText, Text.pieces_append, List.filter_append]
    rfl

theorem head?_pieces_join (hRelative : path.startsWith "/" = false) (hBase : base ≠ "") :
    (Text.pieces '/' (join base path).toList).head? = (Text.pieces '/' base.toList).head? := by
  obtain ⟨front, hText, hFront⟩ := toList_join hRelative hBase
  have hFirst := Text.pieces_ne_nil '/' front
  rw [hText, Text.pieces_append, List.head?_append_of_ne_nil _ hFirst]
  rcases hFront with hFront | hFront
  · rw [hFront]
  · rw [hFront, Text.pieces_append, List.head?_append_of_ne_nil _ hFirst]

/-- What is joined to a path does not change how that starts. -/
theorem lead_join (h : LeadsDown path) (base : String) : lead (join base path) = lead base := by
  by_cases hBase : base = ""
  · rw [hBase, join_empty h.relative, h.lead_eq]
    rfl
  · have hHead := head?_pieces_join h.relative hBase
    obtain ⟨front, hText, hFront⟩ := toList_join h.relative hBase
    obtain ⟨c, more, rest, hSame⟩ :
        ∃ c more rest, (join base path).toList = c :: more ∧ base.toList = c :: rest := by
      rw [hText]
      cases front with
      | nil =>
        rcases hFront with hFront | hFront
        · exact absurd hFront (toList_ne_nil hBase)
        · exact ⟨'/', path.toList, [], rfl, hFront⟩
      | cons c front =>
        rcases hFront with hFront | hFront
        · exact ⟨c, _, _, rfl, hFront⟩
        · exact ⟨c, _, _, rfl, hFront⟩
    rw [hSame.1, hSame.2] at hHead
    unfold lead
    rw [hSame.1, hSame.2]
    by_cases hRoot : c = '/'
    · subst hRoot
      rfl
    · simp only [List.cons.injEq, hRoot, false_and, imp_self, implies_true, hHead]

/-- The components of a joined path are those of the first and then the names of the second. -/
theorem parts_join (h : LeadsDown path) (base : String) :
    parts (join base path) = parts base ++ (names path).map .name := by
  rw [parts_eq, parts_eq base, lead_join h, piecesOf_join h.relative, List.filterMap_append,
    h.filterMap_part?_eq, List.append_assoc]

theorem join_ne_empty (h : LeadsDown path) (base : String) : join base path ≠ "" := by
  intro hEmpty
  have hParts := parts_join h base
  rw [hEmpty] at hParts
  simpa [h.names_ne_nil] using (List.append_eq_nil_iff.1 hParts.symm).2

end Path

/-! ## Where paths lead to -/

namespace Disk

/-- The place that one more component leads to. -/
def step (place : Place) : PathPart → Place
  | .root => []
  | .here => place
  | .up => place.dropLast
  | .name t => place ++ [t]

/-- The place that components lead to, whatever is there. -/
def placeAt (d : Disk) (parts : List PathPart) : Place := parts.foldl step d.origin

theorem foldl_enter (pieces : List (List Char)) (place : Place) :
    pieces.foldl enter place = (pieces.filterMap Path.part?).foldl step place := by
  induction pieces generalizing place with
  | nil => rfl
  | cons piece rest ih =>
    rw [List.foldl_cons, List.filterMap_cons, ih, enter]
    cases hPart : Path.part? piece with
    | none => rfl
    | some part =>
      rw [List.foldl_cons]
      cases part with
      | root => simp [Path.part?, ite_eq_iff] at hPart
      | here => rfl
      | up => rfl
      | name t => rfl

theorem startOf_eq_foldl_lead (d : Disk) (path : String) :
    d.startOf path = (Path.lead path).foldl step d.origin := by
  unfold startOf Path.lead
  split
  · rename_i hRoot
    obtain ⟨rest, hText⟩ := Path.startsWith_slash_iff.1 hRoot
    rw [hText]
    rfl
  · rename_i hRoot
    split
    · rfl
    · rename_i rest hText
      exact absurd (Path.startsWith_slash_iff.2 ⟨rest, hText⟩) hRoot
    · split <;> rfl

theorem placeOf_eq_placeAt (d : Disk) (path : String) : d.placeOf path = d.placeAt (Path.parts path) := by
  rw [placeOf, placeAt, Path.parts_eq, List.foldl_append, foldl_enter, startOf_eq_foldl_lead]

theorem foldl_step_names (names : List String) (place : Place) :
    (names.map PathPart.name).foldl step place = place ++ names := by
  induction names generalizing place with
  | nil => simp
  | cons t rest ih => simp [step, ih]

theorem placeAt_append_names (d : Disk) (parts : List PathPart) (names : List String) :
    d.placeAt (parts ++ names.map .name) = d.placeAt parts ++ names := by
  rw [placeAt, List.foldl_append, foldl_step_names]
  rfl

/-- A joined path goes on down from where the first one leads. -/
theorem placeOf_join {path : String} (h : Path.LeadsDown path) (d : Disk) (base : String) :
    d.placeOf (Path.join base path) = d.placeOf base ++ Path.names path := by
  rw [placeOf_eq_placeAt, Path.parts_join h, placeAt_append_names, ← placeOf_eq_placeAt]

end Disk

end ReplicatedStore
