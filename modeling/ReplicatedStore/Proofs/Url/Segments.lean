import Mathlib.Data.List.Forall2
import Mathlib.Data.List.Induction
import Mathlib.Tactic.Common
import ReplicatedStore.Url.Basic

/-!
# What the segments of an extended path are

A text put behind a path becomes one segment, which reads as the text again, unless the text is dots or
holds breaks. Dots are left out. Breaks are left out of a text, and dots that show only then are resolved as
in a path that is read: one dot leaves an empty segment, two take the segment before away.

The segments of the root count for none here: the first text takes their place.

Main results:

* `Url.foldl_push` — the segments of texts none of which climbs.
* `Url.plain_of_reads` — if every text is read back from a segment of its own, all texts are plain.
* `Url.segments_of_text_eq` — a URL shows the segments that it has behind those of its base.
-/

namespace ReplicatedStore

/-! ## Reading back what was encoded -/

theorem Bytes.toList_loop (b : ByteArray) (i : Nat) (front : List UInt8) :
    ByteArray.toList.loop b i front = front.reverse ++ b.data.toList.drop i := by
  fun_induction ByteArray.toList.loop b i front with
  | case1 i front hLt ih =>
    have hBound : i < b.data.toList.length := by simpa using hLt
    have hGet : b.get! i = b.data.toList[i] := by
      simp only [ByteArray.get!]
      grind
    rw [ih, List.drop_eq_getElem_cons hBound]
    simp [hGet]
  | case2 i front hGe =>
    have hBound : b.data.toList.length ≤ i := by simpa using hGe
    simp [List.drop_eq_nil_of_le hBound]

/-- Different texts have different octets. -/
theorem Bytes.ofText_injective : Function.Injective Bytes.ofText := by
  intro s t h
  have hList : s.toUTF8.data.toList = t.toUTF8.data.toList := by
    simpa [Bytes.ofText, ByteArray.toList, toList_loop] using h
  have hArray : s.toUTF8 = t.toUTF8 := ByteArray.ext (Array.toList_inj.1 hList)
  exact String.toByteArray_inj.1 hArray

namespace Percent

theorem digit_ne_slash {n : Nat} (h : n < 16) : digit n ≠ '/' := by
  revert n
  decide

theorem slash_notMem_encode {stands : Char → Bool} (hSlash : stands '/' = false) (s : String) :
    '/' ∉ (encode stands s).toList := by
  intro hMem
  simp only [encode, String.toList_ofList, encodeOctets, List.mem_flatMap] at hMem
  obtain ⟨b, -, hMem⟩ := hMem
  have hLt := b.toNat_lt
  unfold encodeOctet at hMem
  simp only at hMem
  split at hMem
  · rename_i hStands
    rw [← List.mem_singleton.1 hMem, hSlash] at hStands
    simp at hStands
  · simp only [List.mem_cons, List.not_mem_nil, or_false] at hMem
    rcases hMem with hMem | hMem | hMem
    · exact absurd hMem (by decide)
    · exact digit_ne_slash (by omega) hMem.symm
    · exact digit_ne_slash (by omega) hMem.symm

end Percent

namespace Url

/-- A text as a segment. -/
def segment (special : Bool) (text : String) : String :=
  Percent.encode (Percent.standsInSegment special) text

/-- A segment that stands for a text. -/
def Reads (segment text : String) : Prop := Percent.decode segment.toList = Bytes.ofText text

theorem reads_segment (special : Bool) (text : String) : Reads (segment special text) text := by
  simp only [Reads, segment, Percent.encode, String.toList_ofList]
  exact Percent.decode_encodeOctets _ (by simp [Percent.standsInSegment]) _

theorem Reads.text_eq {segment s t : String} (hS : Reads segment s) (hT : Reads segment t) : s = t :=
  Bytes.ofText_injective (hS.symm.trans hT)

theorem segment_injective (special : Bool) : Function.Injective (segment special) := by
  intro s t h
  exact (reads_segment special s).text_eq (h ▸ reads_segment special t)

@[simp] theorem segment_empty (special : Bool) : segment special "" = "" := by
  cases special <;> decide +kernel

theorem segment_ne_empty (special : Bool) {text : String} (h : text ≠ "") :
    segment special text ≠ "" := by
  intro hEmpty
  exact h (segment_injective special (hEmpty.trans (segment_empty special).symm))

theorem slash_notMem_segment (special : Bool) (text : String) : '/' ∉ (segment special text).toList :=
  Percent.slash_notMem_encode (by simp [Percent.standsInSegment]) text

/-! ## One text -/

/-- The segments that the next one goes behind: those of the root count for none. -/
def stem (segments : List String) : List String := if segments = [""] then [] else segments

theorem stem_of_ne {segments : List String} (h : segments ≠ [""]) : stem segments = segments := if_neg h

theorem stem_append {segments : List String} (hSome : segments ≠ []) (segment : String) :
    stem (segments ++ [segment]) = segments ++ [segment] := by
  refine stem_of_ne fun hRoot => hSome ?_
  cases segments with
  | nil => rfl
  | cons first rest => simp at hRoot

theorem length_stem_le (segments : List String) : (stem segments).length ≤ segments.length := by
  unfold stem
  split <;> simp

/-- A text that is a segment as it stands: neither dots, nor with a tab or a line end. -/
structure Plain (text : String) : Prop where
  notHere : text ≠ "."
  notUp : text ≠ ".."
  unbroken : withoutBreaks text.toList = text.toList

/-- What the segment of a text stands for; there is none for dots. -/
def taken? (text : String) : Option String :=
  if text = "." ∨ text = ".." then none
  else if withoutBreaks text.toList = ['.'] then some ""
  else some (String.ofList (withoutBreaks text.toList))

/-- A text that leads upwards, for its dots show only without its breaks. -/
def Climbs (text : String) : Prop := text ≠ ".." ∧ withoutBreaks text.toList = ['.', '.']

instance (text : String) : Decidable (Climbs text) := inferInstanceAs (Decidable (_ ∧ _))

/-- A text of which something is left as a segment. -/
structure Stands (text : String) : Prop where
  steady : ¬ Climbs text
  left : ∃ kept, taken? text = some kept ∧ kept ≠ ""

theorem taken?_eq_none_iff (text : String) : taken? text = none ↔ text = "." ∨ text = ".." := by
  unfold taken?
  split
  · simpa
  · rename_i hDots
    simp only [hDots, iff_false]
    split <;> simp

/-- The plain texts are those that their segments stand for. -/
theorem taken?_eq_self_iff (text : String) : taken? text = some text ↔ Plain text := by
  constructor
  · intro h
    have hDots : ¬ (text = "." ∨ text = ".." ) := by
      rw [← taken?_eq_none_iff, h]
      simp
    simp only [taken?, if_neg hDots] at h
    split at h
    · rename_i hDot
      -- the empty text has no dot to show
      rw [← Option.some.inj h] at hDot
      simp [withoutBreaks] at hDot
    · refine ⟨fun hHere => hDots (.inl hHere), fun hUp => hDots (.inr hUp), ?_⟩
      rw [← String.toList_ofList (l := withoutBreaks text.toList), Option.some.inj h]
  · rintro ⟨hHere, hUp, hUnbroken⟩
    have hDot : text.toList ≠ ['.'] := fun h => hHere (by rw [← String.ofList_toList (s := text), h])
    simp [taken?, hHere, hUp, hUnbroken, hDot]

theorem Plain.not_climbs {text : String} (h : Plain text) : ¬ Climbs text := by
  rintro ⟨hUp, hDots⟩
  rw [h.unbroken] at hDots
  exact hUp (by rw [← String.ofList_toList (s := text), hDots])

theorem Plain.stands {text : String} (h : Plain text) (hSome : text ≠ "") : Stands text :=
  ⟨h.not_climbs, text, (taken?_eq_self_iff text).2 h, hSome⟩

theorem push_dots {special : Bool} {segments : List String} {text : String} (h : taken? text = none) :
    pushSegment special segments text = segments :=
  if_pos ((taken?_eq_none_iff text).1 h)

theorem push_climbing {special : Bool} {segments : List String} {text : String} (h : Climbs text) :
    pushSegment special segments text = (stem segments).dropLast ++ [""] := by
  have hHere : text ≠ "." := by
    rintro rfl
    simp [Climbs, withoutBreaks] at h
  simp [pushSegment, stem, h.1, h.2, hHere]

theorem push_taken {special : Bool} {segments : List String} {text kept : String}
    (hClimbs : ¬ Climbs text) (h : taken? text = some kept) :
    pushSegment special segments text = stem segments ++ [segment special kept] := by
  have hDots : ¬ (text = "." ∨ text = "..") := by
    rw [← taken?_eq_none_iff, h]
    simp
  have hUp : withoutBreaks text.toList ≠ ['.', '.'] := fun hUp =>
    hClimbs ⟨fun hText => hDots (.inr hText), hUp⟩
  simp only [taken?, if_neg hDots] at h
  simp only [pushSegment, if_neg hDots, if_neg hUp]
  split at h
  · rename_i hDot
    rw [if_pos hDot, ← Option.some.inj h, segment_empty]
    rfl
  · rename_i hDot
    rw [if_neg hDot, ← Option.some.inj h]
    rfl

/-- A segment with something in it is never taken for the root. -/
theorem stem_push_of_stands (special : Bool) (segments : List String) {text : String} (h : Stands text) :
    stem (pushSegment special segments text) = pushSegment special segments text := by
  obtain ⟨kept, hTaken, hSome⟩ := h.left
  rw [push_taken h.steady hTaken]
  refine stem_of_ne fun hRoot => segment_ne_empty special hSome ?_
  rw [← List.nil_append [""]] at hRoot
  simpa using (List.append_inj' hRoot rfl).2

/-! ## Many texts -/

/-- Texts none of which climbs each put their segment behind those before. -/
theorem foldl_push {special : Bool} {segments texts : List String} (hSome : segments ≠ [])
    (hStem : stem segments = segments) (hClimbs : ∀ t ∈ texts, ¬ Climbs t) :
    texts.foldl (pushSegment special) segments =
      segments ++ (texts.filterMap taken?).map (segment special) := by
  induction texts generalizing segments with
  | nil => simp
  | cons text rest ih =>
    have hRest : ∀ t ∈ rest, ¬ Climbs t := fun t ht => hClimbs t (List.mem_cons_of_mem _ ht)
    rw [List.foldl_cons]
    cases hTaken : taken? text with
    | none =>
      rw [push_dots hTaken, ih hSome hStem hRest, List.filterMap_cons_none hTaken]
    | some kept =>
      rw [push_taken (hClimbs text List.mem_cons_self) hTaken, hStem,
        ih (by simp) (stem_append hSome _) hRest, List.filterMap_cons_some hTaken]
      simp

/-- The stem of segments behind a front stays behind it; of the root, where nothing is in front, nothing
is left. -/
theorem stem_behind (special : Bool) (front : List String) {texts : List String} (hSome : texts ≠ []) :
    ∃ less : List String, (less ≠ [] ∨ front = []) ∧
      stem (front ++ texts.map (segment special)) = front ++ less.map (segment special) := by
  by_cases hRoot : front ++ texts.map (segment special) = [""]
  · cases front with
    | nil => exact ⟨[], .inr rfl, if_pos hRoot⟩
    | cons first rest => simp [hSome] at hRoot
  · exact ⟨texts, .inl hSome, stem_of_ne hRoot⟩

/-- No text takes a segment of the front away once there is one behind it. -/
theorem push_behind (special : Bool) (front : List String) {texts : List String} (hSome : texts ≠ [])
    (text : String) :
    ∃ more : List String, more ≠ [] ∧ pushSegment special (front ++ texts.map (segment special)) text =
      front ++ more.map (segment special) := by
  obtain ⟨less, hLess, hStem⟩ := stem_behind special front hSome
  by_cases hClimbs : Climbs text
  · refine ⟨less.dropLast ++ [""], by simp, ?_⟩
    -- what goes is behind the front, if there is a front at all
    have hFront : (front ++ less.map (segment special)).dropLast =
        front ++ less.dropLast.map (segment special) := by
      cases less with
      | nil => simp [hLess.resolve_left (by simp)]
      | cons first rest => rw [List.dropLast_append_of_ne_nil (by simp), List.map_dropLast]
    rw [push_climbing hClimbs, hStem, hFront, List.map_append, List.map_singleton, segment_empty,
      List.append_assoc]
  · cases hTaken : taken? text with
    | none => exact ⟨texts, hSome, push_dots hTaken⟩
    | some kept =>
      refine ⟨less ++ [kept], by simp, ?_⟩
      rw [push_taken hClimbs hTaken, hStem, List.map_append, List.map_singleton, List.append_assoc]

/-- So no texts lead above the front. -/
theorem foldl_push_behind (special : Bool) (front : List String) {texts : List String} (hSome : texts ≠ [])
    (others : List String) : ∃ more : List String, more ≠ [] ∧
      others.foldl (pushSegment special) (front ++ texts.map (segment special)) =
        front ++ more.map (segment special) := by
  induction others generalizing texts with
  | nil => exact ⟨texts, hSome, rfl⟩
  | cons text rest ih =>
    obtain ⟨more, hMore, hPush⟩ := push_behind special front hSome text
    rw [List.foldl_cons, hPush]
    exact ih hMore

theorem length_stem_push_le (special : Bool) (segments : List String) {text : String}
    (h : taken? text = none ∨ Climbs text) :
    (stem (pushSegment special segments text)).length ≤ (stem segments).length := by
  rcases h with hDots | hClimbs
  · -- dots leave everything as it is
    exact Nat.le_of_eq (by rw [push_dots hDots])
  · rw [push_climbing hClimbs]
    -- the segment that is taken away makes room for the empty one
    cases hStem : stem segments with
    | nil => simp [stem]
    | cons first rest =>
      have hLength := length_stem_le ((first :: rest).dropLast ++ [""])
      simpa using hLength

theorem length_stem_push (special : Bool) (segments : List String) (text : String) :
    (stem (pushSegment special segments text)).length ≤ (stem segments).length + 1 := by
  by_cases hNothing : taken? text = none ∨ Climbs text
  · exact Nat.le_succ_of_le (length_stem_push_le special segments hNothing)
  · obtain ⟨hTaken, hClimbs⟩ := not_or.1 hNothing
    obtain ⟨kept, hKept⟩ := Option.ne_none_iff_exists'.1 hTaken
    rw [push_taken hClimbs hKept]
    refine Nat.le_trans (length_stem_le _) ?_
    simp

/-- Every text adds at most one segment. -/
theorem length_stem_foldl (special : Bool) (segments texts : List String) :
    (stem (texts.foldl (pushSegment special) segments)).length ≤
      (stem segments).length + texts.length := by
  induction texts generalizing segments with
  | nil => simp
  | cons text rest ih =>
    have hFirst := length_stem_push special segments text
    have hRest := ih (pushSegment special segments text)
    rw [List.foldl_cons, List.length_cons]
    omega

/-- The last of some texts is read back from the last segment. -/
theorem reads_append {segments front : List String} {text : String}
    (h : List.Forall₂ Reads segments (front ++ [text])) :
    ∃ before own, segments = before ++ [own] ∧ List.Forall₂ Reads before front ∧ Reads own text := by
  have hReversed := List.forall₂_reverse_iff.2 h
  rw [List.reverse_append, List.reverse_singleton, List.singleton_append] at hReversed
  generalize hSegments : segments.reverse = reversed at hReversed
  cases hReversed with
  | @cons own _ before _ hOwn hFront =>
    refine ⟨before.reverse, own, ?_, List.forall₂_reverse_iff.1 (by simpa using hFront), hOwn⟩
    rw [← List.reverse_cons, ← hSegments, List.reverse_reverse]

/-- If every text is read back from a segment of its own behind the stem, no text was dots or held a
break: a text that adds none leaves one segment too few for all the others to make up for. -/
theorem plain_of_reads {special : Bool} {segments added texts : List String}
    (h : texts.foldl (pushSegment special) segments = stem segments ++ added)
    (hRoot : stem segments ++ added ≠ [""]) (hReads : List.Forall₂ Reads added texts) :
    ∀ t ∈ texts, Plain t := by
  -- from the last text on: those before it add one segment each at most, so it must add its own
  induction texts using List.reverseRecOn generalizing added with
  | nil => simp
  | append_singleton front text ih =>
    obtain ⟨before, own, rfl, hFront, hOwn⟩ := reads_append hReads
    rw [List.foldl_append, List.foldl_cons, List.foldl_nil] at h
    generalize hMiddle : front.foldl (pushSegment special) segments = middle at h ih
    have hLength := length_stem_foldl special segments front
    rw [hMiddle, ← hFront.length_eq] at hLength
    by_cases hNothing : taken? text = none ∨ Climbs text
    · have hShort := length_stem_push_le special middle hNothing
      rw [h, stem_of_ne hRoot] at hShort
      simp only [List.length_append, List.length_cons, List.length_nil] at hShort
      omega
    · obtain ⟨hTaken, hClimbs⟩ := not_or.1 hNothing
      obtain ⟨kept, hKept⟩ := Option.ne_none_iff_exists'.1 hTaken
      rw [push_taken hClimbs hKept, ← List.append_assoc] at h
      obtain ⟨hStem, hLast⟩ := List.append_inj' h rfl
      have hText : kept = text :=
        (reads_segment special kept).text_eq ((List.cons.inj hLast).1 ▸ hOwn)
      have hPlain : Plain text := (taken?_eq_self_iff text).1 (hText ▸ hKept)
      have hOthers : ∀ t ∈ front, Plain t := by
        by_cases hMiddleRoot : middle = [""]
        · -- the root has no segment for any text
          have hNil : before = [] := by
            rw [hMiddleRoot] at hStem
            exact (List.append_eq_nil_iff.1 hStem.symm).2
          rw [hNil] at hFront
          cases hFront
          simp
        · rw [stem_of_ne hMiddleRoot] at hStem
          exact ih hStem (hStem ▸ hMiddleRoot) hFront
      intro t ht
      rcases List.mem_append.1 ht with hIn | hIn
      · exact hOthers t hIn
      · exact List.mem_singleton.1 hIn ▸ hPlain

/-! ## Segments in the text of a URL -/

/-- What stands before the next slash is known from the whole. -/
theorem eq_of_append_eq {x y xs ys : List Char} (hX : '/' ∉ x) (hY : '/' ∉ y)
    (hXs : xs = [] ∨ ∃ rest, xs = '/' :: rest) (hYs : ys = [] ∨ ∃ rest, ys = '/' :: rest)
    (h : x ++ xs = y ++ ys) : x = y ∧ xs = ys := by
  have hFront (z zs : List Char) (hZ : '/' ∉ z) (hZs : zs = [] ∨ ∃ rest, zs = '/' :: rest) :
      (z ++ zs).takeWhile (· ≠ '/') = z := by
    have hAll : ∀ c ∈ z, decide (c ≠ '/') = true := fun c hc =>
      decide_eq_true fun hSlash => hZ (hSlash ▸ hc)
    rw [List.takeWhile_append_of_pos hAll]
    rcases hZs with rfl | ⟨rest, rfl⟩ <;> simp
  have hSame : x = y := by
    rw [← hFront x xs hX hXs, h, hFront y ys hY hYs]
  subst hSame
  exact ⟨rfl, List.append_cancel_left h⟩

/-- The text of a path shows where its segments end. -/
theorem eq_of_join_eq {xs ys : List String} (hXs : ∀ x ∈ xs, '/' ∉ x.toList)
    (hYs : ∀ y ∈ ys, '/' ∉ y.toList)
    (h : String.join (xs.map ("/" ++ ·)) = String.join (ys.map ("/" ++ ·))) : xs = ys := by
  have hStart (zs : List String) : (String.join (zs.map ("/" ++ ·))).toList = [] ∨
      ∃ rest, (String.join (zs.map ("/" ++ ·))).toList = '/' :: rest := by
    cases zs <;> simp
  induction xs generalizing ys with
  | nil =>
    cases ys with
    | nil => rfl
    | cons y ys => simp [← String.toList_inj] at h
  | cons x xs ih =>
    cases ys with
    | nil => simp [← String.toList_inj] at h
    | cons y ys =>
      simp only [List.map_cons, String.join_cons, ← String.toList_inj, String.toList_append] at h
      obtain ⟨hHead, hTail⟩ := eq_of_append_eq (hXs x List.mem_cons_self) (hYs y List.mem_cons_self)
        (hStart xs) (hStart ys) (by simpa using h)
      rw [String.toList_inj.1 hHead, ih (fun z hz => hXs z (List.mem_cons_of_mem _ hz))
        (fun z hz => hYs z (List.mem_cons_of_mem _ hz)) (String.toList_inj.1 hTail)]

/-- A URL shows the segments that stand behind those of its base. -/
theorem segments_of_text_eq {u v : Url} {front xs ys : List String} (hU : u.path = .segments (front ++ xs))
    (hV : v = { u with path := .segments (front ++ ys) }) (hXs : ∀ x ∈ xs, '/' ∉ x.toList)
    (hYs : ∀ y ∈ ys, '/' ∉ y.toList) (h : u.text = v.text) : xs = ys := by
  subst hV
  refine eq_of_join_eq hXs hYs ?_
  cases hQuery : u.query <;>
    simpa [text, target, hU, hQuery, ← String.toList_inj, String.toList_append] using h

end Url

end ReplicatedStore
