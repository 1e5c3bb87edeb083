import ReplicatedStore.Backend.Remote
import ReplicatedStore.Proofs.Url.Segments

/-!
# Where a gateway keeps objects

The URL of an object is that of the gateway, extended by the container and by the parts of the name. If all
these are plain the URL is laid out as it should be: one segment for each text, from which the text is read
back, and no other object with plain texts has the same URL.

Texts that are not plain spoil this. Dots are left out, so that a name with dots shares its URL with the
name without them, and a name of dots alone has the URL of its container. Dots that show only when breaks
are left out lead out of the container.

Main results:

* `Gateway.objectUrl_of_settles` — the URL of an object none of whose texts climbs.
* `Gateway.text_objectUrl_eq_iff` — which of these objects share a URL.
* `Gateway.places_objects` — where the objects behind a gateway are, and what goes wrong with dots.
-/

namespace ReplicatedStore

open Url

/-! ## The texts of an address -/

theorem Text.split_of_notMem {s : String} (h : '/' ∉ s.toList) : split '/' s = [s] := by
  rw [split, pieces_of_notMem h, List.map_singleton, String.ofList_toList]

theorem Text.split_append_slash {front : String} (h : '/' ∉ front.toList) (rest : String) :
    split '/' (front ++ "/" ++ rest) = front :: split '/' rest := by
  simp only [split, String.toList_append]
  rw [show "/".toList = ['/'] from rfl, List.append_assoc, List.singleton_append, pieces_append,
    pieces_of_notMem h]
  simp

namespace Address

/-- The texts that the URL of an object is made of. -/
def texts (a : Address) : List String := a.container :: Text.split '/' a.name

/-- The texts that are left in the URL. -/
def kept (a : Address) : List String := a.texts.filterMap taken?

/-- An object whose container makes a segment, and of whose name no part leads out of it. -/
structure Settles (a : Address) : Prop where
  contained : Stands a.container
  steady : ∀ t ∈ Text.split '/' a.name, ¬ Climbs t

/-- An object whose texts all are plain. -/
structure IsPlain (a : Address) : Prop where
  contained : a.container ≠ ""
  plain : ∀ t ∈ a.texts, Plain t

theorem texts_injective : Function.Injective texts := by
  intro a b h
  obtain ⟨hContainer, hParts⟩ := List.cons.inj h
  have hPieces : Text.pieces '/' a.name.toList = Text.pieces '/' b.name.toList :=
    List.map_injective_iff.2 (fun _ _ => String.ofList_injective) hParts
  have hName : a.name.toList = b.name.toList := by
    rw [← Text.joined_pieces '/' a.name.toList, hPieces, Text.joined_pieces]
  cases a
  cases b
  simp_all [String.toList_inj]

theorem IsPlain.settles {a : Address} (h : a.IsPlain) : a.Settles where
  contained := (h.plain _ List.mem_cons_self).stands h.contained
  steady t ht := (h.plain t (List.mem_cons_of_mem _ ht)).not_climbs

theorem IsPlain.kept {a : Address} (h : a.IsPlain) : a.kept = a.texts := by
  have hAll : ∀ t ∈ a.texts, taken? t = some t := fun t ht => (taken?_eq_self_iff t).2 (h.plain t ht)
  unfold Address.kept
  rw [List.filterMap_congr hAll, List.filterMap_some]

/-- Of the name nothing is left if all its parts are dots. -/
theorem kept_eq_singleton_iff {a : Address} {container : String}
    (h : taken? a.container = some container) :
    a.kept = [container] ↔ ∀ t ∈ Text.split '/' a.name, t = "." ∨ t = ".." := by
  rw [kept, texts, List.filterMap_cons_some h, List.cons_eq_cons, List.filterMap_eq_nil_iff]
  simp [taken?_eq_none_iff]

end Address

/-! ## URLs below the base -/

namespace Url

/-- The segments behind which a path is extended: its own, less an empty one at the end, and none if only
an empty one is left. -/
def lead (front : List String) : List String := stem (popEmpty front)

/-- What is left out is a slash at the end, and both of two slashes that are all there is. -/
theorem lead_cases (front : List String) :
    lead front = front ∨ front = lead front ++ [""] ∨ front = ["", ""] := by
  unfold lead popEmpty stem
  by_cases hLast : front.getLast? = some ""
  · obtain ⟨rest, rfl⟩ := List.getLast?_eq_some_iff.1 hLast
    -- an only segment is kept by itself, and left out as the root
    by_cases hRest : rest = []
    · simp [hRest]
    · by_cases hRoot : rest = [""]
      · simp [hRoot]
      · simp [List.length_pos_iff.2 hRest, hRoot]
  · have hRoot : front ≠ [""] := by
      rintro rfl
      simp at hLast
    simp [hLast, hRoot]

/-- A URL below another by some texts: behind the path of the other, it has one segment for each text, from
which the text is read back. In all but the path the two agree. -/
structure LiesBelow (base u : Url) (texts : List String) : Prop where
  scheme : u.scheme = base.scheme
  authority : u.authority = base.authority
  query : u.query = base.query
  fragment : u.fragment = base.fragment
  path : ∃ front added, base.path = .segments front ∧ u.path = .segments (lead front ++ added) ∧
    List.Forall₂ Reads added texts ∧ ∀ segment ∈ added, '/' ∉ segment.toList

theorem extend_eq {base : Url} {front : List String} (h : base.path = .segments front)
    (texts : List String) :
    base.extend texts = { base with
      path := .segments (texts.foldl (pushSegment (isSpecial base.scheme)) (popEmpty front)) } := by
  simp [extend, h]

theorem reads_segments (special : Bool) (texts : List String) :
    List.Forall₂ Reads (texts.map (segment special)) texts :=
  List.forall₂_map_left_iff.2 (List.forall₂_same.2 fun t _ => reads_segment special t)

theorem slash_notMem_segments (special : Bool) (texts : List String) :
    ∀ s ∈ texts.map (segment special), '/' ∉ s.toList := by
  intro s hs
  obtain ⟨t, -, rfl⟩ := List.mem_map.1 hs
  exact slash_notMem_segment special t

/-- Segments of texts behind the base are a URL below it. -/
theorem liesBelow_of_path {base u : Url} {front texts : List String} (hBase : base.path = .segments front)
    (hU : u = { base with path := .segments (lead front ++ texts.map (segment (isSpecial base.scheme))) }) :
    LiesBelow base u texts := by
  subst hU
  exact ⟨rfl, rfl, rfl, rfl, front, _, hBase, rfl, reads_segments _ _, slash_notMem_segments _ _⟩

/-- A text that climbs is no path of several. -/
theorem Climbs.slash_notMem {text : String} (h : Climbs text) : '/' ∉ text.toList := by
  intro hMem
  have hKept : '/' ∈ withoutBreaks text.toList := List.mem_filter.2 ⟨hMem, by decide⟩
  rw [h.2] at hKept
  exact absurd hKept (by decide)

end Url

/-! ## The URLs of objects -/

namespace Gateway

theorem exists_path_of_ofSettings {name url : String} {token : Option String} {g : Gateway}
    (h : ofSettings name url token = .ok g) : ∃ front, g.base.path = .segments front := by
  unfold ofSettings at h
  split at h
  · cases h
  · rename_i base _
    split at h
    · cases h
    · rename_i hDivided
      split at h
      · cases h
      · cases h
        cases hPath : base.path with
        | segments front => exact ⟨front, rfl⟩
        | undivided text => simp [isDivided, hPath] at hDivided

variable {g : Gateway} {front : List String}

/-- The URL of a container. -/
theorem extend_container (hBase : g.base.path = .segments front) {text container : String}
    (h : Stands text) (hTaken : taken? text = some container) :
    g.base.extend [text] = { g.base with
      path := .segments (lead front ++ [container].map (segment (isSpecial g.base.scheme))) } := by
  rw [extend_eq hBase, List.foldl_cons, List.foldl_nil, push_taken h.steady hTaken]
  rfl

/-- The URL of an object, over that of its container. -/
theorem objectUrl_eq (hBase : g.base.path = .segments front) {a : Address} {container : String}
    (h : Stands a.container) (hTaken : taken? a.container = some container) :
    g.objectUrl a = { g.base with
      path := .segments ((Text.split '/' a.name).foldl (pushSegment (isSpecial g.base.scheme))
        (lead front ++ [container].map (segment (isSpecial g.base.scheme)))) } := by
  rw [objectUrl, extend_eq hBase, List.foldl_cons, push_taken h.steady hTaken]
  rfl

theorem stem_container {special : Bool} {text container : String} (h : Stands text)
    (hTaken : taken? text = some container) :
    stem (lead front ++ [container].map (segment special)) =
      lead front ++ [container].map (segment special) := by
  have hStem := stem_push_of_stands special (popEmpty front) h
  rw [push_taken h.steady hTaken] at hStem
  exact hStem

/-- The URL of an object none of whose texts climbs. -/
theorem objectUrl_of_settles (hBase : g.base.path = .segments front) {a : Address} (h : a.Settles) :
    g.objectUrl a = { g.base with
      path := .segments (lead front ++ a.kept.map (segment (isSpecial g.base.scheme))) } := by
  obtain ⟨container, hTaken, -⟩ := h.contained.left
  rw [objectUrl_eq hBase h.contained hTaken,
    foldl_push (by simp) (stem_container h.contained hTaken) h.steady, Address.kept, Address.texts,
    List.filterMap_cons_some hTaken]
  simp

/-- No name leads above the base. -/
theorem exists_objectUrl_eq (hBase : g.base.path = .segments front) {a : Address}
    (h : Stands a.container) : ∃ texts : List String, g.objectUrl a = { g.base with
      path := .segments (lead front ++ texts.map (segment (isSpecial g.base.scheme))) } := by
  obtain ⟨container, hTaken, -⟩ := h.left
  obtain ⟨texts, -, hParts⟩ := foldl_push_behind (isSpecial g.base.scheme) (lead front)
    (List.cons_ne_nil container []) (Text.split '/' a.name)
  exact ⟨texts, by rw [objectUrl_eq hBase h hTaken, hParts]⟩

/-- A part that climbs leads out of the container. -/
theorem foldl_climbing {special : Bool} {text container up : String} (h : Stands text)
    (hTaken : taken? text = some container) (hUp : Climbs up) (rest : List String) :
    (up :: rest).foldl (pushSegment special) (lead front ++ [container].map (segment special)) =
      rest.foldl (pushSegment special) (lead front ++ [""]) := by
  rw [List.foldl_cons, push_climbing hUp, stem_container h hTaken]
  simp

/-- Two objects none of whose texts climbs have the same URL if the same texts are left of both. -/
theorem text_objectUrl_eq_iff (hBase : g.base.path = .segments front) {a b : Address} (hA : a.Settles)
    (hB : b.Settles) : (g.objectUrl a).text = (g.objectUrl b).text ↔ a.kept = b.kept := by
  have hUrlA := objectUrl_of_settles hBase hA
  have hUrlB := objectUrl_of_settles hBase hB
  constructor
  · intro h
    -- both URLs start with the same segments, so the texts tell the others apart
    have hSegments := segments_of_text_eq (u := g.objectUrl a) (v := g.objectUrl b) (by rw [hUrlA])
      (by rw [hUrlA, hUrlB]) (slash_notMem_segments _ _) (slash_notMem_segments _ _) h
    exact List.map_injective_iff.2 (segment_injective _) hSegments
  · intro h
    rw [hUrlA, hUrlB, h]

/-- An object is laid out by all its texts only if these are plain. -/
theorem isPlain_of_liesBelow {a : Address} (hContainer : a.container ≠ "")
    (h : LiesBelow g.base (g.objectUrl a) a.texts) : a.IsPlain := by
  obtain ⟨front, added, hBase, hPath, hReads, -⟩ := h.path
  rw [objectUrl, extend_eq hBase] at hPath
  refine ⟨hContainer, plain_of_reads (UrlPath.segments.inj hPath) ?_ hReads⟩
  -- a name has a part, so that there are two segments at least
  have hTwo : 2 ≤ added.length := by
    have hPart := List.length_pos_iff.2 (Text.pieces_ne_nil '/' a.name.toList)
    rw [hReads.length_eq, Address.texts, Text.split, List.length_cons, List.length_map]
    omega
  intro hRoot
  have hOne := congrArg List.length hRoot
  rw [List.length_append, List.length_singleton] at hOne
  omega

/-- Whatever is asked of an object is asked at its URL. -/
theorem url_of_message {codec : Codec} {nonces : Nat → Nonce} {r : Request} {sent : HttpRequest}
    (h : g.message codec nonces r = .ok sent) : sent.url = g.objectUrl r.address := by
  cases r with
  | get a | remove a | holds a =>
    cases h
    rfl
  | put a data =>
    simp only [message] at h
    cases hEncode : (codec.write.encode nonces data).result with
    | error e => simp [hEncode] at h
    | ok body =>
      rw [hEncode] at h
      cases h
      rfl

/-- An object has the URL of its container if its name is made of dots. -/
theorem objectUrl_eq_extend_iff (hBase : g.base.path = .segments front) {a : Address} (h : a.Settles) :
    g.objectUrl a = g.base.extend [a.container] ↔
      ∀ t ∈ Text.split '/' a.name, t = "." ∨ t = ".." := by
  obtain ⟨container, hTaken, -⟩ := h.contained.left
  rw [objectUrl_of_settles hBase h, extend_container hBase h.contained hTaken,
    ← Address.kept_eq_singleton_iff hTaken]
  constructor
  · intro hUrl
    have hPath := UrlPath.segments.inj (congrArg Url.path hUrl)
    exact List.map_injective_iff.2 (segment_injective _) (List.append_cancel_left hPath)
  · intro hKept
    rw [hKept]

/-- A name that climbs leads to the URL of the gateway. -/
theorem objectUrl_of_climbs (hBase : g.base.path = .segments front) {a : Address}
    (h : Stands a.container) (hUp : Climbs a.name) :
    g.objectUrl a = { g.base with path := .segments (lead front ++ [""]) } := by
  obtain ⟨container, hTaken, -⟩ := h.left
  rw [objectUrl_eq hBase h hTaken, Text.split_of_notMem hUp.slash_notMem, foldl_climbing h hTaken hUp]
  rfl

/-- Below a root, a part that climbs leads to all other objects. -/
theorem objectUrl_astray (hRoot : g.base.path = .segments [""]) {container up : String} {a : Address}
    (h : Stands container) (hUp : Climbs up) (hSlash : '/' ∉ a.container.toList) :
    g.objectUrl ⟨container, up ++ "/" ++ (a.container ++ "/" ++ a.name)⟩ = g.objectUrl a := by
  obtain ⟨kept, hTaken, -⟩ := h.left
  -- the rest of the name is taken for the container and the name of the other object
  rw [objectUrl_eq hRoot h hTaken, Text.split_append_slash hUp.slash_notMem,
    Text.split_append_slash hSlash, foldl_climbing h hTaken hUp, objectUrl, extend_eq hRoot]
  rfl

/-- Where the objects behind a gateway are. -/
structure Places (g : Gateway) : Prop where
  /-- Whatever is asked of an object is asked at its URL. -/
  asks : ∀ codec nonces r sent, g.message codec nonces r = .ok sent → sent.url = g.objectUrl r.address
  /-- The URL is laid out by the container and the parts of the name exactly if all these are plain. -/
  liesBelow_iff : ∀ a : Address, a.container ≠ "" →
    (LiesBelow g.base (g.objectUrl a) a.texts ↔ a.IsPlain)
  /-- No two objects with plain texts share a URL. -/
  apart : ∀ a b : Address, a.IsPlain → b.IsPlain → (g.objectUrl a).text = (g.objectUrl b).text → a = b
  /-- If no text climbs, the object lies below the base by the texts that are left of it. -/
  inside : ∀ a : Address, a.Settles → LiesBelow g.base (g.objectUrl a) a.kept
  /-- So objects share a URL if the same texts are left of them, -/
  shared_iff : ∀ a b : Address, a.Settles → b.Settles →
    ((g.objectUrl a).text = (g.objectUrl b).text ↔ a.kept = b.kept)
  /-- and an object has the URL of its container if its name is made of dots. -/
  onContainer_iff : ∀ a : Address, a.Settles →
    (g.objectUrl a = g.base.extend [a.container] ↔ ∀ t ∈ Text.split '/' a.name, t = "." ∨ t = "..")
  /-- No name leads above the base, -/
  confined : ∀ a : Address, Stands a.container → ∃ texts, LiesBelow g.base (g.objectUrl a) texts
  /-- but a name that climbs leads out of its container, to the URL of the gateway, -/
  outside : ∀ a : Address, Stands a.container → Climbs a.name → LiesBelow g.base (g.objectUrl a) [""]
  /-- and, where that is the root, from there to the objects in other containers. -/
  astray : g.base.path = .segments [""] → ∀ (container up : String) (a : Address), Stands container →
    Climbs up → '/' ∉ a.container.toList →
    g.objectUrl ⟨container, up ++ "/" ++ (a.container ++ "/" ++ a.name)⟩ = g.objectUrl a

/-- **Where a gateway keeps objects.** Of every gateway that is accepted the URLs are as they should be for
objects with plain texts, and for no others. The rest says what URLs the others have: those with dots in
their names share the URLs of objects without, or that of the container, and those with dots that breaks
hide lie outside of it. -/
theorem places_objects {name url : String} {token : Option String} {g : Gateway}
    (hAccepted : ofSettings name url token = .ok g) : g.Places := by
  obtain ⟨front, hBase⟩ := exists_path_of_ofSettings hAccepted
  have hInside (a : Address) (h : a.Settles) : LiesBelow g.base (g.objectUrl a) a.kept :=
    liesBelow_of_path hBase (objectUrl_of_settles hBase h)
  refine ⟨fun _ _ _ _ => url_of_message, ?liesBelow_iff, ?apart, hInside,
    fun _ _ => text_objectUrl_eq_iff hBase, fun _ => objectUrl_eq_extend_iff hBase, ?confined, ?outside,
    fun hRoot _ _ _ => objectUrl_astray hRoot⟩
  case liesBelow_iff =>
    intro a hContainer
    refine ⟨isPlain_of_liesBelow hContainer, fun h => ?_⟩
    rw [← h.kept]
    exact hInside a h.settles
  case apart =>
    intro a b hA hB hText
    have hKept := (text_objectUrl_eq_iff hBase hA.settles hB.settles).1 hText
    rw [hA.kept, hB.kept] at hKept
    exact Address.texts_injective hKept
  case confined =>
    intro a h
    obtain ⟨texts, hUrl⟩ := exists_objectUrl_eq hBase h
    exact ⟨texts, liesBelow_of_path hBase hUrl⟩
  case outside =>
    intro a h hUp
    refine liesBelow_of_path hBase ?_
    rw [objectUrl_of_climbs hBase h hUp, List.map_singleton, segment_empty]

/-- A gateway of objects below a path. -/
def objectsGateway : Gateway :=
  { base := { scheme := "http", authority := some { host := .domain "h" }, path := .segments ["objects"] } }

/-- A name of dots is the container, dots before a name change nothing, and dots that a tab hides lead out
of the container. -/
theorem places_objects_dots :
    objectsGateway.Places ∧ ofSettings "gw" "http://h/objects" none = .ok objectsGateway ∧
      (objectsGateway.objectUrl ⟨"docs", "a b.txt"⟩).text = "http://h/objects/docs/a%20b.txt" ∧
      (objectsGateway.objectUrl ⟨"docs", ".."⟩).text = "http://h/objects/docs" ∧
      (objectsGateway.objectUrl ⟨"docs", "./a.txt"⟩).text = "http://h/objects/docs/a.txt" ∧
      (objectsGateway.objectUrl ⟨"docs", "a.txt"⟩).text = "http://h/objects/docs/a.txt" ∧
      (objectsGateway.objectUrl ⟨"docs", ".\t."⟩).text = "http://h/objects/" := by
  have hParse : Url.parse "http://h/objects" = .ok objectsGateway.base := by decide +kernel
  have hAccepted : ofSettings "gw" "http://h/objects" none = .ok objectsGateway := by
    rw [ofSettings, hParse]
    rfl
  refine ⟨places_objects hAccepted, hAccepted, ?_, ?_, ?_, ?_, ?_⟩
  all_goals decide +kernel

end Gateway

end ReplicatedStore
