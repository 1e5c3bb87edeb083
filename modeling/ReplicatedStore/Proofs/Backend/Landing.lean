import ReplicatedStore.Proofs.Backend.Effects

/-!
# Where writes land

A call comes to its outcome in one of two ways: it is over at once, or it is finished with what it
held on to. A write that is answered lands at its own backend. What a backend keeps itself is apart
from all other calls: a call of another backend, or about another object, or without an answer leaves it
alone. Backends that keep their objects elsewhere may be apart as well; it is up to the place.

Main results:

* `World.ComesTo.lands` — a call lands at its backend, or leaves what is apart from it alone.
* `World.IsKept.apart` — what a backend keeps itself is apart from other calls.
-/

namespace ReplicatedStore

/-- What an answered write does to the objects of a storage is done at its address alone. -/
theorem Storage.Reflects.get?_of_ne {r : Request} {o : Outcome} {before after : Storage}
    (h : Reflects r o before after) {a : Address} (hOther : r.address ≠ a) :
    after.objects.get? a = before.objects.get? a := by
  cases o with
  | failed f => rw [h.objects_eq (.inl rfl)]
  | crashed reason => rw [h.objects_eq (.inl rfl)]
  | answered answer =>
    cases r with
    | put b data =>
      obtain ⟨-, content, -, hObjects⟩ := h
      rw [hObjects]
      exact Objects.get?_insert_of_ne _ content fun hEq => hOther hEq.symm
    | remove b =>
      rw [h.2]
      exact Objects.get?_erase_of_ne _ fun hEq => hOther hEq.symm
    | get b => rw [h.objects_eq (.inr rfl)]
    | holds b => rw [h.objects_eq (.inr rfl)]

namespace World

/-- Whether a call of a request may come to an outcome in a world, and leave it as another one. -/
inductive ComesTo (w : World) (position : Nat) (r : Request) (o : Outcome) (v : World) : Prop
  | begin (h : w.begin position r = (v, .over o))
  | finish {held : Held} (hKeeps : w.Keeps position r held) (h : w.finish position held = (v, o))

/-- Whether a backend keeps its objects itself. -/
def IsKept (w : World) (position : Nat) : Prop :=
  ∃ b, w.backends[position]? = some b ∧ b.storage.isKept = true

/-- Whether what a backend holds at an address is up to its own calls about that address that are
answered. -/
def Apart (w : World) (b : Nat) (a : Address) : Prop :=
  ∀ (v v' : World) (position : Nat) (r : Request) (o : Outcome), v.frame = w.frame →
    v.ComesTo position r o v' → (position ≠ b ∨ r.address ≠ a ∨ o.isAnswered = false) →
      v'.objectAt? b a = v.objectAt? b a

variable {u v w : World} {position b : Nat} {a : Address} {r : Request} {o : Outcome}

theorem ComesTo.follows (h : w.ComesTo position r o v) : w.Follows position r o v := by
  cases h with
  | begin hBegin => exact follows_begin hBegin
  | finish hKeeps hFinish =>
    have hFollows := follows_finish hKeeps
    rwa [hFinish] at hFollows

theorem IsKept.of_frame_eq (h : w.IsKept position) (hFrame : v.frame = w.frame) :
    v.IsKept position := by
  obtain ⟨b, hb, hKept⟩ := h
  obtain ⟨b', hb', hBlank⟩ := exists_of_frame_eq hFrame hb
  exact ⟨b', hb', (Storage.isKept_eq_of_blank_eq (congrArg Backend.storage hBlank)).trans hKept⟩

theorem Apart.of_frame_eq (h : w.Apart b a) (hFrame : v.frame = w.frame) : v.Apart b a :=
  fun v v' position r o hSame hComes hOther => h v v' position r o (hSame.trans hFrame) hComes hOther

theorem IsKept.isFaithful (h : w.IsKept position) : w.IsFaithful position := by
  obtain ⟨b, hb, hKept⟩ := h
  intro c hc
  obtain rfl : b = c := Option.some.inj (hb.symm.trans hc)
  cases hStorage : b.storage with
  | memory codec content => trivial
  | scripted script => trivial
  | directory codec place =>
    rw [hStorage] at hKept
    contradiction
  | gateway codec peer =>
    rw [hStorage] at hKept
    contradiction

/-- A call of another backend leaves a backend alone that keeps its objects itself. -/
theorem IsKept.objectAt?_of_ne (h : w.IsKept b) (hComes : w.ComesTo position r o v)
    (hOther : position ≠ b) : v.objectAt? b = w.objectAt? b := by
  obtain ⟨c, hc, hKept⟩ := h
  have hSame : v.backends[b]? = w.backends[b]? := by
    cases hComes with
    | begin hBegin =>
      have hOthers := getElem?_begin_of_ne w hOther r
      rwa [hBegin] at hOthers
    | @finish held hKeeps hFinish =>
      have hOthers := getElem?_finish_of_ne w hOther held
      rwa [hFinish] at hOthers
  funext a
  rw [objectAt?_of_isKept (hSame.trans hc) hKept, objectAt?_of_isKept hc hKept]

/-- A call about another object leaves the object alone of a backend that keeps its objects itself. -/
theorem IsKept.objectAt?_of_address_ne (h : w.IsKept b) (hComes : w.ComesTo b r o v)
    (hOther : r.address ≠ a) : v.objectAt? b a = w.objectAt? b a := by
  obtain ⟨c, hc, hKept⟩ := h
  have hKept' : v.IsKept b := IsKept.of_frame_eq ⟨c, hc, hKept⟩ hComes.follows.frame
  obtain ⟨c', hc', hKept'⟩ := hKept'
  rw [objectAt?_of_isKept hc' hKept', objectAt?_of_isKept hc hKept]
  -- the call is a step of the storage, which tells what it does to the objects
  cases hComes with
  | begin hBegin =>
    obtain ⟨hBegun, draws, calls, hWorld⟩ := begin_of_isKept hc hKept r
    rw [hBegin] at hBegun hWorld
    have hReflects := Storage.reflects_begin (Prod.ext rfl hBegun.symm : c.storage.begin w.supply r =
      ((c.storage.begin w.supply r).1, .over o))
    have hStored : v.backends[b]? = some { c with storage := (c.storage.begin w.supply r).1 } := by
      rw [show v = _ from hWorld]
      exact getElem?_store_self _ hc
    rw [hc', Option.some.injEq] at hStored
    rw [hStored]
    exact hReflects.get?_of_ne hOther
  | @finish held hKeeps hFinish =>
    obtain ⟨c'', hc'', hKeeps⟩ := hKeeps
    rw [hc, Option.some.injEq] at hc''
    subst hc''
    obtain ⟨-, hWorld⟩ := finish_of_isKept hc hKept hKeeps
    rw [hFinish] at hWorld
    have hStored : v.backends[b]? = some { c with storage := (c.storage.finish held).1 } := by
      rw [show v = _ from hWorld]
      exact getElem?_store_self _ hc
    rw [hc', Option.some.injEq] at hStored
    rw [hStored]
    exact (Storage.reflects_finish hKeeps).get?_of_ne hOther

/-- What a backend keeps itself is up to its own calls. -/
theorem IsKept.apart (h : w.IsKept b) (a : Address) : w.Apart b a := by
  intro v v' position r o hFrame hComes hOther
  have hKept : v.IsKept b := h.of_frame_eq hFrame
  by_cases hPosition : position = b
  · subst hPosition
    rcases hOther.resolve_left fun hNe => hNe rfl with hAddress | hUnanswered
    · exact hKept.objectAt?_of_address_ne hComes hAddress
    · rw [hComes.follows.quiet (hKept.isFaithful.spares r hUnanswered)]
  · rw [hKept.objectAt?_of_ne hComes hPosition]

/-- A write that was done is so as long as the object stays. -/
theorem HasTaken.of_objectAt?_eq (h : w.HasTaken b r) (hFrame : v.frame = w.frame)
    (hObject : v.objectAt? b r.address = w.objectAt? b r.address) : v.HasTaken b r := by
  cases r with
  | put a data =>
    obtain ⟨c, content, hc, hEncodes, hAt⟩ := h
    obtain ⟨c', hc', hBlank⟩ := exists_of_frame_eq hFrame hc
    exact ⟨c', content, hc', hEncodes.of_blank_eq (congrArg Backend.storage hBlank),
      hObject.trans hAt⟩
  | remove a => exact hObject.trans h
  | get a => trivial
  | holds a => trivial

/-- Whether an outcome of a call is a write that has landed at a backend and an address. -/
def Lands (position : Nat) (r : Request) (o : Outcome) (b : Nat) (a : Address) : Prop :=
  o.isAnswered = true ∧ r.isWrite = true ∧ position = b ∧ r.address = a

/-- A call lands at a backend and an address, or leaves the object there alone. -/
theorem ComesTo.lands (h : w.ComesTo position r o v) (hApart : w.Apart b a) :
    Lands position r o b a ∧ v.HasTaken b r ∨
      ¬ Lands position r o b a ∧ v.objectAt? b a = w.objectAt? b a := by
  by_cases hAnswered : o.isAnswered = true
  · by_cases hWrite : r.isWrite = true
    · by_cases hHere : position = b ∧ r.address = a
      · obtain ⟨rfl, hAddress⟩ := hHere
        exact .inl ⟨⟨hAnswered, hWrite, rfl, hAddress⟩, h.follows.taken hAnswered⟩
      · refine .inr ⟨fun hLands => hHere hLands.2.2, hApart w v position r o rfl h ?_⟩
        exact (Classical.not_and_iff_not_or_not.mp hHere).imp_right .inl
    · refine .inr ⟨fun hLands => hWrite hLands.2.1, ?_⟩
      rw [h.follows.quiet (.read (Bool.eq_false_iff.mpr hWrite))]
  · refine .inr ⟨fun hLands => hAnswered hLands.1, hApart w v position r o rfl h ?_⟩
    exact .inr (.inr (Bool.eq_false_iff.mpr hAnswered))

end World

end ReplicatedStore
