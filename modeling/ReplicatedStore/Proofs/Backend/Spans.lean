import ReplicatedStore.Proofs.Backend.Effects

/-!
# How long calls take

The call of a scripted backend concerns that backend alone, so how long it takes and what it comes to are
settled before it begins, whatever other backends are called in between. Backends that are asked all at
once take as long as the slowest of them; backends that are asked one after the other take as long as
all together, up to the first that decides.

Main results:

* `World.begin_congr`, `World.finish_congr` — a call depends on nothing but its own backend.
* `World.follows_call` — what a whole call comes to.
* `World.longestSpan_le_iff` — the longest of several calls.
-/

namespace ReplicatedStore

/-- Whether an outcome ends a search over backends. -/
def Outcome.decides : Outcome → Bool
  | failed _ | answered (.presence false) => false
  | answered _ | crashed _ => true

namespace World

/-- Whether all backends are scripted. -/
def IsScripted (w : World) : Prop := ∀ b ∈ w.backends, ∃ script, b.storage = .scripted script

/-- How long the next call of a backend takes. -/
def span (w : World) (r : Request) (position : Nat) : Duration :=
  match (w.begin position r).2 with
  | .over _ => .zero
  | .waiting delay _ => delay

/-- How long the calls of several backends take that begin together. -/
def longestSpan (w : World) (r : Request) (backends : List Nat) : Duration :=
  ⟨backends.foldr (fun i longest => max (w.span r i).nanos longest) 0⟩

/-- How long the calls of several backends take that are made one after the other, up to the first that
decides. -/
def searchSpan (w : World) (r : Request) : List Nat → Duration
  | [] => .zero
  | i :: rest => w.span r i + if (w.call i r).2.decides then .zero else w.searchSpan r rest

variable {v w : World} {r : Request} {position : Nat} {delay : Duration} {held : Held} {o : Outcome}

/-! ## Calls of scripted backends -/

theorem IsScripted.of_frame_eq (h : w.IsScripted) (hFrame : v.frame = w.frame) : v.IsScripted := by
  intro b hb
  obtain ⟨i, hi⟩ := List.getElem?_of_mem hb
  obtain ⟨b', hb', hBlank⟩ := exists_of_frame_eq hFrame.symm hi
  obtain ⟨script, hScript⟩ := h b' (List.mem_of_getElem? hb')
  have hStorage : b'.storage.blank = b.storage.blank := congrArg Backend.storage hBlank
  rw [hScript] at hStorage
  cases hKind : b.storage with
  | scripted script => exact ⟨script, rfl⟩
  | memory codec content =>
    rw [hKind] at hStorage
    contradiction
  | directory codec place =>
    rw [hKind] at hStorage
    contradiction
  | gateway codec peer =>
    rw [hKind] at hStorage
    contradiction

/-- How a call begins depends on its backend alone. -/
theorem begin_congr (hw : w.IsScripted) (hSame : v.backends[position]? = w.backends[position]?)
    (r : Request) : (v.begin position r).2 = (w.begin position r).2 ∧
      (v.begin position r).1.backends[position]? = (w.begin position r).1.backends[position]? := by
  unfold begin
  rw [hSame]
  cases hb : w.backends[position]? with
  | none => exact ⟨rfl, hSame⟩
  | some b =>
    obtain ⟨script, hScript⟩ := hw b (List.mem_of_getElem? hb)
    simp only [hScript, true_and]
    show (v.store position b _).backends[position]? = (w.store position b _).backends[position]?
    rw [getElem?_store_self _ hb, getElem?_store_self _ (hSame.trans hb)]

/-- How a call is finished depends on its backend alone. -/
theorem finish_congr (hw : w.IsScripted) (hSame : v.backends[position]? = w.backends[position]?)
    (held : Held) : (v.finish position held).2 = (w.finish position held).2 ∧
      (v.finish position held).1.backends[position]? =
        (w.finish position held).1.backends[position]? := by
  unfold finish
  rw [hSame]
  cases hb : w.backends[position]? with
  | none => exact ⟨rfl, hSame⟩
  | some b =>
    obtain ⟨script, hScript⟩ := hw b (List.mem_of_getElem? hb)
    simp only [hScript]
    cases held with
    | numbered r number =>
      refine ⟨rfl, ?_⟩
      show (v.store position b _).backends[position]? = (w.store position b _).backends[position]?
      rw [getElem?_store_self _ hb, getElem?_store_self _ (hSame.trans hb)]
    | request r => exact ⟨rfl, hSame⟩
    | stored content => exact ⟨rfl, hSame⟩
    | encoded a content => exact ⟨rfl, hSame⟩

/-- What a scripted backend holds depends on it alone. -/
theorem objectAt?_congr (hw : w.IsScripted) (hSame : v.backends[position]? = w.backends[position]?)
    (a : Address) : v.objectAt? position a = w.objectAt? position a := by
  unfold objectAt?
  rw [hSame]
  cases hb : w.backends[position]? with
  | none => rfl
  | some b =>
    obtain ⟨script, hScript⟩ := hw b (List.mem_of_getElem? hb)
    simp only [hScript, Storage.object?]

theorem HasTaken.congr (h : w.HasTaken position r) (hw : w.IsScripted)
    (hSame : v.backends[position]? = w.backends[position]?) : v.HasTaken position r := by
  cases r with
  | put a data =>
    obtain ⟨b, content, hb, hEncodes, hAt⟩ := h
    exact ⟨b, content, hSame.trans hb, hEncodes, (objectAt?_congr hw hSame a).trans hAt⟩
  | remove a => exact (objectAt?_congr hw hSame a).trans h
  | get a => trivial
  | holds a => trivial

theorem span_of_over (h : (w.begin position r).2 = .over o) : w.span r position = .zero := by
  rw [span, h]

theorem span_of_waiting (h : (w.begin position r).2 = .waiting delay held) :
    w.span r position = delay := by
  rw [span, h]

theorem call_of_over (h : (w.begin position r).2 = .over o) :
    w.call position r = ((w.begin position r).1, o) := by
  rw [call]
  cases hBegin : w.begin position r with
  | mk v begun =>
    rw [hBegin] at h
    obtain rfl : begun = .over o := h
    rfl

theorem call_of_waiting (h : (w.begin position r).2 = .waiting delay held) :
    w.call position r = (w.begin position r).1.finish position held := by
  rw [call]
  cases hBegin : w.begin position r with
  | mk v begun =>
    rw [hBegin] at h
    obtain rfl : begun = .waiting delay held := h
    rfl

/-- A whole call of a backend has an outcome that fits what it leaves. -/
theorem follows_call (w : World) (position : Nat) (r : Request) :
    w.Follows position r (w.call position r).2 (w.call position r).1 := by
  rcases hBegun : (w.begin position r).2 with o | ⟨delay, held⟩
  · rw [call_of_over hBegun]
    exact follows_begin (Prod.ext rfl hBegun)
  · have hPauses := pauses_begin (w := w) (v := (w.begin position r).1) (Prod.ext rfl hBegun)
    have hFollows := follows_finish hPauses.keeps
    rw [call_of_waiting hBegun]
    refine ⟨hFollows.frame.trans hPauses.frame, hFollows.taken, hFollows.done, fun hQuiet => ?_⟩
    exact (hFollows.quiet (hQuiet.of_frame_eq hPauses.frame)).trans hPauses.quiet

/-- Scripted backends are faithful. -/
theorem IsScripted.isFaithful (hw : w.IsScripted)
    (hSame : v.backends[position]? = w.backends[position]?) : v.IsFaithful position := by
  intro b hb
  obtain ⟨script, hScript⟩ := hw b (List.mem_of_getElem? (hSame.symm.trans hb))
  rw [hScript]
  trivial

/-- A call of a faithful backend that decides nothing changes no object. -/
theorem Follows.quiet_of_not_decides (h : w.Follows position r o v) (hFaithful : w.IsFaithful position)
    (hDecides : o.decides = false) : v.objectAt? = w.objectAt? := by
  cases hWrite : r.isWrite with
  | false => exact h.quiet (.read hWrite)
  | true =>
    cases o with
    | failed f => exact h.quiet (.failed f hFaithful)
    | crashed reason => contradiction
    | answered x =>
      -- a write is answered in one way only
      rw [h.done hWrite x rfl] at hDecides
      contradiction

/-! ## Calls that begin together -/

theorem longestSpan_le_iff (w : World) (r : Request) (backends : List Nat) (d : Duration) :
    w.longestSpan r backends ≤ d ↔ ∀ i ∈ backends, w.span r i ≤ d := by
  induction backends with
  | nil => simp [longestSpan, Duration.le_def]
  | cons i rest ih =>
    rw [List.forall_mem_cons, ← ih]
    simp only [longestSpan, List.foldr_cons, Duration.le_def]
    exact Nat.max_le

theorem span_le_longestSpan {backends : List Nat} {i : Nat} (h : i ∈ backends) :
    w.span r i ≤ w.longestSpan r backends :=
  (longestSpan_le_iff w r backends _).mp (Nat.le_refl _) i h

end World

end ReplicatedStore
