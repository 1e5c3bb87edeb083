import ReplicatedStore.Proofs.Backend.Telling
import ReplicatedStore.Proofs.Session.Trail

/-!
# Copies

A fetch at a backend in memory copies what is stored there when it begins, and decodes the copy when it
is finished. So what it gives is settled when it begins: it is what was put there by then, whatever is
put there in between.

Main results:

* `World.begin_of_hasTaken`, `World.Copies.finish` — a fetch gives what was put before it began.
* `Walk.yields_go`, `Walk.yields_resume` — so does a walk that begins at such a backend.
-/

namespace ReplicatedStore

theorem Storage.exists_memory_of_blank_eq {codec : Codec} {m : Memory} {st : Storage}
    (h : st.blank = (memory codec m).blank) : ∃ m', st = memory codec m' := by
  cases st with
  | memory codec' m' =>
    cases h
    exact ⟨m', rfl⟩
  | directory codec' place => cases h
  | gateway codec' peer => cases h
  | scripted s => cases h

namespace World

/-- Whether a backend keeps its objects in memory, in a form that loses nothing: so does every codec that
properties describe. -/
def InMemory (w : World) (b : Nat) : Prop :=
  ∃ c codec m, w.backends[b]? = some c ∧ c.storage = .memory codec m ∧ codec.Lossless

/-- Whether a call of a backend in memory holds on to a copy that a payload is decoded from. -/
def Copies (w : World) (b : Nat) (held : Held) (data : Bytes) : Prop :=
  ∃ c codec m content, w.backends[b]? = some c ∧ c.storage = .memory codec m ∧ held = .stored content ∧
    Memory.decoded codec content = .answered (.content data)

variable {v w : World} {b : Nat} {held : Held} {data : Bytes} {a : Address}

theorem InMemory.of_frame_eq (h : w.InMemory b) (hFrame : v.frame = w.frame) : v.InMemory b := by
  obtain ⟨c, codec, m, hc, hStorage, hLossless⟩ := h
  obtain ⟨c', hc', hBlank⟩ := exists_of_frame_eq hFrame hc
  have hSame : c'.storage.blank = c.storage.blank := congrArg Backend.storage hBlank
  rw [hStorage] at hSame
  obtain ⟨m', hStorage'⟩ := Storage.exists_memory_of_blank_eq hSame
  exact ⟨c', codec, m', hc', hStorage', hLossless⟩

theorem InMemory.isKept (h : w.InMemory b) : w.IsKept b := by
  obtain ⟨c, codec, m, hc, hStorage, -⟩ := h
  exact ⟨c, hc, by rw [hStorage]; rfl⟩

theorem Copies.of_frame_eq (h : w.Copies b held data) (hFrame : v.frame = w.frame) :
    v.Copies b held data := by
  obtain ⟨c, codec, m, content, hc, hStorage, hHeld, hDecoded⟩ := h
  obtain ⟨c', hc', hBlank⟩ := exists_of_frame_eq hFrame hc
  have hSame : c'.storage.blank = c.storage.blank := congrArg Backend.storage hBlank
  rw [hStorage] at hSame
  obtain ⟨m', hStorage'⟩ := Storage.exists_memory_of_blank_eq hSame
  exact ⟨c', codec, m', content, hc', hStorage', hHeld, hDecoded⟩

/-- The copy is decoded when the call is finished. -/
theorem Copies.finish (h : w.Copies b held data) :
    (w.finish b held).2 = .answered (.content data) := by
  obtain ⟨c, codec, m, content, hc, hStorage, rfl, hDecoded⟩ := h
  unfold World.finish
  simp only [hc, hStorage, Memory.finish]
  exact hDecoded

/-- A fetch at a backend in memory gives what was put there, at once or from a copy. -/
theorem begin_of_hasTaken (hMemory : w.InMemory b) (hTaken : w.HasTaken b (.put a data)) :
    (∃ u, w.begin b (.get a) = (u, .over (.answered (.content data)))) ∨
      ∃ u delay held, w.begin b (.get a) = (u, .waiting delay held) ∧ u.Copies b held data := by
  obtain ⟨c, codec, m, hc, hStorage, hLossless⟩ := hMemory
  obtain ⟨c', content, hc', hEncodes, hObject⟩ := hTaken
  rw [hc, Option.some.injEq] at hc'
  subst hc'
  have hKept : c.storage.isKept = true := by rw [hStorage]; rfl
  rw [objectAt?_of_isKept hc hKept, hStorage] at hObject
  have hGet : m.objects.get? a = some content := hObject
  have hDecoded : Memory.decoded codec content = .answered (.content data) :=
    Storage.decoded_of_encodes (.memory m hLossless) (hStorage ▸ hEncodes)
  have hCopies : w.Copies b (.stored content) data := ⟨c, codec, m, content, hc, hStorage, rfl, hDecoded⟩
  have hFrame := frame_begin w b (.get a)
  cases hBegin : w.begin b (.get a) with
  | mk u begun =>
    rw [hBegin] at hFrame
    unfold World.begin at hBegin
    simp only [hc, hStorage, Memory.begin, hGet] at hBegin
    -- without a step to decode nothing is waited for
    by_cases hEmpty : codec.read.isEmpty = true
    · rw [if_pos hEmpty, Prod.mk.injEq] at hBegin
      rw [← hBegin.2, hDecoded]
      exact .inl ⟨u, rfl⟩
    · rw [if_neg hEmpty, Prod.mk.injEq] at hBegin
      rw [← hBegin.2]
      exact .inr ⟨u, _, _, rfl, hCopies.of_frame_eq hFrame⟩

end World

namespace Walk

/-- Whether a walk waits for a call that a payload will come from. -/
def Promises (walk : Walk) (w : World) (held : Held) (data : Bytes) : Prop :=
  ∃ b rest, walk.todo = b :: rest ∧ w.Copies b held data

/-- Whether a walk that was set going has found a payload, or will. -/
def Yields (data : Bytes) : World × WalkState → Prop
  | (_, .over e) => ∃ passed, e = .found passed (.content data)
  | (w, .suspended walk _ held) => walk.Promises w held data

variable {v w : World} {walk : Walk} {b : Nat} {rest : List Nat} {held : Held} {data : Bytes}
  {a : Address}

theorem Promises.of_frame_eq (h : walk.Promises w held data) (hFrame : v.frame = w.frame) :
    walk.Promises v held data := by
  obtain ⟨b, rest, hTodo, hCopies⟩ := h
  exact ⟨b, rest, hTodo, hCopies.of_frame_eq hFrame⟩

/-- A walk that starts at a backend where a payload was put finds it, now or later. -/
theorem yields_go (hTodo : walk.todo = b :: rest) (hRequest : walk.request = .get a)
    (hMemory : w.InMemory b) (hTaken : w.HasTaken b (.put a data)) : Yields data (walk.go w) := by
  unfold go
  rw [hTodo]
  unfold goFrom
  rw [hRequest]
  rcases World.begin_of_hasTaken hMemory hTaken with ⟨u, hBegin⟩ | ⟨u, delay, held, hBegin, hCopies⟩
  · rw [hBegin]
    exact ⟨walk.passed, rfl⟩
  · rw [hBegin]
    exact ⟨b, rest, rfl, hCopies⟩

/-- A walk finds what it has waited for. -/
theorem yields_resume (h : walk.Promises w held data) : Yields data (walk.resume w held) := by
  obtain ⟨b, rest, hTodo, hCopies⟩ := h
  have hFinish := hCopies.finish
  unfold resume
  rw [hTodo]
  simp only
  rw [hFinish]
  exact ⟨walk.passed, rfl⟩

end Walk

end ReplicatedStore
