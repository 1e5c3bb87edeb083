import ReplicatedStore.Proofs.Backend.Effects
import ReplicatedStore.Proofs.Backend.Likeness

/-!
# What a fetch is told

A backend that has taken a write tells of it to a fetch: after a put it gives the payload, and after a
removal it fails. It may also fail because it cannot be read, which some backends never do. This is told
by the objects alone, so it does not matter which calls there were before.

Main results:

* `World.tells_call` — what a whole call comes to.
* `World.Manner.begin`, `World.Manner.finish` — calls do not change who tells.
-/

namespace ReplicatedStore

namespace Storage

/-- Whether a storage gives nothing to a fetch but what it holds. What is behind a gateway is up to the
peer. -/
inductive Tells : Storage → Prop
  | memory {codec : Codec} (m : Memory) (lossless : codec.Lossless) : Tells (memory codec m)
  | directory {codec : Codec} (place : Directory) (lossless : codec.Lossless) :
      Tells (directory codec place)
  | scripted {s : Script} (calm : ∀ number, (s.behaviour .get number).crash = none) :
      Tells (scripted s)

/-- Whether a storage gives what it holds to every fetch. -/
inductive Heeds : Storage → Prop
  | memory {codec : Codec} (m : Memory) (lossless : codec.Lossless) : Heeds (memory codec m)
  | scripted {s : Script} (calm : ∀ number, (s.behaviour .get number).crash = none)
      (well : ∀ number, (s.behaviour .get number).failure = none) : Heeds (scripted s)

/-- Whether a storage is of the same kind as another, and reads of it go in the same way. -/
inductive Manner : Storage → Storage → Prop
  | memory (codec : Codec) (m m' : Memory) : Manner (memory codec m) (memory codec m')
  | scripted {s s' : Script} (h : s'.behaviour = s.behaviour) : Manner (scripted s) (scripted s')
  | same (st : Storage) : Manner st st

/-- What a storage gives of a content that it holds. -/
def decoded (content : Bytes) : Storage → Outcome
  | memory codec _ | directory codec _ | gateway codec _ => Memory.decoded codec content
  | scripted _ => .answered (.content content)

variable {st st' st'' : Storage}

/-- What is given of the content that was made of a payload is the payload. -/
theorem decoded_of_encodes {data content : Bytes} (hTells : st.Tells) (h : st.Encodes data content) :
    st.decoded content = .answered (.content data) := by
  have hDecoded {codec : Codec} (hLossless : codec.Lossless)
      (hEncodes : ∃ nonces, (codec.write.encode nonces data).result = .ok content) :
      Memory.decoded codec content = .answered (.content data) := by
    obtain ⟨nonces, hEncode⟩ := hEncodes
    obtain ⟨content', hEncode', hDecode⟩ := hLossless nonces data
    rw [hEncode, Except.ok.injEq] at hEncode'
    subst hEncode'
    rw [Memory.decoded, hDecode]
  cases hTells with
  | memory m hLossless => exact hDecoded hLossless h
  | directory place hLossless => exact hDecoded hLossless h
  | scripted calm =>
    obtain rfl : content = data := h
    rfl

theorem Manner.trans (h : Manner st st') (h' : Manner st' st'') : Manner st st'' := by
  cases h with
  | memory codec m m' =>
    cases h' with
    | memory => exact .memory ..
    | same => exact .memory ..
  | scripted hSame =>
    cases h' with
    | scripted hSame' => exact .scripted (hSame'.trans hSame)
    | same => exact .scripted hSame
  | same => exact h'

theorem Tells.of_manner (h : st.Tells) (hManner : Manner st st') : st'.Tells := by
  cases hManner with
  | memory codec m m' =>
    cases h with
    | memory _ lossless => exact .memory m' lossless
  | scripted hSame =>
    cases h with
    | scripted calm => exact .scripted fun number => by rw [hSame, calm number]
  | same => exact h

theorem Heeds.of_manner (h : st.Heeds) (hManner : Manner st st') : st'.Heeds := by
  cases hManner with
  | memory codec m m' =>
    cases h with
    | memory _ lossless => exact .memory m' lossless
  | scripted hSame =>
    cases h with
    | scripted calm well =>
      exact .scripted (fun number => by rw [hSame, calm number]) fun number => by
        rw [hSame, well number]
  | same => exact h

end Storage

namespace World

/-- Whether the backends of a world are of the same kinds as those of another, and reads of them go in
the same way. -/
def Manner (v w : World) : Prop :=
  ∀ (i : Nat) b, w.backends[i]? = some b → ∃ b', v.backends[i]? = some b' ∧
    b.storage.Manner b'.storage

def TellsAt (w : World) (i : Nat) : Prop := ∃ b, w.backends[i]? = some b ∧ b.storage.Tells

def HeedsAt (w : World) (i : Nat) : Prop := ∃ b, w.backends[i]? = some b ∧ b.storage.Heeds

/-- What a fetch of an object comes to at a backend that has taken a write of it. -/
def TellsOf (w : World) (i : Nat) (r : Request) (o : Outcome) : Prop :=
  (∃ a data, r = .put a data ∧ o = .answered (.content data)) ∨
    (∃ f, o = .failed f) ∧ (w.HeedsAt i → ∀ a data, r ≠ .put a data)

variable {u v w : World} {i : Nat} {r : Request} {b : Backend} {st : Storage}

namespace Manner

theorem refl (w : World) : Manner w w := fun _ b hb => ⟨b, hb, .same _⟩

theorem trans (h : Manner v w) (h' : Manner u v) : Manner u w := by
  intro i b hb
  obtain ⟨b', hb', hManner⟩ := h i b hb
  obtain ⟨b'', hb'', hManner'⟩ := h' i b' hb'
  exact ⟨b'', hb'', hManner.trans hManner'⟩

theorem of_store (hb : w.backends[i]? = some b) (st : Storage) (h : b.storage.Manner st) :
    Manner (w.store i b st) w := by
  intro j c hc
  by_cases hj : i = j
  · subst hj
    rw [hb, Option.some.injEq] at hc
    subst hc
    exact ⟨_, getElem?_store_self st hb, h⟩
  · exact ⟨c, (getElem?_store_of_ne w hj b st).trans hc, .same _⟩

theorem begin (w : World) (i : Nat) (r : Request) : Manner (w.begin i r).1 w := by
  unfold World.begin
  split
  · exact refl w
  · rename_i b hb
    split
    · rename_i codec m hStorage
      have hManner := of_store hb (.memory codec (m.begin codec w.supply r).1)
        (by rw [hStorage]; exact .memory ..)
      exact fun j c hc => hManner j c hc
    · exact refl w
    · exact refl w
    · rename_i script hStorage
      have hSame : (script.begin r).1.behaviour = script.behaviour := by
        unfold Script.begin
        simp only
        split
        · exact Storage.behaviour_finish ..
        · rfl
      have hManner := of_store hb (.scripted (script.begin r).1)
        (by rw [hStorage]; exact .scripted hSame)
      exact fun j c hc => hManner j c hc

theorem finish (w : World) (i : Nat) (held : Held) : Manner (w.finish i held).1 w := by
  unfold World.finish
  split
  · exact refl w
  · rename_i b hb
    split
    · rename_i codec m _ hStorage
      exact of_store hb _ (by rw [hStorage]; exact .memory ..)
    · exact fun j c hc => ⟨c, hc, .same _⟩
    · split
      · exact refl w
      · exact fun j c hc => ⟨c, hc, .same _⟩
    · rename_i script r number hStorage
      refine of_store hb _ ?_
      rw [hStorage]
      exact .scripted (Storage.behaviour_finish ..)
    · exact refl w

theorem tellsAt (h : Manner v w) (hTells : w.TellsAt i) : v.TellsAt i := by
  obtain ⟨b, hb, hIs⟩ := hTells
  obtain ⟨b', hb', hManner⟩ := h i b hb
  exact ⟨b', hb', hIs.of_manner hManner⟩

end Manner

theorem Manner.heedsAt (h : Manner v w) (hHeeds : w.HeedsAt i) : v.HeedsAt i := by
  obtain ⟨b, hb, hIs⟩ := hHeeds
  obtain ⟨b', hb', hManner⟩ := h i b hb
  exact ⟨b', hb', hIs.of_manner hManner⟩

/-! ## Whole calls -/

variable {a : Address} {codec : Codec} {content data : Bytes} {o : Outcome}

theorem call_get_directory {place : Directory} (hb : w.backends[i]? = some b)
    (hStorage : b.storage = .directory codec place) :
    (w.call i (.get a)).2 = place.get codec w.disk a := by
  unfold call begin
  simp only [hb, hStorage, Directory.begin, Directory.objection?, Request.address]
  cases hPath : place.objectPath a with
  | error f => simp [Directory.get, hPath]
  | ok path => simp [World.finish, hb, hStorage, Directory.call]

/-- A fetch gives what the object at its address is decoded to, or it fails; who heeds every fetch only
fails if there is no object. -/
theorem call_get_cases (hb : w.backends[i]? = some b) (hTells : b.storage.Tells) (a : Address) :
    (∃ f, (w.call i (.get a)).2 = .failed f ∧ (b.storage.Heeds → w.objectAt? i a = none)) ∨
      ∃ content, w.objectAt? i a = some content ∧
        (w.call i (.get a)).2 = b.storage.decoded content := by
  cases hStorage : b.storage with
  | gateway codec peer =>
    rw [hStorage] at hTells
    cases hTells
  | directory codec place =>
    have hObject : w.objectAt? i a = (Storage.directory codec place).object? w a := by
      rw [objectAt?, hb]
      exact congrArg (Storage.object? w a) hStorage
    rw [call_get_directory hb hStorage, hObject]
    rcases place.get_cases codec w.disk a with ⟨f, hf⟩ | ⟨path, content, hPath, hContent, hGives⟩
    · refine .inl ⟨f, hf, fun hHeeds => ?_⟩
      cases hHeeds
    · refine .inr ⟨content, ?_, hGives⟩
      rw [Storage.object?, hPath]
      exact hContent
  | memory codec m =>
    have hKept : b.storage.isKept = true := by rw [hStorage]; rfl
    obtain ⟨c, c', hc, -, hCall⟩ := (calls_call hb hKept (.get a)).call
    rw [hb, Option.some.injEq] at hc
    subst hc
    rw [hStorage] at hCall
    obtain ⟨-, hOutcome⟩ := Storage.calls_get_memory hCall
    have hHolds : w.objectAt? i a = m.objects.get? a := by
      rw [objectAt?_of_isKept hb hKept, hStorage]
      rfl
    rw [hHolds, hOutcome]
    cases hObject : m.objects.get? a with
    | none => exact .inl ⟨_, rfl, fun _ => rfl⟩
    | some content => exact .inr ⟨content, rfl, rfl⟩
  | scripted s =>
    have hKept : b.storage.isKept = true := by rw [hStorage]; rfl
    obtain ⟨c, c', hc, -, hCall⟩ := (calls_call hb hKept (.get a)).call
    rw [hb, Option.some.injEq] at hc
    subst hc
    rw [hStorage] at hCall hTells
    obtain ⟨hOutcome, -⟩ := Storage.calls_scripted hCall
    rw [objectAt?_of_isKept hb hKept, hStorage, hOutcome]
    cases hTells with
    | scripted calm =>
      -- the call does not crash, so it fails or does its work
      have hBehaviour : (s.asked (.get a)).behaviour = s.behaviour := rfl
      simp only [Script.finish, Request.operation, hBehaviour, calm, reduceCtorEq, false_and, if_false]
      cases hFailure : (s.behaviour .get (s.made.count .get)).failure with
      | some f =>
        refine .inl ⟨f, rfl, fun hHeeds => ?_⟩
        cases hHeeds with
        | scripted _ well =>
          rw [well] at hFailure
          contradiction
      | none =>
        show (∃ f, (Script.work s.objects (.get a)).2 = .failed f ∧ (_ → s.objects.get? a = none)) ∨
          ∃ content, s.objects.get? a = some content ∧ (Script.work s.objects (.get a)).2 = _
        cases hObject : s.objects.get? a with
        | none => exact .inl ⟨_, by rw [Script.work, hObject], fun _ => rfl⟩
        | some content => exact .inr ⟨content, rfl, by rw [Script.work, hObject]; rfl⟩

/-- A backend that has taken a write gives what it has taken, or fails. -/
theorem tells_call (hTaken : w.HasTaken i r) (hWrite : r.isWrite = true) (hTells : w.TellsAt i) :
    w.TellsOf i r (w.call i (.get r.address)).2 := by
  obtain ⟨b, hb, hIs⟩ := hTells
  have hCases := call_get_cases hb hIs r.address
  cases r with
  | get a => contradiction
  | holds a => contradiction
  | put a data =>
    obtain ⟨b', content, hb', hEncodes, hAt⟩ := hTaken
    rw [hb, Option.some.injEq] at hb'
    subst hb'
    rcases hCases with ⟨f, hFails, hNone⟩ | ⟨content', hObject, hGives⟩
    · refine .inr ⟨⟨f, hFails⟩, ?_⟩
      rintro ⟨c, hc, hHeeds⟩
      rw [hb, Option.some.injEq] at hc
      have hEmpty : w.objectAt? i a = none := hNone (hc ▸ hHeeds)
      rw [hAt] at hEmpty
      contradiction
    · obtain rfl : content = content' := Option.some.inj (hAt.symm.trans hObject)
      exact .inl ⟨a, data, rfl, hGives.trans (Storage.decoded_of_encodes hIs hEncodes)⟩
  | remove a =>
    rcases hCases with ⟨f, hFails, -⟩ | ⟨content, hObject, -⟩
    · refine .inr ⟨⟨f, hFails⟩, fun _ _ _ hEq => ?_⟩
      contradiction
    · have hEmpty : w.objectAt? i a = none := hTaken
      have hObject : w.objectAt? i a = some content := hObject
      rw [hEmpty] at hObject
      contradiction

end World

end ReplicatedStore
