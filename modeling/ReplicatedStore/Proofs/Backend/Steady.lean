import ReplicatedStore.Proofs.Backend.Frame
import ReplicatedStore.Proofs.Pipeline.Lossless

/-!
# Storages whose reads tell what they have

A storage shows a payload at an address or none. Of a memory these are the payloads that its objects
decode to, so how they are encoded does not matter. A steady storage shows all that it has: its reads
fail one and all, or they tell what it shows. Writes may fail as they please, and do not change what is
shown if they do. Two storages are alike if they show the same and take writes in the same way; reads
leave a storage like it was, and the same write comes to the same at storages that are alike.

Main results:

* `Storage.answer_get`, `Storage.answer_holds` — what reads tell.
* `Storage.shown?_of_calls` — what a write does to what is shown.
* `Storage.alike_of_read`, `Storage.alike_of_write` — what calls do to storages that are alike.
-/

namespace ReplicatedStore

/-- What is at each address after a write that was done. -/
def Request.after (r : Request) (shown : Address → Option Bytes) (a : Address) : Option Bytes :=
  match r with
  | put at_ data => if a = at_ then some data else shown a
  | remove at_ => if a = at_ then none else shown a
  | get _ | holds _ => shown a

/-- The payload that octets decode to. -/
def Codec.payload? (c : Codec) (content : Bytes) : Option Bytes :=
  match (c.read.decode content).result with
  | .ok data => some data
  | .error _ => none

/-- Whether reads of a script fail one and all, or none of them does. -/
def Script.IsSteady (s : Script) : Prop :=
  ∀ r : Request, r.isWrite = false → ∀ number, (s.behaviour r.operation number).crash = none ∧
    (s.behaviour r.operation number).failure.isSome = (s.behaviour .get 0).failure.isSome

/-- A script that was asked something more. -/
def Script.asked (s : Script) (r : Request) : Script := { s with made := r.operation :: s.made }

theorem Request.after_of_ne {r : Request} {a : Address} (h : a ≠ r.address)
    (shown : Address → Option Bytes) : r.after shown a = shown a := by
  cases r with
  | put b data => exact if_neg h
  | remove b => exact if_neg h
  | get b => rfl
  | holds b => rfl

namespace Objects

theorem get?_insert (o : Objects) (a b : Address) (content : Bytes) :
    (o.insert a content).get? b = if b = a then some content else o.get? b := by
  by_cases h : b = a
  · rw [if_pos h, h, get?_insert_self]
  · rw [if_neg h, get?_insert_of_ne _ _ h]

theorem get?_erase (o : Objects) (a b : Address) :
    (o.erase a).get? b = if b = a then none else o.get? b := by
  by_cases h : b = a
  · rw [if_pos h, h, get?_erase_self]
  · rw [if_neg h, get?_erase_of_ne _ h]

end Objects

namespace Storage

/-- The payload that a storage has at an address. -/
def shown? : Storage → Address → Option Bytes
  | memory codec m, a => (m.objects.get? a).bind codec.payload?
  | scripted s, a => s.objects.get? a
  | directory .., _ | gateway .., _ => none

/-- Whether all reads of a storage fail. -/
def isDeaf : Storage → Bool
  | scripted s => (s.behaviour .get 0).failure.isSome
  | memory .. | directory .. | gateway .. => false

/-- The payload that a storage gives when it is asked for what it has at an address. -/
def offer? (st : Storage) (a : Address) : Option Bytes := if st.isDeaf then none else st.shown? a

/-- Whether a storage keeps its objects itself, and its reads fail one and all or tell all of them. -/
inductive Steady : Storage → Prop
  | memory {codec : Codec} {m : Memory} (lossless : codec.Lossless)
      (readable : ∀ a content, m.objects.get? a = some content → (codec.payload? content).isSome) :
      Steady (memory codec m)
  | scripted {s : Script} (reads : s.IsSteady) : Steady (scripted s)

/-- Whether storages show the same and take writes in the same way. -/
inductive Alike : Storage → Storage → Prop
  | memory {codec : Codec} {m m' : Memory} (containers : m'.containers = m.containers)
      (shown : ∀ a, (m'.objects.get? a).bind codec.payload? = (m.objects.get? a).bind codec.payload?) :
      Alike (memory codec m') (memory codec m)
  | scripted {s s' : Script} (behaviour : s'.behaviour = s.behaviour)
      (transientPuts : s'.transientPuts = s.transientPuts)
      (shown : ∀ a, s'.objects.get? a = s.objects.get? a)
      (made : ∀ r : Request, r.isWrite = true →
        s'.made.count r.operation = s.made.count r.operation) :
      Alike (scripted s') (scripted s)

/-- A whole call of a storage that keeps its objects itself: it is over at once, or it is finished with
what it held on to. -/
inductive Calls (r : Request) (st : Storage) : Outcome → Storage → Prop
  | atOnce {nonces : Nat → Nonce} {o : Outcome} {after : Storage}
      (h : st.begin nonces r = (after, .over o)) : Calls r st o after
  | later {nonces : Nat → Nonce} {delay : Duration} {held : Held} {mid : Storage}
      (h : st.begin nonces r = (mid, .waiting delay held)) :
      Calls r st (mid.finish held).2 (mid.finish held).1

variable {st st' after after' : Storage} {r : Request} {o o' : Outcome} {codec : Codec} {m m' : Memory}
  {s s' : Script} {a : Address} {data : Bytes}

theorem Steady.isKept (h : st.Steady) : st.isKept = true := by cases h <;> rfl

theorem Alike.refl (h : st.Steady) : st.Alike st := by
  cases h with
  | memory => exact .memory rfl fun _ => rfl
  | scripted => exact .scripted rfl rfl (fun _ => rfl) fun _ _ => rfl

theorem Alike.trans {st'' : Storage} (h : st.Alike st') (h' : st'.Alike st'') : st.Alike st'' := by
  cases h with
  | memory containers shown =>
    cases h' with
    | memory containers' shown' =>
      exact .memory (containers.trans containers') fun a => (shown a).trans (shown' a)
  | scripted behaviour transientPuts shown made =>
    cases h' with
    | scripted behaviour' transientPuts' shown' made' =>
      exact .scripted (behaviour.trans behaviour') (transientPuts.trans transientPuts')
        (fun a => (shown a).trans (shown' a)) fun r hr => (made r hr).trans (made' r hr)

theorem Alike.symm (h : st.Alike st') : st'.Alike st := by
  cases h with
  | memory containers shown => exact .memory containers.symm fun a => (shown a).symm
  | scripted behaviour transientPuts shown made =>
    exact .scripted behaviour.symm transientPuts.symm (fun a => (shown a).symm) fun r hr =>
      (made r hr).symm

theorem Alike.shown?_eq (h : st.Alike st') : st.shown? = st'.shown? := by
  cases h with
  | memory containers shown => exact funext shown
  | scripted behaviour transientPuts shown made => exact funext shown

theorem Alike.isDeaf_eq (h : st.Alike st') : st.isDeaf = st'.isDeaf := by
  cases h with
  | memory containers shown => rfl
  | scripted behaviour transientPuts shown made =>
    show (_ : Option Failure).isSome = _
    rw [behaviour]
    rfl

theorem Alike.offer?_eq (h : st.Alike st') : st.offer? = st'.offer? := by
  funext a
  rw [offer?, offer?, h.isDeaf_eq, h.shown?_eq]

/-! ## What whole calls are -/

theorem exists_payload (h : codec.Lossless) {nonces : Nat → Nonce} {content : Bytes}
    (hEncode : (codec.write.encode nonces data).result = .ok content) :
    codec.payload? content = some data := by
  obtain ⟨content', hEncode', hDecode⟩ := h nonces data
  rw [hEncode, Except.ok.injEq] at hEncode'
  rw [Codec.payload?, hEncode', hDecode]

theorem calls_put_memory (hLossless : codec.Lossless)
    (h : (memory codec m).Calls (.put a data) o after) :
    ∃ content, codec.payload? content = some data ∧ o = (m.place a content).2 ∧
      after = memory codec (m.place a content).1 := by
  cases h with
  | @atOnce nonces _ _ h =>
    obtain ⟨content, hEncode, -⟩ := hLossless nonces data
    have hPayload := exists_payload hLossless hEncode
    simp only [begin, Memory.begin, hEncode] at h
    -- only an empty chain lets the call be over at once
    split at h
    · simp only [Prod.mk.injEq, Begun.over.injEq] at h
      exact ⟨content, hPayload, h.2.symm, h.1.symm⟩
    · simp at h
  | @later nonces _ _ _ h =>
    obtain ⟨content, hEncode, -⟩ := hLossless nonces data
    have hPayload := exists_payload hLossless hEncode
    simp only [begin, Memory.begin, hEncode] at h
    split at h
    · simp at h
    · simp only [Prod.mk.injEq, Begun.waiting.injEq] at h
      obtain ⟨rfl, -, rfl⟩ := h
      exact ⟨content, hPayload, rfl, rfl⟩

theorem calls_remove_memory (h : (memory codec m).Calls (.remove a) o after) :
    o = (m.drop a).2 ∧ after = memory codec (m.drop a).1 := by
  cases h with
  | atOnce h =>
    simp only [begin, Memory.begin, Prod.mk.injEq, Begun.over.injEq] at h
    exact ⟨h.2.symm, h.1.symm⟩
  | later h => simp [begin, Memory.begin] at h

theorem calls_get_memory (h : (memory codec m).Calls (.get a) o after) :
    after = memory codec m ∧ o = match m.objects.get? a with
      | none => .failed (Memory.notFound a)
      | some content => Memory.decoded codec content := by
  -- what is stored is copied when the call begins, so it does not matter when it is decoded
  cases hFound : m.objects.get? a with
  | none =>
    cases h with
    | atOnce h =>
      simp only [begin, Memory.begin, hFound, Prod.mk.injEq, Begun.over.injEq] at h
      exact ⟨h.1.symm, h.2.symm⟩
    | later h => simp [begin, Memory.begin, hFound] at h
  | some content =>
    cases h with
    | atOnce h =>
      simp only [begin, Memory.begin, hFound] at h
      split at h
      · simp only [Prod.mk.injEq, Begun.over.injEq] at h
        exact ⟨h.1.symm, h.2.symm⟩
      · simp at h
    | later h =>
      simp only [begin, Memory.begin, hFound] at h
      split at h
      · simp at h
      · simp only [Prod.mk.injEq, Begun.waiting.injEq] at h
        obtain ⟨rfl, -, rfl⟩ := h
        exact ⟨rfl, rfl⟩

theorem calls_holds_memory (h : (memory codec m).Calls (.holds a) o after) :
    after = memory codec m ∧ o = .answered (.presence (m.objects.get? a).isSome) := by
  cases h with
  | atOnce h =>
    simp only [begin, Memory.begin, Prod.mk.injEq, Begun.over.injEq] at h
    exact ⟨h.1.symm, h.2.symm⟩
  | later h => simp [begin, Memory.begin] at h

theorem calls_scripted (h : (scripted s).Calls r o after) :
    o = ((s.asked r).finish r (s.made.count r.operation)).2 ∧
      after = scripted ((s.asked r).finish r (s.made.count r.operation)).1 := by
  cases h with
  | atOnce h =>
    simp only [begin, Script.begin] at h
    split at h
    · simp only [Prod.mk.injEq, Begun.over.injEq] at h
      exact ⟨h.2.symm, h.1.symm⟩
    · simp at h
  | later h =>
    simp only [begin, Script.begin] at h
    split at h
    · simp at h
    · simp only [Prod.mk.injEq, Begun.waiting.injEq] at h
      obtain ⟨rfl, -, rfl⟩ := h
      exact ⟨rfl, rfl⟩

theorem behaviour_finish (s : Script) (r : Request) (number : Nat) :
    (s.finish r number).1.behaviour = s.behaviour := by
  unfold Script.finish
  simp only
  split
  · rfl
  · split
    · rfl
    · split <;> rfl

/-- A read of a steady script fails if it is to, and else is worked without a change. -/
theorem finish_of_read (h : s.IsSteady) (hRead : r.isWrite = false) (number : Nat) :
    (s.finish r number).1 = s ∧
      ((s.behaviour .get 0).failure.isSome = true → ∃ f, (s.finish r number).2 = .failed f) ∧
      ((s.behaviour .get 0).failure.isSome = false →
        (s.finish r number).2 = (Script.work s.objects r).2) := by
  obtain ⟨hCrash, hFailure⟩ := h r hRead number
  -- transient failures are of puts, and this is a read
  have hPut : r.operation ≠ .put := by
    intro hPut
    cases r <;> simp_all [Request.isWrite, Request.operation]
  have hObjects : (Script.work s.objects r).1 = s.objects := by
    cases r with
    | put a data => contradiction
    | remove a => contradiction
    | holds a => rfl
    | get a =>
      simp only [Script.work]
      split <;> rfl
  unfold Script.finish
  simp only [hCrash, hPut, false_and, if_false]
  rw [← hFailure]
  cases hHow : (s.behaviour r.operation number).failure with
  | some f => exact ⟨rfl, fun _ => ⟨f, rfl⟩, by simp⟩
  | none => exact ⟨by rw [hObjects], by simp, fun _ => rfl⟩

theorem Steady.of_calls (h : st.Steady) (hCalls : st.Calls r o after) : after.Steady := by
  cases h with
  | scripted reads =>
    obtain ⟨-, rfl⟩ := calls_scripted hCalls
    refine .scripted fun r' hRead number => ?_
    rw [behaviour_finish]
    exact reads r' hRead number
  | @memory codec m lossless readable =>
    cases r with
    | get a =>
      obtain ⟨rfl, -⟩ := calls_get_memory hCalls
      exact .memory lossless readable
    | holds a =>
      obtain ⟨rfl, -⟩ := calls_holds_memory hCalls
      exact .memory lossless readable
    | put a data =>
      obtain ⟨content, hPayload, -, rfl⟩ := calls_put_memory lossless hCalls
      refine .memory lossless fun b stored hStored => ?_
      -- the new content is readable, and all others were
      unfold Memory.place at hStored
      split at hStored
      · rw [Objects.get?_insert] at hStored
        split at hStored
        · rw [Option.some.injEq] at hStored
          rw [← hStored, hPayload]
          rfl
        · exact readable b stored hStored
      · exact readable b stored hStored
    | remove a =>
      obtain ⟨-, rfl⟩ := calls_remove_memory hCalls
      refine .memory lossless fun b stored hStored => ?_
      unfold Memory.drop at hStored
      split at hStored
      · split at hStored
        · rw [Objects.get?_erase] at hStored
          split at hStored
          · contradiction
          · exact readable b stored hStored
        · exact readable b stored hStored
      · exact readable b stored hStored

/-! ## Reads -/

/-- A memory shows something exactly where it has something. -/
theorem isSome_shown? (h : (memory codec m).Steady) (a : Address) :
    ((memory codec m).shown? a).isSome = (m.objects.get? a).isSome := by
  cases h with
  | memory lossless readable =>
    show ((m.objects.get? a).bind codec.payload?).isSome = _
    cases hFound : m.objects.get? a with
    | none => rfl
    | some content => exact readable a content hFound

theorem alike_of_read (h : st.Steady) (hRead : r.isWrite = false) (hCalls : st.Calls r o after) :
    after.Alike st := by
  cases h with
  | memory lossless readable =>
    cases r with
    | put a data => contradiction
    | remove a => contradiction
    | get a =>
      obtain ⟨rfl, -⟩ := calls_get_memory hCalls
      exact .refl (.memory lossless readable)
    | holds a =>
      obtain ⟨rfl, -⟩ := calls_holds_memory hCalls
      exact .refl (.memory lossless readable)
  | @scripted s reads =>
    obtain ⟨-, rfl⟩ := calls_scripted hCalls
    have hAsked : (s.asked r).IsSteady := reads
    rw [(finish_of_read hAsked hRead _).1]
    refine .scripted rfl rfl (fun _ => rfl) fun r' hWrite => ?_
    -- a script counts its calls by operation, and writes are what is compared
    have hNe : r.operation ≠ r'.operation := by
      cases r <;> cases r' <;> simp_all [Request.isWrite, Request.operation]
    exact List.count_cons_of_ne hNe

/-- A fetch gives what the storage offers, or fails. -/
theorem answer_get (h : st.Steady) (hCalls : st.Calls (.get a) o after) :
    match st.offer? a with
    | some data => o = .answered (.content data)
    | none => ∃ f, o = .failed f := by
  cases h with
  | @memory codec m lossless readable =>
    obtain ⟨-, rfl⟩ := calls_get_memory hCalls
    simp only [offer?, isDeaf, shown?, Bool.false_eq_true, if_false]
    cases hFound : m.objects.get? a with
    | none => exact ⟨_, rfl⟩
    | some content =>
      obtain ⟨data, hData⟩ := Option.isSome_iff_exists.mp (readable a content hFound)
      rw [Option.bind_some, hData]
      unfold Codec.payload? at hData
      unfold Memory.decoded
      split at hData
      · rename_i data' hDecode
        cases hData
        simp only [hDecode]
      · contradiction
  | @scripted s reads =>
    obtain ⟨rfl, -⟩ := calls_scripted hCalls
    have hAsked : (s.asked (.get a)).IsSteady := reads
    obtain ⟨-, hDeaf, hTells⟩ := finish_of_read hAsked (r := .get a) rfl
      (s.made.count (Request.get a).operation)
    unfold offer? isDeaf shown?
    simp only
    cases hHow : (s.behaviour .get 0).failure.isSome with
    | true => exact hDeaf hHow
    | false =>
      rw [hTells hHow]
      simp only [Bool.false_eq_true, if_false, Script.work]
      cases hFound : s.objects.get? a with
      | some data => simp [Script.asked, hFound]
      | none => simp [Script.asked, hFound]

/-- A probe tells whether the storage shows something, or fails. -/
theorem answer_holds (h : st.Steady) (hCalls : st.Calls (.holds a) o after) :
    (st.isDeaf = true → ∃ f, o = .failed f) ∧
      (st.isDeaf = false → o = .answered (.presence (st.offer? a).isSome)) := by
  cases h with
  | @memory codec m lossless readable =>
    obtain ⟨-, rfl⟩ := calls_holds_memory hCalls
    refine ⟨fun hDeaf => absurd hDeaf Bool.false_ne_true, fun _ => ?_⟩
    rw [← isSome_shown? (.memory lossless readable) a]
    rfl
  | @scripted s reads =>
    obtain ⟨rfl, -⟩ := calls_scripted hCalls
    have hAsked : (s.asked (.holds a)).IsSteady := reads
    obtain ⟨-, hDeaf, hTells⟩ := finish_of_read hAsked (r := .holds a) rfl
      (s.made.count (Request.holds a).operation)
    refine ⟨hDeaf, fun hHow => ?_⟩
    rw [hTells hHow, offer?, hHow]
    rfl

/-! ## Writes -/

/-- A write that is answered has been done to what is shown, and any other has changed nothing. -/
theorem shown?_of_calls (h : st.Steady) (hWrite : r.isWrite = true) (hCalls : st.Calls r o after) :
    after.shown? = if o.isAnswered then r.after st.shown? else st.shown? := by
  cases h with
  | @memory codec m lossless readable =>
    cases r with
    | get a => contradiction
    | holds a => contradiction
    | put a data =>
      obtain ⟨content, hPayload, rfl, rfl⟩ := calls_put_memory lossless hCalls
      unfold Memory.place
      split
      · funext b
        show ((m.objects.insert a content).get? b).bind codec.payload? = if b = a then _ else _
        rw [Objects.get?_insert]
        split
        · exact hPayload
        · rfl
      · rfl
    | remove a =>
      obtain ⟨rfl, rfl⟩ := calls_remove_memory hCalls
      unfold Memory.drop
      split
      · split
        · funext b
          show ((m.objects.erase a).get? b).bind codec.payload? = if b = a then _ else _
          rw [Objects.get?_erase]
          split <;> rfl
        · rfl
      · rfl
  | @scripted s reads =>
    obtain ⟨rfl, rfl⟩ := calls_scripted hCalls
    -- a script may fail before it works, and does not work then
    have hReflects := reflects_finish_script (s.asked r) r (s.made.count r.operation)
    generalize (s.asked r).finish r (s.made.count r.operation) = result at hReflects ⊢
    obtain ⟨s', o⟩ := result
    cases o with
    | failed f => exact funext fun b => congrArg (·.get? b) (hReflects.objects_eq (.inl rfl))
    | crashed reason => exact funext fun b => congrArg (·.get? b) (hReflects.objects_eq (.inl rfl))
    | answered answer =>
      cases r with
      | get a => contradiction
      | holds a => contradiction
      | put a data =>
        obtain ⟨rfl, content, rfl, hObjects⟩ := hReflects
        funext b
        show s'.objects.get? b = if b = a then _ else _
        rw [show s'.objects = s.objects.insert a content from hObjects, Objects.get?_insert]
        rfl
      | remove a =>
        obtain ⟨rfl, hObjects⟩ := hReflects
        funext b
        show s'.objects.get? b = if b = a then _ else _
        rw [show s'.objects = s.objects.erase a from hObjects, Objects.get?_erase]
        rfl

theorem isDeaf_of_calls (h : st.Steady) (hCalls : st.Calls r o after) : after.isDeaf = st.isDeaf := by
  cases h with
  | scripted reads =>
    obtain ⟨-, rfl⟩ := calls_scripted hCalls
    show (_ : Option Failure).isSome = _
    rw [behaviour_finish]
    rfl
  | memory lossless readable =>
    cases r with
    | put a data =>
      obtain ⟨content, -, -, rfl⟩ := calls_put_memory lossless hCalls
      rfl
    | get a =>
      obtain ⟨rfl, -⟩ := calls_get_memory hCalls
      rfl
    | remove a =>
      obtain ⟨-, rfl⟩ := calls_remove_memory hCalls
      rfl
    | holds a =>
      obtain ⟨rfl, -⟩ := calls_holds_memory hCalls
      rfl

/-- A put into memories with the same containers. -/
theorem alike_of_place {content content' : Bytes} (h : (memory codec m).Alike (memory codec m'))
    (hPayload : codec.payload? content = codec.payload? content') :
    (m.place a content).2 = (m'.place a content').2 ∧
      (memory codec (m.place a content).1).Alike (memory codec (m'.place a content').1) := by
  cases h with
  | memory containers shown =>
    have hHas : m.hasContainer a.container = m'.hasContainer a.container := by
      rw [Memory.hasContainer, Memory.hasContainer, containers]
    unfold Memory.place
    rw [hHas]
    split
    · refine ⟨rfl, .memory containers fun b => ?_⟩
      show ((m.objects.insert a content).get? b).bind _ = ((m'.objects.insert a content').get? b).bind _
      rw [Objects.get?_insert, Objects.get?_insert]
      split
      · exact hPayload
      · exact shown b
    · exact ⟨rfl, .memory containers shown⟩

/-- A removal from memories that show the same. -/
theorem alike_of_drop (hm : (memory codec m).Steady) (hm' : (memory codec m').Steady)
    (h : (memory codec m).Alike (memory codec m')) : (m.drop a).2 = (m'.drop a).2 ∧
      (memory codec (m.drop a).1).Alike (memory codec (m'.drop a).1) := by
  -- the contents may differ, but where one has something the other has too
  have hSome : (m.objects.get? a).isSome = (m'.objects.get? a).isSome := by
    rw [← isSome_shown? hm, ← isSome_shown? hm', h.shown?_eq]
  cases h with
  | memory containers shown =>
    have hHas : m.hasContainer a.container = m'.hasContainer a.container := by
      rw [Memory.hasContainer, Memory.hasContainer, containers]
    unfold Memory.drop
    rw [hHas]
    split
    · cases hFound : m.objects.get? a with
      | none =>
        rw [hFound] at hSome
        rw [Option.not_isSome_iff_eq_none.mp (Bool.eq_false_iff.mp hSome.symm)]
        exact ⟨rfl, .memory containers shown⟩
      | some content =>
        rw [hFound] at hSome
        obtain ⟨content', hFound'⟩ := Option.isSome_iff_exists.mp hSome.symm
        rw [hFound']
        refine ⟨rfl, .memory containers fun b => ?_⟩
        show ((m.objects.erase a).get? b).bind _ = ((m'.objects.erase a).get? b).bind _
        rw [Objects.get?_erase, Objects.get?_erase]
        split
        · rfl
        · exact shown b
    · exact ⟨rfl, .memory containers shown⟩

theorem alike_of_work {number : Nat} (h : (scripted s).Alike (scripted s'))
    (hWrite : r.isWrite = true) : (s.finish r number).2 = (s'.finish r number).2 ∧
      (scripted (s.finish r number).1).Alike (scripted (s'.finish r number).1) := by
  cases h with
  | scripted behaviour transientPuts shown made =>
    unfold Script.finish
    rw [behaviour, transientPuts]
    simp only
    split
    · exact ⟨rfl, .scripted behaviour transientPuts shown made⟩
    · split
      · exact ⟨rfl, .scripted rfl rfl shown made⟩
      · split
        · exact ⟨rfl, .scripted behaviour transientPuts shown made⟩
        · cases r with
          | get a => contradiction
          | holds a => contradiction
          | put a data =>
            refine ⟨rfl, .scripted rfl rfl (fun b => ?_) made⟩
            show (s.objects.insert a data).get? b = (s'.objects.insert a data).get? b
            rw [Objects.get?_insert, Objects.get?_insert, shown b]
          | remove a =>
            refine ⟨rfl, .scripted rfl rfl (fun b => ?_) made⟩
            show (s.objects.erase a).get? b = (s'.objects.erase a).get? b
            rw [Objects.get?_erase, Objects.get?_erase, shown b]

/-- The same write comes to the same at storages that are alike. -/
theorem alike_of_write (h : st.Steady) (h' : st'.Steady) (hAlike : st.Alike st')
    (hWrite : r.isWrite = true) (hCalls : st.Calls r o after) (hCalls' : st'.Calls r o' after') :
    o = o' ∧ after.Alike after' := by
  cases h with
  | @memory codec m lossless readable =>
    cases h' with
    | scripted reads => cases hAlike
    | memory lossless' readable' =>
      have hSame := hAlike
      cases hSame with
      | memory containers shown =>
        cases r with
        | get a => contradiction
        | holds a => contradiction
        | put a data =>
          obtain ⟨content, hPayload, rfl, rfl⟩ := calls_put_memory lossless hCalls
          obtain ⟨content', hPayload', rfl, rfl⟩ := calls_put_memory lossless' hCalls'
          exact alike_of_place hAlike (hPayload.trans hPayload'.symm)
        | remove a =>
          obtain ⟨rfl, rfl⟩ := calls_remove_memory hCalls
          obtain ⟨rfl, rfl⟩ := calls_remove_memory hCalls'
          exact alike_of_drop (.memory lossless readable) (.memory lossless' readable') hAlike
  | @scripted s reads =>
    cases h' with
    | memory lossless readable => cases hAlike
    | @scripted s' reads' =>
      obtain ⟨rfl, rfl⟩ := calls_scripted hCalls
      obtain ⟨rfl, rfl⟩ := calls_scripted hCalls'
      cases hAlike with
      | scripted behaviour transientPuts shown made =>
        -- both have been asked for as many writes, so both do what comes next
        rw [made r hWrite]
        refine alike_of_work (.scripted behaviour transientPuts shown fun r' hWrite' => ?_) hWrite
        show List.count _ (_ :: _) = List.count _ (_ :: _)
        rw [List.count_cons, List.count_cons, made r' hWrite']

end Storage

end ReplicatedStore
