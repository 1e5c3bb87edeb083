import ReplicatedStore.Backend.Basic

/-!
# Storages that keep their objects themselves

Memory and scripted backends keep their objects in the world itself, so a call of one of them is a
step of its storage alone. Whatever it comes to, its objects tell the outcome: an answered write has
been done to them, and after anything else they are what they were.

Main results:

* `Storage.reflects_begin`, `Storage.reflects_finish` — outcome and objects go together.
* `World.begin_of_isKept`, `World.finish_of_isKept` — a call changes its own backend alone.
-/

namespace ReplicatedStore

/-- Whether a request is one to change an object. -/
def Request.isWrite : Request → Bool
  | put .. | remove _ => true
  | get _ | holds _ => false

/-- Whether a call gave what was asked for. -/
def Outcome.isAnswered : Outcome → Bool
  | answered _ => true
  | failed _ | crashed _ => false

namespace Storage

/-- Whether the objects are part of the storage itself. -/
def isKept : Storage → Bool
  | memory .. | scripted _ => true
  | directory .. | gateway .. => false

/-- The objects that are part of the storage itself. -/
def objects : Storage → Objects
  | memory _ content => content.objects
  | scripted script => script.objects
  | directory .. | gateway .. => {}

/-- A storage without what calls may change. -/
def blank : Storage → Storage
  | memory codec _ => memory codec {}
  | directory codec place => directory codec place
  | gateway codec peer => gateway codec peer
  | scripted _ => scripted {}

/-- Whether a storage may make a content of a payload. -/
def Encodes (data content : Bytes) : Storage → Prop
  | memory codec _ | directory codec _ | gateway codec _ =>
    ∃ nonces, (codec.write.encode nonces data).result = .ok content
  | scripted _ => content = data

/-- Whether a call of a request may hold on to something between its two moments. -/
def Keeps (r : Request) (held : Held) : Storage → Prop
  | memory codec _ =>
    match r with
    | .put a data =>
      ∃ content, held = .encoded a content ∧
        ∃ nonces, (codec.write.encode nonces data).result = .ok content
    | .get _ => ∃ content, held = .stored content
    | .remove _ | .holds _ => False
  | directory .. | gateway .. => held = .request r
  | scripted _ => ∃ number, held = .numbered r number

/-- A call begins at a storage that keeps its objects itself. -/
def begin (nonces : Nat → Nonce) (r : Request) : Storage → Storage × Begun
  | memory codec content =>
    let (content, begun) := content.begin codec nonces r
    (memory codec content, begun)
  | scripted script =>
    let (script, begun) := script.begin r
    (scripted script, begun)
  | other => (other, .over World.nobody)

/-- A call is finished at a storage that keeps its objects itself. -/
def finish (held : Held) : Storage → Storage × Outcome
  | memory codec content =>
    let (content, o) := content.finish codec held
    (memory codec content, o)
  | scripted script =>
    match held with
    | .numbered r number =>
      let (script, o) := script.finish r number
      (scripted script, o)
    | _ => (scripted script, World.nobody)
  | other => (other, World.nobody)

/-- Whether the objects after a call tell its outcome: an answered write has been done to them, and
after anything else they are what they were. -/
def Reflects (r : Request) (o : Outcome) (before after : Storage) : Prop :=
  match o, r with
  | .answered answer, .put a data =>
    answer = .done ∧ ∃ content, before.Encodes data content ∧
      after.objects = before.objects.insert a content
  | .answered answer, .remove a => answer = .done ∧ after.objects = before.objects.erase a
  | _, _ => after.objects = before.objects

theorem Reflects.objects_eq {r : Request} {o : Outcome} {before after : Storage}
    (h : Reflects r o before after) (hQuiet : o.isAnswered = false ∨ r.isWrite = false) :
    after.objects = before.objects := by
  cases o with
  | answered answer =>
    rcases hQuiet with hQuiet | hQuiet
    · simp [Outcome.isAnswered] at hQuiet
    · cases r with
      | put a data => simp [Request.isWrite] at hQuiet
      | remove a => simp [Request.isWrite] at hQuiet
      | get a => exact h
      | holds a => exact h
  | failed f => exact h
  | crashed reason => exact h

/-! ## Memory -/

theorem reflects_place (codec : Codec) (m : Memory) (a : Address) {data content : Bytes}
    (h : ∃ nonces, (codec.write.encode nonces data).result = .ok content) :
    Reflects (.put a data) (m.place a content).2 (memory codec m)
      (memory codec (m.place a content).1) := by
  unfold Memory.place
  split
  · exact ⟨rfl, content, h, rfl⟩
  · rfl

theorem reflects_drop (codec : Codec) (m : Memory) (a : Address) :
    Reflects (.remove a) (m.drop a).2 (memory codec m) (memory codec (m.drop a).1) := by
  unfold Memory.drop
  split
  · split
    · exact ⟨rfl, rfl⟩
    · rfl
  · rfl

theorem reflects_decoded (codec : Codec) (m : Memory) (a : Address) (content : Bytes) :
    Reflects (.get a) (Memory.decoded codec content) (memory codec m) (memory codec m) := by
  unfold Memory.decoded
  split <;> rfl

/-! ## Scripts -/

theorem reflects_work (s : Script) (r : Request) :
    Reflects r (Script.work s.objects r).2 (scripted s)
      (scripted { s with objects := (Script.work s.objects r).1 }) := by
  cases r with
  | put a data => exact ⟨rfl, data, rfl, rfl⟩
  | get a =>
    simp only [Script.work]
    split <;> rfl
  | remove a => exact ⟨rfl, rfl⟩
  | holds a => rfl

theorem reflects_finish_script (s : Script) (r : Request) (number : Nat) :
    Reflects r (s.finish r number).2 (scripted s) (scripted (s.finish r number).1) := by
  unfold Script.finish
  simp only
  split
  · cases r <;> rfl
  · split
    · cases r <;> rfl
    · split
      · cases r <;> rfl
      · exact reflects_work s r

/-! ## Calls -/

/-- A call that is over at once. -/
theorem reflects_begin {nonces : Nat → Nonce} {r : Request} {o : Outcome} {before after : Storage}
    (h : before.begin nonces r = (after, .over o)) : Reflects r o before after := by
  -- a memory is over at once if its chain is empty or nothing is to be encoded, a script without delay
  cases before with
  | memory codec m =>
    cases r with
    | put a data =>
      cases hEncode : (codec.write.encode nonces data).result with
      | error e =>
        simp only [begin, Memory.begin, hEncode, Prod.mk.injEq, Begun.over.injEq] at h
        obtain ⟨rfl, rfl⟩ := h
        rfl
      | ok content =>
        by_cases hEmpty : codec.write.isEmpty = true
        · simp only [begin, Memory.begin, hEncode, hEmpty, if_true, Prod.mk.injEq,
            Begun.over.injEq] at h
          obtain ⟨rfl, rfl⟩ := h
          exact reflects_place codec m a ⟨nonces, hEncode⟩
        · simp [begin, Memory.begin, hEncode, hEmpty] at h
    | get a =>
      cases hFound : m.objects.get? a with
      | none =>
        simp only [begin, Memory.begin, hFound, Prod.mk.injEq, Begun.over.injEq] at h
        obtain ⟨rfl, rfl⟩ := h
        rfl
      | some content =>
        by_cases hEmpty : codec.read.isEmpty = true
        · simp only [begin, Memory.begin, hFound, hEmpty, if_true, Prod.mk.injEq,
            Begun.over.injEq] at h
          obtain ⟨rfl, rfl⟩ := h
          exact reflects_decoded codec m a content
        · simp [begin, Memory.begin, hFound, hEmpty] at h
    | remove a =>
      simp only [begin, Memory.begin, Prod.mk.injEq, Begun.over.injEq] at h
      obtain ⟨rfl, rfl⟩ := h
      exact reflects_drop codec m a
    | holds a =>
      simp only [begin, Memory.begin, Prod.mk.injEq, Begun.over.injEq] at h
      obtain ⟨rfl, rfl⟩ := h
      rfl
  | scripted s =>
    simp only [begin, Script.begin] at h
    split at h
    · simp only [Prod.mk.injEq, Begun.over.injEq] at h
      obtain ⟨rfl, rfl⟩ := h
      exact reflects_finish_script { s with made := r.operation :: s.made } r _
    · simp at h
  | directory codec place =>
    simp only [begin, World.nobody, Prod.mk.injEq, Begun.over.injEq] at h
    obtain ⟨rfl, rfl⟩ := h
    cases r <;> rfl
  | gateway codec peer =>
    simp only [begin, World.nobody, Prod.mk.injEq, Begun.over.injEq] at h
    obtain ⟨rfl, rfl⟩ := h
    cases r <;> rfl

/-- A call that is to be finished later has not touched the objects. -/
theorem keeps_begin {nonces : Nat → Nonce} {r : Request} {delay : Duration} {held : Held}
    {before after : Storage} (h : before.begin nonces r = (after, .waiting delay held)) :
    before.Keeps r held ∧ after.objects = before.objects := by
  -- what is held on to is the encoded payload, the copied content, or the number of the call
  cases before with
  | memory codec m =>
    cases r with
    | put a data =>
      cases hEncode : (codec.write.encode nonces data).result with
      | error e => simp [begin, Memory.begin, hEncode] at h
      | ok content =>
        by_cases hEmpty : codec.write.isEmpty = true
        · simp [begin, Memory.begin, hEncode, hEmpty] at h
        · simp only [begin, Memory.begin, hEncode, hEmpty, Bool.false_eq_true, if_false,
            Prod.mk.injEq, Begun.waiting.injEq] at h
          obtain ⟨rfl, -, rfl⟩ := h
          exact ⟨⟨content, rfl, nonces, hEncode⟩, rfl⟩
    | get a =>
      cases hFound : m.objects.get? a with
      | none => simp [begin, Memory.begin, hFound] at h
      | some content =>
        by_cases hEmpty : codec.read.isEmpty = true
        · simp [begin, Memory.begin, hFound, hEmpty] at h
        · simp only [begin, Memory.begin, hFound, hEmpty, Bool.false_eq_true, if_false,
            Prod.mk.injEq, Begun.waiting.injEq] at h
          obtain ⟨rfl, -, rfl⟩ := h
          exact ⟨⟨content, rfl⟩, rfl⟩
    | remove a => simp [begin, Memory.begin] at h
    | holds a => simp [begin, Memory.begin] at h
  | scripted s =>
    simp only [begin, Script.begin] at h
    split at h
    · simp at h
    · simp only [Prod.mk.injEq, Begun.waiting.injEq] at h
      obtain ⟨rfl, -, rfl⟩ := h
      exact ⟨⟨_, rfl⟩, rfl⟩
  | directory codec place => simp [begin] at h
  | gateway codec peer => simp [begin] at h

/-- A call that is finished with what it held on to. -/
theorem reflects_finish {r : Request} {held : Held} {st : Storage} (h : st.Keeps r held) :
    Reflects r (st.finish held).2 st (st.finish held).1 := by
  cases st with
  | memory codec m =>
    cases r with
    | put a data =>
      obtain ⟨content, rfl, hEncode⟩ := h
      exact reflects_place codec m a hEncode
    | get a =>
      obtain ⟨content, rfl⟩ := h
      exact reflects_decoded codec m a content
    | remove a => exact h.elim
    | holds a => exact h.elim
  | scripted s =>
    obtain ⟨number, rfl⟩ := h
    exact reflects_finish_script s r number
  | directory codec place => cases r <;> rfl
  | gateway codec peer => cases r <;> rfl

theorem blank_begin (nonces : Nat → Nonce) (r : Request) (st : Storage) :
    (st.begin nonces r).1.blank = st.blank := by
  cases st <;> rfl

theorem blank_finish (held : Held) (st : Storage) : (st.finish held).1.blank = st.blank := by
  cases st with
  | scripted s => cases held <;> rfl
  | memory codec m => rfl
  | directory codec place => rfl
  | gateway codec peer => rfl

theorem isKept_eq_of_blank_eq {st st' : Storage} (h : st'.blank = st.blank) :
    st'.isKept = st.isKept := by
  cases st <;> cases st' <;> simp_all [blank, isKept]

/-- What a call holds on to is up to the kind of the storage alone. -/
theorem Keeps.of_blank_eq {r : Request} {held : Held} {st st' : Storage} (h : st.Keeps r held)
    (hBlank : st'.blank = st.blank) : st'.Keeps r held := by
  cases st <;> cases st' <;> simp_all [blank, Keeps]

theorem Encodes.of_blank_eq {data content : Bytes} {st st' : Storage} (h : st.Encodes data content)
    (hBlank : st'.blank = st.blank) : st'.Encodes data content := by
  cases st <;> cases st' <;> simp_all [blank, Encodes]

end Storage

namespace World

theorem begin_of_isKept {w : World} {position : Nat} {b : Backend}
    (h : w.backends[position]? = some b) (hKept : b.storage.isKept = true) (r : Request) :
    (w.begin position r).2 = (b.storage.begin w.supply r).2 ∧
      ∃ draws calls, (w.begin position r).1 =
        { w.store position b (b.storage.begin w.supply r).1 with draws, calls } := by
  obtain ⟨name, properties, storage⟩ := b
  unfold begin
  rw [h]
  cases storage with
  | memory codec m => exact ⟨rfl, _, _, rfl⟩
  | scripted s => exact ⟨rfl, _, _, rfl⟩
  | directory codec place => simp [Storage.isKept] at hKept
  | gateway codec peer => simp [Storage.isKept] at hKept

theorem finish_of_isKept {w : World} {position : Nat} {b : Backend} {r : Request} {held : Held}
    (h : w.backends[position]? = some b) (hKept : b.storage.isKept = true)
    (hKeeps : b.storage.Keeps r held) :
    (w.finish position held).2 = (b.storage.finish held).2 ∧
      (w.finish position held).1 = w.store position b (b.storage.finish held).1 := by
  obtain ⟨name, properties, storage⟩ := b
  unfold finish
  rw [h]
  cases storage with
  | memory codec m => exact ⟨rfl, rfl⟩
  | scripted s =>
    obtain ⟨number, rfl⟩ := hKeeps
    exact ⟨rfl, rfl⟩
  | directory codec place => simp [Storage.isKept] at hKept
  | gateway codec peer => simp [Storage.isKept] at hKept

theorem getElem?_store_self {w : World} {position : Nat} {b : Backend} (st : Storage)
    (h : w.backends[position]? = some b) :
    (w.store position b st).backends[position]? = some { b with storage := st } := by
  rw [store, List.getElem?_set_self (List.getElem?_eq_some_iff.mp h).1]

theorem getElem?_store_of_ne (w : World) {position other : Nat} (h : position ≠ other) (b : Backend)
    (st : Storage) : (w.store position b st).backends[other]? = w.backends[other]? :=
  List.getElem?_set_ne h

theorem getElem?_begin_of_ne (w : World) {position other : Nat} (h : position ≠ other)
    (r : Request) : (w.begin position r).1.backends[other]? = w.backends[other]? := by
  unfold begin
  split
  · rfl
  · split
    · exact getElem?_store_of_ne w h _ _
    · rfl
    · rfl
    · exact getElem?_store_of_ne w h _ _

theorem getElem?_finish_of_ne (w : World) {position other : Nat} (h : position ≠ other)
    (held : Held) : (w.finish position held).1.backends[other]? = w.backends[other]? := by
  unfold finish
  split
  · rfl
  · split
    · exact getElem?_store_of_ne w h _ _
    · rfl
    · split <;> rfl
    · exact getElem?_store_of_ne w h _ _
    · rfl

end World

end ReplicatedStore
