import ReplicatedStore.Proofs.Backend.Likeness

/-!
# One plain map behind many memories

The simplest store there could be: containers that are fixed, and one payload or none at each address
in them. Memories show such a map if they have its containers and show its payloads, however they
encode them. A write comes to the same at each of them as at the map, and reads of any of them tell
what the map has.

Main results:

* `Storage.Shows.of_calls` — a write comes to the same at a memory as at the map that it shows.
* `World.Shows.fetch?_eq`, `World.Shows.isDeafAt_eq` — what reads find.
* `World.exists_shows` — backends that have just been set up show a map without payloads.
-/

namespace ReplicatedStore

/-- Containers, and the payloads at addresses in them. -/
@[ext]
structure PlainMap where
  containers : List String
  find? : Address → Option Bytes
  within : ∀ a, (find? a).isSome = true → a.container ∈ containers

namespace PlainMap

/-- The map without payloads. -/
def empty (containers : List String) : PlainMap := ⟨containers, fun _ => none, fun _ h => nomatch h⟩

/-- What a request gives. A put needs its container, a get and a removal need a payload, and a probe
always tells. -/
def answer? (p : PlainMap) : Request → Option Answer
  | .put a _ => if a.container ∈ p.containers then some .done else none
  | .get a => (p.find? a).map .content
  | .remove a => if (p.find? a).isSome then some .done else none
  | .holds a => some (.presence (p.find? a).isSome)

/-- A request that fails changes nothing. -/
def after (p : PlainMap) (r : Request) : PlainMap where
  containers := p.containers
  find? := if (p.answer? r).isSome then r.after p.find? else p.find?
  within a h := by
    -- only a put brings something to an address, and it needs the container
    split at h
    · cases r with
      | put b data =>
        rename_i hAnswer
        simp only [answer?] at hAnswer
        simp only [Request.after] at h
        split at h
        · rename_i hEq
          split at hAnswer
          · rwa [hEq]
          · contradiction
        · exact p.within a h
      | remove b =>
        simp only [Request.after] at h
        split at h
        · contradiction
        · exact p.within a h
      | get b => exact p.within a h
      | holds b => exact p.within a h
    · exact p.within a h

theorem after_of_none (p : PlainMap) {r : Request} (h : p.answer? r = none) : p.after r = p := by
  refine PlainMap.ext rfl ?_
  show (if (p.answer? r).isSome then r.after p.find? else p.find?) = p.find?
  rw [h]
  rfl

theorem find?_after (p : PlainMap) {r : Request} (h : (p.answer? r).isSome = true) :
    (p.after r).find? = r.after p.find? := if_pos h

theorem after_of_read (p : PlainMap) {r : Request} (hRead : r.isWrite = false) : p.after r = p := by
  refine PlainMap.ext rfl ?_
  show (if (p.answer? r).isSome then r.after p.find? else p.find?) = p.find?
  cases r with
  | put a data => contradiction
  | remove a => contradiction
  | get a => exact ite_self _
  | holds a => exact ite_self _

end PlainMap

/-- Whether a storage is a memory with the containers of a map, and with its payloads. -/
inductive Storage.Shows (p : PlainMap) : Storage → Prop
  | memory {codec : Codec} {m : Memory} (containers : ∀ c, c ∈ m.containers ↔ c ∈ p.containers)
      (shown : (Storage.memory codec m).shown? = p.find?) : Shows p (.memory codec m)

/-- Whether all backends take writes and show one map, and there is one at least. -/
structure World.Shows (w : World) (p : PlainMap) : Prop where
  nonempty : w.backends ≠ []
  mains : ∀ b ∈ w.backends, b.properties.isMain = true
  storages : ∀ b ∈ w.backends, b.storage.Shows p

/-- Whether settings are of a main that keeps its objects in memory, in some containers, and has its key
if it needs one. -/
structure BackendSettings.IsPlain (containers : List String) (s : BackendSettings) : Prop where
  main : s.properties.isMain = true
  key : s.properties.lacksKey = false
  kind : ∃ list, s.kind = .memory list ∧ ∀ c, c ∈ list ↔ c ∈ containers

variable {p : PlainMap} {st st' after : Storage} {r : Request} {o : Outcome} {v w : World} {a : Address}

namespace Storage

theorem Shows.of_alike (h : st.Shows p) (hAlike : st'.Alike st) : st'.Shows p := by
  cases h with
  | memory containers shown =>
    have hShown := hAlike.shown?_eq
    cases hAlike with
    | memory hContainers =>
      refine .memory (fun c => ?_) (hShown.trans shown)
      rw [hContainers]
      exact containers c

theorem hasContainer_of_shows {codec : Codec} {m : Memory} (h : (memory codec m).Shows p)
    (container : String) : m.hasContainer container = decide (container ∈ p.containers) := by
  cases h with
  | memory containers shown =>
    rw [Memory.hasContainer, List.contains_eq_mem, decide_eq_decide]
    exact containers container

/-- Writes leave the containers of a memory as they are. -/
theorem containers_of_calls {codec : Codec} {m : Memory} (hm : (memory codec m).Steady)
    (hWrite : r.isWrite = true) (hCalls : (memory codec m).Calls r o after) :
    ∃ m', after = memory codec m' ∧ m'.containers = m.containers := by
  cases hm with
  | memory lossless readable =>
    cases r with
    | get a => contradiction
    | holds a => contradiction
    | put a data =>
      obtain ⟨content, -, -, rfl⟩ := calls_put_memory lossless hCalls
      refine ⟨_, rfl, ?_⟩
      unfold Memory.place
      split <;> rfl
    | remove a =>
      obtain ⟨-, rfl⟩ := calls_remove_memory hCalls
      refine ⟨_, rfl, ?_⟩
      unfold Memory.drop
      split
      · split <;> rfl
      · rfl

/-- A memory takes a write exactly if the map does. -/
theorem isAnswered_of_calls (h : st.Shows p) (hSteady : st.Steady) (hWrite : r.isWrite = true)
    (hCalls : st.Calls r o after) : o.isAnswered = (p.answer? r).isSome := by
  cases h with
  | @memory codec m containers shown =>
    have hHas := hasContainer_of_shows (.memory containers shown : (memory codec m).Shows p)
    cases r with
    | get a => contradiction
    | holds a => contradiction
    | put a data =>
      cases hSteady with
      | memory lossless readable =>
        obtain ⟨content, -, rfl, -⟩ := calls_put_memory lossless hCalls
        unfold Memory.place PlainMap.answer?
        rw [hHas]
        by_cases hIn : a.container ∈ p.containers
        · simp [hIn, Outcome.isAnswered]
        · simp [hIn, Outcome.isAnswered]
    | remove a =>
      obtain ⟨rfl, -⟩ := calls_remove_memory hCalls
      have hFound : (m.objects.get? a).isSome = (p.find? a).isSome := by
        rw [← isSome_shown? hSteady, shown]
      have hAnswer : (p.answer? (.remove a)).isSome = (m.objects.get? a).isSome := by
        rw [PlainMap.answer?, ← hFound]
        cases (m.objects.get? a).isSome <;> rfl
      unfold Memory.drop
      rw [hHas, hAnswer]
      cases hObject : m.objects.get? a with
      | none =>
        by_cases hIn : a.container ∈ p.containers
        · simp [hIn, Outcome.isAnswered]
        · simp [hIn, Outcome.isAnswered]
      | some content =>
        -- what the map has is in one of its containers, so the memory looks for it
        have hIn : a.container ∈ p.containers := by
          refine p.within a ?_
          rw [← hFound, hObject]
          rfl
        simp [hIn, Outcome.isAnswered]

/-- A write comes to the same at a memory as at the map that it shows. -/
theorem Shows.of_calls (h : st.Shows p) (hSteady : st.Steady) (hWrite : r.isWrite = true)
    (hCalls : st.Calls r o after) : after.Shows (p.after r) := by
  have hAnswered := isAnswered_of_calls h hSteady hWrite hCalls
  have hShown := shown?_of_calls hSteady hWrite hCalls
  cases h with
  | memory containers shown =>
    obtain ⟨m', rfl, hContainers⟩ := containers_of_calls hSteady hWrite hCalls
    refine .memory (fun c => ?_) ?_
    · rw [hContainers]
      exact containers c
    · rw [hShown, hAnswered, shown]
      rfl

theorem Shows.offer?_eq (h : st.Shows p) : st.offer? = p.find? := by
  cases h with
  | memory containers shown => exact shown

theorem Shows.isDeaf_eq (h : st.Shows p) : st.isDeaf = false := by cases h; rfl

end Storage

namespace World

/-- Backends that take writes still do when only their storages have changed. -/
theorem Shows.of_frame_eq {q : PlainMap} (h : w.Shows p) (hFrame : v.frame = w.frame)
    (hStorages : ∀ (i : Nat) b c, v.backends[i]? = some b → w.backends[i]? = some c →
      b.storage.Shows q) : v.Shows q := by
  have hBefore {b : Backend} (hb : b ∈ v.backends) :
      ∃ (i : Nat) (c : Backend), v.backends[i]? = some b ∧ w.backends[i]? = some c ∧ c.blank = b.blank := by
    obtain ⟨i, hi⟩ := List.mem_iff_getElem?.mp hb
    obtain ⟨c, hc, hBlank⟩ := exists_of_frame_eq hFrame.symm hi
    exact ⟨i, c, hi, hc, hBlank⟩
  refine ⟨?_, fun b hb => ?_, fun b hb => ?_⟩
  · rw [← List.length_pos_iff, length_of_frame_eq hFrame]
    exact List.length_pos_iff.mpr h.nonempty
  · obtain ⟨i, c, -, hc, hBlank⟩ := hBefore hb
    show b.blank.properties.isMain = true
    rw [← hBlank]
    exact h.mains c (List.mem_of_getElem? hc)
  · obtain ⟨i, c, hi, hc, -⟩ := hBefore hb
    exact hStorages i b c hi hc

theorem Shows.of_alike (h : w.Shows p) (hAlike : v.Alike w) : v.Shows p := by
  refine h.of_frame_eq hAlike.frame fun i b c hb hc => ?_
  exact (h.storages c (List.mem_of_getElem? hc)).of_alike (hAlike.storages i b c hb hc)

theorem Shows.mem_mains (h : w.Shows p) {i : Nat} (hi : i < w.backends.length) : i ∈ w.mains := by
  refine List.mem_filter.mpr ⟨List.mem_range.mpr hi, ?_⟩
  rw [List.getElem?_eq_getElem hi]
  exact h.mains _ (List.getElem_mem hi)

theorem Shows.replicas_eq (h : w.Shows p) : w.replicas = [] := by
  refine List.filter_eq_nil_iff.mpr fun i hi => ?_
  have hLt := List.mem_range.mp hi
  rw [List.getElem?_eq_getElem hLt]
  simp [h.mains _ (List.getElem_mem hLt)]

theorem Shows.mains_ne_nil (h : w.Shows p) : w.mains ≠ [] := by
  have hPos : 0 < w.backends.length := List.length_pos_iff.mpr h.nonempty
  exact List.ne_nil_of_mem (h.mem_mains hPos)

theorem Shows.isDeafAt_eq (h : w.Shows p) (i : Nat) : w.isDeafAt i = false := by
  unfold isDeafAt
  cases hb : w.backends[i]? with
  | none => rfl
  | some b => exact (h.storages b (List.mem_of_getElem? hb)).isDeaf_eq

/-- The first backend that is read tells what the map has, as any other would. -/
theorem Shows.fetch?_eq (h : w.Shows p) : w.fetch? = p.find? := by
  funext a
  have hOffer (i : Nat) (hi : i ∈ w.mains) : w.offerAt? i a = p.find? a := by
    have hLt := List.mem_range.mp (List.mem_filter.mp hi).1
    rw [offerAt?, List.getElem?_eq_getElem hLt, Option.bind_some]
    exact congrFun (h.storages _ (List.getElem_mem hLt)).offer?_eq a
  have hOrder : w.readGroups.flatten = w.mains := by simp [readGroups, h.replicas_eq]
  rw [fetch?, hOrder]
  cases hMains : w.mains with
  | nil => exact absurd hMains h.mains_ne_nil
  | cons i rest =>
    rw [hMains] at hOffer
    cases hFound : p.find? a with
    | some data =>
      rw [List.findSome?_cons, hOffer i List.mem_cons_self, hFound]
    | none =>
      refine List.findSome?_eq_none_iff.mpr fun j hj => ?_
      rw [hOffer j hj, hFound]

end World

/-! ## Setting up -/

namespace Memory

theorem mem_containers_createContainer (m : Memory) (container c : String) :
    c ∈ (m.createContainer container).containers ↔ c ∈ m.containers ∨ c = container := by
  unfold createContainer hasContainer
  split
  · rename_i hHas
    rw [List.contains_eq_mem, decide_eq_true_eq] at hHas
    constructor
    · exact .inl
    · rintro (hIn | rfl)
      · exact hIn
      · exact hHas
  · simp

@[simp] theorem objects_createContainer (m : Memory) (container : String) :
    (m.createContainer container).objects = m.objects := by
  unfold createContainer
  split <;> rfl

theorem mem_containers_ofContainers (list : List String) (c : String) :
    c ∈ (ofContainers list).containers ↔ c ∈ list := by
  have hFold (m : Memory) : c ∈ (list.foldl createContainer m).containers ↔
      c ∈ m.containers ∨ c ∈ list := by
    induction list generalizing m with
    | nil => simp
    | cons first rest ih =>
      rw [List.foldl_cons, ih, mem_containers_createContainer, List.mem_cons, or_assoc]
  rw [ofContainers, hFold]
  simp

theorem objects_ofContainers (list : List String) : (ofContainers list).objects = {} := by
  have hFold (m : Memory) : (list.foldl createContainer m).objects = m.objects := by
    induction list generalizing m with
    | nil => rfl
    | cons first rest ih => rw [List.foldl_cons, ih, objects_createContainer]
  exact hFold {}

end Memory

namespace Backend

variable [Gzip.Encoder] [Gzip.LawfulEncoder]
variable {s : BackendSettings} {settings : List BackendSettings} {containers : List String}

/-- A backend in memory that has just been set up shows the map without payloads. -/
theorem exists_memory {list : List String} (hKey : s.properties.lacksKey = false)
    (hKind : s.kind = .memory list) (hSame : ∀ c, c ∈ list ↔ c ∈ containers) :
    ∃ b, ofSettings s = .ok b ∧ b.properties = s.properties ∧ b.storage.Steady ∧
      b.storage.Shows (.empty containers) := by
  cases hCodec : Codec.ofProperties s.properties with
  | error e =>
    have hLacks := ((Codec.ofProperties_eq_error_iff _ _).mp hCodec).2
    rw [hKey] at hLacks
    contradiction
  | ok codec =>
    -- a memory without objects is readable, whatever its codec
    have hNone (a : Address) : (Memory.ofContainers list).objects.get? a = none := by
      rw [Memory.objects_ofContainers]
      rfl
    refine ⟨⟨s.name, s.properties, .memory codec (.ofContainers list)⟩, ?_, rfl, ?_, ?_⟩
    · simp [ofSettings, codecFor, hCodec, hKind]
    · refine .memory (Codec.lossless_of_ofProperties hCodec) fun a content hFound => ?_
      rw [hNone] at hFound
      contradiction
    · refine .memory (fun c => ?_) (funext fun a => ?_)
      · rw [Memory.mem_containers_ofContainers]
        exact hSame c
      · show ((Memory.ofContainers list).objects.get? a).bind codec.payload? = none
        rw [hNone]
        rfl

/-- A backend that has just been set up is a main and shows the map without payloads. -/
theorem exists_ofSettings (h : s.IsPlain containers) : ∃ b, ofSettings s = .ok b ∧
    b.properties.isMain = true ∧ b.storage.Steady ∧ b.storage.Shows (.empty containers) := by
  obtain ⟨list, hKind, hSame⟩ := h.kind
  obtain ⟨b, hMade, hProperties, hPlain⟩ := exists_memory h.key hKind hSame
  exact ⟨b, hMade, hProperties ▸ h.main, hPlain⟩

theorem exists_allOfSettings (h : ∀ s ∈ settings, s.IsPlain containers) :
    ∃ backends, allOfSettings settings = .ok backends ∧ backends.length = settings.length ∧
      ∀ b ∈ backends, b.properties.isMain = true ∧ b.storage.Steady ∧
        b.storage.Shows (.empty containers) := by
  induction settings with
  | nil => exact ⟨[], rfl, rfl, fun b hb => nomatch hb⟩
  | cons s settings ih =>
    obtain ⟨b, hFirst, hPlain⟩ := exists_ofSettings (h s List.mem_cons_self)
    obtain ⟨backends, hRest, hLength, hAll⟩ := ih fun t ht => h t (List.mem_cons_of_mem _ ht)
    refine ⟨b :: backends, ?_, congrArg (· + 1) hLength, ?_⟩
    · rw [allOfSettings] at hRest ⊢
      rw [List.mapM_cons, hFirst, hRest]
      rfl
    · intro c hc
      rcases List.mem_cons.mp hc with rfl | hc
      · exact hPlain
      · exact hAll c hc

end Backend

/-- Backends that have just been set up in whatever world. -/
theorem World.exists_shows [Gzip.Encoder] [Gzip.LawfulEncoder] {settings : List BackendSettings}
    {containers : List String} (hSome : settings ≠ []) (h : ∀ s ∈ settings, s.IsPlain containers) :
    ∃ backends, Backend.allOfSettings settings = .ok backends ∧
      ∀ w : World, { w with backends }.Steady ∧ { w with backends }.Shows (.empty containers) := by
  obtain ⟨backends, hAll, hLength, hPlain⟩ := Backend.exists_allOfSettings h
  have hNonempty : backends ≠ [] := by
    rw [← List.length_pos_iff, hLength]
    exact List.length_pos_iff.mpr hSome
  refine ⟨backends, hAll, fun w => ⟨fun b hb => (hPlain b hb).2.1, hNonempty, ?_, ?_⟩⟩
  · exact fun b hb => (hPlain b hb).1
  · exact fun b hb => (hPlain b hb).2.2

end ReplicatedStore
