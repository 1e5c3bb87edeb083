import ReplicatedStore.Proofs.Backend.Frame
import ReplicatedStore.Proofs.Pipeline.Lossless

/-!
# Backends under other keys

Two backends in memory that have been set up alike, but for keys that are both usable, hold different
octets. What the octets of one are decoded to by its own codec, those of the other are decoded to by the
other's, and this is all that a call depends on. So a call comes to the same at both, takes equally many
nonces, and leaves the two as they were: alike but for the octets.

Main results:

* `Properties.Rekeyed.ofProperties` — both properties are refused a codec, or get codecs that are alike.
* `Memory.Rekeyed.begin`, `Memory.Rekeyed.finish` — the moments of a call.
* `World.Rekeyed.begin`, `World.Rekeyed.finish` — the same among the backends of two worlds.
-/

namespace ReplicatedStore

/-! ## Properties and codecs -/

/-- Properties that are the same but for the key, which both have and neither has empty. -/
inductive Properties.Rekeyed : Properties → Properties → Prop
  | same (p : Properties) : Rekeyed p p
  | keys (p : Properties) {key other : String} (hKey : key ≠ "") (hOther : other ≠ "") :
      Rekeyed (p.withKey (some key)) (p.withKey (some other))

/-- How many steps there are from a payload to what is stored. -/
def Properties.stepCount (p : Properties) : Nat :=
  (if p.compression = .gzip then 1 else 0) + if p.encryption = .aes256 then 1 else 0

namespace Codec

/-- Whether two codecs are alike but for what they make of a payload, of which neither loses anything. -/
structure Rekeyed (c d : Codec) : Prop where
  writes : c.write.steps.length = d.write.steps.length
  reads : c.read.steps.length = d.read.steps.length
  lossless : c.Lossless
  lossless' : d.Lossless

/-- Whether two contents are decoded to the same, each by its own codec. -/
def Agree (c d : Codec) (content other : Bytes) : Prop :=
  (c.read.decode content).result = (d.read.decode other).result

variable {c d : Codec}

theorem Rekeyed.isEmpty_write_eq (h : c.Rekeyed d) : c.write.isEmpty = d.write.isEmpty := by
  rw [WriteChain.isEmpty, WriteChain.isEmpty, Bool.eq_iff_iff, List.isEmpty_iff_length_eq_zero,
    List.isEmpty_iff_length_eq_zero, h.writes]

theorem Rekeyed.isEmpty_read_eq (h : c.Rekeyed d) : c.read.isEmpty = d.read.isEmpty := by
  rw [ReadChain.isEmpty, ReadChain.isEmpty, Bool.eq_iff_iff, List.isEmpty_iff_length_eq_zero,
    List.isEmpty_iff_length_eq_zero, h.reads]

/-- Both codecs encode every payload, and what they make of it agrees. -/
theorem Rekeyed.encode (h : c.Rekeyed d) (nonces : Nat → Nonce) (payload : Bytes) :
    ∃ content other, (c.write.encode nonces payload).result = .ok content ∧
      (d.write.encode nonces payload).result = .ok other ∧ c.Agree d content other := by
  obtain ⟨content, hEncode, hDecode⟩ := h.lossless nonces payload
  obtain ⟨other, hEncode', hDecode'⟩ := h.lossless' nonces payload
  exact ⟨content, other, hEncode, hEncode', hDecode.trans hDecode'.symm⟩

/-- How many steps the chains have that properties ask for. -/
theorem length_of_ofProperties [Gzip.Encoder] {p : Properties} (h : ofProperties p = .ok c) :
    c.write.steps.length = p.stepCount ∧ c.read.steps.length = p.stepCount := by
  unfold ofProperties at h
  unfold Properties.stepCount
  cases hEncryption : p.encryption with
  | none =>
    rw [hEncryption] at h
    obtain rfl := Except.ok.inj h
    cases p.compression <;> exact ⟨rfl, rfl⟩
  | aes256 =>
    rw [hEncryption] at h
    cases hKey : p.usableKey? with
    | none => simp [hKey] at h
    | some key =>
      simp only [hKey, Except.ok.injEq] at h
      obtain rfl := h
      cases p.compression <;> exact ⟨rfl, rfl⟩

theorem decoded_eq_of_agree {content other : Bytes} (h : c.Agree d content other) :
    Memory.decoded c content = Memory.decoded d other := by
  rw [Memory.decoded, Memory.decoded, h]

end Codec

namespace Properties.Rekeyed

variable {p q : Properties}

theorem isMain_eq (h : p.Rekeyed q) : p.isMain = q.isMain := by cases h <;> rfl

theorem stepCount_eq (h : p.Rekeyed q) : p.stepCount = q.stepCount := by cases h <;> rfl

theorem document_eq (h : p.Rekeyed q) : p.document = q.document := by
  cases h with
  | same => rfl
  | keys p => rw [document_withKey, document_withKey]

theorem summary_eq (h : p.Rekeyed q) : p.summary = q.summary := by
  cases h with
  | same => rfl
  | keys p => exact summary_withKey ..

theorem lacksKey_eq (h : p.Rekeyed q) : p.lacksKey = q.lacksKey := by
  cases h with
  | same => rfl
  | keys p hKey hOther => simp [lacksKey, usableKey?, withKey, hKey, hOther]

/-- Both properties are refused a codec for the same reason, or get codecs that are alike. -/
theorem ofProperties [Gzip.Encoder] [Gzip.LawfulEncoder] (h : p.Rekeyed q) :
    (∃ e, Codec.ofProperties p = .error e ∧ Codec.ofProperties q = .error e) ∨
      ∃ c d, Codec.ofProperties p = .ok c ∧ Codec.ofProperties q = .ok d ∧ c.Rekeyed d := by
  cases hLeft : Codec.ofProperties p with
  | error e =>
    obtain ⟨rfl, hLacks⟩ := (Codec.ofProperties_eq_error_iff p e).1 hLeft
    rw [h.lacksKey_eq] at hLacks
    exact .inl ⟨_, rfl, (Codec.ofProperties_eq_error_iff q _).2 ⟨rfl, hLacks⟩⟩
  | ok c =>
    cases hRight : Codec.ofProperties q with
    | error e =>
      obtain ⟨rfl, hLacks⟩ := (Codec.ofProperties_eq_error_iff q e).1 hRight
      rw [← h.lacksKey_eq] at hLacks
      rw [(Codec.ofProperties_eq_error_iff p _).2 ⟨rfl, hLacks⟩] at hLeft
      contradiction
    | ok d =>
      obtain ⟨hWrites, hReads⟩ := Codec.length_of_ofProperties hLeft
      obtain ⟨hWrites', hReads'⟩ := Codec.length_of_ofProperties hRight
      rw [h.stepCount_eq] at hWrites hReads
      exact .inr ⟨c, d, rfl, rfl, hWrites.trans hWrites'.symm, hReads.trans hReads'.symm,
        Codec.lossless_of_ofProperties hLeft, Codec.lossless_of_ofProperties hRight⟩

end Properties.Rekeyed

/-! ## Memory -/

theorem map_eq_of_forall₂ {α β γ : Type} {R : α → β → Prop} {l : List α} {m : List β} {f : α → γ}
    {g : β → γ} (h : List.Forall₂ R l m) (hSame : ∀ x y, R x y → f x = g y) : l.map f = m.map g := by
  induction h with
  | nil => rfl
  | cons hFirst _ ih => rw [List.map_cons, List.map_cons, hSame _ _ hFirst, ih]

namespace Objects

/-- Whether two collections have contents at the same addresses, in the same order, that agree. -/
def Rekeyed (c d : Codec) (o u : Objects) : Prop :=
  List.Forall₂ (fun x y => x.1 = y.1 ∧ c.Agree d x.2 y.2) o.entries u.entries

variable {c d : Codec} {o u : Objects}

theorem Rekeyed.get? (h : o.Rekeyed c d u) (a : Address) :
    Option.Rel (c.Agree d) (o.get? a) (u.get? a) := by
  obtain ⟨xs⟩ := o
  obtain ⟨ys⟩ := u
  show Option.Rel (c.Agree d) (xs.lookup a) (ys.lookup a)
  replace h : List.Forall₂ (fun x y => x.1 = y.1 ∧ c.Agree d x.2 y.2) xs ys := h
  -- on the entries: the same address is looked for in both, and found at the same place
  induction h with
  | nil => exact .none
  | cons hFirst _ ih =>
    rw [List.lookup_cons, List.lookup_cons, hFirst.1]
    split
    · exact .some hFirst.2
    · exact ih

theorem Rekeyed.erase (h : o.Rekeyed c d u) (a : Address) : (o.erase a).Rekeyed c d (u.erase a) := by
  refine List.rel_filter (fun x y hSame => ?_) h
  show (x.1 != a) = true ↔ (y.1 != a) = true
  rw [hSame.1]

theorem Rekeyed.insert (h : o.Rekeyed c d u) (a : Address) {content other : Bytes}
    (hAgree : c.Agree d content other) : (o.insert a content).Rekeyed c d (u.insert a other) :=
  .cons ⟨rfl, hAgree⟩ (h.erase a)

theorem Rekeyed.addresses_eq (h : o.Rekeyed c d u) : o.entries.map (·.1) = u.entries.map (·.1) :=
  map_eq_of_forall₂ h fun _ _ hSame => hSame.1

end Objects

/-- What two calls hold on to that are alike but for the octets. -/
inductive Held.Rekeyed (c d : Codec) : Held → Held → Prop
  | stored {content other : Bytes} (h : c.Agree d content other) :
      Rekeyed c d (.stored content) (.stored other)
  | encoded (a : Address) {content other : Bytes} (h : c.Agree d content other) :
      Rekeyed c d (.encoded a content) (.encoded a other)

/-- How two calls begin that are alike but for the octets. -/
inductive Begun.Rekeyed (c d : Codec) : Begun → Begun → Prop
  | ended (o : Outcome) : Rekeyed c d (.over o) (.over o)
  | waiting (delay : Duration) {held other : Held} (h : held.Rekeyed c d other) :
      Rekeyed c d (.waiting delay held) (.waiting delay other)

namespace Memory

/-- Whether two memories are alike but for the octets. -/
structure Rekeyed (c d : Codec) (m n : Memory) : Prop where
  containers : m.containers = n.containers
  objects : m.objects.Rekeyed c d n.objects

namespace Rekeyed

variable {c d : Codec} {m n : Memory}

theorem hasContainer_eq (h : m.Rekeyed c d n) (container : String) :
    m.hasContainer container = n.hasContainer container := by
  rw [hasContainer, hasContainer, h.containers]

theorem place (h : m.Rekeyed c d n) (a : Address) {content other : Bytes}
    (hAgree : c.Agree d content other) :
    (m.place a content).1.Rekeyed c d (n.place a other).1 ∧
      (m.place a content).2 = (n.place a other).2 := by
  unfold Memory.place
  rw [h.hasContainer_eq]
  split
  · exact ⟨⟨h.containers, h.objects.insert a hAgree⟩, rfl⟩
  · exact ⟨h, rfl⟩

theorem drop (h : m.Rekeyed c d n) (a : Address) :
    (m.drop a).1.Rekeyed c d (n.drop a).1 ∧ (m.drop a).2 = (n.drop a).2 := by
  have hFound := h.objects.get? a
  unfold Memory.drop
  rw [h.hasContainer_eq]
  split
  · cases hLeft : m.objects.get? a <;> cases hRight : n.objects.get? a
    · exact ⟨h, rfl⟩
    · simp [hLeft, hRight] at hFound
    · simp [hLeft, hRight] at hFound
    · exact ⟨⟨h.containers, h.objects.erase a⟩, rfl⟩
  · exact ⟨h, rfl⟩

/-- The first moment of a call. -/
theorem begin (h : m.Rekeyed c d n) (hCodecs : c.Rekeyed d) (nonces : Nat → Nonce) (r : Request) :
    (m.begin c nonces r).1.Rekeyed c d (n.begin d nonces r).1 ∧
      (m.begin c nonces r).2.Rekeyed c d (n.begin d nonces r).2 := by
  cases r with
  | put a data =>
    obtain ⟨content, other, hEncode, hEncode', hAgree⟩ := hCodecs.encode nonces data
    simp only [Memory.begin, hEncode, hEncode', hCodecs.isEmpty_write_eq]
    split
    · obtain ⟨hAfter, hOutcome⟩ := h.place a hAgree
      rw [hOutcome]
      exact ⟨hAfter, .ended _⟩
    · exact ⟨h, .waiting _ (.encoded a hAgree)⟩
  | get a =>
    have hFound := h.objects.get? a
    cases hLeft : m.objects.get? a with
    | none =>
      cases hRight : n.objects.get? a with
      | none =>
        simp only [Memory.begin, hLeft, hRight]
        exact ⟨h, .ended _⟩
      | some other => simp [hLeft, hRight] at hFound
    | some content =>
      cases hRight : n.objects.get? a with
      | none => simp [hLeft, hRight] at hFound
      | some other =>
        rw [hLeft, hRight, Option.rel_some_some] at hFound
        simp only [Memory.begin, hLeft, hRight, hCodecs.isEmpty_read_eq]
        split
        · rw [Codec.decoded_eq_of_agree hFound]
          exact ⟨h, .ended _⟩
        · exact ⟨h, .waiting _ (.stored hFound)⟩
  | remove a =>
    obtain ⟨hAfter, hOutcome⟩ := h.drop a
    simp only [Memory.begin, hOutcome]
    exact ⟨hAfter, .ended _⟩
  | holds a =>
    have hFound := h.objects.get? a
    have hSome : (m.objects.get? a).isSome = (n.objects.get? a).isSome := by
      generalize m.objects.get? a = left at hFound ⊢
      generalize n.objects.get? a = right at hFound ⊢
      cases hFound <;> rfl
    simp only [Memory.begin, hSome]
    exact ⟨h, .ended _⟩

/-- The second moment of a call, if it has one. -/
theorem finish (h : m.Rekeyed c d n) {held other : Held} (hHeld : held.Rekeyed c d other) :
    (m.finish c held).1.Rekeyed c d (n.finish d other).1 ∧
      (m.finish c held).2 = (n.finish d other).2 := by
  cases hHeld with
  | stored hAgree => exact ⟨h, Codec.decoded_eq_of_agree hAgree⟩
  | encoded a hAgree => exact h.place a hAgree

end Rekeyed

end Memory

/-! ## Worlds -/

/-- Whether two backends are in memory, and alike but for their keys and the octets. -/
inductive Backend.Rekeyed (c d : Codec) : Backend → Backend → Prop
  | memory (name : String) {p q : Properties} {m n : Memory} (properties : p.Rekeyed q)
      (codecs : c.Rekeyed d) (content : m.Rekeyed c d n) :
      Rekeyed c d ⟨name, p, .memory c m⟩ ⟨name, q, .memory d n⟩

theorem Backend.Rekeyed.name_eq {c d : Codec} {b b' : Backend} (h : b.Rekeyed c d b') :
    b.name = b'.name := by
  cases h
  rfl

theorem Backend.Rekeyed.isMain_eq {c d : Codec} {b b' : Backend} (h : b.Rekeyed c d b') :
    b.properties.isMain = b'.properties.isMain := by
  cases h with
  | memory name hProperties => exact hProperties.isMain_eq

namespace World

/-- Whether two worlds are alike but for the keys of backends in memory and the octets. The codecs at
each position are given, as what is held on to between the moments of a call is read by them. -/
structure Rekeyed (c d : Nat → Codec) (v w : World) : Prop where
  rest : { v with backends := [] } = { w with backends := [] }
  backends : ∀ i : Nat, Option.Rel (Backend.Rekeyed (c i) (d i)) v.backends[i]? w.backends[i]?

namespace Rekeyed

variable {c d : Nat → Codec} {v w : World}

/-- At each position there are two backends that are alike, or none. -/
theorem cases_at (h : v.Rekeyed c d w) (i : Nat) :
    (v.backends[i]? = none ∧ w.backends[i]? = none) ∨
      ∃ b b', v.backends[i]? = some b ∧ w.backends[i]? = some b' ∧ b.Rekeyed (c i) (d i) b' := by
  have hAt := h.backends i
  generalize v.backends[i]? = left at hAt ⊢
  generalize w.backends[i]? = right at hAt ⊢
  cases hAt with
  | none => exact .inl ⟨rfl, rfl⟩
  | some hSame => exact .inr ⟨_, _, rfl, rfl, hSame⟩

/-- What is told alike of backends that are alike is told alike at each position. -/
theorem map_eq {α : Type} (h : v.Rekeyed c d w) (told : Backend → α)
    (hTold : ∀ {c d : Codec} {b b' : Backend}, b.Rekeyed c d b' → told b = told b') (i : Nat) :
    (v.backends[i]?).map told = (w.backends[i]?).map told := by
  obtain ⟨hLeft, hRight⟩ | ⟨b, b', hLeft, hRight, hSame⟩ := h.cases_at i
  · rw [hLeft, hRight]
  · rw [hLeft, hRight, Option.map_some, Option.map_some, hTold hSame]

theorem map_backends_eq {α : Type} (h : v.Rekeyed c d w) (told : Backend → α)
    (hTold : ∀ {c d : Codec} {b b' : Backend}, b.Rekeyed c d b' → told b = told b') :
    v.backends.map told = w.backends.map told := by
  refine List.ext_getElem? fun i => ?_
  rw [List.getElem?_map, List.getElem?_map]
  exact h.map_eq told hTold i

theorem length_eq (h : v.Rekeyed c d w) : v.backends.length = w.backends.length := by
  have hNames := congrArg List.length (h.map_backends_eq Backend.name Backend.Rekeyed.name_eq)
  rwa [List.length_map, List.length_map] at hNames

theorem isEmpty_eq (h : v.Rekeyed c d w) : v.backends.isEmpty = w.backends.isEmpty := by
  rw [Bool.eq_iff_iff, List.isEmpty_iff_length_eq_zero, List.isEmpty_iff_length_eq_zero, h.length_eq]

theorem nameOf_eq (h : v.Rekeyed c d w) (i : Nat) : v.nameOf i = w.nameOf i := by
  have hName := h.map_eq Backend.name Backend.Rekeyed.name_eq i
  rw [nameOf, nameOf, hName]

/-- What is asked alike of backends that are alike picks the same positions. -/
theorem filter_eq {asks : Backend → Bool} (h : v.Rekeyed c d w)
    (hAsks : ∀ {c d : Codec} {b b' : Backend}, b.Rekeyed c d b' → asks b = asks b') :
    ((List.range v.backends.length).filter fun i => (v.backends[i]?).any asks) =
      (List.range w.backends.length).filter fun i => (w.backends[i]?).any asks := by
  rw [h.length_eq]
  refine List.filter_congr fun i _ => ?_
  obtain ⟨hLeft, hRight⟩ | ⟨b, b', hLeft, hRight, hSame⟩ := h.cases_at i
  · rw [hLeft, hRight]
  · rw [hLeft, hRight, Option.any_some, Option.any_some, hAsks hSame]

theorem mains_eq (h : v.Rekeyed c d w) : v.mains = w.mains :=
  h.filter_eq Backend.Rekeyed.isMain_eq

theorem replicas_eq (h : v.Rekeyed c d w) : v.replicas = w.replicas :=
  h.filter_eq fun hSame => congrArg (! ·) hSame.isMain_eq

theorem readGroups_eq (h : v.Rekeyed c d w) : v.readGroups = w.readGroups := by
  rw [readGroups, readGroups, h.mains_eq, h.replicas_eq]

/-! ### Calls -/

/-- The storages of two backends that are alike have changed alike. -/
theorem store (h : v.Rekeyed c d w) {i : Nat} {b b' : Backend} {st st' : Storage}
    (hb : v.backends[i]? = some b) (hb' : w.backends[i]? = some b')
    (hSame : Backend.Rekeyed (c i) (d i) { b with storage := st } { b' with storage := st' }) :
    (v.store i b st).Rekeyed c d (w.store i b' st') := by
  refine ⟨h.rest, fun j => ?_⟩
  by_cases hj : i = j
  · subst hj
    rw [getElem?_store_self st hb, getElem?_store_self st' hb']
    exact .some hSame
  · rw [getElem?_store_of_ne v hj, getElem?_store_of_ne w hj]
    exact h.backends j

theorem supply_eq (h : v.Rekeyed c d w) : v.supply = w.supply := by
  have hSupply := congrArg supply h.rest
  exact hSupply

/-- Chains of the same length take equally many nonces. -/
theorem drawn (h : v.Rekeyed c d w) {x y : WriteChain} (hLength : x.steps.length = y.steps.length) :
    (v.drawn x).Rekeyed c d (w.drawn y) := by
  refine ⟨?_, h.backends⟩
  have hRest := congrArg (·.drawn x) h.rest
  rw [World.drawn, World.drawn, ← hLength]
  exact hRest

theorem begin (h : v.Rekeyed c d w) (i : Nat) (r : Request) :
    (v.begin i r).1.Rekeyed c d (w.begin i r).1 ∧
      (v.begin i r).2.Rekeyed (c i) (d i) (w.begin i r).2 := by
  obtain ⟨hLeft, hRight⟩ | ⟨b, b', hLeft, hRight, hSame⟩ := h.cases_at i
  · simp only [World.begin, hLeft, hRight]
    exact ⟨h, .ended _⟩
  · cases hSame with
    | memory name hProperties hCodecs hContent =>
      simp only [World.begin, hLeft, hRight, h.supply_eq]
      obtain ⟨hAfter, hBegun⟩ := hContent.begin hCodecs w.supply r
      refine ⟨?_, hBegun⟩
      exact (h.store hLeft hRight (.memory name hProperties hCodecs hAfter)).drawn hCodecs.writes

theorem finish (h : v.Rekeyed c d w) {i : Nat} {held other : Held}
    (hHeld : held.Rekeyed (c i) (d i) other) :
    (v.finish i held).1.Rekeyed c d (w.finish i other).1 ∧
      (v.finish i held).2 = (w.finish i other).2 := by
  obtain ⟨hLeft, hRight⟩ | ⟨b, b', hLeft, hRight, hSame⟩ := h.cases_at i
  · simp only [World.finish, hLeft, hRight]
    exact ⟨h, trivial⟩
  · cases hSame with
    | memory name hProperties hCodecs hContent =>
      simp only [World.finish, hLeft, hRight]
      obtain ⟨hAfter, hOutcome⟩ := hContent.finish hHeld
      exact ⟨h.store hLeft hRight (.memory name hProperties hCodecs hAfter), hOutcome⟩

end Rekeyed

end World

end ReplicatedStore
