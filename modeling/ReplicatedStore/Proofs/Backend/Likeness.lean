import ReplicatedStore.Proofs.Backend.Steady
import ReplicatedStore.Session.ReadOrder

/-!
# Worlds that are alike

Worlds are alike if their backends are, one by one. A call of a steady backend is a call of its storage
and leaves all others alone, so a read leaves a world like it was. What a fetch finds among all
backends is the first payload that one of them offers, replicas before mains, and it is the same in
worlds that are alike.

Main results:

* `World.calls_of_begin`, `World.calls_of_finish` — a call is a call of the storage.
* `World.alike_of_read` — reads leave a world like it was.
* `World.Alike.fetch?_eq` — what is found in worlds that are alike.
-/

namespace ReplicatedStore

/-- What a read gives that finds a payload. -/
def Request.gives (r : Request) (data : Bytes) : Answer :=
  match r with
  | get _ => .content data
  | put .. | remove _ | holds _ => .presence true

namespace World

/-- Whether all backends keep their objects themselves, and reads of each fail one and all or tell all
of them. -/
def Steady (w : World) : Prop := ∀ b ∈ w.backends, b.storage.Steady

/-- Whether the backends of two worlds are alike, one by one. -/
structure Alike (v w : World) : Prop where
  frame : v.frame = w.frame
  storages : ∀ (i : Nat) b c, v.backends[i]? = some b → w.backends[i]? = some c →
    b.storage.Alike c.storage

/-- A whole call of a backend that leaves all others alone. -/
structure Calls (w : World) (position : Nat) (r : Request) (o : Outcome) (v : World) : Prop where
  frame : v.frame = w.frame
  call : ∃ b b', w.backends[position]? = some b ∧ v.backends[position]? = some b' ∧
    b.storage.Calls r o b'.storage
  others : ∀ i, position ≠ i → v.backends[i]? = w.backends[i]?

/-- The payload that a backend has at an address. -/
def shownAt? (w : World) (position : Nat) (a : Address) : Option Bytes :=
  (w.backends[position]?).bind (·.storage.shown? a)

/-- The payload that a backend gives when it is asked for what it has at an address. -/
def offerAt? (w : World) (position : Nat) (a : Address) : Option Bytes :=
  (w.backends[position]?).bind (·.storage.offer? a)

/-- Whether all reads of a backend fail. -/
def isDeafAt (w : World) (position : Nat) : Bool := (w.backends[position]?).any (·.storage.isDeaf)

/-- The payload that the first of all backends gives that gives one, replicas before mains. -/
def fetch? (w : World) (a : Address) : Option Bytes :=
  w.readGroups.flatten.findSome? fun i => w.offerAt? i a

variable {v w : World} {position : Nat} {r : Request} {o : Outcome} {b : Backend}

theorem Steady.at (h : w.Steady) (hb : w.backends[position]? = some b) : b.storage.Steady :=
  h b (List.mem_of_getElem? hb)

theorem exists_of_mem_flatten (h : position ∈ w.readGroups.flatten) :
    ∃ b, w.backends[position]? = some b := by
  have hLt : position < w.backends.length := by
    simp only [readGroups, List.flatten_cons, List.flatten_nil, List.append_nil, List.mem_append] at h
    rcases h with h | h
    · exact List.mem_range.mp (List.mem_filter.mp h).1
    · exact List.mem_range.mp (List.mem_filter.mp h).1
  exact ⟨_, List.getElem?_eq_getElem hLt⟩

theorem mem_flatten (hb : w.backends[position]? = some b) : position ∈ w.readGroups.flatten := by
  have hLt : position ∈ List.range w.backends.length :=
    List.mem_range.mpr (List.getElem?_eq_some_iff.mp hb).1
  simp only [readGroups, List.flatten_cons, List.flatten_nil, List.append_nil, List.mem_append]
  cases hMain : b.properties.isMain with
  | true => exact .inr (List.mem_filter.mpr ⟨hLt, by simp [hb, hMain]⟩)
  | false => exact .inl (List.mem_filter.mpr ⟨hLt, by simp [hb, hMain]⟩)

/-! ## Calls -/

theorem begin_at (hb : w.backends[position]? = some b) (hKept : b.storage.isKept = true)
    (r : Request) : ∃ nonces st, b.storage.begin nonces r = (st, (w.begin position r).2) ∧
      (w.begin position r).1.backends[position]? = some { b with storage := st } := by
  obtain ⟨hBegun, draws, calls, hWorld⟩ := begin_of_isKept hb hKept r
  refine ⟨w.supply, (b.storage.begin w.supply r).1, by rw [hBegun], ?_⟩
  rw [hWorld]
  exact getElem?_store_self _ hb

theorem finish_at (hb : w.backends[position]? = some b) (hKept : b.storage.isKept = true)
    {held : Held} (hKeeps : b.storage.Keeps r held) :
    (w.finish position held).2 = (b.storage.finish held).2 ∧
      (w.finish position held).1.backends[position]? =
        some { b with storage := (b.storage.finish held).1 } := by
  obtain ⟨hOutcome, hWorld⟩ := finish_of_isKept hb hKept hKeeps
  refine ⟨hOutcome, ?_⟩
  rw [hWorld]
  exact getElem?_store_self _ hb

/-- A call that is over at once. -/
theorem calls_of_begin (hb : w.backends[position]? = some b) (hKept : b.storage.isKept = true)
    (h : w.begin position r = (v, .over o)) : w.Calls position r o v := by
  obtain ⟨nonces, st, hBegin, hAfter⟩ := begin_at hb hKept r
  have hFrame := frame_begin w position r
  have hOthers (i : Nat) (hi : position ≠ i) := getElem?_begin_of_ne w hi r
  rw [h] at hBegin hAfter hFrame hOthers
  exact ⟨hFrame, ⟨b, _, hb, hAfter, .atOnce hBegin⟩, hOthers⟩

/-- A call that is finished before anything else happens to the backends. -/
theorem calls_of_finish (hb : w.backends[position]? = some b) (hKept : b.storage.isKept = true)
    {delay : Duration} {held : Held} (h : w.begin position r = (v, .waiting delay held)) :
    w.Calls position r (v.finish position held).2 (v.finish position held).1 := by
  obtain ⟨nonces, st, hBegin, hAfter⟩ := begin_at hb hKept r
  have hFrame := frame_begin w position r
  have hOthers (i : Nat) (hi : position ≠ i) := getElem?_begin_of_ne w hi r
  rw [h] at hBegin hAfter hFrame hOthers
  -- what the storage is of does not change when a call begins
  have hBlank : st.blank = b.storage.blank := by
    rw [← Storage.blank_begin nonces r b.storage, hBegin]
  have hStillKept : st.isKept = true := by
    rw [Storage.isKept_eq_of_blank_eq hBlank, hKept]
  have hKeeps : st.Keeps r held := (Storage.keeps_begin hBegin).1.of_blank_eq hBlank
  obtain ⟨hOutcome, hFinished⟩ := finish_at hAfter hStillKept hKeeps
  refine ⟨(frame_finish v position held).trans hFrame, ⟨b, _, hb, hFinished, ?_⟩, fun i hi => ?_⟩
  · rw [hOutcome]
    exact .later hBegin
  · rw [getElem?_finish_of_ne v hi]
    exact hOthers i hi

/-- A call with nothing else between its moments. -/
theorem calls_call (hb : w.backends[position]? = some b) (hKept : b.storage.isKept = true) (r : Request) :
    w.Calls position r (w.call position r).2 (w.call position r).1 := by
  unfold call
  cases hBegin : w.begin position r with
  | mk v begun =>
    rcases begun with o | ⟨delay, held⟩
    · exact calls_of_begin hb hKept hBegin
    · exact calls_of_finish hb hKept hBegin

theorem Steady.of_calls (h : w.Steady) (hCalls : w.Calls position r o v) : v.Steady := by
  intro c hc
  obtain ⟨i, hi⟩ := List.mem_iff_getElem?.mp hc
  by_cases hEq : position = i
  · subst hEq
    obtain ⟨b, b', hb, hb', hCall⟩ := hCalls.call
    rw [hi] at hb'
    cases hb'
    exact (h.at hb).of_calls hCall
  · rw [hCalls.others i hEq] at hi
    exact h.at hi

/-! ## Worlds that are alike -/

theorem Alike.refl (h : w.Steady) : w.Alike w := by
  refine ⟨rfl, fun i b c hb hc => ?_⟩
  rw [hb, Option.some.injEq] at hc
  rw [← hc]
  exact .refl (h.at hb)

theorem Alike.symm (h : v.Alike w) : w.Alike v :=
  ⟨h.frame.symm, fun i b c hb hc => (h.storages i c b hc hb).symm⟩

theorem Alike.trans {u : World} (h : u.Alike v) (h' : v.Alike w) : u.Alike w := by
  refine ⟨h.frame.trans h'.frame, fun i b d hb hd => ?_⟩
  obtain ⟨c, hc, -⟩ := exists_of_frame_eq h'.frame hd
  exact (h.storages i b c hb hc).trans (h'.storages i c d hc hd)

/-- What is told of each backend by its storage is the same in worlds that are alike. -/
theorem Alike.bind_eq {α : Type} (h : v.Alike w) (told : Storage → Option α)
    (hTold : ∀ {st st' : Storage}, st.Alike st' → told st = told st') (i : Nat) :
    (v.backends[i]?).bind (told ·.storage) = (w.backends[i]?).bind (told ·.storage) := by
  cases hw : w.backends[i]? with
  | none =>
    have hLength := length_of_frame_eq h.frame
    have hv : v.backends[i]? = none := by
      rw [List.getElem?_eq_none_iff] at hw ⊢
      omega
    rw [hv]
  | some c =>
    obtain ⟨b, hb, -⟩ := exists_of_frame_eq h.frame hw
    rw [hb]
    exact hTold (h.storages i b c hb hw)

theorem Alike.shownAt?_eq (h : v.Alike w) : v.shownAt? = w.shownAt? := by
  funext i a
  exact h.bind_eq (fun st => st.shown? a) (fun hSt => congrFun hSt.shown?_eq a) i

theorem Alike.offerAt?_eq (h : v.Alike w) : v.offerAt? = w.offerAt? := by
  funext i a
  exact h.bind_eq (fun st => st.offer? a) (fun hSt => congrFun hSt.offer?_eq a) i

theorem Alike.isDeafAt_eq (h : v.Alike w) : v.isDeafAt = w.isDeafAt := by
  funext i
  have hSome := h.bind_eq (fun st => some st.isDeaf) (fun hSt => congrArg some hSt.isDeaf_eq) i
  unfold isDeafAt
  cases hv : v.backends[i]? <;> cases hw : w.backends[i]? <;> simp_all

theorem readGroups_of_frame_eq (h : v.frame = w.frame) : v.readGroups = w.readGroups := by
  rw [readGroups, readGroups, mains_of_frame_eq h, replicas_of_frame_eq h]

theorem Alike.fetch?_eq (h : v.Alike w) : v.fetch? = w.fetch? := by
  funext a
  rw [fetch?, fetch?, readGroups_of_frame_eq h.frame, h.offerAt?_eq]

theorem alike_of_read (hw : w.Steady) (hRead : r.isWrite = false) (h : w.Calls position r o v) :
    v.Alike w := by
  refine ⟨h.frame, fun i b c hb hc => ?_⟩
  by_cases hEq : position = i
  · subst hEq
    obtain ⟨b₀, b₁, hb₀, hb₁, hCall⟩ := h.call
    rw [hb] at hb₁
    rw [hc] at hb₀
    cases hb₀
    cases hb₁
    exact Storage.alike_of_read (hw.at hc) hRead hCall
  · rw [h.others i hEq, hc, Option.some.injEq] at hb
    rw [← hb]
    exact .refl (hw.at hc)

/-! ## What reads come to -/

/-- Whether a read of a backend fails that has nothing to give: a fetch always does. -/
def failsAt (w : World) (r : Request) (position : Nat) : Bool :=
  match r with
  | .get _ => true
  | .put .. | .remove _ | .holds _ => w.isDeafAt position

theorem Alike.failsAt_eq (h : v.Alike w) (r : Request) : v.failsAt r = w.failsAt r := by
  funext i
  unfold failsAt
  rw [h.isDeafAt_eq]

/-- A read gives what the backend offers; else it fails, or tells that there is nothing. -/
theorem answer_of_read (hw : w.Steady) (hRead : r.isWrite = false) (h : w.Calls position r o v) :
    (∃ data, w.offerAt? position r.address = some data ∧ o = .answered (r.gives data)) ∨
      w.offerAt? position r.address = none ∧
        ((w.failsAt r position = true ∧ ∃ f, o = .failed f) ∨
          w.failsAt r position = false ∧ o = .answered (.presence false)) := by
  obtain ⟨b, b', hb, -, hCall⟩ := h.call
  have hOffer : w.offerAt? position r.address = b.storage.offer? r.address := by
    rw [offerAt?, hb, Option.bind_some]
  rw [hOffer]
  -- a fetch that finds nothing fails; a probe only fails at a backend that is deaf
  cases r with
  | put a data => contradiction
  | remove a => contradiction
  | get a =>
    have hAnswer := Storage.answer_get (hw.at hb) hCall
    show (∃ data, b.storage.offer? a = some data ∧ _) ∨ b.storage.offer? a = none ∧ _
    split at hAnswer
    · rename_i data hSome
      exact .inl ⟨data, hSome, hAnswer⟩
    · rename_i hNone
      exact .inr ⟨hNone, .inl ⟨rfl, hAnswer⟩⟩
  | holds a =>
    obtain ⟨hDeaf, hTells⟩ := Storage.answer_holds (hw.at hb) hCall
    have hFails : w.failsAt (.holds a) position = b.storage.isDeaf := by
      simp [failsAt, isDeafAt, hb]
    show (∃ data, b.storage.offer? a = some data ∧ _) ∨ b.storage.offer? a = none ∧ _
    cases hIs : b.storage.isDeaf with
    | true =>
      refine .inr ⟨?_, .inl ⟨hFails.trans hIs, hDeaf hIs⟩⟩
      rw [Storage.offer?, hIs, if_pos rfl]
    | false =>
      have hOutcome := hTells hIs
      cases hFound : b.storage.offer? a with
      | some data => exact .inl ⟨data, rfl, by rw [hOutcome, hFound]; rfl⟩
      | none => exact .inr ⟨rfl, .inr ⟨hFails.trans hIs, by rw [hOutcome, hFound]; rfl⟩⟩

end World

end ReplicatedStore
