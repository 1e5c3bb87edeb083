import ReplicatedStore.Proofs.Backend.Mirroring

/-!
# Directories and memories in each other's place

A directory that makes no containers and a memory with the same containers give the same answers to
whatever they are asked one after the other, whatever their properties are. Both give those of a plain
map. What a directory leaves behind, on the way to objects that were removed, never shows.

Main results:

* `World.answers_eq` — a run gives what a map gives if each of its calls does.
* `World.interchangeable` — the answers of a directory are those of a memory.
-/

namespace ReplicatedStore

/-- The answers to requests, one after the other. -/
def PlainMap.answers (p : PlainMap) : List Request → List (Option Answer)
  | [] => []
  | r :: rs => p.answer? r :: (p.after r).answers rs

/-- The answer to a write carries nothing. -/
theorem PlainMap.eq_done_of_write (p : PlainMap) {r : Request} {x : Answer} (hWrite : r.isWrite = true)
    (h : p.answer? r = some x) : .done = x := by
  cases r with
  | get a => contradiction
  | holds a => contradiction
  | put a data =>
    rw [answer?] at h
    split at h
    · exact Option.some.inj h
    · contradiction
  | remove a =>
    rw [answer?] at h
    split at h
    · exact Option.some.inj h
    · contradiction

/-- The outcomes of calls of one backend, one after the other. -/
def World.outcomes (w : World) (i : Nat) : List Request → List Outcome
  | [] => []
  | r :: rs => (w.call i r).2 :: (w.call i r).1.outcomes i rs

/-- The answers to calls of one backend, where there are any. -/
def World.answers (w : World) (i : Nat) (rs : List Request) : List (Option Answer) :=
  (w.outcomes i rs).map Outcome.answer?

/-- Whether a disk has containers below a base and nothing else; without any, the base may be missing. -/
structure Disk.Hosts (d : Disk) (base : String) (containers : List String) : Prop where
  start : d.found base = .ok .directory ∨ (containers = [] ∧ d.found base = .error .missing)
  below : ∀ c rest, d.node? (d.placeOf base ++ c :: rest) =
    if c ∈ containers ∧ rest = [] then some .directory else none

variable {p : PlainMap} {names : String → Prop} {containers : List String} {r : Request} {o : Outcome}

/-! ## Memories -/

namespace Storage

variable {st after : Storage}

theorem answer?_of_write (hWrite : r.isWrite = true) (hAnswered : o.isAnswered = (p.answer? r).isSome)
    (hDone : o.isAnswered = true → o = .answered .done) : o.answer? = p.answer? r := by
  cases hGives : p.answer? r with
  | none =>
    rw [hGives] at hAnswered
    cases o with
    | answered x => contradiction
    | failed f => rfl
    | crashed reason => rfl
  | some x =>
    rw [hGives] at hAnswered
    rw [hDone hAnswered, ← p.eq_done_of_write hWrite hGives]
    rfl

/-- A memory gives what the map gives that it shows. -/
theorem Shows.answer?_eq (h : st.Shows p) (hSteady : st.Steady) (hCalls : st.Calls r o after) :
    o.answer? = p.answer? r := by
  cases r with
  | get a =>
    have hGet := answer_get hSteady hCalls
    rw [h.offer?_eq] at hGet
    rw [PlainMap.answer?]
    cases hFound : p.find? a with
    | none =>
      rw [hFound] at hGet
      obtain ⟨f, rfl⟩ := hGet
      rfl
    | some data =>
      rw [hFound] at hGet
      obtain rfl : o = _ := hGet
      rfl
  | holds a =>
    rw [(answer_holds hSteady hCalls).2 h.isDeaf_eq, h.offer?_eq]
    rfl
  | put a data =>
    refine answer?_of_write rfl (isAnswered_of_calls h hSteady rfl hCalls) fun hAnswered => ?_
    cases hSteady with
    | scripted reads => cases h
    | memory lossless readable =>
      obtain ⟨content, -, rfl, -⟩ := calls_put_memory lossless hCalls
      unfold Memory.place at hAnswered ⊢
      split <;> simp_all [Outcome.isAnswered]
  | remove a =>
    refine answer?_of_write rfl (isAnswered_of_calls h hSteady rfl hCalls) fun hAnswered => ?_
    cases hSteady with
    | scripted reads => cases h
    | memory lossless readable =>
      obtain ⟨rfl, -⟩ := calls_remove_memory hCalls
      unfold Memory.drop at hAnswered ⊢
      split <;> [split; skip] <;> simp_all [Outcome.isAnswered]

/-- A call comes to the same at a memory as at the map that it shows. -/
theorem Shows.after_of_calls (h : st.Shows p) (hSteady : st.Steady) (hCalls : st.Calls r o after) :
    after.Shows (p.after r) := by
  cases hWrite : r.isWrite with
  | true => exact h.of_calls hSteady hWrite hCalls
  | false =>
    rw [p.after_of_read hWrite]
    exact h.of_alike (alike_of_read hSteady hWrite hCalls)

end Storage

/-! ## Directories -/

theorem Backend.lacksKey_of_ofSettings [Gzip.Encoder] {s : BackendSettings} {b : Backend}
    (h : ofSettings s = .ok b) : s.properties.lacksKey = false := by
  rw [← Bool.not_eq_true]
  intro hLacks
  have hCodec := (Codec.ofProperties_eq_error_iff _ _).2 ⟨rfl, hLacks⟩
  simp [ofSettings, codecFor, hCodec] at h

/-- A backend in a directory can be set up unless its key is lacking. -/
theorem Backend.exists_directory [Gzip.Encoder] [Gzip.LawfulEncoder] {properties : Properties}
    (hKey : properties.lacksKey = false) (name base : String) (createContainers : Bool) :
    ∃ codec : Codec, codec.Lossless ∧
      ofSettings ⟨name, properties, .filesystem base createContainers⟩ =
        .ok ⟨name, properties, .directory codec ⟨base, createContainers⟩⟩ := by
  cases hCodec : Codec.ofProperties properties with
  | error e =>
    have hLacks := ((Codec.ofProperties_eq_error_iff _ _).mp hCodec).2
    rw [hKey] at hLacks
    contradiction
  | ok codec =>
    exact ⟨codec, Codec.lossless_of_ofProperties hCodec, by simp [ofSettings, codecFor, hCodec]⟩

namespace Directory

variable {d : Directory} {disk : Disk} {codec : Codec}

/-- Containers without objects mirror the map without payloads. -/
theorem mirrors_empty (hNames : AreSeparate names) (h : disk.Hosts d.base containers) :
    d.Mirrors codec names (.empty containers) disk := by
  have hBelow (c : String) {rest : List String} (hRest : rest ≠ []) :
      disk.node? (disk.placeOf d.base ++ c :: rest) = none := by
    rw [h.below, if_neg fun hBoth => hRest hBoth.2]
  constructor
  case base => exact h.start
  case tree =>
    rintro place t ⟨rest, rfl⟩ hNode
    cases rest with
    | cons c rest =>
      rw [List.append_assoc, List.cons_append, hBelow c (by simp)] at hNode
      contradiction
    | nil =>
      rw [List.append_nil] at hNode ⊢
      rcases h.start with hStart | ⟨rfl, -⟩
      · exact (Disk.follow_of_found hStart).2
      · rw [h.below] at hNode
        simp at hNode
  case container =>
    intro c
    rw [h.below]
    exact if_congr (and_iff_left rfl) rfl rfl
  case file =>
    intro a data _ hFound
    contradiction
  case nothing =>
    intro a hA _
    exact hBelow _ (hNames.clean a.name hA).leadsDown.names_ne_nil
  case way =>
    intro a front _ _ _
    rw [h.below]
    split
    · exact .inl rfl
    · exact .inr rfl

theorem objectPath_of_objection {f : Failure} (hPut : ∀ a data, r ≠ .put a data)
    (h : d.objection? disk r = some f) : d.objectPath r.address = .error f := by
  unfold objection? at h
  split at h
  · exact absurd rfl (hPut _ _)
  · split at h
    · rename_i hPath
      rw [hPath, Option.some.inj h]
    · contradiction

/-- A call that fails before it turns to the disk fails so whenever it is finished. -/
theorem call_of_objection {f : Failure} {nonces : Nat → Nonce} (h : d.objection? disk r = some f) :
    d.call codec nonces disk r = (disk, .failed f) := by
  cases r with
  | get a =>
    have hError : d.objectPath a = .error f := objectPath_of_objection (by simp) h
    simp only [call, get, hError]
  | remove a =>
    have hError : d.objectPath a = .error f := objectPath_of_objection (by simp) h
    simp only [call, remove, hError]
  | holds a =>
    have hError : d.objectPath a = .error f := objectPath_of_objection (by simp) h
    simp only [call, holds, hError]
  | put a data =>
    rw [objection?] at h
    rw [call, put, needContainer]
    cases hContainer : d.containerPath a.container with
    | error g =>
      simp only [hContainer] at h ⊢
      rw [Option.some.inj h]
    | ok path =>
      simp only [hContainer] at h ⊢
      split_ifs at h with hThere hCreate
      · rw [if_pos hThere]
        split at h
        · simp only
          rw [Option.some.inj h]
        · contradiction
      · rw [if_neg hThere, if_neg hCreate]
        simp only
        rw [Option.some.inj h]

end Directory

namespace World

variable {v w : World} {i j : Nat} {b : Backend}

theorem call_directory {codec : Codec} {place : Directory} (hb : w.backends[i]? = some b)
    (hStorage : b.storage = .directory codec place) (r : Request) :
    (w.call i r).2 = (place.call codec w.supply w.disk r).2 ∧
      (w.call i r).1.disk = (place.call codec w.supply w.disk r).1 ∧
      (w.call i r).1.backends = w.backends := by
  unfold World.call
  simp only [begin, hb, hStorage, Directory.begin]
  cases hObjection : place.objection? w.disk r with
  | some f =>
    rw [Directory.call_of_objection hObjection]
    exact ⟨rfl, rfl, rfl⟩
  | none =>
    simp [finish, hb, hStorage, drawn]

/-! ## Runs -/

/-- A run gives what a map gives if each call does, and what it is known by goes on. -/
theorem answers_eq {R : World → PlainMap → Prop} {P : Request → Prop}
    (step : ∀ w p r, R w p → P r → (w.call i r).2.answer? = p.answer? r ∧ R (w.call i r).1 (p.after r))
    {rs : List Request} (hAll : ∀ r ∈ rs, P r) (h : R w p) : w.answers i rs = p.answers rs := by
  induction rs generalizing w p with
  | nil => rfl
  | cons r rs ih =>
    obtain ⟨hAnswer, hAfter⟩ := step w p r h (hAll r List.mem_cons_self)
    have hRest := ih (fun r hr => hAll r (List.mem_cons_of_mem _ hr)) hAfter
    rw [answers, outcomes, List.map_cons, hAnswer, PlainMap.answers]
    exact congrArg _ hRest

theorem answers_directory {codec : Codec} {place : Directory} {rs : List Request}
    (hNames : AreSeparate names) (hLossless : codec.Lossless) (hCreate : place.createContainers = false)
    (hSuits : ∀ r ∈ rs, place.Suits names r.address) (hb : w.backends[i]? = some b)
    (hStorage : b.storage = .directory codec place) (hSound : w.disk.IsSound)
    (h : place.Mirrors codec names p w.disk) : w.answers i rs = p.answers rs := by
  refine answers_eq (R := fun w p =>
      w.backends[i]? = some b ∧ w.disk.IsSound ∧ place.Mirrors codec names p w.disk)
    (fun w p r hHolds hSuits => ?_) hSuits ⟨hb, hSound, h⟩
  obtain ⟨hb, hSound, hMirrors⟩ := hHolds
  obtain ⟨hOutcome, hDisk, hBackends⟩ := call_directory hb hStorage r
  obtain ⟨hAnswer, hAfter⟩ := hMirrors.call hNames hSuits hLossless hCreate hSound w.supply
  rw [hOutcome, hDisk, hBackends]
  refine ⟨hAnswer, hb, fun n => ?_, hAfter⟩
  exact (congrFun (place.mishapAt_call codec w.supply w.disk r) n).trans (hSound n)

theorem answers_memory {rs : List Request} (hb : w.backends[i]? = some b) (hSteady : b.storage.Steady)
    (h : b.storage.Shows p) : w.answers i rs = p.answers rs := by
  refine answers_eq (P := fun _ => True)
    (R := fun w p => ∃ b, w.backends[i]? = some b ∧ b.storage.Steady ∧ b.storage.Shows p)
    (fun w p r hHolds _ => ?_) (fun _ _ => trivial) ⟨b, hb, hSteady, h⟩
  obtain ⟨b, hb, hSteady, hShows⟩ := hHolds
  obtain ⟨c, after, hc, hAfter, hCalls⟩ := (calls_call hb hSteady.isKept r).call
  obtain rfl : b = c := Option.some.inj (hb.symm.trans hc)
  exact ⟨hShows.answer?_eq hSteady hCalls, after, hAfter, hSteady.of_calls hCalls,
    hShows.after_of_calls hSteady hCalls⟩

/-- **Directories and memories are interchangeable.** A directory that makes no containers and a memory with
the same containers, whatever their properties are, give the same answers to whatever they are asked one
after the other, as long as nothing comes in the way of a content on the disk, containers are single
components, and no name leads through another one. Both give the answers of a map that has these
containers. Either can be set up unless its key is lacking. -/
theorem interchangeable [Gzip.Encoder] [Gzip.LawfulEncoder] (hNames : AreSeparate names) (p q : Properties)
    (name other base : String) (containers : List String) :
    ((∃ kept, Backend.ofSettings ⟨name, p, .filesystem base false⟩ = .ok kept) ↔ p.lacksKey = false) ∧
    ((∃ held, Backend.ofSettings ⟨other, q, .memory containers⟩ = .ok held) ↔ q.lacksKey = false) ∧
    ∀ kept held, Backend.ofSettings ⟨name, p, .filesystem base false⟩ = .ok kept →
      Backend.ofSettings ⟨other, q, .memory containers⟩ = .ok held →
      ∀ (w v : World) (i j : Nat) (rs : List Request), w.backends[i]? = some kept →
        v.backends[j]? = some held → w.disk.IsSound → w.disk.Hosts base containers →
        (∀ r ∈ rs, (Directory.mk base false).Suits names r.address) →
        w.answers i rs = v.answers j rs ∧ v.answers j rs = (PlainMap.empty containers).answers rs := by
  have hDirectory (hKey : p.lacksKey = false) := Backend.exists_directory hKey name base false
  have hMemory (hKey : q.lacksKey = false) :=
    Backend.exists_memory (s := ⟨other, q, .memory containers⟩) hKey rfl fun _ => Iff.rfl
  refine ⟨⟨?_, ?_⟩, ⟨?_, ?_⟩, ?_⟩
  · rintro ⟨kept, hKept⟩
    exact Backend.lacksKey_of_ofSettings hKept
  · intro hKey
    obtain ⟨codec, -, hMade⟩ := hDirectory hKey
    exact ⟨_, hMade⟩
  · rintro ⟨held, hHeld⟩
    exact Backend.lacksKey_of_ofSettings hHeld
  · intro hKey
    obtain ⟨held, hMade, -⟩ := hMemory hKey
    exact ⟨held, hMade⟩
  · intro kept held hKept hHeld w v i j rs hFirst hSecond hSound hHosts hSuits
    obtain ⟨codec, hLossless, hMade⟩ := hDirectory (Backend.lacksKey_of_ofSettings hKept)
    obtain rfl := Except.ok.inj (hMade.symm.trans hKept)
    obtain ⟨memory, hMade, -, hSteady, hShows⟩ := hMemory (Backend.lacksKey_of_ofSettings hHeld)
    obtain rfl := Except.ok.inj (hMade.symm.trans hHeld)
    have hMap : v.answers j rs = (PlainMap.empty containers).answers rs :=
      answers_memory hSecond hSteady hShows
    refine ⟨?_, hMap⟩
    rw [hMap]
    exact answers_directory hNames hLossless rfl hSuits hFirst rfl hSound
      (Directory.mirrors_empty hNames hHosts)

/-- A disk with one container and nothing in it. -/
def docsDisk : Disk := { nodes := [(["data"], .directory), (["data", "docs"], .directory)] }

/-- Names of two objects, of which one is in directories. -/
def docsNames (n : String) : Prop := n ∈ ["2024/q1/a.pdf", "notes"]

instance : DecidablePred docsNames := fun n =>
  inferInstanceAs (Decidable (n ∈ ["2024/q1/a.pdf", "notes"]))

/-- An object is put, removed, and put again; then a container is missing. -/
def docsRun : List Request :=
  [.put ⟨"docs", "2024/q1/a.pdf"⟩ [1], .holds ⟨"docs", "2024/q1/a.pdf"⟩,
    .remove ⟨"docs", "2024/q1/a.pdf"⟩, .get ⟨"docs", "2024/q1/a.pdf"⟩,
    .put ⟨"docs", "2024/q1/a.pdf"⟩ [2], .get ⟨"docs", "2024/q1/a.pdf"⟩,
    .put ⟨"misc", "notes"⟩ [3], .holds ⟨"misc", "notes"⟩]

/-- Directories that a removal leaves behind do not show, nor does compression. -/
theorem interchangeable_leftovers :
    ∃ kept held, Backend.ofSettings ⟨"a", { compression := .gzip }, .filesystem "data" false⟩ = .ok kept ∧
      Backend.ofSettings ⟨"b", {}, .memory ["docs"]⟩ = .ok held ∧
      World.answers { backends := [kept], disk := docsDisk } 0 docsRun =
        World.answers { backends := [held] } 0 docsRun ∧
      World.answers { backends := [held] } 0 docsRun =
        [some .done, some (.presence true), some .done, none, some .done, some (.content [2]), none,
          some (.presence false)] := by
  have hClean : ∀ n ∈ ["2024/q1/a.pdf", "notes"], Path.IsClean n := by decide
  have hApart : ∀ n ∈ ["2024/q1/a.pdf", "notes"], ∀ m ∈ ["2024/q1/a.pdf", "notes"],
      Path.names n <+: Path.names m → Path.names n = Path.names m := by decide
  have hNames : AreSeparate docsNames := ⟨hClean, fun n m hn hm => hApart n hn m hm⟩
  have hHosts : docsDisk.Hosts "data" ["docs"] := by
    refine ⟨.inl (by decide +kernel), fun c rest => ?_⟩
    have hPlace : docsDisk.placeOf "data" = ["data"] := by decide +kernel
    rw [hPlace]
    simp only [docsDisk, Disk.node?]
    by_cases hDocs : c = "docs" ∧ rest = []
    · obtain ⟨rfl, rfl⟩ := hDocs
      rfl
    · have hOther : (["data", "docs"] == "data" :: c :: rest) = false := by
        refine beq_eq_false_iff_ne.2 fun hEq => hDocs ?_
        cases hEq
        exact ⟨rfl, rfl⟩
      have hBase : (["data"] == "data" :: c :: rest) = false := by simp
      simp [hOther, hBase, hDocs]
  have hSuits : ∀ r ∈ docsRun, (Directory.mk "data" false).Suits docsNames r.address := by
    decide +kernel
  obtain ⟨hFirst, hSecond, hAnswers⟩ :=
    interchangeable hNames { compression := .gzip } {} "a" "b" "data" ["docs"]
  obtain ⟨kept, hKept⟩ := hFirst.2 rfl
  obtain ⟨held, hHeld⟩ := hSecond.2 rfl
  obtain ⟨hSame, hMap⟩ := hAnswers kept held hKept hHeld { backends := [kept], disk := docsDisk }
    { backends := [held] } 0 0 docsRun rfl rfl (fun _ => rfl) hHosts hSuits
  exact ⟨kept, held, hKept, hHeld, hSame, hMap.trans (by decide)⟩

end World

end ReplicatedStore
