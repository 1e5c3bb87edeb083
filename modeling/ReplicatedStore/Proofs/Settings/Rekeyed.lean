import ReplicatedStore.Proofs.Backend.PlainMap
import ReplicatedStore.Proofs.Session.Outside
import ReplicatedStore.Session.Setup
import ReplicatedStore.Settings.Check

/-!
# Keys stay hidden

Settings that are the same but for usable keys are written out alike, are refused for the same reason or
not at all, and describe clients that nobody can tell apart. The check and the codec look at a key only to
see whether there is one that is not empty, and no reader of the settings is shown more.

Main results:

* `Settings.Rekeyed.check_eq` — what is said of the settings.
* `Session.rekeyed_of_ofSettings` — both are refused alike, or describe sessions that are alike.
* `Settings.keys_stay_hidden` — all that is shown of settings and of the clients that they describe.
-/

namespace ReplicatedStore

namespace BackendSettings

/-- Settings of two backends that are the same but for the key, which both have and neither has empty. -/
structure Rekeyed (a b : BackendSettings) : Prop where
  name : a.name = b.name
  properties : a.properties.Rekeyed b.properties
  kind : a.kind = b.kind

variable {a b : BackendSettings} {l m : List BackendSettings}

theorem Rekeyed.document_eq (h : a.Rekeyed b) : a.document = b.document := by
  rw [document, document, h.name, h.properties.document_eq, h.kind]

theorem Rekeyed.objection?_eq (h : a.Rekeyed b) (before : List String) :
    a.objection? before = b.objection? before := by
  rw [objection?, objection?, h.name, h.properties.lacksKey_eq, h.kind]

theorem objectionAmong?_eq_of_rekeyed (h : List.Forall₂ Rekeyed l m) (before : List String) :
    objectionAmong? before l = objectionAmong? before m := by
  -- the names seen before are the same in both lists
  induction h generalizing before with
  | nil => rfl
  | cons hFirst _ ih => rw [objectionAmong?, objectionAmong?, hFirst.objection?_eq, hFirst.name, ih]

end BackendSettings

namespace Settings

/-- Settings that are the same but for the keys of corresponding backends, which are the same or which
both have and neither has empty. -/
structure Rekeyed (s t : Settings) : Prop where
  client : s.client = t.client
  cache : s.cache = t.cache
  backends : List.Forall₂ BackendSettings.Rekeyed s.backends t.backends
  logging : s.logging = t.logging

/-- Whether all backends are to keep their objects in memory. -/
def IsInMemory (s : Settings) : Prop := ∀ b ∈ s.backends, ∃ containers, b.kind = .memory containers

variable {s t : Settings}

theorem Rekeyed.document_eq (h : s.Rekeyed t) : s.document = t.document := by
  have hBackends := map_eq_of_forall₂ h.backends fun a b hSame => hSame.document_eq
  rw [document, document, h.client, h.cache, h.logging, hBackends]

theorem Rekeyed.objections_eq (h : s.Rekeyed t) : s.objections = t.objections := by
  have hEmpty : s.backends.isEmpty = t.backends.isEmpty := by
    rw [Bool.eq_iff_iff, List.isEmpty_iff_length_eq_zero, List.isEmpty_iff_length_eq_zero,
      h.backends.length_eq]
  rw [objections, objections, hEmpty, BackendSettings.objectionAmong?_eq_of_rekeyed h.backends, h.client,
    h.cache, h.logging]

/-- Both settings are fit, or both are refused with the same text. -/
theorem Rekeyed.check_eq (h : s.Rekeyed t) :
    s.check.map (fun _ => ()) = t.check.map (fun _ => ()) := by
  unfold check objection?
  rw [h.objections_eq]
  cases t.objections.head? <;> rfl

end Settings

/-! ## Setting up -/

theorem Memory.Rekeyed.ofContainers (c d : Codec) (containers : List String) :
    (Memory.ofContainers containers).Rekeyed c d (Memory.ofContainers containers) := by
  refine ⟨rfl, ?_⟩
  rw [objects_ofContainers]
  exact .nil

namespace Backend

variable {l m : List BackendSettings}

/-- Both backends are refused for the same reason, or both are built alike. -/
theorem rekeyed_of_ofSettings [Gzip.Encoder] [Gzip.LawfulEncoder] {a b : BackendSettings} (h : a.Rekeyed b)
    {containers : List String} (hKind : a.kind = .memory containers) :
    (∃ e, ofSettings a = .error e ∧ ofSettings b = .error e) ∨
      ∃ x y, ofSettings a = .ok x ∧ ofSettings b = .ok y ∧ ∃ c d, x.Rekeyed c d y := by
  have hKind' : b.kind = .memory containers := by rw [← h.kind, hKind]
  obtain ⟨e, hLeft, hRight⟩ | ⟨c, d, hLeft, hRight, hCodecs⟩ := h.properties.ofProperties
  · refine .inl ?_
    simp only [ofSettings, codecFor, hLeft, hRight, h.name]
    cases e <;> exact ⟨_, rfl, rfl⟩
  · refine .inr ?_
    simp only [ofSettings, codecFor, hLeft, hRight, h.name, hKind, hKind']
    exact ⟨_, _, rfl, rfl, c, d, .memory b.name h.properties hCodecs (.ofContainers c d containers)⟩

theorem rekeyed_of_allOfSettings [Gzip.Encoder] [Gzip.LawfulEncoder]
    (h : List.Forall₂ BackendSettings.Rekeyed l m)
    (hMemory : ∀ a ∈ l, ∃ containers, a.kind = .memory containers) :
    (∃ e, allOfSettings l = .error e ∧ allOfSettings m = .error e) ∨
      ∃ xs ys, allOfSettings l = .ok xs ∧ allOfSettings m = .ok ys ∧
        List.Forall₂ (fun x y => ∃ c d, x.Rekeyed c d y) xs ys := by
  induction h with
  | nil => exact .inr ⟨[], [], rfl, rfl, .nil⟩
  | @cons a b l m hFirst _ ih =>
    obtain ⟨containers, hKind⟩ := hMemory a List.mem_cons_self
    have hRest := ih fun a' ha => hMemory a' (List.mem_cons_of_mem _ ha)
    simp only [allOfSettings] at hRest ⊢
    rw [List.mapM_cons, List.mapM_cons]
    -- the first that is refused refuses all
    obtain ⟨e, hLeft, hRight⟩ | ⟨x, y, hLeft, hRight, hSame⟩ := rekeyed_of_ofSettings hFirst hKind
    · rw [hLeft, hRight]
      exact .inl ⟨e, rfl, rfl⟩
    · rw [hLeft, hRight]
      obtain ⟨e, hLeft', hRight'⟩ | ⟨xs, ys, hLeft', hRight', hAll⟩ := hRest
      · rw [hLeft', hRight']
        exact .inl ⟨e, rfl, rfl⟩
      · rw [hLeft', hRight']
        exact .inr ⟨x :: xs, y :: ys, rfl, rfl, .cons hSame hAll⟩

end Backend

/-- Worlds whose backends are alike one by one. -/
theorem World.exists_rekeyed {xs ys : List Backend}
    (h : List.Forall₂ (fun x y => ∃ c d, x.Rekeyed c d y) xs ys) (w : World) :
    ∃ c d, { w with backends := xs }.Rekeyed c d { w with backends := ys } := by
  have hAt (i : Nat) : ∃ c d, Option.Rel (Backend.Rekeyed c d) xs[i]? ys[i]? := by
    have hRel := forall₂_getElem? h i
    generalize xs[i]? = left at hRel ⊢
    generalize ys[i]? = right at hRel ⊢
    cases hRel with
    | none => exact ⟨⟨⟨[]⟩, ⟨[]⟩⟩, ⟨⟨[]⟩, ⟨[]⟩⟩, .none⟩
    | some hSame =>
      obtain ⟨c, d, hSame⟩ := hSame
      exact ⟨c, d, .some hSame⟩
  -- the codecs at each position are picked once, for all that is to come
  choose c d hSame using hAt
  exact ⟨c, d, rfl, hSame⟩

namespace Session

variable {s t : Settings}

/-- Backends in memory need nothing to be made ready. -/
theorem prepareAll_of_rekeyed {xs ys : List Backend}
    (h : List.Forall₂ (fun x y => ∃ c d, x.Rekeyed c d y) xs ys) (v w : World) :
    prepareAll v xs = (v, none) ∧ prepareAll w ys = (w, none) := by
  induction h with
  | nil => exact ⟨rfl, rfl⟩
  | cons hFirst _ ih =>
    obtain ⟨c, d, ⟨_⟩⟩ := hFirst
    exact ih

theorem Rekeyed.ofWorld {c d : Nat → Codec} {v w : World} (h : v.Rekeyed c d w)
    (replication : Replication) (strategy : Balancing) :
    (Session.ofWorld v replication strategy).Rekeyed c d (.ofWorld w replication strategy) := by
  refine ⟨?_, h, .nil, .nil⟩
  unfold Session.ofWorld shell
  rw [h.readGroups_eq]

theorem Rekeyed.withTimeout {c d : Nat → Codec} {x y : Session} (h : x.Rekeyed c d y)
    (timeout : Option Duration) : { x with timeout }.Rekeyed c d { y with timeout } :=
  ⟨congrArg (fun u => { u with timeout }) h.rest, h.world, h.fans, h.running⟩

theorem Rekeyed.withPicks {c d : Nat → Codec} {x y : Session} (h : x.Rekeyed c d y)
    (picks : Picks) : { x with picks }.Rekeyed c d { y with picks } :=
  ⟨congrArg (fun u => { u with picks }) h.rest, h.world, h.fans, h.running⟩

/-- Both settings are refused for the same reason, or describe sessions that are alike. -/
theorem rekeyed_of_ofSettings [Gzip.Encoder] [Gzip.LawfulEncoder] (h : s.Rekeyed t)
    (hMemory : s.IsInMemory) (w : World) :
    (∃ e, ofSettings w s = (w, .error e) ∧ ofSettings w t = (w, .error e)) ∨
      ∃ x y, (ofSettings w s).2 = .ok x ∧ (ofSettings w t).2 = .ok y ∧ ∃ c d, x.Rekeyed c d y := by
  obtain ⟨e, hLeft, hRight⟩ | ⟨xs, ys, hLeft, hRight, hAll⟩ :=
    Backend.rekeyed_of_allOfSettings h.backends hMemory
  · refine .inl ⟨e, ?_, ?_⟩
    · rw [ofSettings, hLeft]
    · rw [ofSettings, hRight]
  · obtain ⟨c, d, hWorld⟩ := World.exists_rekeyed hAll w
    -- neither world changes when its backends are made ready
    obtain ⟨hReady, -⟩ := prepareAll_of_rekeyed hAll { w with backends := xs } {}
    obtain ⟨-, hReady'⟩ := prepareAll_of_rekeyed hAll {} { w with backends := ys }
    refine .inr ?_
    simp only [ofSettings, hLeft, hRight, hReady, hReady']
    refine ⟨_, _, rfl, rfl, c, d, ?_⟩
    have hSession := (Rekeyed.ofWorld hWorld t.client.replication t.client.balancing).withTimeout
      t.client.timeout
    rw [h.client, h.cache]
    refine hSession.withWatched ?_
    rw [hSession.watched_eq, hSession.now_eq]

end Session

namespace Settings

/-- Encryption keys show in nothing but stored octets. Settings that are the same but for usable keys are
written out alike, have properties that are shown alike, and are both fit or refused with the same text.
If all backends keep their objects in memory, then both are refused for the same reason when the client
is built, or describe clients that nobody can tell apart, whatever is drawn at random. -/
theorem keys_stay_hidden [Gzip.Encoder] [Gzip.LawfulEncoder] {s t : Settings} (h : s.Rekeyed t) :
    s.document = t.document ∧
      s.backends.map (·.properties.summary) = t.backends.map (·.properties.summary) ∧
      s.check.map (fun _ => ()) = t.check.map (fun _ => ()) ∧
      (s.IsInMemory → ∀ (w : World) (picks : Picks),
        (∃ e, Session.ofSettings w s = (w, .error e) ∧ Session.ofSettings w t = (w, .error e)) ∨
          ∃ x y, (Session.ofSettings w s).2 = .ok x ∧ (Session.ofSettings w t).2 = .ok y ∧
            Session.Indistinct { x with picks } { y with picks }) := by
  have hSummaries : s.backends.map (·.properties.summary) = t.backends.map (·.properties.summary) :=
    map_eq_of_forall₂ h.backends fun a b hSame => hSame.properties.summary_eq
  refine ⟨h.document_eq, hSummaries, h.check_eq, fun hMemory w picks => ?_⟩
  obtain hRefused | ⟨x, y, hLeft, hRight, c, d, hSame⟩ := Session.rekeyed_of_ofSettings h hMemory w
  · exact .inl hRefused
  · exact .inr ⟨x, y, hLeft, hRight, (hSame.withPicks picks).indistinct⟩

/-- A vault that keeps what it has compressed under a key, and a replica that does neither. -/
def guarded (key : String) : Settings where
  client := { replication := .async }
  cache := { enabled := true }
  backends :=
    [{ name := "vault", kind := .memory ["docs"],
       properties := { isMain := true, encryption := .aes256, compression := .gzip, key := some key } },
     { name := "copy", kind := .memory ["docs"] }]

theorem rekeyed_guarded {key other : String} (hKey : key ≠ "") (hOther : other ≠ "") :
    (guarded key).Rekeyed (guarded other) := by
  have hVault := Properties.Rekeyed.keys
    { isMain := true, encryption := .aes256, compression := .gzip } hKey hOther
  exact ⟨rfl, rfl, .cons ⟨rfl, hVault, rfl⟩ (.cons ⟨rfl, .same _, rfl⟩ .nil), rfl⟩

/-- A vault under one key and one under another. -/
theorem keys_stay_hidden_vaults :
    guarded "north" ≠ guarded "south" ∧ (guarded "north").document = (guarded "south").document ∧
      ∃ x y, (Session.ofSettings {} (guarded "north")).2 = .ok x ∧
        (Session.ofSettings {} (guarded "south")).2 = .ok y ∧
        Session.Indistinct { x with picks := .first } { y with picks := .first } := by
  have hMemory : (guarded "north").IsInMemory := by simp [IsInMemory, guarded]
  have hSame : (guarded "north").Rekeyed (guarded "south") := rekeyed_guarded (by decide) (by decide)
  obtain ⟨hDocument, -, -, hClients⟩ := keys_stay_hidden hSame
  refine ⟨by decide, hDocument, ?_⟩
  obtain ⟨e, hRefused, -⟩ | hBuilt := hClients hMemory {} .first
  · have hIsOk : (Session.ofSettings {} (guarded "north")).2.isOk = true := rfl
    rw [hRefused] at hIsOk
    contradiction
  · exact hBuilt

end Settings

end ReplicatedStore
