import ReplicatedStore.Proofs.Cache.Lifecycle
import ReplicatedStore.Proofs.Cache.Recency
import ReplicatedStore.Proofs.Settings.Rules

/-!
# What accepted settings are good for

The check asks of settings what others rely on later: that a codec can be made of the properties of each
backend, that entries of the cache have a time to live, without which a pass of validation is refused, and
that the percentage is one. Between the check and those who rely on it stands the pass that gives a shared
key to backends, and for the cache the conversion of its settings, which puts defaults in place of zeros.

So nothing that was accepted fails for want of a key, whoever builds the backends, and whatever is done to
a cache with these settings, short of giving it others, its task and its passes work.

Main results:

* `Backend.invalidConfig_of_allOfSettings` — what can still be wrong with backends that do not lack a key.
* `CacheSettings.serviceable_after` — a cache with accepted settings, however it is used.
* `Settings.usable_of_loaded` — what holds of all settings that are accepted, and what is accepted.
-/

namespace ReplicatedStore

/-! ## Backends -/

theorem Codec.exists_of_not_lacksKey [Gzip.Encoder] {p : Properties} (h : p.lacksKey = false) :
    ∃ codec, Codec.ofProperties p = .ok codec := by
  cases hCodec : Codec.ofProperties p with
  | ok codec => exact ⟨codec, rfl⟩
  | error e =>
    have hLacks := ((Codec.ofProperties_eq_error_iff p e).1 hCodec).2
    rw [h] at hLacks
    cases hLacks

theorem Gateway.invalidConfig_of_ofSettings {name url : String} {token : Option String} {e : StoreError}
    (h : Gateway.ofSettings name url token = .error e) : ∃ reason, e = .invalidConfig reason := by
  unfold Gateway.ofSettings at h
  split at h
  · cases h
    exact ⟨_, rfl⟩
  · split at h
    · cases h
      exact ⟨_, rfl⟩
    · split at h
      · cases h
        exact ⟨_, rfl⟩
      · cases h

namespace Backend

variable [Gzip.Encoder]

/-- With its codec at hand, only the URL or the token of a gateway can be wrong. -/
theorem invalidConfig_of_ofSettings {b : BackendSettings} {e : StoreError}
    (hKey : b.properties.lacksKey = false) (h : ofSettings b = .error e) :
    ∃ reason, e = .invalidConfig reason := by
  obtain ⟨codec, hCodec⟩ := Codec.exists_of_not_lacksKey hKey
  simp only [ofSettings, codecFor, hCodec] at h
  cases hKind : b.kind with
  | memory containers => simp [hKind] at h
  | filesystem base create => simp [hKind] at h
  | http url token seconds =>
    simp only [hKind] at h
    cases hGateway : Gateway.ofSettings b.name url token with
    | ok peer => simp [hGateway] at h
    | error refused =>
      rw [hGateway] at h
      cases h
      exact Gateway.invalidConfig_of_ofSettings hGateway

theorem exists_of_allOfSettings {list : List BackendSettings} {e : StoreError}
    (h : allOfSettings list = .error e) : ∃ b ∈ list, ofSettings b = .error e := by
  unfold allOfSettings at h
  induction list with
  | nil => cases h
  | cons first rest ih =>
    rw [List.mapM_cons] at h
    cases hFirst : ofSettings first with
    | error refused =>
      rw [hFirst] at h
      cases h
      exact ⟨first, List.mem_cons_self, hFirst⟩
    | ok b =>
      cases hRest : rest.mapM ofSettings with
      | error refused =>
        rw [hFirst, hRest] at h
        cases h
        obtain ⟨other, hOther, hRefused⟩ := ih hRest
        exact ⟨other, List.mem_cons_of_mem _ hOther, hRefused⟩
      | ok built =>
        rw [hFirst, hRest] at h
        cases h

theorem invalidConfig_of_allOfSettings {list : List BackendSettings} {e : StoreError}
    (hKeys : ∀ b ∈ list, b.properties.lacksKey = false) (h : allOfSettings list = .error e) :
    ∃ reason, e = .invalidConfig reason := by
  obtain ⟨b, hb, hRefused⟩ := exists_of_allOfSettings h
  exact invalidConfig_of_ofSettings (hKeys b hb) hRefused

end Backend

/-! ## The cache -/

/-- Whether a move leaves it as it is how long entries live and how they are checked. -/
def CacheMove.keepsTerms : CacheMove → Bool
  | .configure _ | .setPolicy _ => false
  | _ => true

namespace TimedCache

variable {s : TimedCache} {m : CacheMove}

theorem terms_step (h : m.keepsTerms = true) :
    (s.step m).cache.options.ttl = s.cache.options.ttl ∧
      (s.step m).cache.options.validation = s.cache.options.validation := by
  cases hOrdinary : m.isOrdinary with
  | true => simp [options_step hOrdinary]
  | false =>
    -- what is left drops entries, or turns the cache on or off
    cases m with
    | invalidate key => exact ⟨rfl, rfl⟩
    | clear => exact ⟨rfl, rfl⟩
    | setEnabled enabled => rw [cache_setEnabled]; exact ⟨rfl, rfl⟩
    | _ => contradiction

theorem terms_run {moves : List CacheMove} (h : ∀ m ∈ moves, m.keepsTerms = true) :
    (s.run moves).cache.options.ttl = s.cache.options.ttl ∧
      (s.run moves).cache.options.validation = s.cache.options.validation := by
  induction moves generalizing s with
  | nil => exact ⟨rfl, rfl⟩
  | cons m rest ih =>
    obtain ⟨hTtl, hValidation⟩ := ih (s := s.step m) fun m hm => h m (List.mem_cons_of_mem _ hm)
    obtain ⟨hTtlFirst, hValidationFirst⟩ := terms_step (s := s) (h m List.mem_cons_self)
    exact ⟨hTtl.trans hTtlFirst, hValidation.trans hValidationFirst⟩

/-- The task that runs is the one that the settings ask for. -/
theorem validation_of_task {options : CacheOptions} {moves : List CacheMove} {t : ValidationTask}
    (h : (after options moves).watched.task = some t) :
    (after options moves).cache.options.validation = .sampling t.sampling := by
  rw [← Roster.timed_after] at h
  have hHead : ((Roster.after options moves).alive.head?).map (·.task) = some t := h
  obtain ⟨p, hp, rfl⟩ := Option.map_eq_some_iff.1 hHead
  rw [← Roster.cache_after]
  exact ((Roster.inOrder_after options moves).asked p (List.mem_of_mem_head? hp)).2

end TimedCache

namespace CacheSettings

/-- The percentage that is checked: the one that is stated, or the default in place of zero. -/
def percentInForce (c : CacheSettings) : Nat :=
  if c.validation.percent = 0 then ValidationPolicy.defaultPercent else c.validation.percent

/-- The seconds between two passes: those that are stated, or the default in place of zero. -/
def intervalInForce (c : CacheSettings) : Duration :=
  if c.validation.intervalSeconds = 0 then ValidationPolicy.defaultInterval
  else .ofSeconds c.validation.intervalSeconds

/-- What can be relied on in a cache with these settings after moves. -/
structure Serviceable (c : CacheSettings) (s : TimedCache) : Prop where
  ttl : s.cache.options.ttl = .ofSeconds c.ttlSeconds ∧ 0 < s.cache.options.ttl.nanos
  /-- a pass is made, whatever it picks, whenever and of whichever part -/
  pass : ∀ (picker : Picker) (time : Duration) (percent : Nat),
    ∃ count, (s.cache.validate picker time percent).1 = some count
  /-- no more is asked of a picker than there is -/
  sample : ∀ percent, sampleSize s.cache.snapshot.length percent ≤ s.cache.snapshot.length
  /-- a policy is there only if it is asked for, and is the one that is stated -/
  policy : ∀ how, s.cache.options.validation = .sampling how → c.validation.isSampling = true ∧
    how.percent = c.percentInForce ∧ how.interval = c.intervalInForce
  /-- what is stated is a part of the entries and not without a pause -/
  inForce : 1 ≤ c.percentInForce ∧ c.percentInForce ≤ 100 ∧ 0 < c.intervalInForce.nanos
  /-- the task works by it -/
  task : ∀ t, s.watched.task = some t → s.cache.options.validation = .sampling t.sampling

variable {c : CacheSettings}

theorem validation_options (hPercent : c.validation.percent ≤ 100) {how : Sampling}
    (h : c.options.validation = .sampling how) : c.validation.isSampling = true ∧
      how.percent = c.percentInForce ∧ how.interval = c.intervalInForce := by
  simp only [options, ValidationSettings.policy] at h
  split at h
  · rename_i hSampling
    refine ⟨hSampling, ?_⟩
    -- the check leaves nothing for the upper bound to cut
    have hBounded : ValidationPolicy.boundedPercent c.validation.percent = c.percentInForce := by
      rw [ValidationPolicy.boundedPercent, percentInForce, Nat.min_eq_left hPercent]
    have hInterval : ValidationPolicy.boundedInterval (.ofSeconds c.validation.intervalSeconds) =
        c.intervalInForce := by
      simp [ValidationPolicy.boundedInterval, intervalInForce, Duration.ofSeconds]
    rw [ValidationPolicy.sample, ValidationPolicy.sampling.injEq] at h
    rw [← h, ← hBounded, ← hInterval]
    exact ⟨rfl, rfl⟩
  · cases h

theorem inForce_bounds (hPercent : c.validation.percent ≤ 100) :
    1 ≤ c.percentInForce ∧ c.percentInForce ≤ 100 ∧ 0 < c.intervalInForce.nanos := by
  unfold percentInForce intervalInForce
  refine ⟨?_, ?_, ?_⟩
  · split
    · decide
    · omega
  · split
    · decide
    · exact hPercent
  · split
    · decide
    · exact Nat.mul_pos (by omega) (by decide)

theorem serviceable_after (hTtl : c.ttlSeconds ≠ 0) (hPercent : c.validation.percent ≤ 100)
    {moves : List CacheMove} (hMoves : ∀ m ∈ moves, m.keepsTerms = true) :
    c.Serviceable (TimedCache.after c.options moves) := by
  obtain ⟨hTtlKept, hValidationKept⟩ : _ ∧ _ :=
    TimedCache.terms_run (s := { watched := .ofOptions c.options }) hMoves
  have hLives : (TimedCache.after c.options moves).cache.options.ttl = .ofSeconds c.ttlSeconds := hTtlKept
  have hPos : 0 < (TimedCache.after c.options moves).cache.options.ttl.nanos := by
    rw [hLives, Duration.ofSeconds]
    exact Nat.mul_pos (Nat.pos_of_ne_zero hTtl) (by decide)
  refine ⟨⟨hLives, hPos⟩, fun picker time percent => ?_, fun percent => sampleSize_le _ _,
    fun how hHow => validation_options hPercent (hValidationKept.symm.trans hHow),
    inForce_bounds hPercent, fun t ht => TimedCache.validation_of_task ht⟩
  simp only [Cache.validate, Cache.expiredSample?, if_neg (Nat.ne_of_gt hPos)]
  exact ⟨_, rfl⟩

end CacheSettings

/-! ## Accepted settings -/

namespace Settings

/-- What settings that were accepted are good for, if a file has stated these. -/
structure Usable [Gzip.Encoder] (stated s : Settings) : Prop where
  /-- objects can be encoded and decoded in every backend -/
  codec : ∀ b ∈ s.backends, ∃ codec, Codec.ofProperties b.properties = .ok codec
  /-- if the backends cannot be built it is for a URL or a token, not for a key or a codec -/
  built : ∀ e, Backend.allOfSettings s.backends = .error e → ∃ reason, e = .invalidConfig reason
  /-- no backend comes or goes -/
  length : s.backends.length = stated.backends.length
  /-- a backend that is not encrypted, or has a key of its own, is as it was stated -/
  kept : ∀ (i : Nat) (b : BackendSettings), stated.backends[i]? = some b →
    (b.properties.encryption = .aes256 → ∃ key, b.properties.key = some key ∧ key ≠ "") →
      s.backends[i]? = some b
  /-- the cache is as it was stated, and works however it is used -/
  cache : s.cache = stated.cache ∧ ∀ moves : List CacheMove, (∀ m ∈ moves, m.keepsTerms = true) →
    s.cache.Serviceable (TimedCache.after s.cache.options moves)

theorem lacksKey_eq_false_of_own {p : Properties}
    (h : p.encryption = .aes256 → ∃ key, p.key = some key ∧ key ≠ "") : p.lacksKey = false := by
  rw [← Bool.not_eq_true, Properties.lacksKey_iff]
  rintro ⟨hEncrypted, hNone⟩
  obtain ⟨key, hKey, hNonempty⟩ := h hEncrypted
  rw [hKey, Option.some.injEq] at hNone
  exact hNone.elim (fun hNone => nomatch hNone) hNonempty

theorem usable_of_stated [Gzip.Encoder] {env : Environment} {content : Except String Bytes} {text : List Char}
    {stated s : Settings} (hStated : Stated env content text stated)
    (h : loadOverridden env content = .ok s) : stated.Usable s := by
  have hFit := loadOverridden_eq_ok env content s h
  have hKeys : ∀ b ∈ s.backends, b.properties.lacksKey = false := fun b hb =>
    lacksKey_eq_false_of_objections hFit hb
  have hFrom := keysFrom_of_loadOverridden hStated h
  obtain ⟨-, -, ⟨-, hTtl, hPercent⟩, -⟩ := objections_eq_nil_iff_parts.1 hFit
  obtain ⟨rfl, -⟩ := (loadOverridden_eq_ok_iff hStated).1 h
  exact {
    codec := fun b hb => Codec.exists_of_not_lacksKey (hKeys b hb)
    built := fun e he => Backend.invalidConfig_of_allOfSettings hKeys he
    length := hFrom.length
    kept := fun i b hb hOwn => hFrom.kept i b hb (lacksKey_eq_false_of_own hOwn)
    cache := ⟨cache_overridden env stated,
      fun moves hMoves => CacheSettings.serviceable_after hTtl hPercent hMoves⟩ }

/-- **Accepted settings can be used.** Where settings are accepted with what the environment overrides, no
backend fails for want of a key or a codec, those that needed no key are as the file states them, and a
cache with these settings makes its passes, each over a sample that there is, in intervals above zero,
whatever is done to it but giving it other terms. And settings that break no other rules than those on keys
are accepted if there is a key to share, unless another level of the log is asked for that is none. -/
theorem usable_of_loaded [Gzip.Encoder] (env : Environment) (content : Except String Bytes) :
    (∀ s, loadOverridden env content = .ok s →
      ∃ text stated, Stated env content text stated ∧ stated.Usable s) ∧
    ∀ text stated, Stated env content text stated → (∀ r, stated.Breaks r → r.isKeyed = true) →
      (∃ key, env keyName = some key ∧ key ≠ "") →
      (∀ level, env levelName = some level → LoggingSettings.IsLevel level) →
        loadOverridden env content = .ok (stated.overridden env) := by
  constructor
  · intro s h
    obtain ⟨text, stated, hStated⟩ := exists_stated_of_loadOverridden h
    exact ⟨text, stated, hStated, usable_of_stated hStated h⟩
  · rintro text stated hStated hOnly ⟨key, hKey, hNonempty⟩ hLevel
    refine (loadOverridden_eq_ok_iff hStated).2 ⟨rfl, fun r hr => ?_, ?_⟩
    · have hKeyed := hOnly r hr
      cases r with
      | keyed i => exact .keyed i hKey hNonempty
      | _ => contradiction
    · rintro ⟨level, hAsked, hNone⟩
      exact hNone (hLevel level hAsked)

/-- A file in which an encrypted backend states no key, beside one that is not encrypted. -/
def sharedFile : String :=
  "cache:\n  validation:\n    strategy: sampling\n    sampling_percent: 0\nbackends:\n" ++
    "- name: vault\n  type: memory\n  properties:\n    save_encrypt: aes256\n- name: open\n  type: memory\n"

def sharedStated : Settings where
  cache := { validation := { isSampling := true, percent := 0 } }
  backends := [{ name := "vault", kind := .memory [], properties := { encryption := .aes256 } },
    { name := "open", kind := .memory [] }]

theorem stated_sharedFile (shared? : Option String) :
    Stated (sharing shared?) (.ok (Bytes.ofText sharedFile)) sharedFile.toList sharedStated := by
  have hText : Bytes.toText? (Bytes.ofText sharedFile) = some sharedFile := by decide +kernel
  have hRead : ofText? sharedFile.toList = some sharedStated := by decide +kernel
  have hFill : Placeholder.fill (sharing shared?) sharedFile.toList = sharedFile.toList :=
    Placeholder.fill_eq_self _ _ (by decide +kernel)
  exact ⟨_, rfl, by rw [hText, Option.map_some], by rw [hFill, hRead]⟩

/-- With a key to share the file is accepted, the vault has it, and the other backend is as it was; the
cache checks the default part of its entries. -/
theorem usable_of_loaded_sharing :
    (∀ r, sharedStated.Breaks r → r.isKeyed = true) ∧
    ∃ s, loadOverridden (sharing (some "k")) (.ok (Bytes.ofText sharedFile)) = .ok s ∧
      s.SealsUnder "k" ∧ s.backends[1]? = some { name := "open", kind := .memory [] } ∧
      s.cache.percentInForce = 10 ∧
      ∀ moves : List CacheMove, (∀ m ∈ moves, m.keepsTerms = true) →
        s.cache.Serviceable (TimedCache.after s.cache.options moves) := by
  have hStated := stated_sharedFile (some "k")
  have hFit : (sharedStated.overridden (sharing (some "k"))).objections = [] := by decide +kernel
  have hOnly : ∀ r, sharedStated.Breaks r → r.isKeyed = true := fun r hr => by
    -- what is broken has been made good, and no level was asked for
    have hMends : Mends (sharing (some "k")) r := by
      by_contra hNot
      exact objections_eq_nil_iff.1 hFit r (breaks_overridden_iff.2 (.inl ⟨hr, hNot⟩))
    cases hMends with
    | keyed => rfl
    | level hAsked => simp [sharing, levelName, keyName] at hAsked
  obtain ⟨hUsable, hAccepted⟩ := usable_of_loaded (sharing (some "k")) (.ok (Bytes.ofText sharedFile))
  have hLoad := hAccepted _ _ hStated hOnly ⟨"k", rfl, by decide⟩ (by simp [sharing, levelName, keyName])
  obtain ⟨text, stated, hStatedToo, hGood⟩ := hUsable _ hLoad
  refine ⟨hOnly, _, hLoad, by decide +kernel, by decide +kernel, by decide +kernel, hGood.cache.2⟩

end Settings

end ReplicatedStore
