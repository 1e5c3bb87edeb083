import Mathlib.Data.List.Nodup
import ReplicatedStore.Proofs.Settings.Keys

/-!
# The rules for settings

The check stops at the first thing that is wrong with a backend, so what it reports is not all that is
wrong. The rules say what there is to break, each on its own and each for the backend at one place: the
check passes exactly the settings that break none of them. What the environment overrides touches two of
the rules only, the one on the level of the log and the one on keys; so whatever else a file breaks stays
broken, and a file that breaks nothing but rules on keys is accepted with a key at hand.

Main results:

* `Settings.objections_eq_nil_iff` — the check is the rules.
* `Settings.breaks_overridden_iff` — what is still broken once the environment has had its say.
* `Settings.loadOverridden_eq_ok_iff` — which files are accepted.
-/

namespace ReplicatedStore

/-- A rule for settings; what is asked of a single backend is a rule for its place. -/
inductive Rule
  | someBackend
  | named (place : Nat)
  /-- no backend before bears the same name -/
  | apart (place : Nat)
  /-- an encrypted backend has a key -/
  | keyed (place : Nat)
  /-- a directory has a base path -/
  | based (place : Nat)
  /-- a gateway has a URL -/
  | addressed (place : Nat)
  /-- a gateway has time to answer -/
  | patient (place : Nat)
  | items
  | ttl
  | percent
  | deadline
  | level
  deriving DecidableEq, Repr

/-- Whether a rule is about a key. -/
def Rule.isKeyed : Rule → Bool
  | keyed _ => true
  | _ => false

/-- Whether a text is a level of the log, in any case of its letters. -/
def LoggingSettings.IsLevel (text : String) : Prop := LowerCase.text text ∈ levels

namespace Settings

/-- What it means to break a rule. -/
def Breaks (s : Settings) : Rule → Prop
  | .someBackend => s.backends = []
  | .named i => ∃ b, s.backends[i]? = some b ∧ b.name = ""
  | .apart i => ∃ b j before, s.backends[i]? = some b ∧ s.backends[j]? = some before ∧ j < i ∧
      before.name = b.name
  | .keyed i => ∃ b, s.backends[i]? = some b ∧ b.properties.encryption = .aes256 ∧
      (b.properties.key = none ∨ b.properties.key = some "")
  | .based i => ∃ b create, s.backends[i]? = some b ∧ b.kind = .filesystem "" create
  | .addressed i => ∃ b token seconds, s.backends[i]? = some b ∧ b.kind = .http "" token seconds
  | .patient i => ∃ b url token, s.backends[i]? = some b ∧ b.kind = .http url token 0
  | .items => s.cache.maxItems = 0
  | .ttl => s.cache.ttlSeconds = 0
  | .percent => 100 < s.cache.validation.percent
  | .deadline => s.client.timeoutSeconds = some 0
  | .level => ¬ LoggingSettings.IsLevel s.logging.level

end Settings

/-! ## The check is the rules -/

namespace BackendSettings

/-- What is asked of the storage of a backend. -/
def IsReachable (b : BackendSettings) : Prop :=
  match b.kind with
  | .filesystem base _ => base ≠ ""
  | .http url _ seconds => url ≠ "" ∧ seconds ≠ 0
  | .memory _ => True

theorem objection?_eq_none_iff {before : List String} {b : BackendSettings} :
    b.objection? before = none ↔
      b.name ≠ "" ∧ b.name ∉ before ∧ b.properties.lacksKey = false ∧ b.IsReachable := by
  unfold objection? IsReachable
  by_cases hName : b.name = ""
  · simp [hName]
  by_cases hBefore : b.name ∈ before
  · simp [hName, hBefore]
  cases hKey : b.properties.lacksKey with
  | true => simp [hName, hBefore]
  | false =>
    cases b.kind with
    | memory containers => simp [hName, hBefore]
    | filesystem base create => by_cases hBase : base = "" <;> simp [hName, hBefore, hBase]
    | http url token seconds =>
      by_cases hUrl : url = ""
      · simp [hName, hBefore, hUrl]
      · by_cases hSeconds : seconds = 0 <;> simp [hName, hBefore, hUrl, hSeconds]

theorem objectionAmong?_eq_none_iff {before : List String} {list : List BackendSettings} :
    objectionAmong? before list = none ↔
      (∀ b ∈ list, b.name ≠ "" ∧ b.name ∉ before ∧ b.properties.lacksKey = false ∧ b.IsReachable) ∧
        (list.map (·.name)).Nodup := by
  induction list generalizing before with
  | nil => simp [objectionAmong?]
  | cons first rest ih =>
    rw [objectionAmong?, List.map_cons, List.nodup_cons, List.forall_mem_cons]
    cases hFirst : first.objection? before with
    | some text =>
      have hWrong : ¬ (first.name ≠ "" ∧ first.name ∉ before ∧ first.properties.lacksKey = false ∧
          first.IsReachable) := by
        rw [← objection?_eq_none_iff, hFirst]
        exact Option.some_ne_none _
      exact iff_of_false (Option.some_ne_none _) fun h => hWrong h.1.1
    | none =>
      have hGood := objection?_eq_none_iff.1 hFirst
      rw [ih, and_iff_right hGood]
      -- the name of the first is one more that the others must not bear
      constructor
      · rintro ⟨hRest, hApart⟩
        refine ⟨fun b hb => ?_, fun hMem => ?_, hApart⟩
        · obtain ⟨hName, hBefore, hOther⟩ := hRest b hb
          exact ⟨hName, fun h => hBefore (List.mem_cons_of_mem _ h), hOther⟩
        · obtain ⟨b, hb, hSame⟩ := List.mem_map.1 hMem
          exact (hRest b hb).2.1 (hSame ▸ List.mem_cons_self)
      · rintro ⟨hRest, hOwn, hApart⟩
        refine ⟨fun b hb => ?_, hApart⟩
        obtain ⟨hName, hBefore, hOther⟩ := hRest b hb
        refine ⟨hName, fun h => ?_, hOther⟩
        rcases List.mem_cons.1 h with hSame | h
        · exact hOwn (hSame ▸ List.mem_map_of_mem hb)
        · exact hBefore h

end BackendSettings

namespace Settings

variable {s : Settings}

theorem cache_objection?_eq_none_iff {c : CacheSettings} :
    c.objection? = none ↔ c.maxItems ≠ 0 ∧ c.ttlSeconds ≠ 0 ∧ c.validation.percent ≤ 100 := by
  unfold CacheSettings.objection?
  split
  · simp_all
  · split
    · simp_all
    · split
      · simp_all
      · rename_i hItems hTtl hPercent
        simp [hItems, hTtl, Nat.le_of_not_lt hPercent]

theorem logging_objection?_eq_none_iff {l : LoggingSettings} :
    l.objection? = none ↔ LoggingSettings.IsLevel l.level := by
  simp [LoggingSettings.objection?, LoggingSettings.IsLevel]

theorem client_objection?_eq_none_iff {c : ClientSettings} :
    c.objection? = none ↔ c.timeoutSeconds ≠ some 0 := by
  simp [ClientSettings.objection?]

/-- What the check asks, part by part. -/
theorem objections_eq_nil_iff_parts : s.objections = [] ↔
    s.backends ≠ [] ∧
    ((∀ b ∈ s.backends, b.name ≠ "" ∧ b.properties.lacksKey = false ∧ b.IsReachable) ∧
      (s.backends.map (·.name)).Nodup) ∧
    (s.cache.maxItems ≠ 0 ∧ s.cache.ttlSeconds ≠ 0 ∧ s.cache.validation.percent ≤ 100) ∧
    s.client.timeoutSeconds ≠ some 0 ∧ LoggingSettings.IsLevel s.logging.level := by
  have hSome : (if s.backends.isEmpty then ["at least one backend must be configured"] else []) = [] ↔
      s.backends ≠ [] := by
    cases s.backends <;> simp
  simp only [objections, List.append_eq_nil_iff, Option.toList_eq_nil_iff, hSome,
    BackendSettings.objectionAmong?_eq_none_iff, cache_objection?_eq_none_iff,
    client_objection?_eq_none_iff, logging_objection?_eq_none_iff, List.not_mem_nil, not_false_eq_true,
    true_and, and_assoc]

/-- The check passes exactly the settings that break no rule. -/
theorem objections_eq_nil_iff : s.objections = [] ↔ ∀ r, ¬ s.Breaks r := by
  rw [objections_eq_nil_iff_parts]
  constructor
  · rintro ⟨hSome, ⟨hEach, hApart⟩, ⟨hItems, hTtl, hPercent⟩, hDeadline, hLevel⟩ r hBreaks
    have hReach {i : Nat} {b : BackendSettings} (hb : s.backends[i]? = some b) : b.IsReachable :=
      (hEach b (List.mem_of_getElem? hb)).2.2
    unfold BackendSettings.IsReachable at hReach
    cases r with
    | someBackend => exact hSome hBreaks
    | named i =>
      obtain ⟨b, hb, hName⟩ := hBreaks
      exact (hEach b (List.mem_of_getElem? hb)).1 hName
    | apart i =>
      obtain ⟨b, j, before, hb, hBefore, hLt, hSame⟩ := hBreaks
      refine List.nodup_iff_getElem?_ne_getElem?.1 hApart _ _ hLt ?_ ?_
      · rw [List.length_map]
        exact (List.getElem?_eq_some_iff.1 hb).1
      · rw [List.getElem?_map, List.getElem?_map, hb, hBefore, Option.map_some, Option.map_some, hSame]
    | keyed i =>
      obtain ⟨b, hb, hLacks⟩ := hBreaks
      have hHas := (hEach b (List.mem_of_getElem? hb)).2.1
      rw [(Properties.lacksKey_iff _).2 hLacks] at hHas
      cases hHas
    | based i =>
      obtain ⟨b, create, hb, hKind⟩ := hBreaks
      simpa [hKind] using hReach hb
    | addressed i =>
      obtain ⟨b, token, seconds, hb, hKind⟩ := hBreaks
      simpa [hKind] using hReach hb
    | patient i =>
      obtain ⟨b, url, token, hb, hKind⟩ := hBreaks
      simpa [hKind] using hReach hb
    | items => exact hItems hBreaks
    | ttl => exact hTtl hBreaks
    | percent => exact Nat.not_lt_of_le hPercent hBreaks
    | deadline => exact hDeadline hBreaks
    | level => exact hBreaks hLevel
  · intro hNone
    refine ⟨hNone .someBackend, ⟨fun b hb => ?_, ?_⟩, ⟨hNone .items, hNone .ttl,
      Nat.le_of_not_lt (hNone .percent)⟩, hNone .deadline, not_not.1 (hNone .level)⟩
    · obtain ⟨i, hi⟩ := List.mem_iff_getElem?.1 hb
      refine ⟨fun hName => hNone (.named i) ⟨b, hi, hName⟩, ?_, ?_⟩
      · rw [← Bool.not_eq_true, Properties.lacksKey_iff]
        exact fun hLacks => hNone (.keyed i) ⟨b, hi, hLacks⟩
      · unfold BackendSettings.IsReachable
        cases hKind : b.kind with
        | memory containers => trivial
        | filesystem base create =>
          rintro rfl
          exact hNone (.based i) ⟨b, create, hi, hKind⟩
        | http url token seconds =>
          constructor
          · rintro rfl
            exact hNone (.addressed i) ⟨b, token, seconds, hi, hKind⟩
          · rintro rfl
            exact hNone (.patient i) ⟨b, url, token, hi, hKind⟩
    · -- of two places with one name the later one would break the rule
      rw [List.nodup_iff_getElem?_ne_getElem?]
      intro j i hLt hi hSame
      rw [List.length_map] at hi
      rw [List.getElem?_map, List.getElem?_map, List.getElem?_eq_getElem hi,
        List.getElem?_eq_getElem (Nat.lt_trans hLt hi), Option.map_some, Option.map_some,
        Option.some.injEq] at hSame
      exact hNone (.apart i) ⟨_, j, _, List.getElem?_eq_getElem hi,
        List.getElem?_eq_getElem (Nat.lt_trans hLt hi), hLt, hSame⟩

/-! ## What the environment overrides -/

/-- Whether an environment makes good what breaks a rule. -/
inductive Mends (env : Environment) : Rule → Prop
  /-- a key to share -/
  | keyed {key : String} (place : Nat) : env keyName = some key → key ≠ "" → Mends env (.keyed place)
  /-- another level of the log -/
  | level {level : String} : env levelName = some level → LoggingSettings.IsLevel level →
    Mends env .level

/-- Whether an environment asks for a level of the log that there is none of. -/
def Misleads (env : Environment) : Prop :=
  ∃ level, env levelName = some level ∧ ¬ LoggingSettings.IsLevel level

variable {env : Environment}

theorem cache_overridden (env : Environment) (s : Settings) : (s.overridden env).cache = s.cache := by
  unfold overridden
  cases env keyName <;> cases env levelName <;> rfl

theorem client_overridden (env : Environment) (s : Settings) :
    (s.overridden env).client = s.client := by
  unfold overridden
  cases env keyName <;> cases env levelName <;> rfl

theorem level_overridden (env : Environment) (s : Settings) :
    (s.overridden env).logging.level = (env levelName).getD s.logging.level := by
  unfold overridden
  cases env keyName <;> cases env levelName <;> rfl

theorem kind_withShared (shared? : Option String) (b : BackendSettings) :
    (withShared shared? b).kind = b.kind := by
  cases shared? with
  | none => rfl
  | some key =>
    show (withSharedKey key b).kind = b.kind
    unfold withSharedKey
    split <;> rfl

/-- The backend at a place, with the shared key if it needs it. -/
theorem getElem?_overridden {i : Nat} {b : BackendSettings} :
    (s.overridden env).backends[i]? = some b ↔
      ∃ b₀, s.backends[i]? = some b₀ ∧ withShared (env keyName) b₀ = b := by
  rw [backends_overridden, List.getElem?_map, Option.map_eq_some_iff]

/-- Only the rule on the level and those on keys look at what is overridden. -/
theorem breaks_overridden_iff_of_other {r : Rule} (hKeyed : r.isKeyed = false) (hLevel : r ≠ .level) :
    (s.overridden env).Breaks r ↔ s.Breaks r := by
  cases r with
  | someBackend => simp [Breaks, backends_overridden]
  | named i => simp [Breaks, getElem?_overridden, name_withShared]
  | apart i =>
    simp only [Breaks, getElem?_overridden]
    constructor
    · rintro ⟨_, j, _, ⟨b, hb, rfl⟩, ⟨before, hBefore, rfl⟩, hLt, hSame⟩
      rw [name_withShared, name_withShared] at hSame
      exact ⟨b, j, before, hb, hBefore, hLt, hSame⟩
    · rintro ⟨b, j, before, hb, hBefore, hLt, hSame⟩
      refine ⟨_, j, _, ⟨b, hb, rfl⟩, ⟨before, hBefore, rfl⟩, hLt, ?_⟩
      rw [name_withShared, name_withShared, hSame]
  | keyed i => contradiction
  | based i => simp [Breaks, getElem?_overridden, kind_withShared]
  | addressed i => simp [Breaks, getElem?_overridden, kind_withShared]
  | patient i => simp [Breaks, getElem?_overridden, kind_withShared]
  | items => simp [Breaks, cache_overridden]
  | ttl => simp [Breaks, cache_overridden]
  | percent => simp [Breaks, cache_overridden]
  | deadline => simp [Breaks, client_overridden]
  | level => contradiction

theorem breaks_overridden_keyed_iff {i : Nat} :
    (s.overridden env).Breaks (.keyed i) ↔ s.Breaks (.keyed i) ∧ ¬ Mends env (.keyed i) := by
  have hMends : ¬ Mends env (.keyed i) ↔ ∀ key, env keyName = some key → key = "" := by
    constructor
    · intro hNot key hKey
      by_contra hNonempty
      exact hNot (.keyed i hKey hNonempty)
    · rintro hEmpty (⟨-, hKey, hNonempty⟩ | -)
      exact hNonempty (hEmpty _ hKey)
  simp only [Breaks, getElem?_overridden, ← Properties.lacksKey_iff, hMends]
  constructor
  · rintro ⟨_, ⟨b, hb, rfl⟩, hLacks⟩
    obtain ⟨hLacks, hEmpty⟩ := (lacksKey_withShared_iff _ _).1 hLacks
    exact ⟨⟨b, hb, hLacks⟩, hEmpty⟩
  · rintro ⟨⟨b, hb, hLacks⟩, hEmpty⟩
    exact ⟨_, ⟨b, hb, rfl⟩, (lacksKey_withShared_iff _ _).2 ⟨hLacks, hEmpty⟩⟩

theorem breaks_overridden_level_iff :
    (s.overridden env).Breaks .level ↔ s.Breaks .level ∧ ¬ Mends env .level ∨ Misleads env := by
  simp only [Breaks, level_overridden, Misleads]
  cases hLevel : env levelName with
  | none =>
    have hNot : ¬ Mends env .level := fun h => by
      cases h with
      | level hSome _ =>
        rw [hLevel] at hSome
        cases hSome
    simp [hNot]
  | some level =>
    have hMends : Mends env .level ↔ LoggingSettings.IsLevel level := by
      refine ⟨fun h => ?_, fun h => .level hLevel h⟩
      cases h with
      | level hSome hIs =>
        rw [hLevel, Option.some.injEq] at hSome
        rwa [hSome]
    simp only [hMends, Option.getD_some, Option.some.injEq, exists_eq_left']
    exact ⟨.inr, fun h => h.elim And.right id⟩

/-- What is broken once the environment has had its say: what it does not make good, and a level that it
asks for in vain. -/
theorem breaks_overridden_iff {r : Rule} :
    (s.overridden env).Breaks r ↔ s.Breaks r ∧ ¬ Mends env r ∨ r = .level ∧ Misleads env := by
  by_cases hLevel : r = .level
  · subst hLevel
    rw [breaks_overridden_level_iff, and_iff_right rfl]
  rw [or_iff_left fun h => hLevel h.1]
  cases hKeyed : r.isKeyed with
  | true =>
    cases r with
    | keyed i => exact breaks_overridden_keyed_iff
    | _ => contradiction
  | false =>
    have hNot : ¬ Mends env r := fun h => by
      cases h with
      | keyed => contradiction
      | level => exact hLevel rfl
    rw [breaks_overridden_iff_of_other hKeyed hLevel, and_iff_left hNot]

/-- A file is accepted exactly if the environment makes good all that it breaks, and does not ask for a
level of the log that there is none of. -/
theorem loadOverridden_eq_ok_iff {content : Except String Bytes} {text : List Char} {stated s : Settings}
    (hStated : Stated env content text stated) :
    loadOverridden env content = .ok s ↔
      stated.overridden env = s ∧ (∀ r, stated.Breaks r → Mends env r) ∧ ¬ Misleads env := by
  rw [loadOverridden_of_stated hStated, check_eq_ok_iff, objections_eq_nil_iff]
  refine and_congr_right fun _ => ?_
  simp only [breaks_overridden_iff, not_or, not_and, not_not]
  exact ⟨fun h => ⟨fun r => (h r).1, (h .level).2 rfl⟩, fun h r => ⟨h.1 r, fun _ => h.2⟩⟩

end Settings

end ReplicatedStore
