import ReplicatedStore.Settings.Basic
import ReplicatedStore.Text.LowerCase

/-!
# Checks of settings

Settings are fit for use if there is a backend, all backends have names of their own and what they
need, and no limit is zero. The first objection counts: those to backends in their order, then those
to the cache, the client and the log.

Main statements:

* `Settings.check_eq_ok_iff` — settings are fit exactly when nothing is objected.
-/

namespace ReplicatedStore

namespace BackendSettings

/-- What is wrong with a backend, where backends with these names are before it. -/
def objection? (before : List String) (b : BackendSettings) : Option String :=
  if b.name = "" then some "backend name cannot be empty"
  else if before.contains b.name then some s!"duplicate backend name '{b.name}'"
  else if b.properties.lacksKey then
    some s!"backend '{b.name}' uses aes256 encryption but encrypt_key is missing"
  else
    match b.kind with
    | .filesystem base _ =>
      if base = "" then some s!"backend '{b.name}': filesystem base_path cannot be empty" else none
    | .http url _ timeoutSeconds =>
      if url = "" then some s!"backend '{b.name}': http url cannot be empty"
      else if timeoutSeconds = 0 then
        some s!"backend '{b.name}': http timeout_seconds must be > 0"
      else none
    | .memory _ => none

/-- What is wrong with the first backend that something is wrong with. -/
def objectionAmong? (before : List String) : List BackendSettings → Option String
  | [] => none
  | b :: rest =>
    match b.objection? before with
    | some text => some text
    | none => objectionAmong? (b.name :: before) rest

end BackendSettings

/-- What is wrong with a cache. -/
def CacheSettings.objection? (c : CacheSettings) : Option String :=
  if c.maxItems = 0 then some "cache.max_items must be > 0"
  else if c.ttlSeconds = 0 then some "cache.ttl_seconds must be > 0"
  else if 100 < c.validation.percent then some "cache.validation.sampling_percent must be 0-100"
  else none

/-- What is wrong with a client. -/
def ClientSettings.objection? (c : ClientSettings) : Option String :=
  if c.timeoutSeconds = some 0 then some "client.operation_timeout_seconds must be > 0" else none

namespace LoggingSettings

def levels : List String := ["trace", "debug", "info", "warn", "error"]

/-- What is wrong with a log. -/
def objection? (l : LoggingSettings) : Option String :=
  -- the level is shown as it is compared, in lower case
  let level := LowerCase.text l.level
  if levels.contains level then none else some s!"Unknown log level: '{level}'"

end LoggingSettings

namespace Settings

/-- What is wrong with settings, all of it, in order. -/
def objections (s : Settings) : List String :=
  (if s.backends.isEmpty then ["at least one backend must be configured"] else []) ++
    (BackendSettings.objectionAmong? [] s.backends).toList ++ s.cache.objection?.toList ++
      s.client.objection?.toList ++ s.logging.objection?.toList

def objection? (s : Settings) : Option String := s.objections.head?

/-- Settings are refused if something is wrong with them. -/
def check (s : Settings) : Except Failure Settings :=
  match s.objection? with
  | some text => .error (.said text)
  | none => .ok s

theorem check_eq_ok_iff (s t : Settings) : s.check = .ok t ↔ s = t ∧ s.objections = [] := by
  unfold check objection?
  cases h : s.objections with
  | nil => simp
  | cons o rest => simp

end Settings

end ReplicatedStore
