import ReplicatedStore.Settings.Check
import ReplicatedStore.Settings.Placeholder
import ReplicatedStore.Settings.Reading

/-!
# Loading settings

A settings file is text whose placeholders are filled in from the environment before it is read as
YAML. Loading checks what was read. The environment may also override two values: the level of the
log, and the key of encrypted backends that have none of their own.

Main statements:

* `Settings.load_eq_ok` and `Settings.loadOverridden_eq_ok` — settings that are loaded passed the check.
-/

namespace ReplicatedStore.Settings

/-- The settings that a text states in an environment. -/
def parse (env : Environment) (text : List Char) : Except Failure Settings :=
  match ofText? (Placeholder.fill env text) with
  | some s => .ok s
  | none => .error ⟨[.said "Failed to parse YAML configuration", .document]⟩

/-- The refusal of a file that is no text. -/
def notText : String := "stream did not contain valid UTF-8"

/-- The settings in a file, whose content the system gives or refuses. -/
def ofFile (env : Environment) (content : Except String Bytes) : Except Failure Settings :=
  match content with
  | .error reason => .error (.refused "Failed to read config file" reason)
  | .ok octets =>
    match Bytes.toText? octets with
    | none => .error (.refused "Failed to read config file" notText)
    | some text => parse env text.toList

/-- What is being done when settings are loaded. -/
def loading : String := "Failed to load configuration"

/-- The settings in a file, checked. -/
def load (env : Environment) (content : Except String Bytes) : Except Failure Settings :=
  match ofFile env content with
  | .error f => .error (f.within loading)
  | .ok s =>
    match s.check with
    | .error f => .error (f.within loading)
    | .ok s => .ok s

/-- The name that overrides the level of the log. -/
def levelName : String := "MULTISTORE_LOG_LEVEL"

/-- The name of the key for encrypted backends that have none. -/
def keyName : String := "MULTISTORE_ENCRYPT_KEY"

/-- A backend with the shared key, if it needs one. -/
def withSharedKey (key : String) (b : BackendSettings) : BackendSettings :=
  if b.properties.lacksKey then { b with properties := b.properties.withKey (some key) } else b

/-- Settings with what the environment overrides. -/
def overridden (env : Environment) (s : Settings) : Settings :=
  -- the level is replaced as it stands, a key only where one is lacking
  let s := match env levelName with
    | some level => { s with logging := { s.logging with level } }
    | none => s
  match env keyName with
  | some key => { s with backends := s.backends.map (withSharedKey key) }
  | none => s

/-- The settings in a file with what the environment overrides, checked. -/
def loadOverridden (env : Environment) (content : Except String Bytes) : Except Failure Settings :=
  match ofFile env content with
  | .error f => .error (f.within loading)
  | .ok s => (s.overridden env).check

theorem load_eq_ok (env : Environment) (content : Except String Bytes) (s : Settings)
    (h : load env content = .ok s) : s.objections = [] := by
  unfold load at h
  split at h
  · contradiction
  · split at h
    · contradiction
    · rename_i hCheck
      cases h
      obtain ⟨rfl, hNone⟩ := (check_eq_ok_iff _ _).1 hCheck
      exact hNone

theorem loadOverridden_eq_ok (env : Environment) (content : Except String Bytes) (s : Settings)
    (h : loadOverridden env content = .ok s) : s.objections = [] := by
  unfold loadOverridden at h
  split at h
  · contradiction
  · obtain ⟨rfl, hNone⟩ := (check_eq_ok_iff _ _).1 h
    exact hNone

end ReplicatedStore.Settings
