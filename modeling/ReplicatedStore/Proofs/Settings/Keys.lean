import Mathlib.Data.List.Basic
import ReplicatedStore.Proofs.Pipeline.RoundTrip
import ReplicatedStore.Settings.Loading

/-!
# Where the keys of loaded settings come from

A key goes through four passes: placeholders are filled in, the text is read, the environment gives a
shared key to encrypted backends that lack one, and the check refuses settings in which one still lacks
a key. The last two agree on what it means to lack a key (`Properties.lacksKey`): to state none, or an
empty one. The first has a notion of its own: a placeholder of a name without a value and without a default
stays as it stands, and the text that is left over is a key like any other for the passes behind.

So settings that are loaded never encrypt under an empty key, and a key is either the one that the file
states or, where that is lacking, the shared one. But a key that the file states as an open placeholder is
not lacking: the backend encrypts under the text of the placeholder itself.

Main results:

* `Placeholder.text_infix_fill` — an open placeholder is left over.
* `Settings.check_eq_of_keyed` — if only keys can be wrong, the first backend that lacks one is named.
* `Settings.keys_of_loaded` — the keys of loaded settings, and what is refused for want of a key.
-/

namespace ReplicatedStore

/-! ## What filling leaves over -/

namespace Placeholder

/-- Nothing is known to put in. -/
def IsOpen (env : Environment) (p : Placeholder) : Prop :=
  env (String.ofList p.name) = none ∧ p.default? = none

theorem value_of_isOpen {env : Environment} {p : Placeholder} (h : p.IsOpen env) :
    p.value env = p.text := by
  obtain ⟨hName, hDefault⟩ := h
  simp only [value, hName, hDefault]

/-- An open placeholder is left over as it stands. -/
theorem text_infix_fill {env : Environment} {s : List Char} {p : Placeholder}
    (hPiece : Piece.slot p ∈ cut s) (h : p.IsOpen env) : p.text <:+: fill env s := by
  obtain ⟨before, after, hCut⟩ := List.append_of_mem hPiece
  refine ⟨before.flatMap (Piece.value env), after.flatMap (Piece.value env), ?_⟩
  rw [fill, hCut]
  simp [Piece.value, value_of_isOpen h]

/-- A text whose placeholders are all open stays as it is. -/
theorem fill_eq_self_of_isOpen {env : Environment} {s : List Char}
    (h : ∀ p, Piece.slot p ∈ cut s → p.IsOpen env) : fill env s = s := by
  have hPieces : ∀ piece ∈ cut s, piece.value env = piece.text := fun piece hPiece => by
    cases piece with
    | plain c => rfl
    | slot p => exact value_of_isOpen (h p hPiece)
  rw [fill, List.flatMap_congr hPieces, flatMap_text_cut]

theorem ofList_text_ne_empty (p : Placeholder) : String.ofList p.text ≠ "" := by
  intro h
  have hText := congrArg String.toList h
  simp [text] at hText

end Placeholder

/-! ## The shared key -/

namespace Settings

theorem name_withSharedKey (key : String) (b : BackendSettings) : (withSharedKey key b).name = b.name := by
  unfold withSharedKey
  split <;> rfl

/-- The key for backends that lack one, if there is any. -/
def withShared (shared? : Option String) (b : BackendSettings) : BackendSettings :=
  match shared? with
  | some key => withSharedKey key b
  | none => b

theorem withShared_of_not_lacksKey {b : BackendSettings} (h : b.properties.lacksKey = false)
    (shared? : Option String) : withShared shared? b = b := by
  cases shared? with
  | none => rfl
  | some key => simp [withShared, withSharedKey, h]

theorem name_withShared (shared? : Option String) (b : BackendSettings) :
    (withShared shared? b).name = b.name := by
  cases shared? with
  | none => rfl
  | some key => exact name_withSharedKey key b

/-- A shared key that is empty does not help. -/
theorem lacksKey_withShared_iff (shared? : Option String) (b : BackendSettings) :
    (withShared shared? b).properties.lacksKey = true ↔
      b.properties.lacksKey = true ∧ ∀ key, shared? = some key → key = "" := by
  cases hLacks : b.properties.lacksKey with
  | false => simp [withShared_of_not_lacksKey hLacks, hLacks]
  | true =>
    cases shared? with
    | none => simp [withShared, hLacks]
    | some key =>
      have hEncrypted := (Properties.lacksKey_iff _).1 hLacks
      simp [withShared, withSharedKey, hLacks, Properties.lacksKey_iff, Properties.withKey, hEncrypted.1]

theorem backends_overridden (env : Environment) (s : Settings) :
    (s.overridden env).backends = s.backends.map (withShared (env keyName)) := by
  have hNone : withShared none = id := rfl
  unfold overridden
  cases env keyName <;> cases env levelName <;> simp [hNone, withShared]

end Settings

/-! ## The check of keys -/

namespace BackendSettings

/-- The objection to a backend that lacks a key. -/
def keyMissing (name : String) : String :=
  s!"backend '{name}' uses aes256 encryption but encrypt_key is missing"

theorem lacksKey_eq_false_of_objection? {before : List String} {b : BackendSettings}
    (h : b.objection? before = none) : b.properties.lacksKey = false := by
  unfold objection? at h
  split at h
  · contradiction
  · split at h
    · contradiction
    · split at h
      · contradiction
      · rename_i hKey
        simpa using hKey

theorem lacksKey_eq_false_of_objectionAmong? {before : List String} {list : List BackendSettings}
    (h : objectionAmong? before list = none) {b : BackendSettings} (hb : b ∈ list) :
    b.properties.lacksKey = false := by
  induction list generalizing before with
  | nil => contradiction
  | cons first rest ih =>
    rw [objectionAmong?] at h
    split at h
    · contradiction
    · rename_i hFirst
      rcases List.mem_cons.1 hb with rfl | hRest
      · exact lacksKey_eq_false_of_objection? hFirst
      · exact ih h hRest

/-- With a key at hand nothing is wrong with a backend: then only the want of a key can be. -/
theorem objection?_of_keyed {before : List String} {key : String} {b : BackendSettings}
    (h : (Settings.withSharedKey key b).objection? before = none) :
    b.objection? before = if b.properties.lacksKey then some (keyMissing b.name) else none := by
  split
  · rename_i hLacks
    -- the objections to the name come before the one to the key, and those to the storage after it
    unfold objection? at h ⊢
    rw [Settings.name_withSharedKey] at h
    split at h
    · contradiction
    · rename_i hName
      rw [if_neg hName]
      split at h
      · contradiction
      · rename_i hOwn
        rw [if_neg hOwn, if_pos hLacks]
        rfl
  · rename_i hHas
    rwa [Settings.withSharedKey, if_neg hHas] at h

/-- If only keys can be wrong, the first backend that lacks one is objected to. -/
theorem objectionAmong?_of_keyed {before : List String} {key : String} {list : List BackendSettings}
    (h : objectionAmong? before (list.map (Settings.withSharedKey key)) = none) :
    objectionAmong? before list =
      (list.find? (·.properties.lacksKey)).map fun b => keyMissing b.name := by
  -- the names seen before grow alike in both lists, since a shared key leaves the names alone
  induction list generalizing before with
  | nil => rfl
  | cons first rest ih =>
    rw [List.map_cons, objectionAmong?] at h
    split at h
    · contradiction
    · rename_i hFirst
      rw [objectionAmong?, objection?_of_keyed hFirst, List.find?_cons]
      cases first.properties.lacksKey with
      | true => rfl
      | false =>
        rw [Settings.name_withSharedKey] at h
        exact ih h

end BackendSettings

namespace Settings

/-- Settings in which every backend that lacks a key has this one. -/
def keyed (key : String) (s : Settings) : Settings :=
  { s with backends := s.backends.map (withSharedKey key) }

/-- If only keys can be wrong, settings are refused exactly if a backend lacks a key, and the first that
does is named. -/
theorem check_eq_of_keyed {s : Settings} {key : String} (h : (s.keyed key).objections = []) :
    s.check = match s.backends.find? (·.properties.lacksKey) with
      | some b => .error (.said (BackendSettings.keyMissing b.name))
      | none => .ok s := by
  simp only [objections, keyed, List.append_eq_nil_iff, Option.toList_eq_nil_iff,
    List.isEmpty_map] at h
  obtain ⟨⟨⟨⟨hSome, hBackends⟩, hCache⟩, hClient⟩, hLog⟩ := h
  unfold check objection? objections
  rw [hSome, BackendSettings.objectionAmong?_of_keyed hBackends, hCache, hClient, hLog]
  cases s.backends.find? (·.properties.lacksKey) <;> rfl

/-! ## Loaded settings -/

/-- A backend that is encrypted has the key. -/
def SealsUnder (s : Settings) (key : String) : Prop :=
  ∃ b ∈ s.backends, b.properties.encryption = .aes256 ∧ b.properties.key = some key

instance (s : Settings) (key : String) : Decidable (s.SealsUnder key) :=
  inferInstanceAs (Decidable (∃ b ∈ s.backends, _ ∧ _))

/-- The file holds a text that states the settings, once it is filled in. -/
def Stated (env : Environment) (content : Except String Bytes) (text : List Char)
    (stated : Settings) : Prop :=
  ∃ octets, content = .ok octets ∧ (Bytes.toText? octets).map String.toList = some text ∧
    ofText? (Placeholder.fill env text) = some stated

theorem ofFile_eq_ok_iff (env : Environment) (content : Except String Bytes) (stated : Settings) :
    ofFile env content = .ok stated ↔ ∃ text, Stated env content text stated := by
  cases content with
  | error reason => simp [ofFile, Stated]
  | ok octets =>
    cases hText : Bytes.toText? octets with
    | none => simp [ofFile, Stated, hText]
    | some text =>
      cases hRead : ofText? (Placeholder.fill env text.toList) with
      | none => simp [ofFile, Stated, hText, parse, hRead]
      | some found => simp [ofFile, Stated, hText, parse, hRead]

/-- Where the keys of settings come from, if there may be a key for backends that lack one. -/
structure KeysFrom (shared? : Option String) (stated s : Settings) : Prop where
  /-- no backend comes or goes -/
  length : s.backends.length = stated.backends.length
  /-- a backend that does not lack a key stays as it is -/
  kept : ∀ (i : Nat) (b : BackendSettings), stated.backends[i]? = some b → b.properties.lacksKey = false →
    s.backends[i]? = some b
  /-- one that lacks a key gets the shared one, and there is one that is not empty -/
  shared : ∀ (i : Nat) (b : BackendSettings), stated.backends[i]? = some b → b.properties.lacksKey = true →
    ∃ key, shared? = some key ∧ key ≠ "" ∧
      s.backends[i]? = some { b with properties := b.properties.withKey (some key) }
  /-- so these are all the keys -/
  keys : ∀ key, s.SealsUnder key ↔ key ≠ "" ∧ (stated.SealsUnder key ∨
    shared? = some key ∧ ∃ b ∈ stated.backends, b.properties.lacksKey = true)

/-- What is fit lacks no key. -/
theorem lacksKey_eq_false_of_objections {s : Settings} (h : s.objections = []) {b : BackendSettings}
    (hb : b ∈ s.backends) : b.properties.lacksKey = false := by
  simp only [objections, List.append_eq_nil_iff, Option.toList_eq_nil_iff] at h
  exact BackendSettings.lacksKey_eq_false_of_objectionAmong? h.1.1.1.2 hb

/-- In fit settings a backend that lacked a key has been given one. -/
theorem withShared_of_lacksKey {shared? : Option String} {b : BackendSettings}
    (hLacks : b.properties.lacksKey = true) (hFit : (withShared shared? b).properties.lacksKey = false) :
    ∃ key, shared? = some key ∧ key ≠ "" ∧
      withShared shared? b = { b with properties := b.properties.withKey (some key) } := by
  rw [← Bool.not_eq_true, lacksKey_withShared_iff] at hFit
  push Not at hFit
  obtain ⟨key, rfl, hKey⟩ := hFit hLacks
  exact ⟨key, rfl, hKey, if_pos hLacks⟩

/-- The backends are the stated ones, each with the shared key if it needs it, and they passed the check:
that is all that the keys depend on. -/
theorem keysFrom_of_objections {shared? : Option String} {stated s : Settings}
    (hMap : s.backends = stated.backends.map (withShared shared?)) (hFit : s.objections = []) :
    KeysFrom shared? stated s where
  length := by rw [hMap, List.length_map]
  kept i b hb hHas := by
    rw [hMap, List.getElem?_map, hb, Option.map_some, withShared_of_not_lacksKey hHas]
  shared i b hb hLacks := by
    have hMem : withShared shared? b ∈ s.backends :=
      hMap ▸ List.mem_map_of_mem (List.mem_of_getElem? hb)
    obtain ⟨key, hShared, hKey, hGiven⟩ :=
      withShared_of_lacksKey hLacks (lacksKey_eq_false_of_objections hFit hMem)
    exact ⟨key, hShared, hKey, by rw [hMap, List.getElem?_map, hb, Option.map_some, hGiven]⟩
  keys key := by
    constructor
    · -- a key of the loaded settings is stated, or given to a backend that lacked one
      rintro ⟨b, hb, hEncrypted, hKey⟩
      have hFitHere := lacksKey_eq_false_of_objections hFit hb
      have hNonempty : key ≠ "" := by
        rintro rfl
        rw [(Properties.lacksKey_iff _).2 ⟨hEncrypted, .inr hKey⟩] at hFitHere
        cases hFitHere
      rw [hMap] at hb
      obtain ⟨b₀, hb₀, rfl⟩ := List.mem_map.1 hb
      refine ⟨hNonempty, ?_⟩
      cases hLacks : b₀.properties.lacksKey with
      | false =>
        rw [withShared_of_not_lacksKey hLacks] at hEncrypted hKey
        exact .inl ⟨b₀, hb₀, hEncrypted, hKey⟩
      | true =>
        obtain ⟨given, hShared, -, hGiven⟩ := withShared_of_lacksKey hLacks hFitHere
        rw [hGiven] at hKey
        obtain rfl : given = key := Option.some.inj hKey
        exact .inr ⟨hShared, b₀, hb₀, hLacks⟩
    · -- a stated key that is not empty stays, and the shared one arrives where one was lacking
      rintro ⟨hNonempty, ⟨b, hb, hEncrypted, hKey⟩ | ⟨hShared, b, hb, hLacks⟩⟩
      · have hHas : b.properties.lacksKey = false := by
          rw [← Bool.not_eq_true, Properties.lacksKey_iff]
          simp [hKey, hNonempty]
        refine ⟨b, ?_, hEncrypted, hKey⟩
        rw [hMap]
        exact List.mem_map.2 ⟨b, hb, withShared_of_not_lacksKey hHas shared?⟩
      · refine ⟨withShared shared? b, hMap ▸ List.mem_map_of_mem hb, ?_⟩
        have hGiven : withShared shared? b = { b with properties := b.properties.withKey (some key) } := by
          rw [hShared]
          exact if_pos hLacks
        rw [hGiven]
        exact ⟨((Properties.lacksKey_iff _).1 hLacks).1, rfl⟩

/-- The text of a placeholder that filling leaves over. -/
def LeftOver (env : Environment) (text : List Char) (key : String) : Prop :=
  ∃ p, Placeholder.Piece.slot p ∈ Placeholder.cut text ∧ p.IsOpen env ∧ key = String.ofList p.text

theorem LeftOver.ne_empty {env : Environment} {text : List Char} {key : String}
    (h : LeftOver env text key) : key ≠ "" := by
  obtain ⟨p, -, -, rfl⟩ := h
  exact p.ofList_text_ne_empty

theorem LeftOver.infix_fill {env : Environment} {text : List Char} {key : String}
    (h : LeftOver env text key) : key.toList <:+: Placeholder.fill env text := by
  obtain ⟨p, hPiece, hOpen, rfl⟩ := h
  rw [String.toList_ofList]
  exact Placeholder.text_infix_fill hPiece hOpen

section

variable {env : Environment} {content : Except String Bytes} {text : List Char} {stated s : Settings}

theorem load_of_stated (h : Stated env content text stated) :
    load env content = stated.check.mapError (·.within loading) := by
  rw [load, (ofFile_eq_ok_iff ..).2 ⟨text, h⟩]
  simp only
  cases stated.check <;> rfl

theorem loadOverridden_of_stated (h : Stated env content text stated) :
    loadOverridden env content = (stated.overridden env).check := by
  rw [loadOverridden, (ofFile_eq_ok_iff ..).2 ⟨text, h⟩]

theorem load_eq_ok_iff (hStated : Stated env content text stated) :
    load env content = .ok s ↔ stated = s ∧ stated.objections = [] := by
  rw [load_of_stated hStated, ← check_eq_ok_iff]
  cases stated.check <;> simp [Except.mapError]

theorem exists_stated_of_load (h : load env content = .ok s) :
    ∃ text, Stated env content text s ∧ s.objections = [] := by
  cases hFile : ofFile env content with
  | error f => simp [load, hFile] at h
  | ok stated =>
    obtain ⟨text, hStated⟩ := (ofFile_eq_ok_iff ..).1 hFile
    obtain ⟨rfl, hFit⟩ := (load_eq_ok_iff hStated).1 h
    exact ⟨text, hStated, hFit⟩

theorem exists_stated_of_loadOverridden (h : loadOverridden env content = .ok s) :
    ∃ text stated, Stated env content text stated := by
  cases hFile : ofFile env content with
  | error f => simp [loadOverridden, hFile] at h
  | ok stated =>
    obtain ⟨text, hStated⟩ := (ofFile_eq_ok_iff ..).1 hFile
    exact ⟨text, stated, hStated⟩

theorem keysFrom_of_loadOverridden (hStated : Stated env content text stated)
    (h : loadOverridden env content = .ok s) : KeysFrom (env keyName) stated s := by
  rw [loadOverridden_of_stated hStated] at h
  obtain ⟨rfl, hFit⟩ := (check_eq_ok_iff ..).1 h
  exact keysFrom_of_objections (backends_overridden env stated) hFit

end

/-- With a key to share, no backend lacks one. -/
theorem find?_overridden_of_shared {env : Environment} {key : String} (hShared : env keyName = some key)
    (hKey : key ≠ "") (s : Settings) :
    (s.overridden env).backends.find? (·.properties.lacksKey) = none := by
  rw [backends_overridden, List.find?_eq_none]
  intro b hb
  obtain ⟨b₀, -, rfl⟩ := List.mem_map.1 hb
  rw [lacksKey_withShared_iff]
  exact fun h => hKey (h.2 key hShared)

/-- Without one, the first backend that lacks a key keeps its place. -/
theorem find?_overridden_of_not_shared {env : Environment}
    (hShared : ∀ key, env keyName = some key → key = "") (s : Settings) :
    (s.overridden env).backends.find? (·.properties.lacksKey) =
      (s.backends.find? (·.properties.lacksKey)).map (withShared (env keyName)) := by
  have hSame : (fun b => (withShared (env keyName) b).properties.lacksKey) =
      fun b : BackendSettings => b.properties.lacksKey := by
    funext b
    rw [Bool.eq_iff_iff, lacksKey_withShared_iff]
    exact and_iff_left hShared
  rw [backends_overridden, List.find?_map]
  exact congrArg (fun p => (s.backends.find? p).map _) hSame

/-- What becomes of the keys of the settings that a file states. -/
structure KeysOnLoading (env : Environment) (content : Except String Bytes) (text : List Char)
    (stated : Settings) : Prop where
  /-- a text that is left over stands in what is read -/
  infix_fill : ∀ key, LeftOver env text key → key.toList <:+: Placeholder.fill env text
  /-- it is a key of the loaded settings if it is stated as one -/
  leftOver : ∀ key s, LeftOver env text key → load env content = .ok s →
    (s.SealsUnder key ↔ stated.SealsUnder key)
  /-- no shared key replaces it, but it may be the shared key as well -/
  leftOver_overridden : ∀ key s, LeftOver env text key → loadOverridden env content = .ok s →
    (s.SealsUnder key ↔ stated.SealsUnder key ∨
      env keyName = some key ∧ ∃ b ∈ stated.backends, b.properties.lacksKey = true)
  /-- nothing is loaded with a backend that lacks a key -/
  refused : (∃ b ∈ stated.backends, b.properties.lacksKey = true) → ∃ f, load env content = .error f
  /-- unless there is a key to share, and that is asked for -/
  refused_overridden : (∃ b ∈ stated.backends, b.properties.lacksKey = true) →
    (∀ key, env keyName = some key → key = "") → ∃ f, loadOverridden env content = .error f
  /-- if only keys can be wrong, the first backend that lacks one is named -/
  missing : (∃ key, (stated.keyed key).objections = []) →
    load env content = match stated.backends.find? (·.properties.lacksKey) with
      | some b => .error ((Failure.said (BackendSettings.keyMissing b.name)).within loading)
      | none => .ok stated
  /-- and the same if there is no key to share -/
  missing_overridden : (∃ key, ((stated.overridden env).keyed key).objections = []) →
    (∀ key, env keyName = some key → key = "") →
    loadOverridden env content = match stated.backends.find? (·.properties.lacksKey) with
      | some b => .error (.said (BackendSettings.keyMissing b.name))
      | none => .ok (stated.overridden env)
  /-- with a key to share no key is missing -/
  shared : (∃ key, ((stated.overridden env).keyed key).objections = []) →
    (∃ key, env keyName = some key ∧ key ≠ "") → loadOverridden env content = .ok (stated.overridden env)

theorem keysOnLoading_of_stated {env : Environment} {content : Except String Bytes} {text : List Char}
    {stated : Settings} (hStated : Stated env content text stated) :
    KeysOnLoading env content text stated where
  infix_fill _ hLeft := hLeft.infix_fill
  leftOver key s _ hLoad := by rw [((load_eq_ok_iff hStated).1 hLoad).1]
  leftOver_overridden key s hLeft hLoad := by
    rw [(keysFrom_of_loadOverridden hStated hLoad).keys, and_iff_right hLeft.ne_empty]
  refused := by
    rintro ⟨b, hb, hLacks⟩
    cases hLoad : load env content with
    | error f => exact ⟨f, rfl⟩
    | ok s =>
      have hHas := lacksKey_eq_false_of_objections ((load_eq_ok_iff hStated).1 hLoad).2 hb
      rw [hHas] at hLacks
      cases hLacks
  refused_overridden := by
    rintro ⟨b, hb, hLacks⟩ hShared
    cases hLoad : loadOverridden env content with
    | error f => exact ⟨f, rfl⟩
    | ok s =>
      obtain ⟨i, hi⟩ := List.mem_iff_getElem?.1 hb
      obtain ⟨key, hKey, hNonempty, -⟩ :=
        (keysFrom_of_loadOverridden hStated hLoad).shared i b hi hLacks
      exact absurd (hShared key hKey) hNonempty
  missing := by
    rintro ⟨key, hKeyed⟩
    rw [load_of_stated hStated, check_eq_of_keyed hKeyed]
    cases stated.backends.find? (·.properties.lacksKey) <;> rfl
  missing_overridden := by
    rintro ⟨key, hKeyed⟩ hShared
    rw [loadOverridden_of_stated hStated, check_eq_of_keyed hKeyed, find?_overridden_of_not_shared hShared]
    cases stated.backends.find? (·.properties.lacksKey) with
    | none => rfl
    | some b => simp only [Option.map_some, name_withShared]
  shared := by
    rintro ⟨key, hKeyed⟩ ⟨given, hShared, hGiven⟩
    rw [loadOverridden_of_stated hStated, check_eq_of_keyed hKeyed,
      find?_overridden_of_shared hShared hGiven]

/-- **Where the keys of loaded settings come from.** Settings that are loaded are those that the file
states; where an encrypted backend states no key, or an empty one, it has the shared key of the
environment, if that is asked for, and without one nothing is loaded and the first such backend is named.

A placeholder that filling leaves over is no lacking key: its text is a key of the loaded settings exactly
if the file states it as one, and a shared key does not replace it. -/
theorem keys_of_loaded (env : Environment) (content : Except String Bytes) :
    (∀ s, load env content = .ok s → (∃ text, Stated env content text s) ∧ KeysFrom none s s) ∧
    (∀ s, loadOverridden env content = .ok s →
      ∃ text stated, Stated env content text stated ∧ KeysFrom (env keyName) stated s) ∧
    ∀ text stated, Stated env content text stated → KeysOnLoading env content text stated := by
  refine ⟨fun s hLoad => ?_, fun s hLoad => ?_, fun _ _ => keysOnLoading_of_stated⟩
  · obtain ⟨text, hStated, hFit⟩ := exists_stated_of_load hLoad
    exact ⟨⟨text, hStated⟩, keysFrom_of_objections (List.map_id _).symm hFit⟩
  · obtain ⟨text, stated, hStated⟩ := exists_stated_of_loadOverridden hLoad
    exact ⟨text, stated, hStated, keysFrom_of_loadOverridden hStated hLoad⟩

/-- A file in which the key of a vault is to come from the environment. -/
def vaultFile : String :=
  "backends:\n- name: vault\n  type: memory\n  properties:\n    save_encrypt: aes256\n" ++
    "    encrypt_key: '$\x7bVAULT_KEY\x7d'\n"

/-- What is left over of it where the environment has no such key. -/
def vaultKey : String := "$\x7bVAULT_KEY\x7d"

def vault : Settings where
  backends :=
    [{ name := "vault", kind := .memory [], properties := { encryption := .aes256, key := vaultKey } }]

/-- An environment with a key to share at most. -/
def sharing (shared? : Option String) : Environment :=
  fun name => if name = keyName then shared? else none

/-- Whatever is shared, the key of the vault is left over, and read as it stands. -/
theorem stated_vault (shared? : Option String) :
    LeftOver (sharing shared?) vaultFile.toList vaultKey ∧
      Stated (sharing shared?) (.ok (Bytes.ofText vaultFile)) vaultFile.toList vault := by
  have hText : Bytes.toText? (Bytes.ofText vaultFile) = some vaultFile := by decide +kernel
  -- the file is read once, as it stands: filling changes nothing in it
  have hRead : ofText? vaultFile.toList = some vault := by decide +kernel
  have hSlots : (Placeholder.cut vaultFile.toList).filter (· matches .slot _) =
      [.slot ⟨"VAULT_KEY".toList, none⟩] := by decide +kernel
  have hOpen : Placeholder.IsOpen (sharing shared?) ⟨"VAULT_KEY".toList, none⟩ :=
    ⟨by simp [sharing, keyName], rfl⟩
  have hFill : Placeholder.fill (sharing shared?) vaultFile.toList = vaultFile.toList := by
    refine Placeholder.fill_eq_self_of_isOpen fun p hp => ?_
    have hMem : Placeholder.Piece.slot p ∈ [Placeholder.Piece.slot ⟨"VAULT_KEY".toList, none⟩] :=
      hSlots ▸ List.mem_filter.2 ⟨hp, rfl⟩
    obtain rfl : p = ⟨"VAULT_KEY".toList, none⟩ := by simpa using hMem
    exact hOpen
  constructor
  · have hMem : Placeholder.Piece.slot ⟨"VAULT_KEY".toList, none⟩ ∈
        (Placeholder.cut vaultFile.toList).filter (· matches .slot _) := hSlots ▸ List.mem_singleton_self _
    exact ⟨_, (List.mem_filter.1 hMem).1, hOpen, by decide +kernel⟩
  · exact ⟨_, rfl, by rw [hText, Option.map_some], by rw [hFill, hRead]⟩

/-- Without a value for the key of the vault the file is loaded all the same, and the vault encrypts under
the text of the placeholder; a key to share changes nothing. -/
theorem keys_of_loaded_left_over :
    LeftOver (sharing none) vaultFile.toList vaultKey ∧
    (∃ s, load (sharing none) (.ok (Bytes.ofText vaultFile)) = .ok s ∧ s.SealsUnder vaultKey) ∧
    (∃ s, loadOverridden (sharing none) (.ok (Bytes.ofText vaultFile)) = .ok s ∧ s.SealsUnder vaultKey) ∧
    ∃ s, loadOverridden (sharing (some "shared")) (.ok (Bytes.ofText vaultFile)) = .ok s ∧
      s.SealsUnder vaultKey ∧ ¬ s.SealsUnder "shared" := by
  obtain ⟨hLeft, hStated⟩ := stated_vault none
  obtain ⟨hLeft', hStated'⟩ := stated_vault (some "shared")
  have hSeals : vault.SealsUnder vaultKey := by decide +kernel
  have hOwn : ¬ (vault.overridden (sharing (some "shared"))).SealsUnder "shared" := by decide +kernel
  obtain ⟨-, -, hLoading⟩ := keys_of_loaded (sharing none) (.ok (Bytes.ofText vaultFile))
  obtain ⟨-, -, hLoading'⟩ := keys_of_loaded (sharing (some "shared")) (.ok (Bytes.ofText vaultFile))
  have hLoad := (hLoading _ _ hStated).missing ⟨"", by decide +kernel⟩
  have hAlone := (hLoading _ _ hStated).missing_overridden ⟨"", by decide +kernel⟩ (by simp [sharing])
  have hShared := (hLoading' _ _ hStated').shared ⟨"", by decide +kernel⟩ ⟨"shared", rfl, by decide⟩
  have hKept := ((hLoading' _ _ hStated').leftOver_overridden _ _ hLeft' hShared).2 (.inl hSeals)
  exact ⟨hLeft, ⟨vault, hLoad, hSeals⟩, ⟨_, hAlone, hSeals⟩, _, hShared, hKept, hOwn⟩

end Settings

end ReplicatedStore
