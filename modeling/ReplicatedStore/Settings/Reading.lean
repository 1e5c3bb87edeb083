import ReplicatedStore.Settings.Basic
import ReplicatedStore.Yaml.Reading

/-!
# Reading settings

Settings are the fields of a YAML document. Fields that are left out have their defaults, and fields
that nobody knows are ignored. In the settings of a backend the fields of its storage stand beside its
name and its properties; they are read as values of any kind first, so that a text is one only where
it cannot be read otherwise.
-/

namespace ReplicatedStore

open Yaml (Reading)
open Yaml.Reading

namespace Settings

def readClient (n : Yaml.Node) : Reading ClientSettings := do
  let e ← entries n
  return {
    replication := ← fieldOr e "replication" .sync (choice Replication.choices)
    balancing := ← fieldOr e "load_balancing" .classic (choice Balancing.choices)
    timeoutSeconds :=
      ← fieldOr e "operation_timeout_seconds" none (optional (natural wordLimit)) }

/-- The settings of the cache's validation. -/
def readValidation (n : Yaml.Node) : Reading ValidationSettings := do
  let e ← entries n
  let d : ValidationSettings := {}
  return {
    isSampling := ← fieldOr e "strategy" d.isSampling (choice ValidationSettings.choices)
    percent := ← fieldOr e "sampling_percent" d.percent (natural 256)
    intervalSeconds := ← fieldOr e "interval_seconds" d.intervalSeconds (natural wordLimit) }

def readCache (n : Yaml.Node) : Reading CacheSettings := do
  let e ← entries n
  let d : CacheSettings := {}
  return {
    enabled := ← fieldOr e "enabled" d.enabled flag
    maxSizeMb := ← fieldOr e "max_size_mb" d.maxSizeMb (natural wordLimit)
    ttlSeconds := ← fieldOr e "ttl_seconds" d.ttlSeconds (natural wordLimit)
    maxItems := ← fieldOr e "max_items" d.maxItems (natural wordLimit)
    validation := ← fieldOr e "validation" d.validation readValidation }

def readLogging (n : Yaml.Node) : Reading LoggingSettings := do
  let e ← entries n
  let d : LoggingSettings := {}
  return {
    level := ← fieldOr e "level" d.level string
    format := ← fieldOr e "format" d.format string }

def readProperties (n : Yaml.Node) : Reading Properties := do
  let e ← entries n
  return {
    isMain := ← fieldOr e "is_main_instance" false flag
    encryption := ← fieldOr e "save_encrypt" .none (choice Encryption.choices)
    compression := ← fieldOr e "save_compress" .none (choice Compression.choices)
    key := ← fieldOr e "encrypt_key" none (optional string) }

/-! ## Storage -/

def asText : Document → Option String
  | .text s => some s
  | _ => none

def asFlag : Document → Option Bool
  | .flag b => some b
  | _ => none

/-- A number from zero on. -/
def asNatural : Document → Option Nat
  | .whole n => if 0 ≤ n then some n.toNat else none
  | _ => none

def asTexts : Document → Option (List String)
  | .list items => items.mapM asText
  | _ => none

def asOptionalText : Document → Option (Option String)
  | .nothing => some none
  | d => (asText d).map some

/-- The values of a field, read; refused if there are several. -/
def valueOf {α : Type} (fields : List (List Char × Document)) (name : String)
    (read : Document → Option α) : Option (Option α) :=
  match fields.filter (·.1 = name.toList) with
  | [] => some none
  | [(_, d)] => (read d).map some
  | _ => none

/-- The kinds of storage, by the numbers that may stand for their words. -/
def kinds : List String := ["memory", "filesystem", "http"]

/-- The word for a kind of storage. -/
def kindWord : Document → Option String
  | .text s => some s
  | .whole n => if 0 ≤ n then kinds[n.toNat]? else none
  | _ => none

def storageOf (fields : List (List Char × Document)) : Option StorageSettings := do
  -- the fields of other kinds are not looked at
  match ← (← valueOf fields "type" kindWord) with
  | "memory" => return .memory ((← valueOf fields "containers" asTexts).getD [])
  | "filesystem" =>
    return .filesystem (← ← valueOf fields "base_path" asText)
      ((← valueOf fields "create_containers" asFlag).getD false)
  | "http" =>
    return .http (← ← valueOf fields "url" asText)
      ((← valueOf fields "api_token" asOptionalText).getD none)
      ((← valueOf fields "timeout_seconds" asNatural).getD 300)
  | _ => none

/-- The collections around a field of a backend: its own, the list of backends, the settings. -/
def depthOfBackend : Nat := 3

def readBackend (n : Yaml.Node) : Reading BackendSettings := do
  let e ← (match ← resolved n with
    | .mapping _ list => list.mapM fun (k, v) => do return (← text k, v)
    | .scalar _ .plain [] => pure []
    | _ => refuse)
  let name ← required e "name" string
  let properties ← fieldOr e "properties" {} readProperties
  -- what is left belongs to the storage, known or not
  let others := e.filter fun (k, _) => k ≠ "name".toList && k ≠ "properties".toList
  let fields ← others.mapM fun (k, v) => do return (k, ← any depthOfBackend v)
  return { name, properties, kind := ← Reading.ofOption (storageOf fields) }

def read (n : Yaml.Node) : Reading Settings := do
  let e ← entries n
  return {
    client := ← fieldOr e "client" {} readClient
    cache := ← fieldOr e "cache" {} readCache
    backends := ← fieldOr e "backends" [] (items readBackend)
    logging := ← fieldOr e "logging" {} readLogging }

/-- The settings that a text states, if it is well formed; a text without a document states none. -/
def ofText? (text : List Char) : Option Settings := (Yaml.read? read text).map (·.getD {})

end Settings

end ReplicatedStore
