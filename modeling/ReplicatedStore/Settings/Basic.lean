import ReplicatedStore.Backend.Settings
import ReplicatedStore.Cache.Basic
import ReplicatedStore.Session.Basic

/-!
# Settings

What a store is set up with: how its client works, its cache, its backends and its log. Every part but
the backends has defaults.
-/

namespace ReplicatedStore

/-- How the client works. -/
structure ClientSettings where
  replication : Replication := .sync
  balancing : Balancing := .classic
  timeoutSeconds : Option Nat := none
  deriving DecidableEq, Repr

/-- Whether entries are checked in the background, and how. -/
structure ValidationSettings where
  isSampling : Bool := false
  percent : Nat := 10
  intervalSeconds : Nat := 1800
  deriving DecidableEq, Repr

/-- The settings of the cache. -/
structure CacheSettings where
  enabled : Bool := false
  maxSizeMb : Nat := 1024
  ttlSeconds : Nat := 600
  maxItems : Nat := 5
  validation : ValidationSettings := {}
  deriving DecidableEq, Repr

/-- What is logged, and in which form. -/
structure LoggingSettings where
  level : String := "info"
  format : String := "text"
  deriving DecidableEq, Repr

/-- All settings of a store. -/
structure Settings where
  client : ClientSettings := {}
  cache : CacheSettings := {}
  backends : List BackendSettings := []
  logging : LoggingSettings := {}
  deriving DecidableEq, Repr

namespace ClientSettings

def timeout (c : ClientSettings) : Option Duration := c.timeoutSeconds.map .ofSeconds

def document (c : ClientSettings) : Document :=
  .record [("replication", .text c.replication.word), ("load_balancing", .text c.balancing.word),
    ("operation_timeout_seconds", match c.timeoutSeconds with
      | some n => .whole n
      | none => .nothing)]

end ClientSettings

namespace ValidationSettings

/-- The words for the strategies, with whether they sample. -/
def choices : List (String × Bool) := [("none", false), ("sampling", true)]

/-- The policy that is asked for. -/
def policy (v : ValidationSettings) : ValidationPolicy :=
  if v.isSampling then .sample v.percent (.ofSeconds v.intervalSeconds) else .none

def document (v : ValidationSettings) : Document :=
  .record [("strategy", .text (if v.isSampling then "sampling" else "none")),
    ("sampling_percent", .whole v.percent), ("interval_seconds", .whole v.intervalSeconds)]

end ValidationSettings

namespace CacheSettings

/-- The options of the cache that is asked for. -/
def options (c : CacheSettings) : CacheOptions where
  enabled := c.enabled
  maxSizeMb := c.maxSizeMb
  ttl := .ofSeconds c.ttlSeconds
  maxItems := c.maxItems
  validation := c.validation.policy

def document (c : CacheSettings) : Document :=
  .record [("enabled", .flag c.enabled), ("max_size_mb", .whole c.maxSizeMb),
    ("ttl_seconds", .whole c.ttlSeconds), ("max_items", .whole c.maxItems),
    ("validation", c.validation.document)]

end CacheSettings

def LoggingSettings.document (l : LoggingSettings) : Document :=
  .record [("level", .text l.level), ("format", .text l.format)]

/-- The settings as written out, without any key. -/
def Settings.document (s : Settings) : Document :=
  .record [("client", s.client.document), ("cache", s.cache.document),
    ("backends", .list (s.backends.map (·.document))), ("logging", s.logging.document)]

end ReplicatedStore
