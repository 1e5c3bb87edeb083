import ReplicatedStore.CommandLine.Run
import ReplicatedStore.Disk.Change

/-!
# What a command line reaches

The outside of a run that it can depend on: whether it reads the standard input, the names that it
looks up in the environment, and the paths that it turns to.
-/

namespace ReplicatedStore

namespace Command

/-- Whether a command stores what the standard input holds. -/
def readsInput : Command → Bool
  | put _ none => true
  | _ => false

/-- The file that a command names. -/
def file? : Command → Option String
  | put _ file | get _ file => file
  | _ => none

/-- The object that a command is about. -/
def address? : Command → Option Address
  | put a _ | get a _ | remove a | holds a => some a
  | backends => none

end Command

namespace CommandLine

/-- The names that settings look up in the environment. -/
def namesIn (content : Bytes) : List String :=
  let named := match Bytes.toText? content with
    | some text => Placeholder.names text.toList
    | none => []
  Settings.levelName :: Settings.keyName :: named

/-- The paths that a backend turns to. -/
def pathsOf (s : BackendSettings) (a : Option Address) : List String :=
  match s.kind with
  | .filesystem base _ =>
    match a with
    | some a => [base, Path.join (Path.join base a.container) a.name]
    | none => [base]
  | _ => []

/-- The paths that a command turns to under settings. -/
def paths (c : Command) (s : Settings) : List String :=
  c.file?.toList ++ s.backends.flatMap (pathsOf · c.address?)

end CommandLine

end ReplicatedStore
