import ReplicatedStore.CommandLine.Help
import ReplicatedStore.Quoted
import ReplicatedStore.Session.Setup
import ReplicatedStore.Settings.Loading

/-!
# Running a command line

A run loads the settings, sets up a session over their backends, carries out the command, and waits
for what was left to do in the background. It ends with an exit code, what is written to the standard
output, and on failure the outermost text of the error.

Main statements:

* `CommandLine.run_of_refused` — if the settings cannot be loaded, nothing else happens.
-/

namespace ReplicatedStore.CommandLine

/-- Why a run fails. -/
inductive RunError
  | failed (f : Failure)
  | store (e : StoreError)
  /-- the program came to an abnormal end -/
  | crashed (reason : String)
  deriving Repr

/-- The outermost text of an error. -/
def RunError.headline : RunError → String
  | failed f => f.headline
  | store e => e.message
  | crashed reason => reason

/-- The exit code after an error. -/
def RunError.exitCode : RunError → Nat
  | failed _ | store _ => 1
  | crashed _ => 101

/-- How a run ends. -/
structure Report where
  exitCode : Nat := 0
  output : Bytes := []
  error : Option RunError := none
  deriving Repr

/-- The report of a run that gave an output or failed. -/
def Report.ofResult : Except RunError Bytes → Report
  | .ok output => { output }
  | .error e => { exitCode := e.exitCode, error := some e }

/-- What an order that ended has given. -/
def result (e : Option Ended) : Except RunError Answer :=
  match e with
  | some (.returned (.ok answer)) => .ok answer
  | some (.returned (.error e)) => .error (.store e)
  | some (.crashed reason) => .error (.crashed reason)
  | none => .error (.crashed "the operation never ended")

/-- What is to be stored: the standard input, or what a file holds. A directory can be opened, but not
read. -/
def source (disk : Disk) (input : Bytes) (file : Option String) : Except Failure Stream :=
  match file with
  | none => .ok (.ofBytes input)
  | some path =>
    match disk.stat path with
    | .error r => .error (.refused ("Failed to open " ++ Quoted.text path) r.message)
    -- opened, and refused only when it is read
    | .ok .directory => .ok ⟨[], some Refusal.isDirectory.message⟩
    | .ok (.file content) => .ok (.ofBytes content)

/-- A payload is written to a file, or else to the standard output. -/
def deliver (disk : Disk) (data : Bytes) (file : Option String) : Disk × Except Failure Bytes :=
  match file with
  | none => (disk, .ok data)
  | some path =>
    let unwritten (r : Refusal) : Failure := .refused ("Failed to write " ++ Quoted.text path) r.message
    match disk.write path data with
    | .error r => (disk, .error (unwritten r))
    | .ok (disk, some m) => (disk, .error (unwritten m.refusal))
    | .ok (disk, none) => (disk, .ok [])

/-- A backend in the listing of all backends. -/
def listed (b : Backend) : String :=
  "\t".intercalate [b.name, b.storage.kind, if b.properties.isMain then "main" else "replica",
    "encrypt=" ++ b.properties.encryption.title, "compress=" ++ b.properties.compression.title] ++ "\n"

/-- A command is carried out in a session. -/
def perform (s : Session) (input : Bytes) (c : Command) : Session × Except RunError Bytes :=
  match c with
  | .put a file =>
    match source s.world.disk input file with
    | .error f => (s, .error (.failed f))
    | .ok stream =>
      let (s, e) := (s.submitStream a stream .system).completed
      (s, (result e).map fun _ => [])
  | .get a file =>
    let (s, e) := s.perform (.request (.get a))
    match result e with
    | .error e => (s, .error e)
    | .ok (.content data) =>
      let (disk, output) := deliver s.world.disk data file
      ({ s with world := { s.world with disk } }, output.mapError .failed)
    | .ok _ => (s, .ok [])
  | .remove a =>
    let (s, e) := s.perform (.request (.remove a))
    (s, (result e).map fun _ => [])
  | .holds a =>
    let (s, e) := s.perform (.request (.holds a))
    (s, (result e).map fun answer =>
      match answer with
      | .presence b => Bytes.ofText (toString b ++ "\n")
      | _ => [])
  | .backends => (s, .ok (Bytes.ofText (String.join (s.world.backends.map listed))))

/-- A command line is run in a world that has no backends yet. -/
def run [Gzip.Encoder] (w : World) (env : Environment) (input : Bytes) (line : CommandLine) : World × Report :=
  let content : Except String Bytes := (w.disk.read line.settings).mapError Refusal.message
  match Settings.loadOverridden env content with
  | .error f => (w, .ofResult (.error (.failed f)))
  | .ok settings =>
    match Session.ofSettings w settings with
    | (w, .error e) => (w, .ofResult (.error (.store e)))
    | (_, .ok s) =>
      let (s, outcome) := perform s input line.command
      -- a failure waits for the background as well, but keeps its own outcome
      ((s.perform .shutdown).1.world, .ofResult outcome)

/-- The words of a command line are understood and run, or answered at once. -/
def runWords [Gzip.Encoder] (w : World) (env : Environment) (input : Bytes) (words : List String) : World × Report :=
  match ofWords words with
  | .error .misuse => (w, { exitCode := 2 })
  | .error .help => (w, { output := Bytes.ofText helpText })
  | .error .version => (w, { output := Bytes.ofText versionText })
  | .ok line => run w env input line

theorem run_of_refused [Gzip.Encoder] (w : World) (env : Environment) (input : Bytes) (line : CommandLine) (f : Failure)
    (h : Settings.loadOverridden env ((w.disk.read line.settings).mapError Refusal.message) = .error f) :
    run w env input line = (w, { exitCode := 1, error := some (.failed f) }) := by
  simp [run, h, Report.ofResult, RunError.exitCode]

end ReplicatedStore.CommandLine
