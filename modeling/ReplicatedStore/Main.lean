import ReplicatedStore.CommandLine.Reach
import ReplicatedStore.Digest.Sha256

/-!
# The program

The program looks at the part of the system's disk that its command line reaches, runs the command
line over it, and brings the changes back. No network is connected: an exchange over HTTP breaks off.
-/

namespace ReplicatedStore.Program

def pathOf (place : Place) : String := "/" ++ "/".intercalate place

/-- What is at a path of the system's disk. -/
def nodeAt (path : String) : IO (Option Node) := do
  try
    return some (.file (← IO.FS.readBinFile path).toList)
  catch
    | .inappropriateType .. => return some .directory
    | _ => return none

/-- The disk with what the system has at some places, up to the first that is no directory. -/
def surveyed (d : Disk) : List Place → IO Disk
  | [] => return d
  | place :: rest => do
    match ← nodeAt (pathOf place) with
    | some .directory => surveyed (if place = [] then d else d.set place .directory) rest
    | some node => return d.set place node
    | none => return d

/-- The disk with what the system has along some paths. -/
def survey (d : Disk) (paths : List String) : IO Disk :=
  paths.foldlM (fun d path => surveyed d (d.placesOf path)) d

/-- The environment as far as some names go. -/
def environment (names : List String) : IO Environment := do
  let values ← names.mapM fun name => return (name, ← IO.getEnv name)
  return fun name => (values.lookup name).join

/-- A supply of nonces from a random seed. -/
def nonces : IO (Nat → Nonce) := do
  let seed := (← IO.getRandomBytes 32).toList
  return fun i => .ofNat (Bytes.ofLE (Sha256.digest (seed ++ Bytes.toLE 8 i)))

/-- A change is made on the system's disk. -/
def bring : Change → IO Unit
  | .makeDirectory place => IO.FS.createDirAll (pathOf place)
  | .write place content => IO.FS.writeBinFile (pathOf place) content.toByteArray
  | .clear place => IO.FS.removeFile (pathOf place)

/-- All that a stream gives. -/
partial def readAll (s : IO.FS.Stream) (read : ByteArray) : IO ByteArray := do
  let more ← s.read 65536
  if more.isEmpty then return read else readAll s (read ++ more)

def run (words : List String) (line : CommandLine) : IO CommandLine.Report := do
  let here : Disk := { origin := ((← IO.currentDir).toString.splitOn "/").filter (· ≠ "") }
  let d ← survey here [line.settings]
  let content := d.read line.settings
  let env ← environment (CommandLine.namesIn (content.toOption.getD []))
  let settings := Settings.loadOverridden env (content.mapError Refusal.message)
  let d ← survey d (CommandLine.paths line.command (settings.toOption.getD {}))
  let input ← if line.command.readsInput then readAll (← IO.getStdin) .empty else pure .empty
  let (after, report) :=
    CommandLine.runWords { disk := d, nonceAt := ← nonces } env input.toList words
  (d.changes after.disk).forM bring
  return report

/-- Words are run, or answered at once. -/
def answer (words : List String) : IO CommandLine.Report := do
  match CommandLine.ofWords words with
  | .ok line => run words line
  | .error _ => return (CommandLine.runWords {} (fun _ => none) [] words).2

/-- A report is printed, and gives the exit code. -/
def report (r : CommandLine.Report) : IO UInt32 := do
  (← IO.getStdout).write r.output.toByteArray
  if r.exitCode = 2 then IO.eprint CommandLine.misuseText
  match r.error with
  | some e => IO.eprintln ("Error: " ++ e.headline)
  | none => pure ()
  return r.exitCode.toUInt32

end ReplicatedStore.Program

/-- The program: its words are run, and their report is printed. -/
def main (words : List String) : IO UInt32 := do
  ReplicatedStore.Program.report (← ReplicatedStore.Program.answer words)
