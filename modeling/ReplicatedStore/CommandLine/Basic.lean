import ReplicatedStore.Address
import ReplicatedStore.CommandLine.Form

/-!
# Command lines

A command line names a settings file and a command. What stands before the word of the command
belongs to the program, what stands behind it to the command.

Main statements:

* `CommandLine.ofWords_put` — the plain way to ask for a write is understood.
-/

namespace ReplicatedStore

/-- What the program is asked to do. -/
inductive Command
  /-- store what a file, or else the standard input, holds -/
  | put (a : Address) (file : Option String)
  /-- write a payload to a file, or else to the standard output -/
  | get (a : Address) (file : Option String)
  | remove (a : Address)
  | holds (a : Address)
  | backends
  deriving DecidableEq, Repr

/-- A command line: the settings file and the command. -/
structure CommandLine where
  settings : String := "config/default.yaml"
  command : Command
  deriving DecidableEq, Repr

namespace CommandLine

/-- The option that asks for help. -/
def help : Switch := ⟨"help", 'h', .ends .help⟩

/-- The commands by their words, with the form of each. -/
def commands : List (String × Form) :=
  [("put", { switches := [⟨"file", 'f', .value⟩, help], operands := 2 }),
    ("get", { switches := [⟨"output", 'o', .value⟩, help], operands := 2 }),
    ("rm", { switches := [help], operands := 2 }),
    ("exists", { switches := [help], operands := 2 }),
    ("backends", { switches := [help] })]

/-- The word that asks for help about a command. -/
def helpWord : String := "help"

/-- The form of what stands before the command. -/
def form : Form where
  switches := [⟨"config", 'c', .value⟩, help, ⟨"version", 'V', .ends .version⟩]
  words := helpWord :: commands.map (·.1)

/-- The command that a word and what follows it give. -/
def commandOf (word : String) (g : Given) : Except Ending Command :=
  match word, g.operands with
  | "put", [container, name] => .ok (.put ⟨container, name⟩ (g.value? "file"))
  | "get", [container, name] => .ok (.get ⟨container, name⟩ (g.value? "output"))
  | "rm", [container, name] => .ok (.remove ⟨container, name⟩)
  | "exists", [container, name] => .ok (.holds ⟨container, name⟩)
  | "backends", [] => .ok .backends
  | _, _ => .error .misuse

/-- Help is asked for, about nothing or about one command. -/
def helpAbout (words : List String) : Ending :=
  match words with
  | [] => .help
  | [word] => if form.words.contains word then .help else .misuse
  | _ => .misuse

/-- The command line that words are. -/
def ofWords (words : List String) : Except Ending CommandLine :=
  match form.read {} words with
  | .error e => .error e
  | .ok (_, none) => .error .misuse
  | .ok (g, some (word, rest)) =>
    match commands.lookup word with
    | none => .error (helpAbout rest)
    | some form =>
      match form.readAll rest with
      | .error e => .error e
      | .ok own =>
        -- the command's own words are judged before what is pending of the program's
        match commandOf word own, g.settle with
        | .error e, _ | _, .error e => .error e
        | .ok command, .ok g =>
          match g.value? "config" with
          | some settings => .ok { settings, command }
          | none => .ok { command }

/-! ## The plain way to give a command -/

/-- A word that is taken as it stands. -/
def IsPlain (word : String) : Prop := Shape.ofWord word = .plain

instance (word : String) : Decidable (IsPlain word) := inferInstanceAs (Decidable (_ = _))

theorem readAll_operands (f : Form) (words : List String) (hWords : f.words = [])
    (hPlain : ∀ w ∈ words, IsPlain w) (h : words.length ≤ f.operands) :
    f.readAll words = .ok { operands := words } := by
  simp [Form.readAll, Form.read_operands f {} words hWords rfl hPlain (by simpa using h), Given.settle]

theorem ofWords_put (a : Address) (hContainer : IsPlain a.container) (hName : IsPlain a.name) :
    ofWords ["put", a.container, a.name] = .ok { command := .put a none } := by
  have hWord : form.read {} ["put", a.container, a.name] =
      .ok ({}, some ("put", [a.container, a.name])) := by
    simp [Form.read, Given.isAwaiting, form, commands]
  simp only [ofWords, hWord, commands, List.lookup_cons_self]
  rw [readAll_operands _ _ rfl (by simp [hContainer, hName]) (by simp)]
  simp [commandOf, Given.settle, Given.value?]

end CommandLine

end ReplicatedStore
