/-!
# Words of a command line

A command line is a list of words. A form says which options a part of it knows and how many operands
it takes; `Form.read` sorts the words by it. An option is given by its long name or its letter, its
value in the same word or in the next one. Two dashes alone end the options. A part may also be
continued by another one, which one of a list of words starts.

Main statements:

* `Form.read_operands` — words that do not start with a dash are operands, as many as the form takes.
-/

namespace ReplicatedStore.CommandLine

/-- Why reading a command line ends early. -/
inductive Ending
  | misuse
  | help
  | version
  deriving DecidableEq, Repr

/-- What an option is for: it has a value, or it ends the reading. -/
inductive Role
  | value
  | ends (how : Ending)
  deriving DecidableEq, Repr

/-- An option, by its long name and its letter. -/
structure Switch where
  name : String
  letter : Char
  role : Role := .value
  deriving DecidableEq, Repr

/-- What a part of a command line may hold. -/
structure Form where
  switches : List Switch := []
  operands : Nat := 0
  /-- the words that start the next part -/
  words : List String := []
  deriving Repr

/-- The shape of a word. -/
inductive Shape
  /-- two dashes: all that follows are operands -/
  | divider
  | long (name : String) (value : Option String)
  | short (letter : Char) (rest : List Char)
  | plain
  deriving DecidableEq, Repr

/-- The shape of a word; a dash alone is plain. -/
def Shape.ofWord (word : String) : Shape :=
  match word.toList with
  | ['-', '-'] => .divider
  | '-' :: '-' :: text =>
    match text.dropWhile (· ≠ '=') with
    | _ :: value => .long (String.ofList (text.takeWhile (· ≠ '='))) (some (String.ofList value))
    | [] => .long (String.ofList text) none
  | '-' :: letter :: rest => .short letter rest
  | _ => .plain

/-- An option whose value is not accepted yet. -/
inductive Pending
  /-- the value is to be the next word -/
  | awaited (name : String)
  | supplied (name value : String)
  deriving DecidableEq, Repr

/-- What the words so far have given. -/
structure Given where
  values : List (String × String) := []
  pending : Option Pending := none
  operands : List String := []
  deriving DecidableEq, Repr

namespace Given

/-- The value given for an option. -/
def value? (g : Given) (name : String) : Option String := g.values.lookup name

/-- Whether the next word is to be a value. -/
def isAwaiting (g : Given) : Bool :=
  match g.pending with
  | some (.awaited _) => true
  | _ => false

/-- A value is accepted if it is not empty, and is the first one for its option. -/
def accept (g : Given) (name value : String) : Except Ending Given :=
  if value = "" || (g.value? name).isSome then .error .misuse
  else .ok { g with values := (name, value) :: g.values }

/-- Nothing is pending any more. -/
def settle (g : Given) : Except Ending Given :=
  match g.pending with
  | none => .ok g
  | some (.awaited _) => .error .misuse
  | some (.supplied name value) => accept { g with pending := none } name value

/-- An option is met, perhaps with a value in the same word. -/
def meet (g : Given) (option : Option Switch) (value : Option String) : Except Ending Given :=
  match option with
  | none => .error .misuse
  | some s =>
    match s.role, value with
    -- an option that ends the reading takes no value
    | .ends _, some _ => .error .misuse
    | .ends how, none =>
      -- what is still pending is accepted first, and may be wrong itself
      match g.settle with
      | .ok _ => .error how
      | .error e => .error e
    | .value, some value =>
      match g.settle with
      | .ok g => g.accept s.name value
      | .error e => .error e
    | .value, none =>
      match g.settle with
      | .ok g => .ok { g with pending := some (.awaited s.name) }
      | .error e => .error e

/-- One more operand, of at most `most`. -/
def addOperand (g : Given) (most : Nat) (word : String) : Except Ending Given :=
  if most ≤ g.operands.length then .error .misuse
  else
    match g.settle with
    | .ok g => .ok { g with operands := g.operands ++ [word] }
    | .error e => .error e

/-- A word that is no option: the value that is awaited, or an operand. -/
def take (g : Given) (most : Nat) (word : String) : Except Ending Given :=
  match g.pending with
  -- the value is accepted when the word after it is looked at
  | some (.awaited name) => .ok { g with pending := some (.supplied name word) }
  | _ => g.addOperand most word

end Given

namespace Form

/-- What stands behind the letter of an option in the same word, as its value. -/
def attached (rest : List Char) : Option String :=
  match rest with
  | [] => none
  | '=' :: value => some (String.ofList value)
  | value => some (String.ofList value)

/-- The option that a letter stands for, with its value if it has one in the same word. A letter whose
option ends the reading does so whatever follows it. -/
def meetLetter (f : Form) (g : Given) (letter : Char) (rest : List Char) : Except Ending Given :=
  match f.switches.find? (·.letter == letter) with
  | none => .error .misuse
  | some s =>
    match s.role with
    | .ends _ => g.meet (some s) none
    | .value => g.meet (some s) (attached rest)

def meetWord (f : Form) (g : Given) (word : String) : Except Ending Given :=
  match Shape.ofWord word with
  | .long name value => g.meet (f.switches.find? (·.name == name)) value
  | .short letter rest => f.meetLetter g letter rest
  | .divider | .plain => g.take f.operands word

def readOperands (f : Form) : Given → List String → Except Ending Given
  | g, [] => .ok g
  | g, word :: rest =>
    match g.addOperand f.operands word with
    | .ok g => readOperands f g rest
    | .error e => .error e

/-- Words are read; the word that starts the next part is given with those behind it. -/
def read (f : Form) : Given → List String → Except Ending (Given × Option (String × List String))
  | g, [] => .ok (g, none)
  | g, word :: rest =>
    -- a word that is awaited as a value starts no part
    if !g.isAwaiting && f.words.contains word then .ok (g, some (word, rest))
    else if word = "--" then
      if g.isAwaiting then .error .misuse
      else
        match f.readOperands g rest with
        | .ok g => .ok (g, none)
        | .error e => .error e
    else
      match f.meetWord g word with
      | .ok g => read f g rest
      | .error e => .error e

/-- All words of the last part, with nothing left pending. -/
def readAll (f : Form) (words : List String) : Except Ending Given :=
  match f.read {} words with
  | .ok (g, none) => g.settle
  | .ok (_, some _) => .error .misuse
  | .error e => .error e

/-! ## Laws -/

theorem readOperands_of_le (f : Form) (g : Given) (words : List String)
    (hPending : g.pending = none) (h : g.operands.length + words.length ≤ f.operands) :
    f.readOperands g words = .ok { g with operands := g.operands ++ words } := by
  induction words generalizing g with
  | nil => simp [readOperands]
  | cons word rest ih =>
    simp only [List.length_cons] at h
    have hRoom : ¬ f.operands ≤ g.operands.length := by omega
    simp only [readOperands, Given.addOperand, hRoom, Given.settle, hPending, if_false]
    rw [ih _ rfl (by simp; omega)]
    simp

theorem read_operands (f : Form) (g : Given) (words : List String) (hWords : f.words = [])
    (hPending : g.pending = none) (hPlain : ∀ w ∈ words, Shape.ofWord w = .plain)
    (h : g.operands.length + words.length ≤ f.operands) :
    f.read g words = .ok ({ g with operands := g.operands ++ words }, none) := by
  induction words generalizing g with
  | nil => simp [read]
  | cons word rest ih =>
    simp only [List.length_cons] at h
    have hShape := hPlain word List.mem_cons_self
    -- two dashes are no plain word
    have hDivider : word ≠ "--" := by
      rintro rfl
      simp [Shape.ofWord] at hShape
    have hRoom : ¬ f.operands ≤ g.operands.length := by omega
    simp only [read, hWords, hDivider, meetWord, hShape, Given.take, hPending, Given.addOperand,
      hRoom, Given.settle, List.contains_nil, Bool.and_false, if_false, Bool.false_eq_true]
    rw [ih _ rfl (fun w hw => hPlain w (List.mem_cons_of_mem _ hw)) (by simp; omega)]
    simp

end Form

end ReplicatedStore.CommandLine
