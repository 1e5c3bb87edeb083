import ReplicatedStore.Pipeline.Step

/-!
# Chains of steps

A writing chain runs its steps in order. What the steps hold on to is collected in a guard, and
released last held first: on request when a later step fails or the final stream has been read to its
end, and without one when the guard goes out of use. A reading chain holds nothing. The events of a run
are recorded with the positions of their steps.

Main statements:

* `WriteChain.encode_nil` and `ReadChain.decode_nil` — an empty chain changes nothing.
-/

namespace ReplicatedStore

/-- What happens in a run of a writing chain. -/
inductive ChainEvent
  /-- the step at this position was run -/
  | ran (position : Nat)
  /-- the final stream was read to its end, or to where it breaks off -/
  | consumed
  /-- what the step at this position held was released -/
  | released (position : Nat)
  deriving DecidableEq, Repr

/-- The positions whose steps hold on to something, the last one first. -/
abbrev Guard := List Nat

namespace Guard

/-- Everything that a guard holds is released, what is held last first. It holds nothing then. -/
def releaseAll : Guard → List ChainEvent × Guard
  | [] => ([], [])
  | position :: held =>
    let (events, left) := releaseAll held
    (.released position :: events, left)

/-- A guard that goes out of use releases what it still holds. -/
def discard (g : Guard) : List ChainEvent := g.releaseAll.1

/-- A release on request: everything is released, and then the guard goes out of use. -/
def release (g : Guard) : List ChainEvent := g.releaseAll.1 ++ discard g.releaseAll.2

end Guard

/-- A result with the events that led to it, in order. -/
structure Traced (α : Type) where
  events : List ChainEvent
  result : α

/-- A result with more events before it. -/
def Traced.after {α : Type} (events : List ChainEvent) (t : Traced α) : Traced α :=
  { t with events := events ++ t.events }

/-- An ordered chain of writing steps. -/
structure WriteChain where
  steps : List WriteStep

/-- An ordered chain of reading steps. -/
structure ReadChain where
  steps : List ReadStep

namespace WriteChain

/-- The names of the steps in order. -/
def names (c : WriteChain) : List String := c.steps.map (·.name)

def isEmpty (c : WriteChain) : Bool := c.steps.isEmpty

/-- The steps from a position on. A step that fails ends the run, and what the steps before it hold
is released before its failure is returned. -/
def applyFrom (nonces : Nat → Nonce) :
    (position : Nat) → (guard : Guard) → Stream → List WriteStep →
      Traced (Except EncodingError (Stream × Guard))
  | _, guard, input, [] => ⟨[], .ok (input, guard)⟩
  | position, guard, input, step :: rest =>
    match step.apply (nonces position) input with
    | .error e => ⟨.ran position :: guard.release, .error e⟩
    | .ok output =>
      -- what is held last stands first, and is released first
      (applyFrom nonces (position + 1) (if output.holds then position :: guard else guard)
        output.stream rest).after [.ran position]

/-- A run of all steps over a stream. -/
def apply (nonces : Nat → Nonce) (c : WriteChain) (input : Stream) :
    Traced (Except EncodingError (Stream × Guard)) :=
  applyFrom nonces 0 [] input c.steps

/-- The encoded form of a payload: the final stream is read to its end, then the guard is released.
An empty chain leaves the payload alone. -/
def encode (nonces : Nat → Nonce) (c : WriteChain) (payload : Bytes) :
    Traced (Except EncodingError Bytes) :=
  if c.isEmpty then ⟨[], .ok payload⟩
  else
    let run := c.apply nonces (.ofBytes payload)
    match run.result with
    | .error e => ⟨run.events, .error e⟩
    | .ok (output, guard) =>
      match output.readAll with
      -- nothing is released on request, so the guard does it where it goes out of use
      | .error reason => ⟨run.events ++ .consumed :: guard.discard, .error (.stream reason)⟩
      | .ok content => ⟨run.events ++ .consumed :: guard.release, .ok content⟩

theorem encode_nil (nonces : Nat → Nonce) (payload : Bytes) :
    encode nonces ⟨[]⟩ payload = ⟨[], .ok payload⟩ := rfl

end WriteChain

namespace ReadChain

/-- The names of the steps in order. -/
def names (c : ReadChain) : List String := c.steps.map (·.name)

def isEmpty (c : ReadChain) : Bool := c.steps.isEmpty

/-- The steps from a position on; one that fails ends the run. -/
def applyFrom : (position : Nat) → Stream → List ReadStep → Traced (Except EncodingError Stream)
  | _, input, [] => ⟨[], .ok input⟩
  | position, input, step :: rest =>
    match step.apply input with
    | .error e => ⟨[.ran position], .error e⟩
    | .ok output => (applyFrom (position + 1) output rest).after [.ran position]

/-- A run of all steps over a stream. -/
def apply (c : ReadChain) (input : Stream) : Traced (Except EncodingError Stream) :=
  applyFrom 0 input c.steps

/-- The payload behind its encoded form. An empty chain leaves it alone. -/
def decode (c : ReadChain) (content : Bytes) : Traced (Except EncodingError Bytes) :=
  if c.isEmpty then ⟨[], .ok content⟩
  else
    let run := c.apply (.ofBytes content)
    match run.result with
    | .error e => ⟨run.events, .error e⟩
    | .ok output =>
      ⟨run.events ++ [.consumed],
        match output.readAll with
        | .error reason => .error (.stream reason)
        | .ok payload => .ok payload⟩

theorem decode_nil (content : Bytes) : decode ⟨[]⟩ content = ⟨[], .ok content⟩ := rfl

end ReadChain

end ReplicatedStore
