import ReplicatedStore.Backend.Objects
import ReplicatedStore.Backend.Request

/-!
# Scripted backends

A scripted backend plays a backend for rehearsals: it keeps objects as they are and behaves, call by
call, as its script says. A call waits for its delay, then crashes, fails, or does its work. The delay
is read when a call begins and the rest when it is finished, so a script that is changed between the
two changes what the call comes to.
-/

namespace ReplicatedStore

/-- How one call behaves. -/
structure Behaviour where
  delay : Duration := .zero
  crash : Option String := none
  failure : Option Failure := none
  deriving DecidableEq, Repr

/-- How calls behave, and the objects that they work on. -/
structure Script where
  /-- the behaviour of each call of an operation, counted from zero -/
  behaviour : Operation → Nat → Behaviour := fun _ _ => {}
  /-- how many writes to come fail, whatever their behaviour -/
  transientPuts : Nat := 0
  objects : Objects := {}
  /-- the operations of all calls that have begun -/
  made : List Operation := []

namespace Script

/-- What is done with the objects. -/
def work (o : Objects) : Request → Objects × Outcome
  | .put a data => (o.insert a data, .answered .done)
  | .get a =>
    match o.get? a with
    | some data => (o, .answered (.content data))
    | none => (o, .failed (.said s!"object '{a.container}/{a.name}' not found"))
  | .remove a => (o.erase a, .answered .done)
  | .holds a => (o, .answered (.presence (o.get? a).isSome))

/-- A call with its number is finished. -/
def finish (s : Script) (r : Request) (number : Nat) : Script × Outcome :=
  let how := s.behaviour r.operation number
  match how.crash with
  | some reason => (s, .crashed reason)
  | none =>
    -- transient failures come before those that are scripted for good
    if r.operation = .put ∧ s.transientPuts ≠ 0 then
      ({ s with transientPuts := s.transientPuts - 1 }, .failed (.said "transient put failure"))
    else
      match how.failure with
      | some f => (s, .failed f)
      | none =>
        let (objects, o) := work s.objects r
        ({ s with objects }, o)

/-- A call begins; without a delay it is over at once. -/
def begin (s : Script) (r : Request) : Script × Begun :=
  let number := s.made.count r.operation
  let s := { s with made := r.operation :: s.made }
  -- the rest of the behaviour is read when the call is finished
  let delay := (s.behaviour r.operation number).delay
  if delay = .zero then
    let (s, o) := s.finish r number
    (s, .over o)
  else (s, .waiting delay (.numbered r number))

end Script

end ReplicatedStore
