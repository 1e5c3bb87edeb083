import ReplicatedStore.Address
import ReplicatedStore.Bytes
import ReplicatedStore.StoreError

/-!
# Requests

What backends are asked to do, and what comes of it. A call of a backend has two moments: it begins,
and unless it is over at once it is finished after a delay with what it held on to. Between the two
moments other calls may come.
-/

namespace ReplicatedStore

/-- What a backend is asked to do with an object. -/
inductive Request
  | put (a : Address) (data : Bytes)
  | get (a : Address)
  | remove (a : Address)
  | holds (a : Address)
  deriving DecidableEq, Repr

namespace Request

def operation : Request → Operation
  | put _ _ => .put
  | get _ => .get
  | remove _ => .remove
  | holds _ => .holds

/-- The object that a request is about. -/
def address : Request → Address
  | put a _ | get a | remove a | holds a => a

end Request

/-- What a request that succeeds gives. -/
inductive Answer
  | done
  | content (data : Bytes)
  | presence (is : Bool)
  deriving DecidableEq, Repr

/-- What comes of a call. -/
inductive Outcome
  | answered (a : Answer)
  | failed (f : Failure)
  /-- the call came to an abnormal end -/
  | crashed (reason : String)
  deriving DecidableEq, Repr

/-- What a call that has begun holds on to until it is finished. -/
inductive Held
  /-- everything is still to be done -/
  | request (r : Request)
  /-- a copy of stored octets, to be decoded -/
  | stored (content : Bytes)
  /-- encoded octets, to be stored -/
  | encoded (a : Address) (content : Bytes)
  /-- the call with this number to a script -/
  | numbered (r : Request) (number : Nat)
  deriving DecidableEq, Repr

/-- How a call begins. -/
inductive Begun
  | over (o : Outcome)
  | waiting (delay : Duration) (held : Held)
  deriving Repr

end ReplicatedStore
