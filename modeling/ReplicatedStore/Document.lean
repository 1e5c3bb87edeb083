/-!
# Documents

The tree of values that settings and properties are written to and read from: nothing, truth values,
whole numbers, other numbers, texts, lists, and records of named values in order.
-/

namespace ReplicatedStore

/-- A tree of values. -/
inductive Document
  | nothing
  | flag (value : Bool)
  | whole (value : Int)
  /-- a number that is not whole; only its kind matters to a reader -/
  | fraction
  | text (value : String)
  | list (items : List Document)
  | record (fields : List (String × Document))
  deriving Repr, Inhabited

/-- The first value of a field. -/
def Document.field? (name : String) : List (String × Document) → Option Document
  | [] => none
  | (key, value) :: rest => if key = name then some value else field? name rest

end ReplicatedStore
