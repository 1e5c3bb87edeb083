/-!
# Addresses

An object is addressed by a container and a name in it.
-/

namespace ReplicatedStore

/-- Where an object belongs. -/
structure Address where
  container : String
  name : String
  deriving DecidableEq, Repr, Inhabited

/-- The address in one text, which is also the key of the object in the cache. -/
def Address.key (a : Address) : String := a.container ++ "/" ++ a.name

end ReplicatedStore
