/-!
# Removals

Why an entry left the store.
-/

namespace SharedCache

/-- The cause of a removal. -/
inductive RemovalCause where
  /-- The deadline of the entry was reached. -/
  | expired
  /-- The entry was removed by a caller. -/
  | explicit
  /-- The value was replaced by another one. -/
  | replaced
  /-- The entry was evicted to bring the store back under its capacity. -/
  | size
  deriving DecidableEq

/-- The name of a cause. -/
def RemovalCause.describe : RemovalCause → String
  | .expired => "Expired"
  | .explicit => "Explicit"
  | .replaced => "Replaced"
  | .size => "Size"

/-- Whether the store removed the entry of its own accord. -/
def RemovalCause.isEviction : RemovalCause → Bool
  | .expired | .size => true
  | .explicit | .replaced => false

end SharedCache
