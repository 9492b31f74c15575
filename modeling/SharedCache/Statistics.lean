import SharedCache.Removal
import SharedCache.Text.Record

/-!
# Statistics

What a store has counted since it was built: requests that found a value or did not, computations
that ended in a value, in nothing or in an error, and entries that left by eviction or expiration.
-/

namespace SharedCache

/-- The counters of a store. -/
structure Statistics where
  hits : Nat
  misses : Nat
  computeSuccesses : Nat
  computeFailures : Nat
  evictions : Nat
  evictionWeight : Nat
  expirations : Nat
  deriving DecidableEq

namespace Statistics

/-- The counters of a new store. -/
def zero : Statistics := ⟨0, 0, 0, 0, 0, 0, 0⟩

/-- Counts a request that found a value. -/
def recordHit (s : Statistics) : Statistics := { s with hits := s.hits + 1 }

/-- Counts a request that found none. -/
def recordMiss (s : Statistics) : Statistics := { s with misses := s.misses + 1 }

/-- Counts a computation that ended in a value or in nothing. -/
def recordComputed (s : Statistics) : Statistics :=
  { s with computeSuccesses := s.computeSuccesses + 1 }

/-- Counts a computation that ended in an error. -/
def recordFailed (s : Statistics) : Statistics :=
  { s with computeFailures := s.computeFailures + 1 }

/-- Counts the removal of an entry.  Removals by a caller are not counted. -/
def recordRemoval (s : Statistics) (weight : Nat) : RemovalCause → Statistics
  | .size =>
    { s with evictions := s.evictions + 1, evictionWeight := s.evictionWeight + weight }
  | .expired => { s with expirations := s.expirations + 1 }
  | .explicit | .replaced => s

/-- The requests that were counted, as far as 64 bits can tell. -/
def requests (s : Statistics) : Nat := min (s.hits + s.misses) (UInt64.size - 1)

/-- The share of the requests that found a value, and one if there was no request. -/
def hitRate (s : Statistics) : Float :=
  if s.requests = 0 then 1.0 else Float.ofNat s.hits / Float.ofNat s.requests

/-- The counters as a record. -/
def describe (s : Statistics) : String :=
  Text.record "StoreStats" [
    ("hit_count", toString s.hits),
    ("miss_count", toString s.misses),
    ("compute_success_count", toString s.computeSuccesses),
    ("compute_failure_count", toString s.computeFailures),
    ("eviction_count", toString s.evictions),
    ("eviction_weight", toString s.evictionWeight),
    ("expiration_count", toString s.expirations)]

end Statistics

end SharedCache
