import SharedCache.Room

/-!
# Blueprints

The part of a store's configuration that says how large it may grow: its name, its capacity, the
number of its segments, and how it draws the entries among which it picks a victim.
-/

namespace SharedCache

/-- How a store draws entries for eviction: how many in a round, and after how many rounds in a row
without a victim it gives up.  Neither is zero. -/
structure Sampling where
  size : Nat
  attempts : Nat
  size_pos : 0 < size
  attempts_pos : 0 < attempts
  deriving DecidableEq

namespace Sampling

/-- Eight entries in a round, and sixteen rounds. -/
def standard : Sampling := ⟨8, 16, by decide, by decide⟩

/-- Checks the sample size first and then the number of attempts. -/
def of (size attempts : Nat) : Except BuildError Sampling :=
  if hs : 0 < size then
    if ha : 0 < attempts then .ok ⟨size, attempts, hs, ha⟩
    else .error .zeroEvictionAttempts
  else .error .zeroSampleSize

/-- A sampling as a record. -/
def describe (s : Sampling) : String :=
  Text.record "EvictionConfig" [
    ("sample_size", toString s.size),
    ("max_attempts", toString s.attempts)]

end Sampling

/-- The capacity of a store and the shape of its map. -/
structure Blueprint where
  name : Option String
  capacity : Option Nat
  initialCapacity : Option Nat
  segments : Nat
  sampling : Sampling
  deriving DecidableEq

namespace Blueprint

/-- A store without a name and without a bound, in 64 segments. -/
def standard : Blueprint := ⟨none, none, none, 64, Sampling.standard⟩

/-- A store needs a segment. -/
def check (b : Blueprint) : Except BuildError Unit :=
  if b.segments = 0 then .error .zeroSegments else .ok ()

/-- What a stepwise configuration does when it is given no segment. -/
def assertSegments (segments : Nat) : Except Panic Unit :=
  if segments = 0 then .error (.text "assertion failed: num_segments != 0") else .ok ()

/-- The number of entries for which each segment sets room aside: its share of the initial capacity,
rounded up. -/
def reserve (b : Blueprint) : Nat :=
  (b.initialCapacity.getD 0 + b.segments - 1) / b.segments

/-- A store needs room for its segments, and each segment for the index of its entries.  Before
that, the sum from which the share of a segment is computed must fit in a word. -/
def checkRoom (b : Blueprint) : Except Panic Unit := do
  checkSum (b.initialCapacity.getD 0 + b.segments)
  checkCells b.segments
  checkIndex b.reserve

/-- The prefix of the store's messages: its name between brackets, if it has one. -/
def messagePrefix (b : Blueprint) : String :=
  match b.name with
  | none => ""
  | some name => "[" ++ name ++ "] "

/-- A blueprint as a record, whose collaborators are not shown. -/
def describe (b : Blueprint) : String :=
  Text.openRecord "StoreConfig" [
    ("name", Text.optional Text.quoted b.name),
    ("max_capacity", Text.optional toString b.capacity),
    ("initial_capacity", Text.optional toString b.initialCapacity),
    ("num_segments", toString b.segments),
    ("eviction", b.sampling.describe)]

/-- What a store tells about itself: its size, its sampling, and which of the two collaborators
that guide an eviction it has. -/
def describePolicy (b : Blueprint) (hasVeto hasPriority : Bool) : String :=
  Text.record "StorePolicy" [
    ("max_capacity", Text.optional toString b.capacity),
    ("num_segments", toString b.segments),
    ("eviction", b.sampling.describe),
    ("has_veto", Text.truth hasVeto),
    ("has_prioritizer", Text.truth hasPriority)]

end Blueprint

end SharedCache
