import SharedCache.Failure
import SharedCache.Time.Instant

/-!
# Clocks

A clock remembers how far it has been moved.  Its reading saturates at the horizon, while the
movement itself is a duration and can be refused when it would exceed the longest one.
-/

namespace SharedCache

/-- A clock that moves only when told to. -/
structure Clock where
  elapsed : Duration
  deriving DecidableEq

namespace Clock

/-- A clock that stands at its origin. -/
def start : Clock := ⟨Duration.zero⟩

/-- The reading of the clock. -/
def now (c : Clock) : Instant := Instant.ofDuration c.elapsed

/-- Moves the clock forward, unless the elapsed time would exceed the longest duration. -/
def advance? (c : Clock) (amount : Duration) : Option Clock :=
  (c.elapsed.add? amount).map Clock.mk

/-- What happens where the elapsed time would exceed the longest duration. -/
def overflow : Panic := .text "overflow when adding durations"

/-- A clock never goes back. -/
theorem now_le_now_of_advance? {c c' : Clock} {d : Duration} (h : c.advance? d = some c') :
    c.now ≤ c'.now := by
  obtain ⟨sum, hsum, rfl⟩ := Option.map_eq_some_iff.1 h
  have total := Duration.add?_eq_some_iff.1 hsum
  simp only [Instant.le_def, now, Instant.nanos_ofDuration]
  omega

end Clock

end SharedCache
