/-!
# Durations

A duration is a whole number of nanoseconds, bounded by the largest number of seconds that fits in
64 bits together with a fraction below one second.  The bound is part of the type.
-/

namespace SharedCache

/-- The number of nanoseconds in a second. -/
def nanosPerSecond : Nat := 1000000000

/-- The nanoseconds of the longest duration. -/
def longestNanos : Nat := UInt64.size * nanosPerSecond - 1

/-- A length of time in nanoseconds. -/
structure Duration where
  nanos : Nat
  nanos_le : nanos ≤ longestNanos
  deriving DecidableEq

namespace Duration

/-- The longest duration. -/
def longest : Duration := ⟨longestNanos, Nat.le_refl _⟩

/-- The duration of so many nanoseconds, cut off at the longest one. -/
def ofNanos (n : Nat) : Duration :=
  ⟨min n longest.nanos, Nat.min_le_right _ _⟩

/-- The duration of so many seconds and nanoseconds. -/
def ofParts (seconds nanos : Nat) : Duration :=
  ofNanos (seconds * nanosPerSecond + nanos)

/-- No time at all. -/
def zero : Duration := ⟨0, Nat.zero_le _⟩

/-- The whole seconds of a duration. -/
def seconds (d : Duration) : Nat := d.nanos / nanosPerSecond

/-- What a duration has beyond its whole seconds. -/
def subsecond (d : Duration) : Nat := d.nanos % nanosPerSecond

/-- The sum, if it is not beyond the longest duration. -/
def add? (a b : Duration) : Option Duration :=
  if h : a.nanos + b.nanos ≤ longestNanos then
    some ⟨a.nanos + b.nanos, h⟩
  else
    none

/-- The difference, or zero if `b` is the longer one. -/
def saturatingSub (a b : Duration) : Duration :=
  ⟨a.nanos - b.nanos, Nat.le_trans (Nat.sub_le _ _) a.nanos_le⟩

/-- Twice the duration, cut off at the longest one. -/
def double (d : Duration) : Duration := ofNanos (2 * d.nanos)

instance : Min Duration := ⟨fun a b => if a.nanos ≤ b.nanos then a else b⟩

@[ext]
theorem ext {a b : Duration} (h : a.nanos = b.nanos) : a = b := by
  cases a; cases b; cases h; rfl

@[simp]
theorem nanos_min (a b : Duration) : (min a b).nanos = min a.nanos b.nanos := by
  show (if a.nanos ≤ b.nanos then a else b).nanos = _
  split <;> omega

@[simp]
theorem nanos_saturatingSub (a b : Duration) :
    (a.saturatingSub b).nanos = a.nanos - b.nanos := rfl

theorem add?_eq_some_iff {a b c : Duration} :
    a.add? b = some c ↔ a.nanos + b.nanos = c.nanos := by
  unfold add?
  split
  · next h => simp [Duration.ext_iff]
  · next h =>
    refine ⟨fun h => by simp at h, fun heq => absurd c.nanos_le ?_⟩
    omega

end Duration

end SharedCache
