import SharedCache.Time.Duration

/-!
# Words of nanoseconds

Times are counted in nanoseconds, in words of 64 bits.  The largest word is no time: the one before
it is the last, and lies at the horizon.  A sum of words wraps around, and a duration can be longer
than any word, so whatever yields a word looks at both before it cuts the result off.
-/

namespace SharedCache

/-- The last instant, in nanoseconds since the origin. -/
def horizon : Nat := UInt64.size - 2

namespace Word

/-- The largest word. -/
def top : UInt64 := UInt64.ofNat (UInt64.size - 1)

/-- The last word that is a time. -/
def last : UInt64 := top - 1

/-- The word of a number, if the number fits in one. -/
def ofNat? (n : Nat) : Option UInt64 :=
  if n < UInt64.size then some (UInt64.ofNat n) else none

/-- The sum, or the largest word if the sum has wrapped around, which shows in its being less than
what was added to. -/
def saturatingAdd (a b : UInt64) : UInt64 := if a + b < a then top else a + b

/-- The difference, or zero if `b` is the larger one. -/
def saturatingSub (a b : UInt64) : UInt64 := if a < b then 0 else a - b

/-- The word, or the last one that is a time. -/
def capped (w : UInt64) : UInt64 := if w ≤ last then w else last

/-- The nanoseconds of a duration, or the last word that is a time. -/
def ofDuration (d : Duration) : UInt64 := (ofNat? d.nanos).elim last capped

/-- The word `d` later, or the last one that is a time. -/
def later (w : UInt64) (d : Duration) : UInt64 := capped (saturatingAdd w (ofDuration d))

@[simp]
theorem toNat_top : top.toNat = UInt64.size - 1 := rfl

@[simp]
theorem toNat_last : last.toNat = horizon := rfl

theorem le_last_iff {w : UInt64} : w ≤ last ↔ w.toNat ≤ horizon := UInt64.le_iff_toNat_le

/-- Every word but the largest is a time. -/
theorem ne_top_iff {w : UInt64} : w ≠ top ↔ w ≤ last := by
  have bound := w.toNat_lt_size
  rw [le_last_iff, Ne, ← UInt64.toNat_inj, toNat_top]
  unfold horizon UInt64.size at *
  omega

/-- A sum of words does not wrap around. -/
theorem toNat_saturatingAdd (a b : UInt64) :
    (saturatingAdd a b).toNat = min (a.toNat + b.toNat) (UInt64.size - 1) := by
  have boundA := a.toNat_lt_size
  have boundB := b.toNat_lt_size
  have sum := UInt64.toNat_add a b
  unfold saturatingAdd
  unfold UInt64.size at *
  split
  · next wrapped =>
    rw [UInt64.lt_iff_toNat_lt, sum] at wrapped
    rw [toNat_top]
    unfold UInt64.size
    omega
  · next kept =>
    rw [UInt64.lt_iff_toNat_lt, sum] at kept
    rw [sum]
    omega

theorem toNat_saturatingSub (a b : UInt64) :
    (saturatingSub a b).toNat = a.toNat - b.toNat := by
  unfold saturatingSub
  split
  · next less =>
    rw [UInt64.lt_iff_toNat_lt] at less
    exact (Nat.sub_eq_zero_of_le (Nat.le_of_lt less)).symm
  · next more =>
    rw [UInt64.lt_iff_toNat_lt] at more
    exact UInt64.toNat_sub_of_le a b (UInt64.le_iff_toNat_le.2 (Nat.le_of_not_lt more))

theorem toNat_capped (w : UInt64) : (capped w).toNat = min w.toNat horizon := by
  unfold capped
  split
  · next within => exact (Nat.min_eq_left (le_last_iff.1 within)).symm
  · next beyond =>
    rw [le_last_iff] at beyond
    exact (Nat.min_eq_right (Nat.le_of_not_le beyond)).symm

theorem capped_le (w : UInt64) : capped w ≤ last :=
  le_last_iff.2 (toNat_capped w ▸ Nat.min_le_right _ _)

theorem toNat_ofDuration (d : Duration) : (ofDuration d).toNat = min d.nanos horizon := by
  unfold ofDuration ofNat?
  split
  · next fits => rw [Option.elim_some, toNat_capped, UInt64.toNat_ofNat_of_lt' fits]
  · next long =>
    rw [Option.elim_none, toNat_last]
    unfold horizon
    omega

/-- Wherever a sum is cut off on the way, the horizon is all that shows. -/
theorem toNat_later (w : UInt64) (d : Duration) :
    (later w d).toNat = min (w.toNat + d.nanos) horizon := by
  unfold later
  rw [toNat_capped, toNat_saturatingAdd, toNat_ofDuration]
  unfold horizon UInt64.size
  omega

end Word

end SharedCache
