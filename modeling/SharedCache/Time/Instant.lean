import SharedCache.Text.Record
import SharedCache.Time.Word

/-!
# Instants and marks

An instant counts nanoseconds since the origin of its clock and never exceeds the horizon, which is
two below `2 ^ 64`.  All arithmetic on instants stops at the horizon instead of wrapping around.

A mark keeps an optional instant in one 64-bit word: the word just above the horizon stands for
`none`, so no instant is ever mistaken for it.
-/

namespace SharedCache

/-- A point in time, in nanoseconds since the origin of a clock. -/
structure Instant where
  word : UInt64
  word_le : word ≤ Word.last
  deriving DecidableEq

namespace Instant

/-- The nanoseconds since the origin. -/
def nanos (t : Instant) : Nat := t.word.toNat

theorem nanos_le (t : Instant) : t.nanos ≤ horizon := Word.le_last_iff.1 t.word_le

@[ext]
theorem ext {a b : Instant} (h : a.nanos = b.nanos) : a = b := by
  cases a; cases b; cases UInt64.toNat_inj.1 h; rfl

instance : LE Instant := ⟨fun a b => a.nanos ≤ b.nanos⟩
instance : LT Instant := ⟨fun a b => a.nanos < b.nanos⟩
instance (a b : Instant) : Decidable (a ≤ b) := inferInstanceAs (Decidable (a.nanos ≤ b.nanos))
instance (a b : Instant) : Decidable (a < b) := inferInstanceAs (Decidable (a.nanos < b.nanos))

/-- The origin of every clock. -/
def origin : Instant := ⟨0, Word.le_last_iff.2 (Nat.zero_le _)⟩

/-- The instant that lies `d` past the origin, or the horizon. -/
def ofDuration (d : Duration) : Instant :=
  ⟨Word.ofDuration d, Word.le_last_iff.2 (Word.toNat_ofDuration d ▸ Nat.min_le_right _ _)⟩

/-- The whole milliseconds since the origin. -/
def millis (t : Instant) : Nat := t.nanos / 1000000

/-- The instant `d` later, or the horizon. -/
def saturatingAdd (t : Instant) (d : Duration) : Instant :=
  ⟨Word.later t.word d, Word.capped_le _⟩

/-- The time from `earlier` to `t`, or zero if `earlier` is the later one. -/
def saturatingSince (t earlier : Instant) : Duration :=
  ⟨(Word.saturatingSub t.word earlier.word).toNat, by
    have bound := (Word.saturatingSub t.word earlier.word).toNat_lt_size
    unfold longestNanos nanosPerSecond
    unfold UInt64.size at *
    omega⟩

/-- An instant as a record. -/
def describe (t : Instant) : String :=
  Text.record "Instant" [("elapsed_ns", toString t.nanos)]

@[simp]
theorem nanos_ofDuration (d : Duration) : (ofDuration d).nanos = min d.nanos horizon :=
  Word.toNat_ofDuration d

@[simp]
theorem nanos_saturatingAdd (t : Instant) (d : Duration) :
    (t.saturatingAdd d).nanos = min (t.nanos + d.nanos) horizon :=
  Word.toNat_later t.word d

@[simp]
theorem nanos_saturatingSince (t earlier : Instant) :
    (t.saturatingSince earlier).nanos = t.nanos - earlier.nanos :=
  Word.toNat_saturatingSub t.word earlier.word

theorem le_def {a b : Instant} : a ≤ b ↔ a.nanos ≤ b.nanos := Iff.rfl

theorem lt_def {a b : Instant} : a < b ↔ a.nanos < b.nanos := Iff.rfl

theorem saturatingAdd_le_saturatingAdd {a b : Instant} {d e : Duration} (hle : a ≤ b)
    (hd : d.nanos ≤ e.nanos) : a.saturatingAdd d ≤ b.saturatingAdd e := by
  rw [le_def] at hle ⊢
  rw [nanos_saturatingAdd, nanos_saturatingAdd]
  omega

/-- One after the other or at once: the horizon cuts off the same. -/
theorem saturatingAdd_saturatingAdd {t : Instant} {d e sum : Duration}
    (hsum : d.add? e = some sum) : (t.saturatingAdd d).saturatingAdd e = t.saturatingAdd sum := by
  have total := Duration.add?_eq_some_iff.1 hsum
  apply ext
  simp only [nanos_saturatingAdd]
  omega

/-- What is left until a deadline leads to the deadline, and from later on nowhere. -/
theorem nanos_saturatingAdd_saturatingSince (now deadline : Instant) :
    (now.saturatingAdd (deadline.saturatingSince now)).nanos = max now.nanos deadline.nanos := by
  have hnow := now.nanos_le
  have hdeadline := deadline.nanos_le
  rw [nanos_saturatingAdd, nanos_saturatingSince]
  omega

end Instant

/-- An optional instant in one 64-bit word. -/
structure Mark where
  word : UInt64
  deriving DecidableEq

namespace Mark

/-- The word that stands for no instant. -/
def unset : Mark := ⟨Word.top⟩

/-- Writes an optional instant as a word. -/
def ofInstant? : Option Instant → Mark
  | none => unset
  | some t => ⟨t.word⟩

/-- Reads the optional instant that a word stands for. -/
def instant? (m : Mark) : Option Instant :=
  if h : m.word = Word.top then none else some ⟨m.word, Word.ne_top_iff.1 h⟩

/-- What is written is what is read, and a finite instant never reads as `none`. -/
@[simp]
theorem instant?_ofInstant? (t : Option Instant) : (ofInstant? t).instant? = t := by
  cases t with
  | none => rfl
  | some t => exact dif_neg (Word.ne_top_iff.2 t.word_le)

end Mark

end SharedCache
