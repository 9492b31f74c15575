import SharedCache.Failure
import SharedCache.Text.Span
import SharedCache.Time.Instant

/-!
# Expiration

An expiry answers, at each creation, update and read of an entry, how long the entry lives from
then on, and `none` for an entry that does not expire.  A lifetime is the expiry made of a time to
live, counted from the last write, and a time to idle, counted from the last write or read: an entry
is gone at the earlier of the two.
-/

namespace SharedCache

/-- The three questions asked of an expiry.  Each may panic. -/
structure Expiry (K V : Type) where
  /-- Asked with the time of the creation. -/
  onCreate : K → V → Instant → Except Panic (Option Duration)
  /-- Asked with the time of the read, the time left and the time of the last write. -/
  onRead : K → V → Instant → Option Duration → Instant → Except Panic (Option Duration)
  /-- Asked with the time of the update and the time left. -/
  onUpdate : K → V → Instant → Option Duration → Except Panic (Option Duration)

/-- An expiry that keeps the time left and gives new entries no deadline. -/
def Expiry.keep (K V : Type) : Expiry K V where
  onCreate := fun _ _ _ => .ok none
  onRead := fun _ _ _ left _ => .ok left
  onUpdate := fun _ _ _ left => .ok left

/-- A time to live and a time to idle, either of which may be missing. -/
structure Lifetime where
  timeToLive : Option Duration
  timeToIdle : Option Duration
  deriving DecidableEq

namespace Lifetime

/-- The lifetime of entries that never expire. -/
def unlimited : Lifetime := ⟨none, none⟩

/-- The time a written entry has from then on. -/
def afterWrite (l : Lifetime) : Option Duration :=
  match l.timeToLive, l.timeToIdle with
  | some live, some idle => some (min live idle)
  | some live, none => some live
  | none, idle => idle

/-- The time a read entry has from then on: without a time to idle it keeps the time it had left,
and with one it never gets more than what remains of its time to live. -/
def afterRead (l : Lifetime) (readAt : Instant) (left : Option Duration) (writtenAt : Instant) :
    Option Duration :=
  match l.timeToIdle with
  | none => left
  | some idle =>
    match l.timeToLive with
    | none => some idle
    | some live => some (min idle (live.saturatingSub (readAt.saturatingSince writtenAt)))

/-- The expiry of a lifetime. -/
def expiry (K V : Type) (l : Lifetime) : Expiry K V where
  onCreate := fun _ _ _ => .ok l.afterWrite
  onRead := fun _ _ readAt left writtenAt => .ok (l.afterRead readAt left writtenAt)
  onUpdate := fun _ _ _ _ => .ok l.afterWrite

/-- A lifetime as a record. -/
def describe (l : Lifetime) : String :=
  Text.record "ExpiryPolicy" [
    ("time_to_live", Text.optional Text.span l.timeToLive),
    ("time_to_idle", Text.optional Text.span l.timeToIdle)]

end Lifetime

end SharedCache
