import SharedCache.Entry.Map
import SharedCache.Settings
import SharedCache.Statistics

/-!
# The state of a store

A store consists of its entry map, the deadlines of the holders, the faults of the computations that
were ever begun, the switch of its listener, and its statistics.  Deadlines and faults are kept
beside the map under the numbers of the holders and faults they belong to, because both outlive the
slot: a thread that waits knows its fault, and a thread that reads knows its holder, whatever has
become of the slot meanwhile.
-/

namespace SharedCache

/-- What a computation left behind for those who wait for it. -/
inductive Resolution (V : Type) where
  /-- It gave a value. -/
  | ready (h : Holder V)
  /-- It gave nothing. -/
  | absent
  /-- It returned an error, and the key had no value before. -/
  | failed (error : ErrorObject)
  /-- It returned an error, and the value that the key had before is back. -/
  | restored
  /-- It panicked. -/
  | retry
  deriving DecidableEq

/-- The state of a store. -/
structure Store (K V : Type) where
  map : EntryMap K V
  /-- The deadline of each holder. -/
  deadlines : Array Mark
  /-- The resolution of each fault, which is `none` while its computation is pending. -/
  faults : Array (Option (Resolution V))
  /-- Whether the listener is still called. -/
  listening : Bool
  statistics : Statistics

/-- What a look at a key's slot finds. -/
inductive Look (V : Type) where
  | absent
  | pending (fault : Nat)
  /-- The deadline of the entry has been reached. -/
  | stale (h : Holder V)
  | live (h : Holder V)
  deriving DecidableEq

namespace Store

variable {K V Q R : Type}

/-- A store without entries. -/
def empty (place : K → Nat) (segments : Nat) (h : 0 < segments) : Store K V where
  map := EntryMap.empty place segments h
  deadlines := #[]
  faults := #[]
  listening := true
  statistics := Statistics.zero

/-- The new store of some settings, which must ask for a segment. -/
def of (settings : Settings K V Q R) : Except BuildError (Store K V) :=
  if h : 0 < settings.blueprint.segments then
    .ok (empty settings.place settings.blueprint.segments h)
  else
    .error .zeroSegments

/-- The deadline of a holder. -/
def deadline (s : Store K V) (h : Holder V) : Option Instant :=
  (s.deadlines[h.id]?.getD Mark.unset).instant?

/-- Whether the deadline of a holder has been reached. -/
def expired (s : Store K V) (h : Holder V) (now : Instant) : Bool :=
  match s.deadline h with
  | none => false
  | some deadline => deadline ≤ now

/-- The time until the deadline of a holder. -/
def timeLeft (s : Store K V) (h : Holder V) (now : Instant) : Option Duration :=
  (s.deadline h).map fun deadline => deadline.saturatingSince now

/-- Moves the deadline of a holder. -/
def setDeadline (s : Store K V) (h : Holder V) (deadline : Option Instant) : Store K V :=
  { s with deadlines := s.deadlines.setIfInBounds h.id (Mark.ofInstant? deadline) }

/-- Changes the statistics. -/
def count (s : Store K V) (change : Statistics → Statistics) : Store K V :=
  { s with statistics := change s.statistics }

/-- Makes a holder of a draft.  The holder has no slot yet. -/
def newHolder (s : Store K V) (d : Draft V) : Store K V × Holder V :=
  ({ s with deadlines := s.deadlines.push (Mark.ofInstant? d.deadline) },
    ⟨s.deadlines.size, d.value, d.writtenAt, d.weight⟩)

/-- The resolution of a fault, if it has one. -/
def resolution? (s : Store K V) (fault : Nat) : Option (Resolution V) :=
  s.faults[fault]?.join

/-- Resolves a fault.  Only the first resolution counts. -/
def resolve (s : Store K V) (fault : Nat) (r : Resolution V) : Store K V :=
  match s.resolution? fault with
  | some _ => s
  | none => { s with faults := s.faults.setIfInBounds fault (some r) }

/-- A store of the given blueprint as a record. -/
def describe (s : Store K V) (b : Blueprint) : String :=
  Text.record "OnHeapStore" [
    ("name", Text.optional Text.quoted b.name),
    ("max_capacity", Text.optional toString b.capacity),
    ("entry_count", toString s.map.entryCount),
    ("weighted_size", toString s.map.weightedSize)]

variable [DecidableEq K]

/-- What is in the key's slot at `now`. -/
def look (s : Store K V) (key : K) (now : Instant) : Look V :=
  match s.map.get? key with
  | none => .absent
  | some (.fault f) => .pending f
  | some (.holder h) => if s.expired h now then .stale h else .live h

/-- Puts a holder into the key's slot. -/
def fill (s : Store K V) (key : K) (h : Holder V) : Store K V :=
  { s with map := s.map.insert key (.holder h) }

/-- Empties the key's slot. -/
def erase (s : Store K V) (key : K) : Store K V :=
  { s with map := s.map.erase key }

/-- Puts a new fault into the key's slot. -/
def beginFault (s : Store K V) (key : K) : Store K V × Nat :=
  ({ s with
      map := s.map.insert key (.fault s.faults.size)
      faults := s.faults.push none },
    s.faults.size)

/-- Whether the key's slot contains this very holder. -/
def holds (s : Store K V) (key : K) (h : Holder V) : Bool :=
  (s.map.get? key).any (Slot.isHolder h.id)

/-- Whether the key's slot contains this very fault. -/
def pendingIn (s : Store K V) (key : K) (fault : Nat) : Bool :=
  (s.map.get? key).any (Slot.isFault fault)

/-- Whether the store has a live value for the key. -/
def visible (s : Store K V) (key : K) (now : Instant) : Bool :=
  match s.look key now with
  | .live _ => true
  | _ => false

end Store

end SharedCache
