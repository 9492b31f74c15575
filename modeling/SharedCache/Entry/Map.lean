import SharedCache.Entry.Holder
import SharedCache.Entry.Segment

/-!
# The entry map

The slots of a store, spread over segments by a function of the key, together with two counters: the
number of entries and their total weight.  Every change of a slot adjusts both counters by what the
new and the old slot contribute.
-/

namespace SharedCache

/-- Slots by key, in at least one segment. -/
structure EntryMap (K V : Type) where
  /-- Decides, modulo the number of segments, where a key belongs. -/
  place : K → Nat
  segments : Array (Segment K (Slot V))
  segments_pos : 0 < segments.size
  entryCount : Nat
  weightedSize : Nat

namespace EntryMap

variable {K V : Type}

/-- A map without entries. -/
def empty (place : K → Nat) (segments : Nat) (h : 0 < segments) : EntryMap K V where
  place := place
  segments := Array.replicate segments Segment.empty
  segments_pos := by simpa using h
  entryCount := 0
  weightedSize := 0

/-- The position of the key's segment. -/
def segmentOf (m : EntryMap K V) (key : K) : Nat := m.place key % m.segments.size

theorem segmentOf_lt (m : EntryMap K V) (key : K) : m.segmentOf key < m.segments.size :=
  Nat.mod_lt _ m.segments_pos

/-- The segment of the key. -/
def segment (m : EntryMap K V) (key : K) : Segment K (Slot V) :=
  have inside := m.segmentOf_lt key
  m.segments[m.segmentOf key]

/-- Another segment for the key, and another number of entries and total weight. -/
def withSegment (m : EntryMap K V) (key : K) (segment : Segment K (Slot V))
    (entryCount weightedSize : Nat) : EntryMap K V where
  place := m.place
  segments := m.segments.setIfInBounds (m.segmentOf key) segment
  segments_pos := by simpa using m.segments_pos
  entryCount := entryCount
  weightedSize := weightedSize

/-- Empties one segment. -/
def clearSegment (m : EntryMap K V) (i : Nat) : EntryMap K V :=
  let old := (m.segments[i]?.getD Segment.empty).slots.toList.map Prod.snd
  { m with
    segments := m.segments.modify i fun _ => Segment.empty
    segments_pos := by simpa using m.segments_pos
    entryCount := m.entryCount - Slot.total Slot.count old
    weightedSize := m.weightedSize - Slot.total Slot.weight old }

/-- Every slot with its key, segment by segment. -/
def slots (m : EntryMap K V) : List (K × Slot V) :=
  m.segments.toList.flatMap fun s => s.slots.toList

/-- Every entry with its key: the slots that contain a holder. -/
def entries (m : EntryMap K V) : List (K × Holder V) :=
  m.slots.filterMap fun slot => slot.2.holder?.map fun h => (slot.1, h)

variable [DecidableEq K]

/-- The key's slot. -/
def get? (m : EntryMap K V) (key : K) : Option (Slot V) := (m.segment key).get? key

/-- Puts a slot under the key. -/
def insert (m : EntryMap K V) (key : K) (slot : Slot V) : EntryMap K V :=
  let (segment, old) := (m.segment key).insert key slot
  m.withSegment key segment
    (m.entryCount + slot.count - old.elim 0 Slot.count)
    (m.weightedSize + slot.weight - old.elim 0 Slot.weight)

/-- Removes the key's slot. -/
def erase (m : EntryMap K V) (key : K) : EntryMap K V :=
  let (segment, old) := (m.segment key).erase key
  m.withSegment key segment
    (m.entryCount - old.elim 0 Slot.count)
    (m.weightedSize - old.elim 0 Slot.weight)

/-- The entries among the keys that were drawn, in the order of the draws.  A draw of a fault, or of
a key without a slot, yields nothing. -/
def sample (m : EntryMap K V) (draws : List K) : List (K × Holder V) :=
  draws.filterMap fun key => (m.get? key).bind fun slot => slot.holder?.map fun h => (key, h)

end EntryMap

end SharedCache
