/-!
# Segments

A segment keeps its slots densely in an array, so that any of them can be picked by its position,
and finds the position of a key in an index.  Removing a slot moves the last one into its place.
-/

namespace SharedCache

/-- Slots of type `S`, each under a key. -/
structure Segment (K S : Type) where
  index : List (K × Nat)
  slots : Array (K × S)

namespace Segment

variable {K S : Type}

/-- A segment without slots. -/
def empty : Segment K S := ⟨[], #[]⟩

variable [DecidableEq K]

/-- The position of the key's slot. -/
def position? (s : Segment K S) (key : K) : Option Nat := s.index.lookup key

/-- The key's slot. -/
def get? (s : Segment K S) (key : K) : Option S :=
  (s.position? key).bind fun i => s.slots[i]?.map Prod.snd

/-- Puts a slot under the key, in the place of the one it had or behind all others.  The second part
of the result is the slot that the key had. -/
def insert (s : Segment K S) (key : K) (slot : S) : Segment K S × Option S :=
  match s.position? key with
  | some i => ({ s with slots := s.slots.setIfInBounds i (key, slot) }, s.slots[i]?.map Prod.snd)
  | none => (⟨(key, s.slots.size) :: s.index, s.slots.push (key, slot)⟩, none)

/-- The index after the key was taken out of it and another one was moved to a new position. -/
def reindex (index : List (K × Nat)) (removed moved : K) (i : Nat) : List (K × Nat) :=
  (index.filter fun entry => entry.1 ≠ removed).map fun entry =>
    if entry.1 = moved then (entry.1, i) else entry

/-- Removes the key's slot.  The last slot takes its place.  The second part of the result is the
slot that the key had. -/
def erase (s : Segment K S) (key : K) : Segment K S × Option S :=
  match s.position? key with
  | none => (s, none)
  | some i =>
    match s.slots.back? with
    | none => (s, none)
    | some last =>
      (⟨reindex s.index key last.1 i, (s.slots.setIfInBounds i last).pop⟩,
        s.slots[i]?.map Prod.snd)

end Segment

end SharedCache
