import SharedCache.Time.Instant

/-!
# Holders and slots

A holder is a value that was written together with what does not change about it.  Its number tells
it apart from every other holder of the store.  The slot of a key contains a holder or, while a
value for the key is being computed, a fault; a fault is no entry and weighs nothing.
-/

namespace SharedCache

/-- A written value. -/
structure Holder (V : Type) where
  id : Nat
  value : V
  writtenAt : Instant
  weight : Nat
  deriving DecidableEq

/-- The contents of a key's slot. -/
inductive Slot (V : Type) where
  | holder (h : Holder V)
  | fault (id : Nat)
  deriving DecidableEq

namespace Slot

variable {V : Type}

/-- How many entries a slot is: one, or none if it is a fault. -/
def count : Slot V → Nat
  | .holder _ => 1
  | .fault _ => 0

/-- The weight of a slot. -/
def weight : Slot V → Nat
  | .holder h => h.weight
  | .fault _ => 0

/-- The sum of a measure over slots. -/
def total (measure : Slot V → Nat) : List (Slot V) → Nat
  | [] => 0
  | slot :: rest => measure slot + total measure rest

/-- Whether the slot contains this very holder. -/
def isHolder (id : Nat) : Slot V → Bool
  | .holder h => h.id == id
  | .fault _ => false

/-- Whether the slot contains this very fault. -/
def isFault (id : Nat) : Slot V → Bool
  | .holder _ => false
  | .fault f => f == id

/-- The holder in the slot. -/
def holder? : Slot V → Option (Holder V)
  | .holder h => some h
  | .fault _ => none

end Slot

end SharedCache
