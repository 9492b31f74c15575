import SharedCache.Blueprint
import SharedCache.Event
import SharedCache.Expiry
import SharedCache.Script

/-!
# Settings

Everything that a store is built from: its blueprint and its collaborators.  A collaborator that is
asked for a value may panic instead; the listener is a script and may do anything.

A consultation is what comes of asking collaborators: the calls that were made, and the answer or
the panic of the last of them.
-/

namespace SharedCache

/-- The result of asking collaborators, with the calls that were made. -/
structure Consultation (K V α : Type) where
  events : List (Event K V)
  result : Except Panic α

namespace Consultation

variable {K V α β : Type}

/-- An answer that needed no call. -/
def answer (a : α) : Consultation K V α := ⟨[], .ok a⟩

/-- One call and its result. -/
def call (event : Event K V) (result : Except Panic α) : Consultation K V α := ⟨[event], result⟩

/-- Goes on with the answer.  A panic ends the consultation. -/
def andThen (c : Consultation K V α) (next : α → Consultation K V β) : Consultation K V β :=
  match c.result with
  | .error panic => ⟨c.events, .error panic⟩
  | .ok a =>
    let rest := next a
    ⟨c.events ++ rest.events, rest.result⟩

instance : Monad (Consultation K V) where
  pure := answer
  bind := andThen

end Consultation

/-- What a store is built from. -/
structure Settings (K V Q R : Type) where
  blueprint : Blueprint
  /-- Decides, modulo the number of segments, where a key belongs. -/
  place : K → Nat
  weigher : Option (K → V → Except Panic Nat)
  veto : Option (K → V → Except Panic Bool)
  /-- Compares two entries.  The smaller one is evicted first. -/
  priority : Option (K → V → K → V → Ordering)
  expiry : Option (Expiry K V)
  /-- Copies a key on its way into the store. -/
  copyKey : K → K
  /-- Copies a value on its way into the store. -/
  copyIn : V → Except Panic V
  /-- Copies a value on its way out of the store. -/
  copyOut : V → Except Panic V
  listener : Option (K → V → RemovalCause → Script K V Q R)

/-- A written value before it has a place in the store. -/
structure Draft (V : Type) where
  value : V
  writtenAt : Instant
  deadline : Option Instant
  weight : Nat

namespace Settings

variable {K V Q R : Type}

/-- Settings without any collaborator. -/
def plain (blueprint : Blueprint) (place : K → Nat) : Settings K V Q R where
  blueprint := blueprint
  place := place
  weigher := none
  veto := none
  priority := none
  expiry := none
  copyKey := id
  copyIn := .ok
  copyOut := .ok
  listener := none

/-- Copies a value into the store. -/
def takeIn (s : Settings K V Q R) (value : V) : Consultation K V V :=
  .call (.copiedIn value) (s.copyIn value)

/-- Copies a value out of the store. -/
def giveOut (s : Settings K V Q R) (value : V) : Consultation K V V :=
  .call (.copiedOut value) (s.copyOut value)

/-- How long a value that is written at `now` lives.  `left` tells the time that is left to the live
entry it takes the place of, if there is one. -/
def lifetimeOfWrite (s : Settings K V Q R) (key : K) (value : V) (now : Instant)
    (previous : Option (Option Duration)) : Consultation K V (Option Duration) :=
  match s.expiry, previous with
  | none, _ => .answer none
  | some e, none => .call (.askedOnCreate key value now) (e.onCreate key value now)
  | some e, some left => .call (.askedOnUpdate key value now left) (e.onUpdate key value now left)

/-- What becomes of the deadline of an entry that is read at `now`: `none` if it stays as it is,
which is so without an expiry. -/
def deadlineOfRead (s : Settings K V Q R) (key : K) (value : V) (now : Instant)
    (left : Option Duration) (writtenAt : Instant) :
    Consultation K V (Option (Option Instant)) :=
  match s.expiry with
  | none => .answer none
  | some e => do
    let lifetime ← Consultation.call (.askedOnRead key value now left writtenAt)
      (e.onRead key value now left writtenAt)
    return some (lifetime.map now.saturatingAdd)

/-- The weight of an entry, which is at least one. -/
def weigh (s : Settings K V Q R) (key : K) (value : V) : Consultation K V Nat :=
  match s.weigher with
  | none => .answer 1
  | some w =>
    match w key value with
    | .ok weight => .call (.weighed key value (some weight)) (.ok (max weight 1))
    | .error panic => .call (.weighed key value none) (.error panic)

/-- Prepares a value for being written: it is copied, given a lifetime and weighed, in this
order. -/
def draft (s : Settings K V Q R) (key : K) (value : V) (now : Instant)
    (previous : Option (Option Duration)) : Consultation K V (Draft V) := do
  let stored ← s.takeIn value
  let lifetime ← s.lifetimeOfWrite key stored now previous
  let weight ← s.weigh key stored
  return ⟨stored, now, lifetime.map now.saturatingAdd, weight⟩

end Settings

end SharedCache
