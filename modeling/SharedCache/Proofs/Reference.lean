import Mathlib.Logic.Function.Basic
import SharedCache.Proofs.Calls

/-!
# The reference map

What a store without a bound means to a thread that has it for itself: a map from keys to records,
each with the time of its last write and a deadline.  An operation consults the clock, the copiers
and the expiry, and decides at once what it leaves and what it answers; only a computation first
shows something to a mapping function and waits for what it gives.

A run of one thread is measured against the reference passage by passage.
-/

namespace SharedCache

variable {K V Q R : Type}

/-- A value as it was stored, the time of the write, and the deadline. -/
structure Record (V : Type) where
  value : V
  writtenAt : Instant
  deadline : Option Instant
  deriving DecidableEq

namespace Record

/-- A record is visible until its deadline is reached. -/
def isVisible (r : Record V) (now : Instant) : Bool := r.deadline.all fun deadline => now < deadline

/-- The time that is left to a record. -/
def left (r : Record V) (now : Instant) : Option Duration :=
  r.deadline.map fun deadline => deadline.saturatingSince now

end Record

/-- Records by key. -/
abbrev Reference (K V : Type) := K → Option (Record V)

/-- Where the reference is with an operation: its outcome is decided, or its mapping function is
going to be called, or runs. -/
inductive Course (K V Q R : Type) where
  /-- What the operation leaves and what it answers. -/
  | decided (ref : Reference K V) (answer : Answer V)
  /-- The mapping function is going to be shown this key and what the key has. -/
  | asking (ref : Reference K V) (now : Instant) (key : K) (shown : Option V)
      (code : Script K V Q R)
  | mapping (ref : Reference K V) (now : Instant) (key : K) (fault : Nat)

namespace Reference

/-- The records that are visible. -/
def visible (ref : Reference K V) (now : Instant) : Reference K V :=
  fun key => (ref key).filter fun r => r.isVisible now

/-- How long a stored value lives: where a record is visible that is an update, elsewhere it is a
creation. -/
def lifetime (settings : Settings K V Q R) (ref : Reference K V) (now : Instant) (key : K)
    (stored : V) : Except Panic (Option Duration) :=
  match settings.expiry, ref.visible now key with
  | none, _ => return none
  | some e, none => e.onCreate key stored now
  | some e, some r => e.onUpdate key stored now (r.left now)

/-- The record of a value that is written: a copy of it is stored. -/
def record (settings : Settings K V Q R) (ref : Reference K V) (now : Instant) (key : K)
    (value : V) : Except Panic (Record V) := do
  let stored ← settings.copyIn value
  let lifetime ← ref.lifetime settings now key stored
  return ⟨stored, now, lifetime.map now.saturatingAdd⟩

/-- The deadline of a record that is read. -/
def deadline (settings : Settings K V Q R) (now : Instant) (key : K) (r : Record V) :
    Except Panic (Option Instant) :=
  match settings.expiry with
  | none => return r.deadline
  | some e => do
    let lifetime ← e.onRead key r.value now (r.left now) r.writtenAt
    return lifetime.map now.saturatingAdd

variable [DecidableEq K]

/-- Writes a value and then answers. -/
def write (settings : Settings K V Q R) (ref : Reference K V) (now : Instant) (key : K) (value : V)
    (answer : Answer V) : Except Panic (Course K V Q R) := do
  let r ← ref.record settings now key value
  return .decided (Function.update ref key (some r)) answer

/-- Reads a record and answers a copy of its value. -/
def read (settings : Settings K V Q R) (ref : Reference K V) (now : Instant) (key : K)
    (r : Record V) : Except Panic (Course K V Q R) := do
  let deadline ← deadline settings now key r
  let copy ← settings.copyOut r.value
  return .decided (Function.update ref key (some { r with deadline := deadline }))
    (.value (some copy))

/-- Shows a record to the mapping function of an operation. -/
def ask (settings : Settings K V Q R) (ref : Reference K V) (now : Instant) (key : K)
    (code : K → Option V → Script K V Q R) : Option (Record V) → Except Panic (Course K V Q R)
  | none => return .asking ref now key none (code key none)
  | some r => do
    let copy ← settings.copyOut r.value
    return .asking ref now key (some copy) (code key (some copy))

/-- Begins an operation. -/
def begin [DecidableEq V] (settings : Settings K V Q R) (ref : Reference K V) (now : Instant)
    (operation : Operation K V Q R) : Except Panic (Course K V Q R) :=
  match operation with
  | .get key =>
    match ref.visible now key with
    | none => return .decided ref (.value none)
    | some r => ref.read settings now key r
  | .contains key => return .decided ref (.flag (ref.visible now key).isSome)
  | .put key value => ref.write settings now (settings.copyKey key) value .unit
  | .putIfAbsent key value =>
    match ref.visible now (settings.copyKey key) with
    | none => ref.write settings now (settings.copyKey key) value (.value none)
    | some r => ref.read settings now (settings.copyKey key) r
  | .replace key value =>
    match ref.visible now (settings.copyKey key) with
    | none => return .decided ref (.value none)
    | some r => do
      let copy ← settings.copyOut r.value
      ref.write settings now (settings.copyKey key) value (.value (some copy))
  | .replaceIfEqual key expected value =>
    match ref.visible now (settings.copyKey key) with
    | none => return .decided ref (.flag false)
    | some r =>
      if r.value = expected then ref.write settings now (settings.copyKey key) value (.flag true)
      else return .decided ref (.flag false)
  | .remove key =>
    match ref.visible now key with
    | none => return .decided ref (.value none)
    | some r => do
      let copy ← settings.copyOut r.value
      return .decided (Function.update ref key none) (.value (some copy))
  | .removeIfEqual key expected =>
    match ref.visible now key with
    | none => return .decided ref (.flag false)
    | some r =>
      if r.value = expected then return .decided (Function.update ref key none) (.flag true)
      else return .decided ref (.flag false)
  | .clear => return .decided (fun _ => none) .unit
  | .computeIfAbsent key _ =>
    match ref.visible now (settings.copyKey key) with
    | none => ref.ask settings now (settings.copyKey key) operation.code none
    | some r => ref.read settings now (settings.copyKey key) r
  | .compute key _ =>
    ref.ask settings now (settings.copyKey key) operation.code
      (ref.visible now (settings.copyKey key))
  | .computeIfPresent key _ =>
    match ref.visible now (settings.copyKey key) with
    | none => return .decided ref (.value none)
    | some r => ref.ask settings now (settings.copyKey key) operation.code (some r)

/-- Goes by what a mapping function gave.  A value is written and a copy of what was stored
answered; without a value the key has no record any more; an error changes nothing. -/
def conclude (settings : Settings K V Q R) (ref : Reference K V) (now : Instant) (key : K)
    (fault : Nat) : Answer V → Except Panic (Course K V Q R)
  | .complaint text => return .decided ref (.failed (.computation ⟨fault, text⟩))
  | given =>
    match given.value? with
    | none => return .decided (Function.update ref key none) (.value none)
    | some value => do
      let r ← ref.record settings now key value
      let copy ← settings.copyOut r.value
      return .decided (Function.update ref key (some r)) (.value (some copy))

end Reference

/-! ## Runs of one thread -/

/-- Whether a frame waits for code that an operation has called back. -/
def Frame.callsBack : Frame K V Q R → Bool
  | .computing _ | .listening => true
  | _ => false

/-- Whether the thread is in the middle of code that an operation has called back. -/
def Thread.isCalledBack (t : Thread K V Q R) : Bool :=
  match t.activity, t.stack with
  | .settle _, frame :: rest => !frame.callsBack && rest.any Frame.callsBack
  | _, stack => stack.any Frame.callsBack

namespace Passage

variable (p : Passage K V Q R) (thread : Nat)

/-- The passage fits a run of one thread whose operations are not nested. -/
structure IsSequential : Prop where
  /-- No other thread moves. -/
  single : ∀ i, p.mover = some i → i = thread
  /-- What happens outside the threads happens between operations. -/
  calm : p.mover = none → ∀ t, p.before.threads[thread]? = some t → t.IsPlain
  /-- What an operation calls back calls no operation. -/
  flat : ∀ t operation next, p.before.threads[thread]? = some t →
    t.activity = .code (.call operation next) → t.IsPlain
  /-- Mapping functions do not panic. -/
  smooth : p.mover = some thread → ∀ t c base panic, p.before.threads[thread]? = some t →
    t.stack = .computing c :: base → t.activity ≠ .settle (.raised panic)

/-- The thread calls an operation, for whose end these frames wait. -/
def Calls (operation : Operation K V Q R) (base : List (Frame K V Q R)) : Prop :=
  p.mover = some thread ∧ ∃ next stack binding,
    p.before.threads[thread]? = some ⟨.code (.call operation next), stack, binding⟩ ∧
      base = .calling next :: stack

/-- The operation calls its mapping function. -/
def Maps (base : List (Frame K V Q R)) (key : K) (fault : Nat) (shown : Option V)
    (code : Script K V Q R) : Prop :=
  p.mover = some thread ∧ mappings p.events = [(key, fault, shown)] ∧ ∃ c binding,
    p.after.threads[thread]? = some ⟨.code code, .computing c :: base, binding⟩

/-- The mapping function of the operation gives an answer. -/
def Returns (base : List (Frame K V Q R)) (given : Answer V) : Prop :=
  p.mover = some thread ∧ ∃ c binding,
    p.before.threads[thread]? = some ⟨.settle (.done given), .computing c :: base, binding⟩

/-- The operation ends. -/
def Ends (base : List (Frame K V Q R)) (signal : Signal V) : Prop :=
  p.mover = some thread ∧ ∃ binding,
    p.after.threads[thread]? = some ⟨.settle signal, base, binding⟩

/-- Nothing happens that the reference takes notice of. -/
structure IsAside (base : List (Frame K V Q R)) : Prop where
  maps : mappings p.events = []
  returns : ∀ given, ¬ p.Returns thread base given
  ends : ∀ signal, ¬ p.Ends thread base signal

/-- One step of the operation itself, or none: what it calls back does not count. -/
def ownSteps : Nat :=
  if p.mover = some thread && p.thread?.any fun t => !t.isCalledBack then 1 else 0

end Passage

/-- Where the reference is: between two operations, or so many steps into an operation for whose end
these frames wait. -/
inductive Reference.State (K V Q R : Type) where
  | idle (ref : Reference K V)
  | busy (base : List (Frame K V Q R)) (steps : Nat) (course : Course K V Q R)

namespace Reference.State

variable [DecidableEq K] [DecidableEq V]

/-- What the reference makes of one passage. -/
inductive Moves (settings : Settings K V Q R) (thread : Nat) (p : Passage K V Q R) :
    State K V Q R → State K V Q R → Prop where
  | idles {ref : Reference K V} :
      (∀ operation base, ¬ p.Calls thread operation base) →
      Moves settings thread p (.idle ref) (.idle ref)
  | calls {ref : Reference K V} {operation : Operation K V Q R} {base : List (Frame K V Q R)}
      {course : Course K V Q R} :
      p.Calls thread operation base →
      ref.begin settings p.before.world.clock.now operation = .ok course →
      Moves settings thread p (.idle ref) (.busy base 0 course)
  | works {base : List (Frame K V Q R)} {steps : Nat} {course : Course K V Q R} :
      p.IsAside thread base →
      Moves settings thread p (.busy base steps course)
        (.busy base (steps + p.ownSteps thread) course)
  | maps {base : List (Frame K V Q R)} {steps fault : Nat} {ref : Reference K V} {now : Instant}
      {key : K} {shown : Option V} {code : Script K V Q R} :
      p.Maps thread base key fault shown code →
      Moves settings thread p (.busy base steps (.asking ref now key shown code))
        (.busy base (steps + 1) (.mapping ref now key fault))
  | returns {base : List (Frame K V Q R)} {steps fault : Nat} {ref : Reference K V} {now : Instant}
      {key : K} {given : Answer V} {course : Course K V Q R} :
      p.Returns thread base given → ref.conclude settings now key fault given = .ok course →
      Moves settings thread p (.busy base steps (.mapping ref now key fault))
        (.busy base (steps + 1) course)
  | ends {base : List (Frame K V Q R)} {steps : Nat} {ref : Reference K V} {answer : Answer V} :
      p.Ends thread base (.done answer) →
      Moves settings thread p (.busy base steps (.decided ref answer)) (.idle ref)

/-- The reference takes the passages of a run one after another, from an empty map on. -/
inductive Accepts (settings : Settings K V Q R) (thread : Nat) :
    List (Passage K V Q R) → State K V Q R → Prop where
  | rest : Accepts settings thread [] (.idle fun _ => none)
  | move {trace : List (Passage K V Q R)} {p : Passage K V Q R} {state next : State K V Q R} :
      Accepts settings thread trace state → state.Moves settings thread p next →
      Accepts settings thread (trace ++ [p]) next

variable {settings : Settings K V Q R} {thread : Nat} {p : Passage K V Q R}
  {state next next' : State K V Q R}

/-- The reference has no choice. -/
theorem Moves.unique (hnext : state.Moves settings thread p next)
    (hnext' : state.Moves settings thread p next') : next = next' := by
  cases hnext with
  | idles hnone =>
    cases hnext' with
    | idles => rfl
    | calls hcalls => exact absurd hcalls (hnone _ _)
  | calls hcalls hbegin =>
    cases hnext' with
    | idles hnone => exact absurd hcalls (hnone _ _)
    | calls hcalls' hbegin' =>
      obtain ⟨-, next, stack, binding, hthread, rfl⟩ := hcalls
      obtain ⟨-, next', stack', binding', hthread', rfl⟩ := hcalls'
      cases hthread.symm.trans hthread'
      rw [Except.ok.inj (hbegin.symm.trans hbegin')]
  | works haside =>
    cases hnext' with
    | works => rfl
    | maps hmaps => cases haside.maps.symm.trans hmaps.2.1
    | returns hreturns => exact absurd hreturns (haside.returns _)
    | ends hends => exact absurd hends (haside.ends _)
  | maps hmaps =>
    cases hnext' with
    | works haside => cases haside.maps.symm.trans hmaps.2.1
    | maps hmaps' =>
      cases hmaps.2.1.symm.trans hmaps'.2.1
      rfl
  | returns hreturns hconclude =>
    cases hnext' with
    | works haside => exact absurd hreturns (haside.returns _)
    | returns hreturns' hconclude' =>
      obtain ⟨-, c, binding, hthread⟩ := hreturns
      obtain ⟨-, c', binding', hthread'⟩ := hreturns'
      cases hthread.symm.trans hthread'
      rw [Except.ok.inj (hconclude.symm.trans hconclude')]
  | ends hends =>
    cases hnext' with
    | works haside => exact absurd hends (haside.ends _)
    | ends => rfl

theorem Accepts.unique {trace : List (Passage K V Q R)}
    (hstate : Accepts settings thread trace state)
    (hnext : Accepts settings thread trace next) : state = next := by
  induction hstate generalizing next with
  | rest =>
    generalize hnil : ([] : List (Passage K V Q R)) = trace at hnext
    cases hnext with
    | rest => rfl
    | move => simp at hnil
  | @move trace p before state _ hmoves ih =>
    generalize htrace : trace ++ [p] = whole at hnext
    cases hnext with
    | rest => simp at htrace
    | @move trace' p' before' _ haccepts' hmoves' =>
      obtain ⟨rfl, hlast⟩ := List.append_inj' htrace rfl
      obtain rfl := (List.cons.inj hlast).1
      obtain rfl := ih haccepts'
      exact hmoves.unique hmoves'

end Reference.State

end SharedCache
