import SharedCache.Store.Victim
import SharedCache.Thread

/-!
# The steps of a store

Each function below is what a store operation does in one step.  `Stage.turn` puts them together:
it takes the state of the store, the reading of the clock, the state of the thread's interrupter and
the keys that chance draws, and gives the new state and the next activity of the thread, or `none`
while the operation has to wait.

An operation looks at its key's slot in rounds.  It leaves the rounds with an answer or with a
computation of its own; it goes into another round when the computation that it waited for has
ended in a way that settles nothing for it.
-/

namespace SharedCache

/-- How many computations that end in a panic a call waits for before it gives up. -/
def maxAbandoned : Nat := 200

/-- What a step does to a store. -/
abbrev StoreTurn (K V Q R : Type) := Turn (Store K V) K V Q R

variable {K V Q R : Type}

namespace Store

/-- Brings the store under its capacity and then answers. -/
def enforcing (s : Store K V) (a : Answer V) : StoreTurn K V Q R :=
  (Turn.goTo s (.keep (.enforce 0))).andThen (.settle (.done a))

/-- Reports a removal first. -/
def reporting (s : Store K V) (key : K) (h : Holder V) (cause : RemovalCause) :
    StoreTurn K V Q R :=
  Turn.goTo s (.keep (.report key h cause))

variable [DecidableEq K]

/-! ## Looking at a slot -/

/-- A live value is read, a stale one expelled, and a pending computation waited for. -/
def visitGet (s : Store K V) (key : K) (retries : Nat) (now : Instant) : StoreTurn K V Q R :=
  match s.look key now with
  | .absent => .goTo s (.keep .missed)
  | .pending f => .goTo s (.keep (.await (.get key) retries f))
  | .stale h => .goTo s (.keep (.expel key h))
  | .live h => .goTo s (.keep (.consult key h now false))

/-- Writes a value into the key's slot.  A panic of a collaborator leaves the store as it is. -/
def write (settings : Settings K V Q R) (s : Store K V) (key : K) (value : V) (now : Instant)
    (previous : Option (Holder V)) (next : Store K V → StoreTurn K V Q R) : StoreTurn K V Q R :=
  .consulting (settings.draft key value now (previous.map fun h => s.timeLeft h now))
    (fun p => .panic s p)
    fun d =>
      let (s, h) := s.newHolder d
      next (s.fill key h)

/-- Writes at once, whatever is in the slot.  A fault there is overwritten. -/
def visitPut (settings : Settings K V Q R) (s : Store K V) (key : K) (value : V) (now : Instant) :
    StoreTurn K V Q R :=
  let replaced := match s.look key now with
    | .live h => some h
    | _ => none
  let overwritten := (s.map.get? key).bind Slot.holder?
  s.write settings key value now replaced fun s =>
    match overwritten with
    | none => s.enforcing .unit
    | some h =>
      ((Turn.goTo s (.keep (.judge key h now))).andThen (.keep (.enforce 0))).andThen
        (.settle (.done .unit))

/-- Writes where there is no live value, and reads it where there is one. -/
def visitPutIfAbsent (settings : Settings K V Q R) (s : Store K V) (key : K) (value : V)
    (retries : Nat) (now : Instant) : StoreTurn K V Q R :=
  match s.look key now with
  | .live h => .goTo s (.keep (.consult key h now false))
  | .pending f => .goTo s (.keep (.await (.putIfAbsent key value) retries f))
  | .absent => s.write settings key value now none fun s => s.enforcing (.value none)
  | .stale h =>
    s.write settings key value now none fun s =>
      ((Turn.goTo s (.keep (.judge key h now))).andThen (.keep (.enforce 0))).andThen
        (.settle (.done (.value none)))

/-- Replaces a live value that is accepted.  `kept` is the answer where nothing is replaced, and
`replaced` tells what is answered for a replaced holder. -/
def visitReplace (settings : Settings K V Q R) (s : Store K V) (operation : Operation K V Q R)
    (key : K) (value : V) (retries : Nat) (now : Instant) (accepts : V → Bool)
    (kept : Answer V) (replaced : Holder V → Activity K V Q R) : StoreTurn K V Q R :=
  match s.look key now with
  | .absent => .answer s kept
  | .pending f => .goTo s (.keep (.await operation retries f))
  | .stale h => ((s.erase key).reporting key h .expired).andThen (.settle (.done kept))
  | .live h =>
    if accepts h.value then
      s.write settings key value now (some h) fun s =>
        ((s.reporting key h .replaced).andThen (.keep (.enforce 0))).andThen (replaced h)
    else
      .answer s kept

/-- Removes whatever is in the slot, a fault included. -/
def visitRemove (s : Store K V) (key : K) (now : Instant) : StoreTurn K V Q R :=
  match s.map.get? key with
  | none => .answer s (.value none)
  | some (.fault _) => .answer (s.erase key) (.value none)
  | some (.holder h) => .goTo (s.erase key) (.keep (.dismiss key h now))

/-- Removes a live value that is equal to the expected one. -/
def visitRemoveIfEqual [DecidableEq V] (s : Store K V) (key : K) (expected : V) (now : Instant) :
    StoreTurn K V Q R :=
  match s.look key now with
  | .live h =>
    if h.value = expected then
      ((s.erase key).reporting key h .explicit).andThen (.settle (.done (.flag true)))
    else
      .answer s (.flag false)
  | _ => .answer s (.flag false)

/-- Begins a computation of the key: its slot gets a new fault. -/
def beginning (s : Store K V) (key : K) (previous : Option (Holder V)) (isRequest : Bool)
    (code : K → Option V → Script K V Q R) : Store K V × Activity K V Q R :=
  let (s, fault) := s.beginFault key
  (s, .keep (.own ⟨key, fault, previous, isRequest, code⟩))

/-- Begins a computation where there is no live value.  A stale holder is reported only after the
fault has taken its place. -/
def visitComputeIfAbsent (s : Store K V) (key : K) (mapping : K → Script K V Q R) (retries : Nat)
    (now : Instant) : StoreTurn K V Q R :=
  let code := fun key _ => mapping key
  match s.look key now with
  | .live h => .goTo s (.keep (.consult key h now true))
  | .pending f => .goTo s (.keep (.await (.computeIfAbsent key mapping) retries f))
  | .absent =>
    let (s, owner) := s.beginning key none true code
    .goTo s owner
  | .stale h =>
    let (s, owner) := s.beginning key none true code
    (s.reporting key h .expired).andThen owner

/-- Begins a computation whatever the slot contains, unless it is a fault. -/
def visitCompute (s : Store K V) (key : K) (remapping : K → Option V → Script K V Q R)
    (retries : Nat) (now : Instant) : StoreTurn K V Q R :=
  match s.look key now with
  | .pending f => .goTo s (.keep (.await (.compute key remapping) retries f))
  | .live h =>
    let (s, owner) := s.beginning key (some h) false remapping
    .goTo s owner
  | .absent =>
    let (s, owner) := s.beginning key none false remapping
    .goTo s owner
  | .stale h =>
    let (s, owner) := (s.erase key).beginning key none false remapping
    (s.reporting key h .expired).andThen owner

/-- Begins a computation where there is a live value. -/
def visitComputeIfPresent (s : Store K V) (key : K) (remapping : K → V → Script K V Q R)
    (retries : Nat) (now : Instant) : StoreTurn K V Q R :=
  match s.look key now with
  | .pending f => .goTo s (.keep (.await (.computeIfPresent key remapping) retries f))
  | .live h =>
    let (s, owner) := s.beginning key (some h) false fun key current =>
      match current with
      | none => .finish (.value none)
      | some value => remapping key value
    .goTo s owner
  | .absent => .answer s (.value none)
  | .stale h => ((s.erase key).reporting key h .expired).andThen (.settle (.done (.value none)))

/-- The section in which an operation looks at its key's slot. -/
def visit [DecidableEq V] (settings : Settings K V Q R) (s : Store K V) (retries : Nat)
    (now : Instant) : Operation K V Q R → StoreTurn K V Q R
  | .get key => s.visitGet key retries now
  | .contains key => .answer s (.flag (s.visible key now))
  | .put key value => s.visitPut settings key value now
  | .putIfAbsent key value => s.visitPutIfAbsent settings key value retries now
  | .replace key value =>
    s.visitReplace settings (.replace key value) key value retries now (fun _ => true)
      (.value none) fun h => .keep (.handOut h false)
  | .replaceIfEqual key expected value =>
    s.visitReplace settings (.replaceIfEqual key expected value) key value retries now
      (fun current => current = expected) (.flag false) fun _ => .settle (.done (.flag true))
  | .remove key => s.visitRemove key now
  | .removeIfEqual key expected => s.visitRemoveIfEqual key expected now
  | .clear => .goTo s (.keep (.sweep 0))
  | .computeIfAbsent key mapping => s.visitComputeIfAbsent key mapping retries now
  | .compute key remapping => s.visitCompute key remapping retries now
  | .computeIfPresent key remapping => s.visitComputeIfPresent key remapping retries now

/-! ## Waiting for a computation -/

/-- Goes on after a computation that settles nothing: another round, or the end of the patience. -/
def abandoned (s : Store K V) (operation : Operation K V Q R) (retries : Nat) :
    StoreTurn K V Q R :=
  if retries + 1 < maxAbandoned then
    .goTo s (.keep (.round operation (retries + 1)))
  else
    .answer s (.failed (.abandoned (retries + 1)))

/-- Goes on after the computation that the operation waited for. -/
def resume (s : Store K V) (operation : Operation K V Q R) (retries : Nat) :
    Resolution V → StoreTurn K V Q R
  | .retry => s.abandoned operation retries
  | .ready h =>
    match operation with
    | .get key | .putIfAbsent key _ | .computeIfAbsent key _ => .goTo s (.keep (.receive key h))
    | _ => .goTo s (.keep (.round operation retries))
  | .absent =>
    match operation with
    | .get _ | .computeIfAbsent .. => .goTo s (.keep .missed)
    | _ => .goTo s (.keep (.round operation retries))
  | .failed error =>
    match operation with
    | .get _ => .goTo s (.keep .missed)
    | .computeIfAbsent .. => .answer s (.failed (.computation error))
    | _ => .goTo s (.keep (.round operation retries))
  | .restored => .goTo s (.keep (.round operation retries))

/-! ## Reading a value -/

/-- The expiry is told the time that is left. -/
def consult (settings : Settings K V Q R) (s : Store K V) (key : K) (h : Holder V) (now : Instant)
    (thenEnforce : Bool) : StoreTurn K V Q R :=
  .consulting (settings.deadlineOfRead key h.value now (s.timeLeft h now) h.writtenAt)
    (fun p => .panic s p)
    fun deadline => .goTo s (.keep (.refresh h deadline thenEnforce))

/-- The deadline moves before the hit is counted. -/
def refresh (s : Store K V) (h : Holder V) (deadline : Option (Option Instant))
    (thenEnforce : Bool) : StoreTurn K V Q R :=
  let s := deadline.elim s fun d => s.setDeadline h d
  .goTo (s.count Statistics.recordHit) (.keep (.handOut h thenEnforce))

/-- The caller gets a copy of the value. -/
def handOut (settings : Settings K V Q R) (s : Store K V) (h : Holder V) (thenEnforce : Bool) :
    StoreTurn K V Q R :=
  .consulting (settings.giveOut h.value) (fun p => .panic s p) fun value =>
    if thenEnforce then s.enforcing (.value (some value)) else .answer s (.value (some value))

/-! ## Reporting a removal -/

/-- A stale holder is removed only if it is still the one in the slot. -/
def expel (s : Store K V) (key : K) (h : Holder V) : StoreTurn K V Q R :=
  if s.holds key h then
    ((s.erase key).reporting key h .expired).andThen (.keep .missed)
  else
    .goTo s (.keep .missed)

/-- An overwritten holder that was stale has expired.  Any other one was replaced. -/
def judge (s : Store K V) (key : K) (h : Holder V) (now : Instant) : StoreTurn K V Q R :=
  s.reporting key h (if s.expired h now then .expired else .replaced)

/-- A removed holder that was stale has expired, and its value is not answered. -/
def dismiss (s : Store K V) (key : K) (h : Holder V) (now : Instant) : StoreTurn K V Q R :=
  if s.expired h now then
    (s.reporting key h .expired).andThen (.settle (.done (.value none)))
  else
    (s.reporting key h .explicit).andThen (.keep (.handOut h false))

/-- The removal is counted before anything else.  The value is copied only for a listener that is
still called, and a panic of that copy is not caught. -/
def report (settings : Settings K V Q R) (s : Store K V) (key : K) (h : Holder V)
    (cause : RemovalCause) : StoreTurn K V Q R :=
  let counted := s.count fun statistics => statistics.recordRemoval h.weight cause
  let turn : StoreTurn K V Q R :=
    match settings.listener with
    | none => .answer counted .unit
    | some listener =>
      if counted.listening then
        .consulting (settings.giveOut h.value) (fun p => .panic counted p) fun value =>
          ((Turn.goTo counted (.code (listener key value cause))).above .listening).after
            [.listened key value cause]
      else
        .answer counted .unit
  turn.after [.reported h.id cause]

/-- The listener has ended.  After a panic it is never called again. -/
def listened (s : Store K V) : Signal V → StoreTurn K V Q R
  | .done _ => .answer s .unit
  | .raised p =>
    (Turn.answer { s with listening := false } .unit).after [.logged (.listenerDisabled p)]

/-! ## Computing a value -/

/-- A panic of the computation puts the key back as it was and passes on. -/
def unwinding (s : Store K V) (c : Computation K V Q R) (p : Panic) : StoreTurn K V Q R :=
  .goTo s (.keep (.restore c .retry (.raised p)))

/-- The mapping function gets a copy of the value that the key had. -/
def own (settings : Settings K V Q R) (s : Store K V) (c : Computation K V Q R) :
    StoreTurn K V Q R :=
  let s := if c.isRequest then s.count Statistics.recordMiss else s
  let current : Consultation K V (Option V) :=
    match c.previous with
    | none => .answer none
    | some h => do
      let value ← settings.giveOut h.value
      return some value
  .consulting current (s.unwinding c) fun current =>
    ((Turn.goTo s (.code (c.code c.key current))).above (.computing c)).after
      [.mapped c.key c.fault current]

/-- The mapping function has ended. -/
def mapped (s : Store K V) (c : Computation K V Q R) : Signal V → StoreTurn K V Q R
  | .raised p => s.unwinding c p
  | .done (.complaint text) =>
    let s := s.count Statistics.recordFailed
    let error : ErrorObject := ⟨c.fault, text⟩
    let answer : Answer V := .failed (.computation error)
    match c.previous with
    | some _ => .goTo s (.keep (.restore c .restored (.done answer)))
    | none => .goTo s (.keep (.vacate c (.failed error) answer))
  | .done answer =>
    let s := s.count Statistics.recordComputed
    match answer.value? with
    | some value => .goTo s (.keep (.compose c value))
    | none => .goTo s (.keep (.vacate c .absent (.value none)))

/-- The value becomes a holder at a fresh reading of the clock. -/
def compose (settings : Settings K V Q R) (s : Store K V) (c : Computation K V Q R) (value : V)
    (now : Instant) : StoreTurn K V Q R :=
  .consulting (settings.draft c.key value now (c.previous.map fun h => s.timeLeft h now))
    (s.unwinding c)
    fun d =>
      let (s, h) := s.newHolder d
      .consulting (settings.giveOut h.value) (s.unwinding c) fun value =>
        .goTo s (.keep (.install c h value))

/-- Where the slot still has the fault, the holder takes its place and the capacity is enforced.  In
either case the waiting threads get the holder. -/
def install (s : Store K V) (c : Computation K V Q R) (h : Holder V) (value : V) :
    StoreTurn K V Q R :=
  let answer : Answer V := .value (some value)
  if s.pendingIn c.key c.fault then
    let s := (s.fill c.key h).resolve c.fault (.ready h)
    match c.previous with
    | none => s.enforcing answer
    | some previous =>
      ((s.reporting c.key previous .replaced).andThen (.keep (.enforce 0))).andThen
        (.settle (.done answer))
  else
    .answer (s.resolve c.fault (.ready h)) answer

/-- Where the slot still has the fault, it becomes empty, and the value that the key had is reported
as removed. -/
def vacate (s : Store K V) (c : Computation K V Q R) (resolution : Resolution V)
    (answer : Answer V) : StoreTurn K V Q R :=
  if s.pendingIn c.key c.fault then
    let s := (s.erase c.key).resolve c.fault resolution
    match c.previous with
    | none => .answer s answer
    | some previous =>
      (s.reporting c.key previous .explicit).andThen (.settle (.done answer))
  else
    .answer (s.resolve c.fault resolution) answer

/-- Where the slot still has the fault, it gets back what it had. -/
def restore (s : Store K V) (c : Computation K V Q R) (resolution : Resolution V)
    (signal : Signal V) : StoreTurn K V Q R :=
  let s :=
    if s.pendingIn c.key c.fault then
      match c.previous with
      | some previous => s.fill c.key previous
      | none => s.erase c.key
    else
      s
  .goTo (s.resolve c.fault resolution) (.settle signal)

/-! ## Enforcing the capacity -/

/-- Stops within the capacity, or after too many rounds in a row that evicted nothing. -/
def enforce (settings : Settings K V Q R) (s : Store K V) (failed : Nat) : StoreTurn K V Q R :=
  match settings.blueprint.capacity with
  | none => .answer s .unit
  | some capacity =>
    if s.map.weightedSize ≤ capacity then
      .answer s .unit
    else if settings.blueprint.sampling.attempts ≤ failed then
      (Turn.answer s .unit).after [.logged (.gaveUp failed s.map.weightedSize capacity)]
    else
      .goTo s (.keep (.draw failed [] settings.blueprint.sampling.size))

/-- Looks at the drawn keys.  A round has so many draws and may end with fewer; other threads may
come in between the draws. -/
def draw (s : Store K V) (failed : Nat) (sample : List (K × Holder V)) (left : Nat)
    (draws : List K) : StoreTurn K V Q R :=
  let draws := draws.take left
  let sample := sample ++ s.map.sample draws
  let left := left - draws.length
  if draws.isEmpty || left = 0 then .goTo s (.keep (.pick failed sample))
  else .goTo s (.keep (.draw failed sample left))

/-- A round without a victim has failed. -/
def pick (settings : Settings K V Q R) (s : Store K V) (failed : Nat)
    (sample : List (K × Holder V)) (now : Instant) : StoreTurn K V Q R :=
  .consulting (s.victim settings now sample) (fun p => .panic s p) fun
    | none => .goTo s (.keep (.enforce (failed + 1)))
    | some ((key, h), cause) => .goTo s (.keep (.evict failed key h cause))

/-- A victim that has left its slot meanwhile makes the round a failed one. -/
def evict (s : Store K V) (failed : Nat) (key : K) (h : Holder V) (cause : RemovalCause) :
    StoreTurn K V Q R :=
  if s.holds key h then
    ((s.erase key).reporting key h cause).andThen (.keep (.enforce 0))
  else
    .goTo s (.keep (.enforce (failed + 1)))

/-! ## Clearing -/

/-- Empties one segment after another.  Nothing is reported. -/
def sweep (s : Store K V) (segment : Nat) : StoreTurn K V Q R :=
  let s := { s with map := s.map.clearSegment segment }
  if segment + 1 < s.map.segments.size then .goTo s (.keep (.sweep (segment + 1)))
  else .answer s .unit

end Store

/-- The next step of a store operation, or `none` while it has to wait. -/
def Stage.turn [DecidableEq K] [DecidableEq V] (settings : Settings K V Q R) (s : Store K V)
    (now : Instant) (interrupted : Bool) (draws : List K) :
    Stage K V Q R → Option (StoreTurn K V Q R)
  | .round operation retries => some (.goTo s (.keep (.visit operation retries now)))
  | .visit operation retries now => some (s.visit settings retries now operation)
  | .await operation retries fault =>
    match s.resolution? fault with
    | some resolution => some (s.resume operation retries resolution)
    | none => if interrupted then some (.answer s (.failed .interrupted)) else none
  | .receive key h => some (.goTo s (.keep (.consult key h now false)))
  | .consult key h now thenEnforce => some (s.consult settings key h now thenEnforce)
  | .refresh h deadline thenEnforce => some (s.refresh h deadline thenEnforce)
  | .handOut h thenEnforce => some (s.handOut settings h thenEnforce)
  | .missed => some (.answer (s.count Statistics.recordMiss) (.value none))
  | .expel key h => some (s.expel key h)
  | .sweep segment => some (s.sweep segment)
  | .judge key h now => some (s.judge key h now)
  | .dismiss key h now => some (s.dismiss key h now)
  | .report key h cause => some (s.report settings key h cause)
  | .own c => some (s.own settings c)
  | .compose c value => some (s.compose settings c value now)
  | .install c h value => some (s.install c h value)
  | .vacate c resolution answer => some (s.vacate c resolution answer)
  | .restore c resolution signal => some (s.restore c resolution signal)
  | .enforce failed => some (s.enforce settings failed)
  | .draw failed sample left => some (s.draw failed sample left draws)
  | .pick failed sample => some (s.pick settings failed sample now)
  | .evict failed key h cause => some (s.evict failed key h cause)

/-- The operation as the store carries it out: a key that the operation hands over is copied. -/
def Operation.stored (settings : Settings K V Q R) : Operation K V Q R → Operation K V Q R
  | .put key value => .put (settings.copyKey key) value
  | .putIfAbsent key value => .putIfAbsent (settings.copyKey key) value
  | .replace key value => .replace (settings.copyKey key) value
  | .replaceIfEqual key expected value => .replaceIfEqual (settings.copyKey key) expected value
  | .computeIfAbsent key mapping => .computeIfAbsent (settings.copyKey key) mapping
  | .compute key remapping => .compute (settings.copyKey key) remapping
  | .computeIfPresent key remapping => .computeIfPresent (settings.copyKey key) remapping
  | operation => operation

end SharedCache
