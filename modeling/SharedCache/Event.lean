import SharedCache.Failure
import SharedCache.Removal
import SharedCache.Time.Instant

/-!
# Events

What a run of the library does that can be seen from outside, apart from its answers: the calls of
the collaborators of a store, the messages it writes to its log, and the movements of the tasks of
an executor.
-/

namespace SharedCache

/-- How urgent a message is. -/
inductive Level where
  | error
  | warn
  | debug
  | trace
  deriving DecidableEq

/-- The name of a level. -/
def Level.describe : Level → String
  | .error => "ERROR"
  | .warn => "WARN"
  | .debug => "DEBUG"
  | .trace => "TRACE"

/-- A message for the log. -/
inductive Message where
  /-- The listener panicked and is not called any more. -/
  | listenerDisabled (panic : Panic)
  /-- So many rounds in a row found nothing to evict. -/
  | gaveUp (attempts weight capacity : Nat)
  | taskPanicked (panic : Panic)
  /-- So many tasks were taken out of the queues. -/
  | drained (tasks : Nat)
  | shuttingDown
  | terminated
  deriving DecidableEq

namespace Message

/-- A panic of the listener is an error, one of a task a warning. -/
def level : Message → Level
  | .listenerDisabled _ => .error
  | .gaveUp .. => .trace
  | .taskPanicked _ => .warn
  | .drained _ | .shuttingDown | .terminated => .debug

/-- The text of a message.  The messages of a store begin with `name`. -/
def text (name : String) : Message → String
  | .listenerDisabled panic =>
    name ++ "Disabled the eviction listener because it panicked at '" ++ panic.message ++ "'"
  | .gaveUp attempts weight capacity =>
    name ++ "Gave up evicting after " ++ toString attempts ++ " attempts; weighted size " ++
      toString weight ++ " exceeds " ++ toString capacity
  | .taskPanicked panic => "A task panicked at '" ++ panic.message ++ "'"
  | .drained tasks =>
    "Immediate shutdown removed " ++ toString tasks ++ " pending tasks from the queues"
  | .shuttingDown => "Shutting down a partitioned executor"
  | .terminated => "A partitioned executor terminated"

end Message

/-- One thing that happened. -/
inductive Event (K V : Type) where
  /-- A value was copied on its way into the store. -/
  | copiedIn (value : V)
  /-- A value was copied on its way out of the store. -/
  | copiedOut (value : V)
  | askedOnCreate (key : K) (value : V) (time : Instant)
  | askedOnUpdate (key : K) (value : V) (time : Instant) (left : Option Duration)
  | askedOnRead (key : K) (value : V) (time : Instant) (left : Option Duration)
      (writtenAt : Instant)
  /-- An entry was weighed.  The weight is the one before it was raised to one, and `none` where the
  weigher panicked. -/
  | weighed (key : K) (value : V) (weight : Option Nat)
  /-- The veto was asked about an entry. -/
  | vetoAsked (key : K) (value : V)
  /-- Two entries were compared. -/
  | ranked (key : K) (value : V) (key' : K) (value' : V)
  /-- The removal of a holder was counted. -/
  | reported (holder : Nat) (cause : RemovalCause)
  /-- The listener was called. -/
  | listened (key : K) (value : V) (cause : RemovalCause)
  /-- The mapping function of the computation with this fault was called. -/
  | mapped (key : K) (fault : Nat) (current : Option V)
  | logged (message : Message)
  /-- The executor took a task into a queue. -/
  | submitted (partition task : Nat)
  /-- A partition was handed to the pool. -/
  | scheduled (partition : Nat)
  | started (partition task : Nat)
  | delivered (task : Nat)
  | handedBack (partition task : Nat)
  deriving DecidableEq

end SharedCache
