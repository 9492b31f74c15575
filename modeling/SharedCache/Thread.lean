import SharedCache.Entry.Holder
import SharedCache.Event
import SharedCache.Script
import SharedCache.Store.State

/-!
# Threads

A thread is an activity together with a stack of frames.  The activity says what the thread does in
its next step; each frame waits for what is above it to end and says what happens then.  A step of
an activity is either one section under the lock of a segment or a partition, or the resolution of
a fault within such a section, or a piece of work that touches nothing shared with other threads.
-/

namespace SharedCache

/-- A flag that asks whatever runs in its scopes to stop waiting. -/
inductive Interrupter where
  /-- An interrupter that a script chose. -/
  | named (n : Nat)
  /-- The interrupter of a task that an executor runs. -/
  | ofTask (task : Nat)
  deriving DecidableEq

/-- A computation in progress.  Its fault is in the slot of its key unless somebody else has written
the slot meanwhile. -/
structure Computation (K V Q R : Type) where
  key : K
  fault : Nat
  /-- The live holder that the fault took the place of. -/
  previous : Option (Holder V)
  /-- Whether beginning the computation counts as a request that found nothing. -/
  isRequest : Bool
  code : K → Option V → Script K V Q R

/-- What a store operation does next. -/
inductive Stage (K V Q R : Type) where
  /-- Reads the clock and then looks at the slot, after so many abandoned computations. -/
  | round (operation : Operation K V Q R) (retries : Nat)
  /-- Looks at the slot, and writes it where the operation does so at once. -/
  | visit (operation : Operation K V Q R) (retries : Nat) (now : Instant)
  /-- Waits for a pending computation. -/
  | await (operation : Operation K V Q R) (retries : Nat) (fault : Nat)
  /-- Reads the clock for a value that another computation gave. -/
  | receive (key : K) (h : Holder V)
  /-- Asks the expiry about a read. -/
  | consult (key : K) (h : Holder V) (now : Instant) (thenEnforce : Bool)
  /-- Moves the deadline after a read and counts the hit. -/
  | refresh (h : Holder V) (deadline : Option (Option Instant)) (thenEnforce : Bool)
  /-- Copies the value out and answers it. -/
  | handOut (h : Holder V) (thenEnforce : Bool)
  /-- Counts a miss and answers nothing. -/
  | missed
  /-- Removes a stale holder unless the slot has changed. -/
  | expel (key : K) (h : Holder V)
  /-- Empties the segments from this one on. -/
  | sweep (segment : Nat)
  /-- Tells whether an overwritten holder was replaced or had expired. -/
  | judge (key : K) (h : Holder V) (now : Instant)
  /-- Tells whether a removed holder had expired, and answers its value if it had not. -/
  | dismiss (key : K) (h : Holder V) (now : Instant)
  /-- Counts a removal and calls the listener. -/
  | report (key : K) (h : Holder V) (cause : RemovalCause)
  /-- Calls the mapping function. -/
  | own (c : Computation K V Q R)
  /-- Makes a holder of what the mapping function gave. -/
  | compose (c : Computation K V Q R) (value : V)
  /-- Puts the holder in the place of the fault. -/
  | install (c : Computation K V Q R) (h : Holder V) (value : V)
  /-- Removes the fault. -/
  | vacate (c : Computation K V Q R) (resolution : Resolution V) (answer : Answer V)
  /-- Puts back what the fault took the place of. -/
  | restore (c : Computation K V Q R) (resolution : Resolution V) (signal : Signal V)
  /-- Evicts until the weight is within the capacity; so many rounds in a row have failed. -/
  | enforce (failed : Nat)
  /-- Adds entries to a sample.  So many draws are left. -/
  | draw (failed : Nat) (sample : List (K × Holder V)) (left : Nat)
  /-- Picks a victim among the drawn entries. -/
  | pick (failed : Nat) (sample : List (K × Holder V))
  /-- Removes the victim unless its slot has changed. -/
  | evict (failed : Nat) (key : K) (h : Holder V) (cause : RemovalCause)

/-- What an executor operation does next. -/
inductive Dispatch (K V Q R : Type) where
  /-- Takes hold of the executor's phase, unless the executor takes no more tasks. -/
  | accept (partition : Nat) (code : Script K V Q R)
  /-- Puts the task at the end of the queue. -/
  | enqueue (partition : Nat) (code : Script K V Q R)
  /-- Counts the partition as active. -/
  | activate (partition task : Nat)
  /-- Lets go of the phase. -/
  | unlock (partition task : Nat) (handOver : Bool)
  /-- Hands the partition to the pool. -/
  | schedule (partition : Nat)
  /-- Takes the task at the head of the queue. -/
  | start (partition : Nat)
  /-- Runs a task. -/
  | run (task : Nat)
  /-- Lets go of the end that the outcome of a task was sent from. -/
  | hangUp (task : Nat)
  /-- Marks the partition as not running, and as not scheduled if its queue is empty. -/
  | finish (partition : Nat)
  /-- Counts the partition as not active. -/
  | idle
  /-- Looks whether the executor can terminate. -/
  | conclude
  /-- Looks again, with no one holding the phase, and terminates. -/
  | terminate
  /-- Raises the flag that termination is waited for with. -/
  | announce
  /-- Stops taking tasks. -/
  | shutdown
  /-- Takes the tasks out of the queues from this partition on. -/
  | drain (partition : Nat) (taken : List (Nat × Nat))
  /-- A job is over. -/
  | retire
  /-- Takes a job out of the pool and runs it. -/
  | takeJob (position : Nat)
  /-- Takes a job out of the pool and forgets it. -/
  | loseJob (position : Nat)
  /-- Runs a task that was handed back. -/
  | takeBack (task : Nat)
  /-- Forgets a task that was handed back. -/
  | cancel (task : Nat)
  /-- The owner has let go of the executor. -/
  | release
  /-- Waits for the termination. -/
  | await
  /-- Waits for the outcome of a task. -/
  | join (task : Nat)

/-- What a thread does in its next step. -/
inductive Activity (K V Q R : Type) where
  | code (script : Script K V Q R)
  /-- Hands the end of the activity to the frame below. -/
  | settle (signal : Signal V)
  /-- Enters the scope of an interrupter. -/
  | enter (interrupter : Interrupter) (inside : Activity K V Q R)
  | keep (stage : Stage K V Q R)
  | dispatch (stage : Dispatch K V Q R)

/-- What waits for the activity above it to end. -/
inductive Frame (K V Q R : Type) where
  /-- A script waits for an answer. -/
  | calling (next : Answer V → Script K V Q R)
  /-- A script catches a panic. -/
  | guarded (next : Signal V → Script K V Q R)
  /-- A scope ends, and the interrupter that was bound before is bound again. -/
  | scoped (before : Option Interrupter)
  /-- An operation goes on, unless there was a panic. -/
  | next (activity : Activity K V Q R)
  /-- A computation waits for its mapping function. -/
  | computing (c : Computation K V Q R)
  /-- A removal waits for the listener. -/
  | listening
  /-- A task delivers its outcome. -/
  | tasking (task : Nat)

/-- A thread: its activity, the frames below it from the innermost on, and the interrupter that is
bound to it. -/
structure Thread (K V Q R : Type) where
  activity : Activity K V Q R
  stack : List (Frame K V Q R)
  binding : Option Interrupter

namespace Thread

variable {K V Q R : Type}

/-- A thread that is about to run a script. -/
def running (script : Script K V Q R) : Thread K V Q R := ⟨.code script, [], none⟩

/-- How the thread ended, if it did. -/
def result? (t : Thread K V Q R) : Option (Signal V) :=
  match t.activity, t.stack with
  | .settle signal, [] => some signal
  | _, _ => none

/-- What the thread asks its surroundings. -/
def question? (t : Thread K V Q R) : Option Q :=
  match t.activity with
  | .code (.ask question _) => some question
  | _ => none

/-- Whether the next step reads the clock on behalf of a store operation: before a look at the key,
for a value that a computation of this or another thread gave, or to tell which entries of a sample
have expired.  Emptying the store needs no reading. -/
def readsClock (t : Thread K V Q R) : Bool :=
  match t.activity with
  | .keep (.round .clear _) => false
  | .keep (.round ..) | .keep (.receive ..) | .keep (.compose ..) | .keep (.pick ..) => true
  | _ => false

/-- The interrupters of the active scopes, from the innermost on. -/
def scopes (t : Thread K V Q R) : List Interrupter :=
  (t.binding :: t.stack.filterMap fun frame =>
    match frame with
    | .scoped before => some before
    | _ => none).filterMap id

end Thread

/-- What a step of an operation did to a part of type `σ` of the world, and how it goes on. -/
structure Turn (σ K V Q R : Type) where
  state : σ
  events : List (Event K V)
  next : Activity K V Q R
  /-- The frames that are put on the stack, from the innermost on. -/
  frames : List (Frame K V Q R)
  /-- The interrupters that are tripped. -/
  trips : List Interrupter

namespace Turn

variable {σ K V Q R : Type}

/-- Goes on with an activity. -/
def goTo (state : σ) (next : Activity K V Q R) : Turn σ K V Q R := ⟨state, [], next, [], []⟩

/-- Ends with an answer. -/
def answer (state : σ) (a : Answer V) : Turn σ K V Q R := goTo state (.settle (.done a))

/-- Ends with a panic. -/
def panic (state : σ) (p : Panic) : Turn σ K V Q R := goTo state (.settle (.raised p))

/-- Puts events in front of those of the turn. -/
def after (events : List (Event K V)) (t : Turn σ K V Q R) : Turn σ K V Q R :=
  { t with events := events ++ t.events }

/-- What is done when the turn's activity has ended, before all that waits already. -/
def andThen (t : Turn σ K V Q R) (activity : Activity K V Q R) : Turn σ K V Q R :=
  { t with frames := t.frames ++ [.next activity] }

/-- Puts a frame below the turn's activity. -/
def above (t : Turn σ K V Q R) (frame : Frame K V Q R) : Turn σ K V Q R :=
  { t with frames := t.frames ++ [frame] }

/-- Goes on with the answer of a consultation, or with its panic. -/
def consulting {α : Type} (c : Consultation K V α) (failed : Panic → Turn σ K V Q R)
    (next : α → Turn σ K V Q R) : Turn σ K V Q R :=
  match c.result with
  | .ok a => (next a).after c.events
  | .error p => (failed p).after c.events

end Turn

end SharedCache
