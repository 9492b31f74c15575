import SharedCache.Text.Record

/-!
# Failures

Code that is called back may panic.  A store operation, a task, an executor that takes no more work
and a rejected configuration each fail in ways of their own, and each way has one message.
-/

namespace SharedCache

/-- How code that panicked ended: with a text, or with something that is no text. -/
inductive Panic where
  | text (message : String)
  | silent
  deriving DecidableEq

/-- The text of a panic, or what is shown where there is none. -/
def Panic.message : Panic → String
  | .text message => message
  | .silent => "a non-string panic payload"

/-- The error that a mapping function returned.  Two errors are the same one only if they come from
the same computation, whatever they say. -/
structure ErrorObject where
  origin : Nat
  text : String
  deriving DecidableEq

/-- Why a store operation failed. -/
inductive StoreError where
  /-- The mapping function returned an error, to this call or to the one it waited for. -/
  | computation (error : ErrorObject)
  /-- The thread was interrupted while it waited for a computation. -/
  | interrupted
  /-- So many computations that the call waited for were given up by a panic. -/
  | abandoned (attempts : Nat)
  deriving DecidableEq

namespace StoreError

/-- The message of a store error. -/
def message : StoreError → String
  | .computation error => "the mapping function failed: " ++ error.text
  | .interrupted => "interrupted while waiting for a pending computation"
  | .abandoned attempts =>
    "gave up after " ++ toString attempts ++
      " attempts to read a value whose computation kept panicking on other threads"

/-- Whether the wait of the thread was interrupted. -/
def isInterrupted : StoreError → Bool
  | .interrupted => true
  | _ => false

/-- Whether two failures are the same.  Two failed computations are when they carry the same error
object. -/
def same : StoreError → StoreError → Bool
  | .computation e, .computation e' => e.origin == e'.origin
  | .interrupted, .interrupted => true
  | .abandoned n, .abandoned n' => n == n'
  | _, _ => false

end StoreError

/-- Why a task gave no value. -/
inductive TaskError where
  | failed (text : String)
  | panicked (text : String)
  | cancelled
  deriving DecidableEq

namespace TaskError

/-- The message of a task error. -/
def message : TaskError → String
  | .failed text => "the task failed: " ++ text
  | .panicked text => "the task panicked: " ++ text
  | .cancelled => "the task was cancelled before it started"

/-- The kind of a task error. -/
def label : TaskError → String
  | .failed _ => "Failed"
  | .panicked _ => "Panicked"
  | .cancelled => "Cancelled"

/-- The kind of a task error, with its text in quotes. -/
def describe (e : TaskError) : String :=
  match e with
  | .failed text | .panicked text => Text.tagged e.label (Text.quoted text)
  | .cancelled => e.label

/-- Whether the task never ran. -/
def isCancelled : TaskError → Bool
  | .cancelled => true
  | _ => false

end TaskError

/-- A thread was interrupted while it was blocked outside a store operation. -/
def interruptedMessage : String := "the blocked thread was interrupted"

/-- A task was submitted after the shutdown. -/
def rejectedMessage : String := "the executor has been shut down and no longer accepts tasks"

/-- Why a store or an executor cannot be built. -/
inductive BuildError where
  | zeroSampleSize
  | zeroEvictionAttempts
  | zeroSegments
  | zeroPartitions
  deriving DecidableEq

/-- The name of a build error. -/
def BuildError.describe : BuildError → String
  | .zeroSampleSize => "ZeroSampleSize"
  | .zeroEvictionAttempts => "ZeroEvictionAttempts"
  | .zeroSegments => "ZeroSegments"
  | .zeroPartitions => "ZeroPartitions"

/-- The message of a build error. -/
def BuildError.message : BuildError → String
  | .zeroSampleSize => "the eviction sample size cannot be zero"
  | .zeroEvictionAttempts => "the maximum number of eviction attempts cannot be zero"
  | .zeroSegments => "the segment count cannot be zero"
  | .zeroPartitions => "the partition count cannot be zero"

end SharedCache
