import SharedCache.Script

/-!
# The state of an executor

An executor runs the tasks of each of its partitions one at a time and in the order in which they
were submitted.  A partition with work to do is handed to a pool as one job; the job runs the task
at the head of the queue, and hands the partition to the pool again if more tasks wait.

The executor is running until it is told to shut down and terminates when no partition is active any
more.  Submissions hold its phase while they put a task into a queue, so that the executor cannot
terminate in between.
-/

namespace SharedCache

/-- The phases of an executor, in the order in which they follow each other. -/
inductive Phase where
  | running
  | shuttingDown
  | terminated
  deriving DecidableEq

/-- The name of a phase. -/
def Phase.describe : Phase → String
  | .running => "Running"
  | .shuttingDown => "ShuttingDown"
  | .terminated => "Terminated"

/-- What has become of the outcome of a task. -/
inductive Delivery (V : Type) where
  /-- The task may still run. -/
  | pending
  /-- The outcome waits to be taken.  The task may still hold the end that it was sent from. -/
  | ready (outcome : Outcome V) (sending : Bool)
  /-- The outcome was taken, while the task still held the end that it was sent from. -/
  | taken
  /-- The outcome was taken, or there will never be one. -/
  | closed
  deriving DecidableEq

namespace Delivery

variable {V : Type}

/-- What is left when the outcome is taken. -/
def take : Delivery V → Delivery V
  | .ready _ true => .taken
  | .ready _ false => .closed
  | delivery => delivery

/-- What is left when the task lets go of the end that its outcome was sent from. -/
def hangUp : Delivery V → Delivery V
  | .ready outcome _ => .ready outcome false
  | .taken => .closed
  | delivery => delivery

end Delivery

/-- A task that an executor took. -/
structure Task (K V Q R : Type) where
  partition : Nat
  code : Script K V Q R
  delivery : Delivery V

/-- A partition: the tasks that wait, whether the partition is with the pool or running a task, and
the task it runs. -/
structure Partition where
  queue : List Nat
  scheduled : Bool
  running : Option Nat
  deriving DecidableEq

/-- A partition without work. -/
def Partition.idle : Partition := ⟨[], false, none⟩

/-- Whether a pool runs a job at once, on the thread that hands it over, or keeps it for later. -/
inductive PoolKind where
  | immediate
  | deferred
  deriving DecidableEq

/-- The state of an executor together with its pool and the tasks it ever took. -/
structure Executor (K V Q R : Type) where
  partitions : Array Partition
  partitions_pos : 0 < partitions.size
  pool : PoolKind
  phase : Phase
  /-- How many submissions hold the phase. -/
  holders : Nat
  /-- How many partitions are counted as scheduled. -/
  active : Nat
  /-- The flag that termination is waited for with. -/
  announced : Bool
  /-- The partitions that wait in the pool. -/
  jobs : List Nat
  /-- How many jobs are in the pool or being run. -/
  carriers : Nat
  /-- Whether the owner has not let go of the executor. -/
  owned : Bool
  tasks : Array (Task K V Q R)
  /-- The tasks that were taken out of the queues and given to the caller. -/
  handedBack : List (Nat × Nat)

namespace Executor

variable {K V Q R : Type}

/-- A new executor, which must have a partition. -/
def of (partitions : Nat) (pool : PoolKind) : Except BuildError (Executor K V Q R) :=
  if h : 0 < partitions then
    .ok {
      partitions := Array.replicate partitions Partition.idle
      partitions_pos := by simpa using h
      pool := pool
      phase := .running
      holders := 0
      active := 0
      announced := false
      jobs := []
      carriers := 0
      owned := true
      tasks := #[]
      handedBack := [] }
  else
    .error .zeroPartitions

/-- A partition by its number. -/
def partition (e : Executor K V Q R) (p : Nat) : Partition := e.partitions[p]?.getD Partition.idle

/-- Changes one partition. -/
def onPartition (e : Executor K V Q R) (p : Nat) (change : Partition → Partition) :
    Executor K V Q R :=
  { e with
    partitions := e.partitions.modify p change
    partitions_pos := by simpa using e.partitions_pos }

/-- The partition of a key that is placed at `place`. -/
def partitionOf (e : Executor K V Q R) (place : Nat) : Nat := place % e.partitions.size

/-- The number of tasks that wait. -/
def queued (e : Executor K V Q R) : Nat :=
  (e.partitions.toList.flatMap Partition.queue).length

/-- Changes what has become of a task's outcome. -/
def onDelivery (e : Executor K V Q R) (task : Nat) (change : Delivery V → Delivery V) :
    Executor K V Q R :=
  { e with tasks := e.tasks.modify task fun t => { t with delivery := change t.delivery } }

/-- Settles what has become of a task's outcome. -/
def deliver (e : Executor K V Q R) (task : Nat) (delivery : Delivery V) : Executor K V Q R :=
  e.onDelivery task fun _ => delivery

/-- Whether the outcome of a task waits to be taken. -/
def isFinished (e : Executor K V Q R) (task : Nat) : Bool :=
  match e.tasks[task]?.map Task.delivery with
  | some (.ready ..) => true
  | _ => false

/-- Lets go of the tasks in the queues where nobody is left to run them: neither an owner nor a
job.  The tasks are cancelled. -/
def settleForsaken (e : Executor K V Q R) : Executor K V Q R :=
  if e.owned || e.carriers ≠ 0 then
    e
  else
    let lost := e.partitions.toList.flatMap Partition.queue
    { lost.foldl (fun e task => e.deliver task .closed) e with
      partitions := e.partitions.map fun p => { p with queue := [] }
      partitions_pos := by simpa using e.partitions_pos }

/-- The executor as a record. -/
def describe (e : Executor K V Q R) : String :=
  Text.record "PartitionedExecutor" [
    ("partition_count", toString e.partitions.size),
    ("state", e.phase.describe),
    ("queued_len", toString e.queued)]

end Executor

/-- A handle of a task as a record. -/
def describeHandle (finished : Bool) : String :=
  Text.record "TaskHandle" [("is_finished", Text.truth finished)]

/-- A task that was handed back as a record. -/
def describeHandedBack (partition : Nat) : String :=
  Text.openRecord "PendingTask" [("partition", toString partition)]

end SharedCache
