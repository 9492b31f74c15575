import SharedCache.Executor.State
import SharedCache.Thread

/-!
# The steps of an executor

`Dispatch.turn` is what an executor operation or a job does in one step: it takes the state of the
executor, the state of the thread's interrupter and whether the thread's patience has ended, and
gives the new state and the next activity of the thread, or `none` while it has to wait.

The steps of a submission are apart from each other, and so are the two looks at the phase before
the executor terminates: other threads may come in between.
-/

namespace SharedCache

/-- What a step does to an executor. -/
abbrev ExecutorTurn (K V Q R : Type) := Turn (Executor K V Q R) K V Q R

variable {K V Q R : Type}

namespace Executor

/-! ## Submitting -/

/-- Only a running executor takes tasks.  The phase is held until the task is counted. -/
def accept (e : Executor K V Q R) (p : Nat) (code : Script K V Q R) : ExecutorTurn K V Q R :=
  if e.phase = .running then
    .goTo { e with holders := e.holders + 1 } (.dispatch (.enqueue p code))
  else
    .answer e .rejected

/-- The partition is scheduled from now on.  Whoever finds it unscheduled hands it to the pool. -/
def enqueue (e : Executor K V Q R) (p : Nat) (code : Script K V Q R) : ExecutorTurn K V Q R :=
  let task := e.tasks.size
  let stage : Dispatch K V Q R :=
    if (e.partition p).scheduled then .unlock p task false else .activate p task
  let e := e.onPartition p fun partition =>
    { partition with queue := partition.queue ++ [task], scheduled := true }
  let e := { e with tasks := e.tasks.push ⟨p, code, .pending⟩ }
  (Turn.goTo e (.dispatch stage)).after [.submitted p task]

/-- A partition is counted as active before the phase is let go. -/
def activate (e : Executor K V Q R) (p task : Nat) : ExecutorTurn K V Q R :=
  .goTo { e with active := e.active + 1 } (.dispatch (.unlock p task true))

/-- The phase is let go before the partition is handed over, since the pool may run the job at
once. -/
def unlock (e : Executor K V Q R) (p task : Nat) (handOver : Bool) : ExecutorTurn K V Q R :=
  let e := { e with holders := e.holders - 1 }
  if handOver then
    (Turn.goTo e (.dispatch (.schedule p))).andThen (.settle (.done (.accepted task)))
  else
    .answer e (.accepted task)

/-! ## Running a job -/

/-- An immediate pool runs the job at once, a deferred one keeps it. -/
def schedule (e : Executor K V Q R) (p : Nat) : ExecutorTurn K V Q R :=
  let e := { e with carriers := e.carriers + 1 }
  let turn : ExecutorTurn K V Q R :=
    match e.pool with
    | .immediate => (Turn.goTo e (.dispatch (.start p))).andThen (.dispatch .retire)
    | .deferred => .answer { e with jobs := e.jobs ++ [p] } .unit
  turn.after [.scheduled p]

/-- A task starts in the scope of its own interrupter.  A queue that was drained meanwhile leaves
the partition unscheduled. -/
def start (e : Executor K V Q R) (p : Nat) : ExecutorTurn K V Q R :=
  match (e.partition p).queue with
  | [] => .goTo (e.onPartition p fun partition => { partition with scheduled := false })
      (.dispatch .idle)
  | task :: rest =>
    let e := e.onPartition p fun partition =>
      { partition with queue := rest, running := some task }
    ((Turn.goTo e (.enter (.ofTask task) (.dispatch (.run task)))).andThen
      (.dispatch (.finish p))).after [.started p task]

/-- Runs the code of a task. -/
def run (e : Executor K V Q R) (task : Nat) : ExecutorTurn K V Q R :=
  match e.tasks[task]? with
  | none => .answer e .unit
  | some t => (Turn.goTo e (.code t.code)).above (.tasking task)

/-- The code of a task has ended, and its outcome is sent.  A panic of it goes no further. -/
def delivered (e : Executor K V Q R) (task : Nat) (signal : Signal V) : ExecutorTurn K V Q R :=
  let turn (outcome : Outcome V) : ExecutorTurn K V Q R :=
    (Turn.goTo (e.deliver task (.ready outcome true)) (.dispatch (.hangUp task))).after
      [.delivered task]
  match signal with
  | .done (.complaint text) => turn (.lost (.failed text))
  | .done answer => turn (.returned answer.value?)
  | .raised p => (turn (.lost (.panicked p.message))).after [.logged (.taskPanicked p)]

/-- The task lets go of the end that its outcome was sent from. -/
def hangUp (e : Executor K V Q R) (task : Nat) : ExecutorTurn K V Q R :=
  .answer (e.onDelivery task .hangUp) .unit

/-- The partition goes back to the pool if more tasks wait. -/
def finish (e : Executor K V Q R) (p : Nat) : ExecutorTurn K V Q R :=
  if (e.partition p).queue.isEmpty then
    .goTo (e.onPartition p fun partition => { partition with running := none, scheduled := false })
      (.dispatch .idle)
  else
    .goTo (e.onPartition p fun partition => { partition with running := none })
      (.dispatch (.schedule p))

/-- Whoever counts the last partition down looks whether the executor can terminate. -/
def idle (e : Executor K V Q R) : ExecutorTurn K V Q R :=
  let rest := { e with active := e.active - 1 }
  if e.active = 1 then .goTo rest (.dispatch .conclude) else .answer rest .unit

/-- A job is over, whatever it did. -/
def retire (e : Executor K V Q R) : ExecutorTurn K V Q R :=
  .answer { e with carriers := e.carriers - 1 }.settleForsaken .unit

/-- Runs a job of a deferred pool, if there is one at the position. -/
def takeJob (e : Executor K V Q R) (position : Nat) : ExecutorTurn K V Q R :=
  match e.jobs[position]? with
  | none => .answer e (.flag false)
  | some p =>
    ((Turn.goTo { e with jobs := e.jobs.eraseIdx position } (.dispatch (.start p))).andThen
      (.dispatch .retire)).andThen (.settle (.done (.flag true)))

/-- Forgets a job of a deferred pool.  Its partition stays scheduled for good. -/
def loseJob (e : Executor K V Q R) (position : Nat) : ExecutorTurn K V Q R :=
  if position < e.jobs.length then
    let e := { e with jobs := e.jobs.eraseIdx position, carriers := e.carriers - 1 }
    .answer e.settleForsaken (.flag true)
  else
    .answer e (.flag false)

/-! ## Shutting down -/

/-- Whether the executor was told to shut down and no partition is active. -/
def canTerminate (e : Executor K V Q R) : Bool :=
  e.phase = .shuttingDown && e.active = 0

/-- The first look at the phase and the count. -/
def conclude (e : Executor K V Q R) : ExecutorTurn K V Q R :=
  if e.canTerminate then .goTo e (.dispatch .terminate) else .answer e .unit

/-- The second look, and the last change of the phase. -/
def terminate (e : Executor K V Q R) : ExecutorTurn K V Q R :=
  if e.canTerminate then .goTo { e with phase := .terminated } (.dispatch .announce)
  else .answer e .unit

/-- Wakes up those who wait for the termination. -/
def announce (e : Executor K V Q R) : ExecutorTurn K V Q R :=
  (Turn.answer { e with announced := true } .unit).after [.logged .terminated]

/-- Only the first shutdown counts. -/
def shutdown (e : Executor K V Q R) : ExecutorTurn K V Q R :=
  if e.phase = .running then
    let next : ExecutorTurn K V Q R := .goTo { e with phase := .shuttingDown } (.dispatch .conclude)
    next.after [.logged .shuttingDown]
  else
    .answer e .unit

/-- Takes the tasks out of one queue and trips the interrupter of the task that the partition
runs. -/
def drain (e : Executor K V Q R) (p : Nat) (taken : List (Nat × Nat)) : ExecutorTurn K V Q R :=
  if p < e.partitions.size then
    let partition := e.partition p
    let waiting := partition.queue.map fun task => (p, task)
    let e := e.onPartition p fun partition => { partition with queue := [] }
    let e := { e with handedBack := e.handedBack ++ waiting }
    let turn : ExecutorTurn K V Q R := .goTo e (.dispatch (.drain (p + 1) (taken ++ waiting)))
    { turn with
      events := waiting.map fun entry => .handedBack entry.1 entry.2
      trips := partition.running.toList.map .ofTask }
  else
    (Turn.answer e (.handedBack taken)).after [.logged (.drained taken.length)]

/-- The owner is gone. -/
def release (e : Executor K V Q R) : ExecutorTurn K V Q R :=
  .answer { e with owned := false }.settleForsaken .unit

/-! ## Tasks that were handed back -/

/-- Whether a task was handed back and has been neither run nor dropped. -/
def isHandedBack (e : Executor K V Q R) (task : Nat) : Bool :=
  e.handedBack.any fun entry => entry.2 == task

/-- Takes a task from those that were handed back. -/
def takeFromHandedBack (e : Executor K V Q R) (task : Nat) : Executor K V Q R :=
  { e with handedBack := e.handedBack.filter fun entry => entry.2 != task }

/-- Runs a task that was handed back, once, in the scope that the thread is in. -/
def takeBack (e : Executor K V Q R) (task : Nat) : ExecutorTurn K V Q R :=
  if e.isHandedBack task then
    (Turn.goTo (e.takeFromHandedBack task) (.dispatch (.run task))).andThen
      (.settle (.done (.flag true)))
  else
    .answer e (.flag false)

/-- Drops a task that was handed back.  Its outcome will never come. -/
def cancel (e : Executor K V Q R) (task : Nat) : ExecutorTurn K V Q R :=
  if e.isHandedBack task then
    .answer ((e.takeFromHandedBack task).deliver task .closed) (.flag true)
  else
    .answer e (.flag false)

/-! ## Waiting -/

/-- An interruption counts only while the termination has not come. -/
def await (e : Executor K V Q R) (interrupted timedOut : Bool) : Option (ExecutorTurn K V Q R) :=
  if e.announced then some (.answer e (.flag true))
  else if interrupted then some (.answer e .interrupted)
  else if timedOut then some (.answer e (.flag false))
  else none

/-- The outcome of a task is handed out once.  Where there is none, the wait goes on as long as
another one could be sent. -/
def join (e : Executor K V Q R) (task : Nat) (timedOut : Bool) : Option (ExecutorTurn K V Q R) :=
  match e.tasks[task]?.map Task.delivery with
  | some (.ready outcome _) => some (.answer (e.onDelivery task .take) (.outcome outcome))
  | some .pending | some .taken => if timedOut then some (.answer e .timedOut) else none
  | some .closed | none => some (.answer e (.outcome (.lost .cancelled)))

end Executor

/-- The next step of an executor operation or a job, or `none` while it has to wait. -/
def Dispatch.turn (e : Executor K V Q R) (interrupted timedOut : Bool) :
    Dispatch K V Q R → Option (ExecutorTurn K V Q R)
  | .accept p code => some (e.accept p code)
  | .enqueue p code => some (e.enqueue p code)
  | .activate p task => some (e.activate p task)
  | .unlock p task handOver => some (e.unlock p task handOver)
  | .schedule p => some (e.schedule p)
  | .start p => some (e.start p)
  | .run task => some (e.run task)
  | .hangUp task => some (e.hangUp task)
  | .finish p => some (e.finish p)
  | .idle => some e.idle
  | .conclude => some e.conclude
  | .terminate => if e.holders = 0 then some e.terminate else none
  | .announce => some e.announce
  | .shutdown => if e.holders = 0 then some e.shutdown else none
  | .drain p taken => some (e.drain p taken)
  | .retire => some e.retire
  | .takeJob position => some (e.takeJob position)
  | .loseJob position => some (e.loseJob position)
  | .takeBack task => some (e.takeBack task)
  | .cancel task => some (e.cancel task)
  | .release => some e.release
  | .await => e.await interrupted timedOut
  | .join task => e.join task timedOut

/-- How a command begins, and what is done after that. -/
def Command.stages (e : Executor K V Q R) :
    Command K V Q R → Dispatch K V Q R × Option (Dispatch K V Q R)
  | .submit place code => (.accept (e.partitionOf place) code, none)
  | .shutdown => (.shutdown, none)
  | .shutdownNow => (.shutdown, some (.drain 0 []))
  | .awaitTermination => (.await, none)
  | .join task => (.join task, none)
  | .runJob position => (.takeJob position, none)
  | .loseJob position => (.loseJob position, none)
  | .runHandedBack task => (.takeBack task, none)
  | .dropHandedBack task => (.cancel task, none)
  | .letGo => (.shutdown, some .release)

end SharedCache
