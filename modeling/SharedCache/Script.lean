import SharedCache.Failure

/-!
# Scripts

The code that calls a store and an executor, and that they call back: mapping functions, tasks,
listeners.  A script is a tree of what the code does next, so it always comes to an end, while each
of its steps may depend on every answer received so far.  Besides calling operations a script can
run a part of itself in an interrupt scope, catch the panic of a part, and ask its surroundings a
question, whose answer is outside the reach of the library.

`K` and `V` are the types of keys and values; `Q` and `R` are those of the questions that scripts
ask their surroundings and of the replies.
-/

namespace SharedCache

/-- How a task ended: with a value or for a reason not to have one. -/
inductive Outcome (V : Type) where
  | returned (value : Option V)
  | lost (error : TaskError)
  deriving DecidableEq

/-- What an operation answers, or code returns. -/
inductive Answer (V : Type) where
  | unit
  | value (v : Option V)
  | flag (b : Bool)
  /-- A store operation failed. -/
  | failed (error : StoreError)
  /-- Code that was called back returned an error. -/
  | complaint (text : String)
  /-- The executor takes no more tasks. -/
  | rejected
  /-- The executor took the task and gave it this number. -/
  | accepted (task : Nat)
  /-- Tasks that were never started, each with its partition. -/
  | handedBack (tasks : List (Nat × Nat))
  /-- A wait was interrupted. -/
  | interrupted
  /-- A wait took too long. -/
  | timedOut
  /-- A task is over. -/
  | outcome (o : Outcome V)
  deriving DecidableEq

/-- How a piece of code ended. -/
inductive Signal (V : Type) where
  | done (answer : Answer V)
  | raised (panic : Panic)
  deriving DecidableEq

mutual

/-- What a piece of code does. -/
inductive Script (K V Q R : Type) : Type where
  | finish (answer : Answer V)
  | raise (panic : Panic)
  | call (operation : Operation K V Q R) (next : Answer V → Script K V Q R)
  | order (command : Command K V Q R) (next : Answer V → Script K V Q R)
  /-- Runs `body` in the scope of an interrupter. -/
  | scope (interrupter : Nat) (body : Script K V Q R) (next : Answer V → Script K V Q R)
  /-- Runs `body` and goes on however it ends. -/
  | guard (body : Script K V Q R) (next : Signal V → Script K V Q R)
  | ask (question : Q) (next : R → Script K V Q R)

/-- An operation of the store. -/
inductive Operation (K V Q R : Type) : Type where
  | get (key : K)
  | contains (key : K)
  | put (key : K) (value : V)
  | putIfAbsent (key : K) (value : V)
  | replace (key : K) (value : V)
  | replaceIfEqual (key : K) (expected value : V)
  | remove (key : K)
  | removeIfEqual (key : K) (expected : V)
  | clear
  | computeIfAbsent (key : K) (mapping : K → Script K V Q R)
  | compute (key : K) (remapping : K → Option V → Script K V Q R)
  | computeIfPresent (key : K) (remapping : K → V → Script K V Q R)

/-- What an executor, or a handle of a task, is told to do. -/
inductive Command (K V Q R : Type) : Type where
  | submit (partition : Nat) (task : Script K V Q R)
  | shutdown
  | shutdownNow
  | awaitTermination
  /-- Waits for the outcome of a task and takes it. -/
  | join (task : Nat)
  /-- Takes a job out of the pool and runs it on this thread. -/
  | runJob (position : Nat)
  /-- Takes a job out of the pool and forgets it. -/
  | loseJob (position : Nat)
  /-- Runs a task that was handed back. -/
  | runHandedBack (task : Nat)
  /-- Forgets a task that was handed back. -/
  | dropHandedBack (task : Nat)
  /-- Lets go of the executor. -/
  | letGo

end

/-- What a mapping function gave: a value or nothing. -/
def Answer.value? {V : Type} : Answer V → Option V
  | .value v => v
  | _ => none

end SharedCache
