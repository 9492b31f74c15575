import SharedCache.Executor.Turn
import SharedCache.Store.Turn
import SharedCache.Time.Clock

/-!
# The machine

A machine is a store, an executor, a clock and the interrupters that have been tripped, shared by
any number of threads.  `Machine.step` lets one thread take one step; what the step depends on
besides the state of the machine (the entries that an eviction draws, the reply to a question, the
end of a thread's patience) is a `Chance`.  A run of the machine is any sequence of such steps, so
what holds for every sequence holds for every interleaving of the threads.
-/

namespace SharedCache

/-- What the threads share. -/
structure World (K V Q R : Type) where
  store : Store K V
  executor : Executor K V Q R
  clock : Clock
  /-- The interrupters that have been tripped.  None is ever taken away. -/
  tripped : List Interrupter

/-- What the outside decides in a step. -/
structure Chance (K R : Type) where
  /-- The keys that an eviction draws. -/
  draws : List K
  /-- The reply to the thread's question. -/
  reply : Option R
  /-- Whether the thread stops waiting. -/
  timedOut : Bool

/-- A chance that gives nothing. -/
def Chance.none {K R : Type} : Chance K R := ⟨[], .none, false⟩

/-- What a step did. -/
structure Step (K V Q R : Type) where
  world : World K V Q R
  thread : Thread K V Q R
  events : List (Event K V)

variable {K V Q R : Type}

namespace World

/-- Whether an interrupter has been tripped. -/
def isTripped (w : World K V Q R) (i : Interrupter) : Bool := w.tripped.contains i

/-- Trips an interrupter, for good. -/
def trip (w : World K V Q R) (i : Interrupter) : World K V Q R :=
  { w with tripped := i :: w.tripped }

/-- Whether a thread with this binding is interrupted: the interrupter of its innermost scope has
been tripped. -/
def interrupts (w : World K V Q R) (binding : Option Interrupter) : Bool :=
  binding.any w.isTripped

/-- Moves the clock, if it can be moved that far. -/
def advance? (w : World K V Q R) (d : Duration) : Option (World K V Q R) :=
  (w.clock.advance? d).map fun clock => { w with clock := clock }

end World

namespace Thread

/-- The thread with another activity on top of more frames. -/
def goOn (t : Thread K V Q R) (activity : Activity K V Q R)
    (frames : List (Frame K V Q R)) : Thread K V Q R :=
  { t with activity := activity, stack := frames ++ t.stack }

/-- The thread without its innermost frame. -/
def popped (t : Thread K V Q R) : Thread K V Q R := { t with stack := t.stack.tail }

end Thread

namespace Step

/-- A step that touches nothing shared. -/
def apart (w : World K V Q R) (t : Thread K V Q R) (activity : Activity K V Q R)
    (frames : List (Frame K V Q R)) : Step K V Q R :=
  ⟨w, t.goOn activity frames, []⟩

/-- A step of the store. -/
def ofStore (w : World K V Q R) (t : Thread K V Q R) (turn : StoreTurn K V Q R) : Step K V Q R :=
  ⟨{ w with store := turn.state, tripped := turn.trips ++ w.tripped },
    t.goOn turn.next turn.frames, turn.events⟩

/-- A step of the executor. -/
def ofExecutor (w : World K V Q R) (t : Thread K V Q R) (turn : ExecutorTurn K V Q R) :
    Step K V Q R :=
  ⟨{ w with executor := turn.state, tripped := turn.trips ++ w.tripped },
    t.goOn turn.next turn.frames, turn.events⟩

end Step

/-- A step of a script. -/
def Script.step (settings : Settings K V Q R) (reply : Option R) (w : World K V Q R)
    (t : Thread K V Q R) : Script K V Q R → Option (Step K V Q R)
  | .finish answer => some (.apart w t (.settle (.done answer)) [])
  | .raise panic => some (.apart w t (.settle (.raised panic)) [])
  | .call operation next =>
    some (.apart w t (.keep (.round (operation.stored settings) 0)) [.calling next])
  | .order command next =>
    let (first, second) := command.stages w.executor
    let frames := (second.map fun stage => Frame.next (.dispatch stage)).toList ++ [.calling next]
    some (.apart w t (.dispatch first) frames)
  | .scope interrupter body next =>
    some (.apart w t (.enter (.named interrupter) (.code body)) [.calling next])
  | .guard body next => some (.apart w t (.code body) [.guarded next])
  | .ask _ next => reply.map fun r => .apart w t (.code (next r)) []

/-- Hands the end of an activity to the innermost frame. -/
def Frame.receive (w : World K V Q R) (t : Thread K V Q R) (signal : Signal V) :
    Frame K V Q R → Step K V Q R
  | .calling code =>
    match signal with
    | .done answer => .apart w t (.code (code answer)) []
    | .raised _ => .apart w t (.settle signal) []
  | .guarded code => .apart w t (.code (code signal)) []
  | .scoped before => .apart w { t with binding := before } (.settle signal) []
  | .next activity =>
    match signal with
    | .done _ => .apart w t activity []
    | .raised _ => .apart w t (.settle signal) []
  | .computing c => .ofStore w t (w.store.mapped c signal)
  | .listening => .ofStore w t (w.store.listened signal)
  | .tasking task => .ofExecutor w t (w.executor.delivered task signal)

/-- The next step of a thread, or `none` while it has to wait or after it has ended. -/
def Thread.step [DecidableEq K] [DecidableEq V] (settings : Settings K V Q R)
    (chance : Chance K R) (w : World K V Q R) (t : Thread K V Q R) : Option (Step K V Q R) :=
  match t.activity with
  | .code script => script.step settings chance.reply w t
  | .enter interrupter inside =>
    some (.apart w { t with binding := some interrupter } inside [.scoped t.binding])
  | .settle signal =>
    match t.stack with
    | [] => none
    | frame :: _ => some (frame.receive w t.popped signal)
  | .keep stage =>
    (stage.turn settings w.store w.clock.now (w.interrupts t.binding) chance.draws).map
      (.ofStore w t)
  | .dispatch stage =>
    (stage.turn w.executor (w.interrupts t.binding) chance.timedOut).map (.ofExecutor w t)

/-- A world and its threads. -/
structure Machine (K V Q R : Type) where
  world : World K V Q R
  threads : Array (Thread K V Q R)

namespace Machine

/-- Adds a thread. -/
def spawn (m : Machine K V Q R) (t : Thread K V Q R) : Machine K V Q R :=
  { m with threads := m.threads.push t }

/-- Lets one thread take one step.  The answer is `none` if the thread cannot. -/
def step [DecidableEq K] [DecidableEq V] (settings : Settings K V Q R) (chance : Chance K R)
    (thread : Nat) (m : Machine K V Q R) : Option (Machine K V Q R × List (Event K V)) := do
  let t ← m.threads[thread]?
  let s ← t.step settings chance m.world
  return (⟨s.world, m.threads.setIfInBounds thread s.thread⟩, s.events)

/-- The draws of a full scan: every entry. -/
def scan (m : Machine K V Q R) : List K := m.world.store.map.entries.map Prod.fst

end Machine

end SharedCache
