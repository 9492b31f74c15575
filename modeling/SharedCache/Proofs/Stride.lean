import SharedCache.Proofs.Executor.Sections
import SharedCache.Proofs.Run

/-!
# Strides

What one step of a thread can be.  Scripts and executors only ever put plain activities and plain
frames on a thread: none that belongs to an operation of the store in progress.  `Thread.stride`
says which kinds of steps are left, and every statement about the course of a run goes through it:
the activities and frames that matter change only in the sections of the store.
-/

namespace SharedCache

variable {K V Q R : Type}

/-! ## Turns -/

namespace Turn

variable {σ α : Type} (s : σ) (a next : Activity K V Q R) (t : Turn σ K V Q R)
  (answer : Answer V) (p : Panic) (frame : Frame K V Q R) (events : List (Event K V))

@[simp]
theorem state_goTo : (goTo s a).state = s := rfl

@[simp]
theorem next_goTo : (goTo s a).next = a := rfl

@[simp]
theorem frames_goTo : (goTo s a).frames = [] := rfl

@[simp]
theorem events_goTo : (goTo s a).events = [] := rfl

@[simp]
theorem state_answer : (Turn.answer s answer : Turn σ K V Q R).state = s := rfl

@[simp]
theorem next_answer : (Turn.answer s answer : Turn σ K V Q R).next = .settle (.done answer) := rfl

@[simp]
theorem frames_answer : (Turn.answer s answer : Turn σ K V Q R).frames = [] := rfl

@[simp]
theorem events_answer : (Turn.answer s answer : Turn σ K V Q R).events = [] := rfl

@[simp]
theorem state_panic : (Turn.panic s p : Turn σ K V Q R).state = s := rfl

@[simp]
theorem next_panic : (Turn.panic s p : Turn σ K V Q R).next = .settle (.raised p) := rfl

@[simp]
theorem frames_panic : (Turn.panic s p : Turn σ K V Q R).frames = [] := rfl

@[simp]
theorem events_panic : (Turn.panic s p : Turn σ K V Q R).events = [] := rfl

@[simp]
theorem state_after : (t.after events).state = t.state := rfl

@[simp]
theorem next_after : (t.after events).next = t.next := rfl

@[simp]
theorem frames_after : (t.after events).frames = t.frames := rfl

@[simp]
theorem events_after : (t.after events).events = events ++ t.events := rfl

@[simp]
theorem state_andThen : (t.andThen next).state = t.state := rfl

@[simp]
theorem next_andThen : (t.andThen next).next = t.next := rfl

@[simp]
theorem frames_andThen : (t.andThen next).frames = t.frames ++ [.next next] := rfl

@[simp]
theorem events_andThen : (t.andThen next).events = t.events := rfl

@[simp]
theorem state_above : (t.above frame).state = t.state := rfl

@[simp]
theorem next_above : (t.above frame).next = t.next := rfl

@[simp]
theorem frames_above : (t.above frame).frames = t.frames ++ [frame] := rfl

@[simp]
theorem events_above : (t.above frame).events = t.events := rfl

/-- A property that does not look at the events holds after a consultation if it holds however the
consultation ends. -/
theorem consulting_induction {P : Turn σ K V Q R → Prop} {c : Consultation K V α}
    {failed : Panic → Turn σ K V Q R} {next : α → Turn σ K V Q R}
    (hevents : ∀ t events, P t → P (t.after events))
    (hfailed : ∀ p, c.result = .error p → P (failed p))
    (hnext : ∀ a, c.result = .ok a → P (next a)) : P (consulting c failed next) := by
  rw [consulting]
  cases hresult : c.result with
  | ok a => exact hevents _ _ (hnext a hresult)
  | error p => exact hevents _ _ (hfailed p hresult)

end Turn

/-! ## Plain activities and frames -/

/-- An activity is plain when it is no part of a store operation in progress. -/
def Activity.IsPlain : Activity K V Q R → Prop
  | .code _ | .settle _ | .dispatch _ => True
  | .enter _ inside => inside.IsPlain
  | .keep _ => False

/-- A frame is plain when no store operation waits in it. -/
def Frame.IsPlain : Frame K V Q R → Prop
  | .calling _ | .guarded _ | .scoped _ | .tasking _ => True
  | .next activity => activity.IsPlain
  | .computing _ | .listening => False

/-- A thread is plain while it carries out no operation of the store. -/
def Thread.IsPlain (t : Thread K V Q R) : Prop :=
  t.activity.IsPlain ∧ ∀ frame ∈ t.stack, frame.IsPlain

/-- Whether an event is one of an executor. -/
def Event.isExecutors : Event K V → Bool
  | .submitted .. | .scheduled _ | .started .. | .delivered _ | .handedBack .. | .logged _ => true
  | _ => false

/-- Whether an interrupter belongs to a task of an executor. -/
def Interrupter.isOfTask : Interrupter → Bool
  | .ofTask _ => true
  | .named _ => false

/-- Whether a frame is the end of a scope. -/
def Frame.isScoped : Frame K V Q R → Bool
  | .scoped _ => true
  | _ => false

/-- A turn of an executor leaves nothing on the thread that belongs to a store operation, ends no
scope, and trips the interrupters of tasks only. -/
structure Turn.IsPlain {σ : Type} (t : Turn σ K V Q R) : Prop where
  next : t.next.IsPlain
  frames : ∀ frame ∈ t.frames, frame.IsPlain ∧ frame.isScoped = false
  events : ∀ event ∈ t.events, event.isExecutors = true
  trips : ∀ i ∈ t.trips, i.isOfTask = true

section Plain

@[simp]
theorem Activity.isPlain_code (script : Script K V Q R) :
    (Activity.code script).IsPlain := trivial

@[simp]
theorem Activity.isPlain_settle (signal : Signal V) :
    (Activity.settle signal : Activity K V Q R).IsPlain := trivial

@[simp]
theorem Activity.isPlain_dispatch (stage : Dispatch K V Q R) :
    (Activity.dispatch stage).IsPlain := trivial

@[simp]
theorem Activity.isPlain_enter (i : Interrupter) (inside : Activity K V Q R) :
    (Activity.enter i inside).IsPlain ↔ inside.IsPlain := Iff.rfl

@[simp]
theorem Frame.isPlain_tasking (task : Nat) : (Frame.tasking task : Frame K V Q R).IsPlain :=
  trivial

@[simp]
theorem Frame.isPlain_next (a : Activity K V Q R) : (Frame.next a).IsPlain ↔ a.IsPlain := Iff.rfl

variable {σ : Type} {s : σ} {a : Activity K V Q R} {t : Turn σ K V Q R} {frame : Frame K V Q R}
  {events : List (Event K V)}

theorem Activity.IsPlain.ne_keep (ha : a.IsPlain) (stage : Stage K V Q R) : a ≠ .keep stage := by
  rintro rfl
  exact ha

theorem Turn.isPlain_goTo (ha : a.IsPlain) : (Turn.goTo s a).IsPlain :=
  ⟨ha, by simp, by simp, by simp [Turn.goTo]⟩

theorem Turn.isPlain_dispatch (stage : Dispatch K V Q R) :
    (Turn.goTo s (.dispatch stage)).IsPlain :=
  isPlain_goTo (Activity.isPlain_dispatch stage)

theorem Turn.isPlain_answer (answer : Answer V) :
    (Turn.answer s answer : Turn σ K V Q R).IsPlain :=
  isPlain_goTo (Activity.isPlain_settle _)

theorem Turn.IsPlain.above (ht : t.IsPlain) (hframe : frame.IsPlain ∧ frame.isScoped = false) :
    (t.above frame).IsPlain := by
  refine ⟨ht.next, fun found hfound => ?_, ht.events, ht.trips⟩
  rcases List.mem_append.mp hfound with hold | hnew
  · exact ht.frames found hold
  · rw [List.mem_singleton.mp hnew]
    exact hframe

theorem Turn.IsPlain.andThen (ht : t.IsPlain) (ha : a.IsPlain) : (t.andThen a).IsPlain :=
  ht.above ⟨ha, rfl⟩

theorem Turn.IsPlain.after (ht : t.IsPlain)
    (hevents : ∀ event ∈ events, event.isExecutors = true) : (t.after events).IsPlain := by
  refine ⟨ht.next, ht.frames, fun event hevent => ?_, ht.trips⟩
  rcases List.mem_append.mp hevent with hnew | hold
  · exact hevents event hnew
  · exact ht.events event hold

end Plain

theorem Executor.isPlain_delivered (e : Executor K V Q R) (task : Nat) (signal : Signal V) :
    (e.delivered task signal).IsPlain := by
  have hturn : ∀ outcome : Outcome V, ((Turn.goTo (e.deliver task (.ready outcome true))
      (.dispatch (.hangUp task)) : ExecutorTurn K V Q R).after [.delivered task]).IsPlain :=
    fun outcome => (Turn.isPlain_dispatch _).after (by simp [Event.isExecutors])
  simp only [delivered]
  split
  · exact hturn _
  · exact hturn _
  · exact (hturn _).after (by simp [Event.isExecutors])

theorem Dispatch.isPlain_turn {e : Executor K V Q R} {interrupted timedOut : Bool}
    {d : Dispatch K V Q R} {turn : ExecutorTurn K V Q R}
    (hturn : d.turn e interrupted timedOut = some turn) : turn.IsPlain := by
  cases Dispatch.sections hturn with
  | accepts | activates | lacks | finishes | resumes | idlesLast | concludes | terminates =>
    exact Turn.isPlain_dispatch _
  | enqueues | awakens | shuts =>
    exact (Turn.isPlain_dispatch _).after (by simp [Event.isExecutors])
  | proceeds | takesBack => exact (Turn.isPlain_dispatch _).andThen trivial
  | hands =>
    exact ((Turn.isPlain_dispatch _).andThen (Activity.isPlain_dispatch _)).after
      (by simp [Event.isExecutors])
  | @starts _ task =>
    have hrun : (Activity.enter (.ofTask task) (.dispatch (.run task)) :
        Activity K V Q R).IsPlain := trivial
    exact ((Turn.isPlain_goTo hrun).andThen (Activity.isPlain_dispatch _)).after
      (by simp [Event.isExecutors])
  | runs => exact (Turn.isPlain_goTo (Activity.isPlain_code _)).above ⟨trivial, rfl⟩
  | takes =>
    exact ((Turn.isPlain_dispatch _).andThen (Activity.isPlain_dispatch _)).andThen
      (Activity.isPlain_settle _)
  | stores | announces | drainsNothing =>
    exact (Turn.isPlain_answer _).after (by simp [Event.isExecutors])
  | drains =>
    exact ⟨trivial, by simp [Executor.draining], by simp [Executor.draining, Event.isExecutors],
      by simp [Executor.draining, Interrupter.isOfTask]⟩
  | _ => exact Turn.isPlain_answer _

/-! ## Strides -/

/-- What a step of a thread can be.

The first three kinds put something on the thread, the next four hand the end of an activity to a
frame, and the last one is a section of a store operation. -/
inductive Thread.Stride [DecidableEq K] [DecidableEq V] (settings : Settings K V Q R)
    (w : World K V Q R) (t : Thread K V Q R) : Step K V Q R → Prop where
  /-- A script or an executor does something that is no concern of the store. -/
  | works {w' : World K V Q R} {a : Activity K V Q R} {frames : List (Frame K V Q R)}
      {binding : Option Interrupter} {events : List (Event K V)} :
      t.activity.IsPlain → (∀ signal, t.activity ≠ .settle signal) →
      (∀ operation code, t.activity ≠ .code (.call operation code)) → w'.store = w.store →
      a.IsPlain → (∀ frame ∈ frames, frame.IsPlain) →
      (∀ event ∈ events, event.isExecutors = true) →
      Stride settings w t ⟨w', ⟨a, frames ++ t.stack, binding⟩, events⟩
  /-- A script calls an operation of the store. -/
  | calls {operation : Operation K V Q R} {code : Answer V → Script K V Q R} :
      t.activity = .code (.call operation code) →
      Stride settings w t
        ⟨w, ⟨.keep (.round (operation.stored settings) 0), .calling code :: t.stack, t.binding⟩, []⟩
  | enters {i : Interrupter} {inside : Activity K V Q R} :
      t.activity = .enter i inside →
      Stride settings w t ⟨w, ⟨inside, .scoped t.binding :: t.stack, some i⟩, []⟩
  /-- A plain frame takes the end of an activity. -/
  | returns {signal : Signal V} {frame : Frame K V Q R} {rest : List (Frame K V Q R)}
      {w' : World K V Q R} {a : Activity K V Q R} {binding : Option Interrupter}
      {events : List (Event K V)} :
      t.activity = .settle signal → t.stack = frame :: rest → frame.IsPlain →
      (∀ activity, frame ≠ .next activity) → w'.store = w.store → a.IsPlain →
      (∀ event ∈ events, event.isExecutors = true) →
      Stride settings w t ⟨w', ⟨a, rest, binding⟩, events⟩
  /-- What was put off is done. -/
  | proceeds {answer : Answer V} {a : Activity K V Q R} {rest : List (Frame K V Q R)} :
      t.activity = .settle (.done answer) → t.stack = .next a :: rest →
      Stride settings w t ⟨w, ⟨a, rest, t.binding⟩, []⟩
  /-- What was put off is given up. -/
  | unwinds {panic : Panic} {a : Activity K V Q R} {rest : List (Frame K V Q R)} :
      t.activity = .settle (.raised panic) → t.stack = .next a :: rest →
      Stride settings w t ⟨w, ⟨.settle (.raised panic), rest, t.binding⟩, []⟩
  | mapped {signal : Signal V} {c : Computation K V Q R} {rest : List (Frame K V Q R)} :
      t.activity = .settle signal → t.stack = .computing c :: rest →
      Stride settings w t (.ofStore w t.popped (w.store.mapped c signal))
  | listened {signal : Signal V} {rest : List (Frame K V Q R)} :
      t.activity = .settle signal → t.stack = .listening :: rest →
      Stride settings w t (.ofStore w t.popped (w.store.listened signal))
  | keeps {stage : Stage K V Q R} {draws : List K} {turn : StoreTurn K V Q R} :
      t.activity = .keep stage →
      stage.turn settings w.store w.clock.now (w.interrupts t.binding) draws = some turn →
      Stride settings w t (.ofStore w t turn)

section Stride

variable [DecidableEq K] [DecidableEq V] {settings : Settings K V Q R} {w : World K V Q R}
  {t : Thread K V Q R} {s : Step K V Q R}

theorem Thread.stride_of_script {script : Script K V Q R} {reply : Option R}
    (hactivity : t.activity = .code script) (hstep : script.step settings reply w t = some s) :
    t.Stride settings w s := by
  have hplain : t.activity.IsPlain := hactivity ▸ trivial
  have hno : ∀ signal, t.activity ≠ .settle signal := by simp [hactivity]
  have hcall : (∀ operation code, script ≠ .call operation code) →
      ∀ operation code, t.activity ≠ .code (.call operation code) := by
    simp [hactivity]
  cases script with
  | finish answer =>
    obtain rfl := Option.some.inj hstep
    exact .works hplain hno (hcall (by simp)) rfl trivial (by simp) (by simp)
  | raise panic =>
    obtain rfl := Option.some.inj hstep
    exact .works hplain hno (hcall (by simp)) rfl trivial (by simp) (by simp)
  | call operation code =>
    obtain rfl := Option.some.inj hstep
    exact .calls hactivity
  | order command code =>
    obtain rfl := Option.some.inj hstep
    refine .works hplain hno (hcall (by simp)) rfl trivial (fun frame hframe => ?_) (by simp)
    rcases List.mem_append.mp hframe with hnext | hcalling
    · obtain ⟨stage, -, rfl⟩ := Option.map_eq_some_iff.mp (Option.mem_toList.mp hnext)
      trivial
    · rw [List.mem_singleton.mp hcalling]
      trivial
  | scope interrupter body code =>
    obtain rfl := Option.some.inj hstep
    exact .works hplain hno (hcall (by simp)) rfl trivial (by simp [Frame.IsPlain]) (by simp)
  | guard body code =>
    obtain rfl := Option.some.inj hstep
    exact .works hplain hno (hcall (by simp)) rfl trivial (by simp [Frame.IsPlain]) (by simp)
  | ask question code =>
    obtain ⟨r, -, rfl⟩ := Option.map_eq_some_iff.mp hstep
    exact .works hplain hno (hcall (by simp)) rfl trivial (by simp) (by simp)

theorem Thread.stride_of_signal {signal : Signal V} {frame : Frame K V Q R}
    {rest : List (Frame K V Q R)} (hactivity : t.activity = .settle signal)
    (hstack : t.stack = frame :: rest) : t.Stride settings w (frame.receive w t.popped signal) := by
  obtain ⟨activity, stack, binding⟩ := t
  obtain rfl : activity = .settle signal := hactivity
  obtain rfl : stack = frame :: rest := hstack
  cases frame with
  | calling code =>
    cases signal with
    | done answer => exact .returns rfl rfl trivial (by simp) rfl trivial (by simp)
    | raised panic => exact .returns rfl rfl trivial (by simp) rfl trivial (by simp)
  | guarded code => exact .returns rfl rfl trivial (by simp) rfl trivial (by simp)
  | «scoped» before => exact .returns rfl rfl trivial (by simp) rfl trivial (by simp)
  | next activity =>
    cases signal with
    | done answer => exact .proceeds rfl rfl
    | raised panic => exact .unwinds rfl rfl
  | computing c => exact .mapped rfl rfl
  | listening => exact .listened rfl rfl
  | tasking task =>
    have hplain := w.executor.isPlain_delivered task signal
    have hframes : (w.executor.delivered task signal).frames = [] := by
      simp only [Executor.delivered]
      split <;> rfl
    have hstep : Step.ofExecutor w (Thread.popped ⟨.settle signal, .tasking task :: rest, binding⟩)
        (w.executor.delivered task signal) =
        ⟨{ w with
            executor := (w.executor.delivered task signal).state
            tripped := (w.executor.delivered task signal).trips ++ w.tripped },
          ⟨(w.executor.delivered task signal).next, rest, binding⟩,
          (w.executor.delivered task signal).events⟩ := by
      simp [Step.ofExecutor, Thread.goOn, Thread.popped, hframes]
    rw [Frame.receive, hstep]
    exact .returns rfl rfl trivial (by simp) rfl hplain.next hplain.events

/-- Every step of a thread is one of the kinds. -/
theorem Thread.stride {chance : Chance K R} (hstep : t.step settings chance w = some s) :
    t.Stride settings w s := by
  rw [Thread.step] at hstep
  split at hstep
  · exact stride_of_script ‹_› hstep
  · obtain rfl := Option.some.inj hstep
    exact .enters ‹_›
  · split at hstep
    · cases hstep
    · obtain rfl := Option.some.inj hstep
      exact stride_of_signal ‹_› ‹_›
  · obtain ⟨turn, hturn, rfl⟩ := Option.map_eq_some_iff.mp hstep
    exact .keeps ‹_› hturn
  · obtain ⟨turn, hturn, rfl⟩ := Option.map_eq_some_iff.mp hstep
    have hplain := Dispatch.isPlain_turn hturn
    have hactivity : t.activity = .dispatch _ := ‹_›
    exact .works (hactivity ▸ trivial) (by simp [hactivity]) (by simp [hactivity]) rfl hplain.next
      (fun frame hframe => (hplain.frames frame hframe).1) hplain.events

/-- A step in a section of a store operation is the turn of that section. -/
theorem Thread.Stride.turn_of_keep (hstride : t.Stride settings w s) {stage : Stage K V Q R}
    (hactivity : t.activity = .keep stage) : ∃ turn draws,
      stage.turn settings w.store w.clock.now (w.interrupts t.binding) draws = some turn ∧
        s = .ofStore w t turn := by
  cases hstride with
  | @keeps other draws turn hother hturn =>
    obtain rfl := Activity.keep.inj (hother.symm.trans hactivity)
    exact ⟨turn, draws, hturn, rfl⟩
  | works hplain => exact absurd hactivity (hplain.ne_keep _)
  | calls hcall => cases hcall.symm.trans hactivity
  | enters henter => cases henter.symm.trans hactivity
  | returns hsettled => cases hsettled.symm.trans hactivity
  | proceeds hsettled => cases hsettled.symm.trans hactivity
  | unwinds hsettled => cases hsettled.symm.trans hactivity
  | mapped hsettled => cases hsettled.symm.trans hactivity
  | listened hsettled => cases hsettled.symm.trans hactivity

end Stride

end SharedCache
