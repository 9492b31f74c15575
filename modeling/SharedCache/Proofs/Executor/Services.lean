import SharedCache.Proofs.Emissions
import SharedCache.Proofs.Executor.Effects
import SharedCache.Proofs.Footsteps

/-!
# Services

What the steps of threads are to the executor.  A step discharges the next duty of its thread, or
none, and no duty is ever given up: a panic ends at the next task, guard or end of a script, and
every duty that waits in a frame waits for something that does not panic, which is another step of
the executor or a task, since that catches what its code raises.
-/

namespace SharedCache

variable {K V Q R : Type}

/-! ## Panics -/

/-- An activity is safe when it does not end with a panic before a frame has taken its end. -/
def Activity.IsSafe : Activity K V Q R → Prop
  | .dispatch _ | .settle (.done _) => True
  | .enter _ inside => inside.IsSafe
  | _ => False

/-- No duty that waits in the frames is within the reach of a panic.  `safe` tells whether what is
above them cannot end with one. -/
def Covered (safe : Prop) : List (Frame K V Q R) → Prop
  | [] => True
  | .tasking _ :: rest => Covered True rest
  | .scoped _ :: rest => Covered safe rest
  | .next a :: rest => (a.duties ≠ [] → safe) ∧ Covered (safe ∧ a.IsSafe) rest
  | .calling _ :: rest | .guarded _ :: rest | .computing _ :: rest | .listening :: rest =>
    Covered False rest

/-- No panic will make the thread give up a duty. -/
def Thread.IsCovered (t : Thread K V Q R) : Prop := Covered t.activity.IsSafe t.stack

theorem Covered.mono {safe safe' : Prop} {stack : List (Frame K V Q R)} (h : safe → safe')
    (hstack : Covered safe stack) : Covered safe' stack := by
  induction stack generalizing safe safe' with
  | nil => trivial
  | cons frame rest ih =>
    cases frame with
    | «scoped» before => exact ih h hstack
    | next a => exact ⟨fun hduties => h (hstack.1 hduties), ih (And.imp_left h) hstack.2⟩
    | _ => exact hstack

/-- Frames without duties need no cover. -/
theorem Covered.append {safe : Prop} {frames rest : List (Frame K V Q R)}
    (hframes : ∀ frame ∈ frames, frame.duties = []) (hrest : Covered False rest) :
    Covered safe (frames ++ rest) := by
  induction frames generalizing safe with
  | nil => exact hrest.mono False.elim
  | cons frame frames ih =>
    have hothers : ∀ safe, Covered safe (frames ++ rest) := fun safe =>
      ih fun other hother => hframes other (List.mem_cons_of_mem frame hother)
    cases frame with
    | next a => exact ⟨absurd (hframes _ List.mem_cons_self), hothers _⟩
    | _ => exact hothers _

/-- A turn of the executor keeps the duties covered, whatever waits below. -/
def Turn.Covers {σ : Type} (turn : Turn σ K V Q R) : Prop :=
  ∀ rest, Covered True rest → Covered turn.next.IsSafe (turn.frames ++ rest)

section Covers

variable {σ : Type} {s : σ} {a : Activity K V Q R} {turn : Turn σ K V Q R}

theorem Turn.covers_goTo (ha : a.IsSafe) : (goTo s a).Covers :=
  fun _ hrest => hrest.mono fun _ => ha

theorem Turn.covers_dispatch (stage : Dispatch K V Q R) : (goTo s (.dispatch stage)).Covers :=
  covers_goTo trivial

theorem Turn.covers_answer (answer : Answer V) : (Turn.answer s answer : Turn σ K V Q R).Covers :=
  covers_goTo trivial

theorem Turn.Covers.after (events : List (Event K V)) (hturn : turn.Covers) :
    (turn.after events).Covers := hturn

theorem Turn.Covers.andThen (hturn : turn.Covers) (ha : a.IsSafe) : (turn.andThen a).Covers := by
  intro rest hrest
  simpa [Turn.andThen, above] using
    hturn (.next a :: rest) ⟨fun _ => trivial, hrest.mono fun _ => ⟨trivial, ha⟩⟩

end Covers

/-- No step of an executor brings a duty within the reach of a panic. -/
theorem Dispatch.covers {e : Executor K V Q R} {interrupted timedOut : Bool}
    {stage : Dispatch K V Q R} {turn : ExecutorTurn K V Q R}
    (hturn : stage.turn e interrupted timedOut = some turn) : turn.Covers := by
  cases Dispatch.sections hturn with
  | accepts | activates | lacks | finishes | resumes | idlesLast | concludes | terminates =>
    exact Turn.covers_dispatch _
  | enqueues | awakens | shuts => exact (Turn.covers_dispatch _).after _
  | stores | announces | drainsNothing => exact (Turn.covers_answer _).after _
  | proceeds | takesBack => exact (Turn.covers_dispatch _).andThen (by exact trivial)
  | hands => exact ((Turn.covers_dispatch _).andThen (by exact trivial)).after _
  | starts =>
    exact (Turn.Covers.andThen (Turn.covers_goTo (by exact trivial)) (by exact trivial)).after _
  -- The code of a task may panic, and the frame right below it catches that.
  | runs | drains => exact fun rest hrest => hrest
  | takes => exact ((Turn.covers_dispatch _).andThen (by exact trivial)).andThen (by exact trivial)
  | _ => exact Turn.covers_answer _

/-! ## Steps -/

theorem Activity.IsFresh.duties_eq_nil {a : Activity K V Q R} (ha : a.IsFresh) :
    a.duties = [] := by
  cases a with
  | enter | dispatch => exact ha.elim
  | _ => rfl

theorem Frame.IsFresh.duties_eq_nil {frame : Frame K V Q R} (hframe : frame.IsFresh) :
    frame.duties = [] := by
  cases frame with
  | next a =>
    rcases hframe with ha | ⟨h, rfl⟩
    · exact ha.duties_eq_nil
    · rfl
  | tasking => exact hframe.elim
  | _ => rfl

/-- The sections of the store move no task. -/
theorem Stage.Emits.not_movesTask {s : Store K V} {stage : Stage K V Q R} {event : Event K V}
    (hemits : stage.Emits s event) : event.movesTask = false := by
  cases event with
  | submitted | started | delivered | handedBack =>
    cases stage with
    | report => obtain hevent | hevent | ⟨_, hevent⟩ := hemits <;> cases hevent
    | own => obtain ⟨_, hevent⟩ | ⟨_, hevent⟩ := hemits <;> cases hevent
    | compose => obtain hevent | ⟨_, hevent⟩ := hemits <;> cases hevent
    | enforce =>
      obtain ⟨_, hevent⟩ := hemits
      cases hevent
    | visit | consult | handOut => cases hemits
    | _ => exact hemits.elim
  | _ => rfl

/-- A section of a store operation puts no duty on its thread. -/
theorem Stage.duties_turn [DecidableEq K] [DecidableEq V] {settings : Settings K V Q R}
    {s : Store K V} {now : Instant} {interrupted : Bool} {draws : List K} {stage : Stage K V Q R}
    {turn : StoreTurn K V Q R} (hturn : stage.turn settings s now interrupted draws = some turn) :
    turn.next.duties = [] ∧ ∀ frame ∈ turn.frames, frame.duties = [] := by
  obtain ⟨hnext, hframes⟩ := Stage.follows hturn
  refine ⟨?_, fun frame hframe => (hframes frame hframe).duties_eq_nil⟩
  rcases hnext with hfresh | hleads
  · exact hfresh.duties_eq_nil
  · obtain ⟨next, hkeep⟩ := hleads.isKeep
    rw [hkeep]
    rfl

/-- The task whose code has come to its end on the thread, and how it has ended. -/
def Thread.ending? (t : Thread K V Q R) : Option (Nat × Signal V) :=
  match t.activity, t.stack with
  | .settle signal, .tasking task :: _ => some (task, signal)
  | _, _ => none

theorem Thread.eq_of_ending? {t : Thread K V Q R} {task : Nat} {signal : Signal V}
    (hending : t.ending? = some (task, signal)) :
    ∃ rest binding, t = ⟨.settle signal, .tasking task :: rest, binding⟩ := by
  obtain ⟨activity, stack, binding⟩ := t
  rw [ending?] at hending
  split at hending
  · rename_i hactivity hstack
    obtain ⟨rfl, rfl⟩ := Prod.mk.inj (Option.some.inj hending)
    obtain rfl : activity = .settle _ := hactivity
    exact ⟨_, binding, congrArg (fun stack => Thread.mk _ stack binding) hstack⟩
  · cases hending

/-- The duties that a step discharges: that of a step of the executor, that of delivering the
outcome of a task, or none, and then the executor stays as it is. -/
inductive Thread.Discharges (w : World K V Q R) (t : Thread K V Q R) (s : Step K V Q R) :
    List (Duty K V Q R) → Prop where
  | nothing :
      (∀ stage, t.activity ≠ .dispatch stage) → t.ending? = none →
      s.world.executor = w.executor → Discharges w t s []
  | act {stage : Dispatch K V Q R} : t.activity = .dispatch stage → Discharges w t s [.act stage]
  | deliver {task : Nat} {signal : Signal V} :
      t.ending? = some (task, signal) →
      s.world.executor = (w.executor.delivered task signal).state →
      Discharges w t s [.deliver task]

/-- A step discharges duties of its thread and puts others in their place, and the duties are
covered after it. -/
structure Thread.Serves (w : World K V Q R) (t : Thread K V Q R) (s : Step K V Q R)
    (done given base : List (Duty K V Q R)) : Prop where
  before : t.duties = done ++ base
  after : s.thread.duties = given ++ base
  isCovered : s.thread.IsCovered
  discharges : t.Discharges w s done
  does : w.executor.Does s.world.executor s.events done given

section Steps

variable {settings : Settings K V Q R} {w : World K V Q R} {t : Thread K V Q R} {s : Step K V Q R}

theorem Thread.Serves.acts {done given base : List (Duty K V Q R)}
    (hserves : t.Serves w s done given base) (stage : Dispatch K V Q R)
    (hdone : done = [.act stage]) : t.activity = .dispatch stage := by
  cases hserves.discharges with
  | nothing | deliver => simp at hdone
  | act hactivity =>
    rw [hactivity]
    simpa using hdone

theorem Thread.Serves.of_rests (hduties : s.thread.duties = t.duties)
    (hcovered : s.thread.IsCovered) (hexecutor : s.world.executor = w.executor)
    (hevents : ∀ event ∈ s.events, event.movesTask = false)
    (hactivity : ∀ stage, t.activity ≠ .dispatch stage) (hending : t.ending? = none) :
    t.Serves w s [] [] t.duties :=
  ⟨rfl, hduties, hcovered, .nothing hactivity hending hexecutor,
    by rw [hexecutor]; exact .rests hevents⟩

theorem Script.serves {script : Script K V Q R} {reply : Option R}
    (hactivity : t.activity = .code script) (hstep : script.step settings reply w t = some s)
    (ht : t.IsCovered) : ∃ done given base, t.Serves w s done given base := by
  obtain ⟨activity, stack, binding⟩ := t
  obtain rfl : activity = .code script := hactivity
  have hstack : Covered False stack := ht
  cases script with
  | finish | raise =>
    obtain rfl := Option.some.inj hstep
    exact ⟨_, _, _, .of_rests rfl (hstack.mono False.elim) rfl (by simp [Step.apart]) (by simp)
      rfl⟩
  | call | «scope» | guard =>
    obtain rfl := Option.some.inj hstep
    exact ⟨_, _, _, .of_rests rfl hstack rfl (by simp [Step.apart]) (by simp) rfl⟩
  | order command code =>
    have hdoes := command.does w.executor
    rw [Script.step] at hstep
    generalize command.stages w.executor = stages at hstep hdoes
    obtain ⟨first, second⟩ := stages
    obtain rfl := Option.some.inj hstep
    cases second with
    | none => exact ⟨_, _, _, rfl, rfl, hstack, .nothing (by simp) rfl rfl, hdoes⟩
    | some stage =>
      exact ⟨_, _, _, rfl, rfl, ⟨fun _ => trivial, hstack.mono False.elim⟩,
        .nothing (by simp) rfl rfl, hdoes⟩
  | ask question code =>
    obtain ⟨r, -, rfl⟩ := Option.map_eq_some_iff.mp hstep
    exact ⟨_, _, _, .of_rests rfl hstack rfl (by simp [Step.apart]) (by simp) rfl⟩

/-- However a task has ended, its thread lets go of the sending end and goes on below the task. -/
theorem Executor.delivered_goesOn (e : Executor K V Q R) (task : Nat) (signal : Signal V) :
    (e.delivered task signal).next = .dispatch (.hangUp task) ∧
      (e.delivered task signal).frames = [] := by
  simp only [delivered]
  split <;> exact ⟨rfl, rfl⟩

theorem Frame.serves {signal : Signal V} {frame : Frame K V Q R} {rest : List (Frame K V Q R)}
    (hactivity : t.activity = .settle signal) (hstack : t.stack = frame :: rest)
    (ht : t.IsCovered) :
    ∃ done given base, t.Serves w (frame.receive w t.popped signal) done given base := by
  obtain ⟨activity, stack, binding⟩ := t
  obtain rfl : activity = .settle signal := hactivity
  obtain rfl : stack = frame :: rest := hstack
  have hquiet : ∀ event ∈ ([] : List (Event K V)), event.movesTask = false := by simp
  cases frame with
  | calling code =>
    have hrest : Covered False rest := ht
    cases signal with
    | done answer => exact ⟨_, _, _, .of_rests rfl hrest rfl hquiet (by simp) rfl⟩
    | raised panic => exact ⟨_, _, _, .of_rests rfl hrest rfl hquiet (by simp) rfl⟩
  | guarded code => exact ⟨_, _, _, .of_rests rfl ht rfl hquiet (by simp) rfl⟩
  | «scoped» before => exact ⟨_, _, _, .of_rests rfl ht rfl hquiet (by simp) rfl⟩
  | next activity =>
    obtain ⟨hsafe, hrest⟩ : (activity.duties ≠ [] → _) ∧ Covered (_ ∧ activity.IsSafe) rest := ht
    cases signal with
    | done answer =>
      exact ⟨_, _, _, .of_rests rfl (hrest.mono And.right) rfl hquiet (by simp) rfl⟩
    | raised panic =>
      -- Only what is no duty is given up.
      have hnone : activity.duties = [] := Classical.not_not.mp fun hduties => hsafe hduties
      refine ⟨_, _, _, .of_rests ?_ (hrest.mono And.left) rfl hquiet (by simp) rfl⟩
      simp [Frame.receive, Step.apart, Thread.goOn, Thread.popped, Thread.duties, hnone]
  | computing c =>
    have hrest : Covered False rest := ht
    obtain ⟨-, hframes, stage, hnext, -⟩ := w.store.mapped_spec c signal
    refine ⟨_, _, _, .of_rests ?_ ?_ rfl ?_ (by simp) rfl⟩
    · simp [Frame.receive, Step.ofStore, Thread.goOn, Thread.popped, Thread.duties, hframes, hnext,
        Frame.duties]
    · exact Covered.append (by simp [hframes]) (hrest.mono False.elim)
    · simp [Frame.receive, Step.ofStore, Store.events_mapped]
  | listening =>
    have hrest : Covered False rest := ht
    obtain ⟨-, hframes⟩ := w.store.listened_spec (Q := Q) (R := R) signal
    have hnext : (w.store.listened signal : StoreTurn K V Q R).next.duties = [] := by
      cases signal <;> rfl
    refine ⟨_, _, _, .of_rests ?_ ?_ rfl (fun event hevent => ?_) (by simp) rfl⟩
    · simp [Frame.receive, Step.ofStore, Thread.goOn, Thread.popped, Thread.duties, hframes, hnext,
        Frame.duties]
    · exact Covered.append (by simp [hframes]) (hrest.mono False.elim)
    · obtain ⟨message, rfl⟩ := w.store.events_listened (Q := Q) (R := R) hevent
      rfl
  | tasking task =>
    have hrest : Covered True rest := ht
    obtain ⟨hnext, hframes⟩ := w.executor.delivered_goesOn task signal
    refine ⟨[.deliver task], (w.executor.delivered task signal).duties, rest.flatMap Frame.duties,
      rfl, ?_, ?_, .deliver rfl rfl, w.executor.does_delivered task signal⟩
    · exact Thread.duties_goOn _ (Thread.popped ⟨.settle signal, .tasking task :: rest, binding⟩)
    · simpa [Frame.receive, Step.ofExecutor, Thread.goOn, Thread.popped, Thread.IsCovered, hframes,
        hnext, Activity.IsSafe] using hrest

/-- Every step of a thread discharges duties in their order. -/
theorem Thread.serves [DecidableEq K] [DecidableEq V] {chance : Chance K R}
    (hstep : t.step settings chance w = some s) (ht : t.IsCovered) :
    ∃ done given base, t.Serves w s done given base := by
  rw [Thread.step] at hstep
  split at hstep
  · exact Script.serves ‹_› hstep ht
  · rename_i i inside hactivity
    obtain rfl := Option.some.inj hstep
    rw [IsCovered, hactivity] at ht
    exact ⟨_, _, _, .of_rests (by simp [Step.apart, goOn, duties, hactivity, Frame.duties]) ht rfl
      (by simp [Step.apart]) (by simp [hactivity]) (by simp [ending?, hactivity])⟩
  · split at hstep
    · cases hstep
    · obtain rfl := Option.some.inj hstep
      exact Frame.serves ‹_› ‹_› ht
  · rename_i stage hactivity
    obtain ⟨turn, hturn, rfl⟩ := Option.map_eq_some_iff.mp hstep
    obtain ⟨hnext, hframes⟩ := Stage.duties_turn hturn
    rw [IsCovered, hactivity] at ht
    refine ⟨_, _, _, .of_rests ?_ (.append hframes ht) rfl (fun event hevent =>
      (Stage.emits hturn event hevent).not_movesTask) (by simp [hactivity])
      (by simp [ending?, hactivity])⟩
    simp [Step.ofStore, goOn, duties, hactivity, hnext, List.flatMap_eq_nil_iff.mpr hframes]
  · rename_i stage hactivity
    obtain ⟨turn, hturn, rfl⟩ := Option.map_eq_some_iff.mp hstep
    rw [IsCovered, hactivity] at ht
    refine ⟨[.act stage], turn.duties, t.stack.flatMap Frame.duties, ?_, ?_, ?_, .act hactivity,
      Dispatch.does hturn⟩
    · simp [duties, hactivity]
    · exact duties_goOn turn t
    · exact Dispatch.covers hturn t.stack ht

end Steps

/-! ## Passages -/

/-- The step of the executor that a passage is, if it is one. -/
def Passage.dispatch? (p : Passage K V Q R) : Option (Dispatch K V Q R) :=
  match p.thread? with
  | some ⟨.dispatch stage, _, _⟩ => some stage
  | _ => none

theorem Passage.dispatch?_of_activity {p : Passage K V Q R} {i : Nat} {t : Thread K V Q R}
    (hmover : p.mover = some i) (ht : p.before.threads[i]? = some t) {stage : Dispatch K V Q R}
    (hactivity : t.activity = .dispatch stage) : p.dispatch? = some stage := by
  obtain ⟨activity, stack, binding⟩ := t
  obtain rfl : activity = .dispatch stage := hactivity
  simp [dispatch?, thread?, hmover, ht]

/-- What a passage is to the executor: nothing, or a step of one thread that discharges some of its
duties. -/
inductive Passage.Service (p : Passage K V Q R) : Prop where
  | outside :
      p.events = [] → p.after.world.executor = p.before.world.executor →
      (p.after.rosters = p.before.rosters ∨ p.after.rosters = p.before.rosters ++ [[]]) → Service p
  | step {i : Nat} {done given base : List (Duty K V Q R)} :
      p.before.rosters[i]? = some (done ++ base) →
      p.after.rosters = p.before.rosters.set i (given ++ base) →
      (∀ stage, done = [.act stage] → p.dispatch? = some stage) →
      p.before.world.executor.Does p.after.world.executor p.events done given → Service p

section Passages

variable [DecidableEq K] [DecidableEq V] {settings : Settings K V Q R} {m m' : Machine K V Q R}

omit [DecidableEq K] [DecidableEq V] in
theorem Machine.Outside.executor_eq (hm : m.Outside m') :
    m'.world.executor = m.world.executor := by
  cases hm with
  | clock hclock =>
    obtain ⟨clock, -, rfl⟩ := Option.map_eq_some_iff.mp hclock
    rfl
  | trip i => rfl
  | spawn script => rfl

omit [DecidableEq K] [DecidableEq V] in
theorem Machine.Outside.rosters_eq (hm : m.Outside m') :
    m'.rosters = m.rosters ∨ m'.rosters = m.rosters ++ [[]] := by
  cases hm with
  | clock hclock => exact .inl rfl
  | trip i => exact .inl rfl
  | spawn script => exact .inr (by simp [Machine.rosters, Machine.spawn])

/-- No panic will ever make a thread give up a duty. -/
theorem Machine.Reachable.isCovered (hm : m.Reachable settings) :
    ∀ (i : Nat) t, m.threads[i]? = some t → t.IsCovered := by
  refine hm.invariant (P := fun m => ∀ (i : Nat) t, m.threads[i]? = some t → t.IsCovered)
    (fun start hstart i t ht => by simp [hstart.threads] at ht) fun p hp hbefore i t ht => ?_
  rw [Passage.Lawful] at hp
  split at hp
  · rename_i mover hmover
    obtain ⟨chance, hstep⟩ := hp
    obtain ⟨t', s, ht', hs, hafter, -⟩ := Machine.step_eq_some hstep
    rw [hafter] at ht
    by_cases hi : mover = i
    · subst hi
      have hsize := (Array.getElem?_eq_some_iff.mp ht').1
      obtain rfl : s.thread = t := by simpa [hsize] using ht
      obtain ⟨_, _, _, hserves⟩ := Thread.serves hs (hbefore mover t' ht')
      exact hserves.isCovered
    · rw [Array.getElem?_setIfInBounds_ne hi] at ht
      exact hbefore i t ht
  · rcases hp.1.threads_eq i with hsame | ⟨script, -, hspawned⟩
    · exact hbefore i t (hsame ▸ ht)
    · obtain rfl := Option.some.inj (ht.symm.trans hspawned)
      trivial

theorem Passage.Lawful.serves {p : Passage K V Q R} (hp : p.Lawful settings)
    (hm : p.before.Reachable settings) : p.Service := by
  rw [Passage.Lawful] at hp
  split at hp
  · rename_i i hmover
    obtain ⟨chance, hstep⟩ := hp
    obtain ⟨t, s, ht, hs, hafter, hevents⟩ := Machine.step_eq_some hstep
    obtain ⟨done, given, base, hserves⟩ := Thread.serves hs (hm.isCovered i t ht)
    have hbefore : p.before.rosters[i]? = some (done ++ base) := by
      simp [Machine.rosters, ht, hserves.before]
    have hrosters : p.after.rosters = p.before.rosters.set i (given ++ base) := by
      simp [Machine.rosters, hafter, List.map_set, hserves.after]
    refine .step hbefore hrosters (fun stage hdone =>
      Passage.dispatch?_of_activity hmover ht (hserves.acts stage hdone)) ?_
    rw [hafter, hevents]
    exact hserves.does
  · exact .outside hp.2 hp.1.executor_eq hp.1.rosters_eq

/-- Replacing the head of one roster replaces as much among all duties. -/
theorem exists_perm_flatten_set {A : Type} {lists : List (List A)} {i : Nat} {done base : List A}
    (hlist : lists[i]? = some (done ++ base)) :
    ∃ others, lists.flatten.Perm (done ++ others) ∧
      ∀ given, (lists.set i (given ++ base)).flatten.Perm (given ++ others) := by
  obtain ⟨front, back, hbefore, hafter⟩ := exists_flatMap_set id hlist
  refine ⟨base ++ (front ++ back), ?_, fun given => ?_⟩
  · rw [List.flatMap_id] at hbefore
    rw [hbefore]
    simpa using List.perm_append_comm_assoc front (done ++ base) back
  · have hset := hafter (given ++ base)
    rw [List.flatMap_id] at hset
    rw [hset]
    simpa using List.perm_append_comm_assoc front (given ++ base) back

end Passages

end SharedCache
