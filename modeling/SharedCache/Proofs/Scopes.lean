import SharedCache.Proofs.Executor.Services
import SharedCache.Proofs.WithoutListener

/-!
# Scopes

An interrupt scope is entered by one passage of a thread and left by a later one, when what runs in
it has returned or panicked.  In between further scopes may be opened and left on the same thread,
by scripts and by the tasks that the thread runs.  The scopes that are open on a thread are read off
the run here, and the stack and the binding of the thread turn out to belong to them.
-/

namespace SharedCache

variable {K V Q R : Type}

/-! ## Entering and leaving -/

/-- The interrupter whose scope the thread is about to enter. -/
def Thread.entering? (t : Thread K V Q R) : Option Interrupter :=
  match t.activity with
  | .enter interrupter _ => some interrupter
  | _ => none

/-- How the scope has ended that the thread is about to leave. -/
def Thread.leaving? (t : Thread K V Q R) : Option (Signal V) :=
  match t.activity, t.stack with
  | .settle signal, .scoped _ :: _ => some signal
  | _, _ => none

namespace Passage

/-- The interrupter whose scope the passage enters, if it enters one. -/
def entered? (p : Passage K V Q R) : Option Interrupter := p.thread?.bind Thread.entering?

/-- How the scope has ended that the passage leaves, if it leaves one. -/
def left? (p : Passage K V Q R) : Option (Signal V) := p.thread?.bind Thread.leaving?

/-- The passage trips an interrupter.  Somebody does so between two steps, which may be two steps of
the same thread, or a partition is drained while it runs the interrupter's task. -/
inductive Trips (p : Passage K V Q R) : Interrupter → Prop where
  | outside {j : Interrupter} :
      p.mover = none → p.after = { p.before with world := p.before.world.trip j } → Trips p j
  | drained {q task : Nat} {taken : List (Nat × Nat)} :
      p.dispatch? = some (.drain q taken) →
      (p.before.world.executor.partition q).running = some task → Trips p (.ofTask task)

/-- The scopes that are open on a thread after one more passage. -/
def reopens (i : Nat) (opened : List (Passage K V Q R)) (p : Passage K V Q R) :
    List (Passage K V Q R) :=
  if p.mover = some i then
    if p.entered?.isSome then p :: opened else if p.left?.isSome then opened.tail else opened
  else
    opened

end Passage

/-- The scopes that are open on a thread at the end of a run, the innermost first.  Each of them is
given by the passage that entered it. -/
def openScopes (i : Nat) (trace : List (Passage K V Q R)) : List (Passage K V Q R) :=
  trace.foldl (Passage.reopens i) []

/-- The scopes on a stack.  Above the end of each scope are the frames of what runs in it and of no
other scope; below it is the stack on which the scope was entered, and it restores the binding that
was in force there. -/
inductive Nested : List (Passage K V Q R) → List (Frame K V Q R) → Option Interrupter → Prop where
  | nil {frames : List (Frame K V Q R)} :
      (∀ frame ∈ frames, frame.isScoped = false) → Nested [] frames none
  | cons {p : Passage K V Q R} {opened : List (Passage K V Q R)} {frames : List (Frame K V Q R)}
      {t : Thread K V Q R} {interrupter : Interrupter} :
      (∀ frame ∈ frames, frame.isScoped = false) → p.thread? = some t →
      p.entered? = some interrupter → Nested opened t.stack t.binding →
      Nested (p :: opened) (frames ++ .scoped t.binding :: t.stack) (some interrupter)

section Opened

variable {i : Nat} {opened trace : List (Passage K V Q R)} {p : Passage K V Q R}

@[simp]
theorem openScopes_nil : openScopes i ([] : List (Passage K V Q R)) = [] := rfl

@[simp]
theorem openScopes_snoc : openScopes i (trace ++ [p]) = p.reopens i (openScopes i trace) := by
  simp [openScopes]

theorem Passage.reopens_of_ne (hmover : p.mover ≠ some i) : p.reopens i opened = opened :=
  if_neg hmover

theorem Passage.reopens_of_mover (hmover : p.mover = some i) {t : Thread K V Q R}
    (ht : p.before.threads[i]? = some t) :
    p.reopens i opened = if t.entering?.isSome then p :: opened
      else if t.leaving?.isSome then opened.tail else opened := by
  rw [reopens, if_pos hmover, entered?, left?, thread?_eq hmover ht, Option.bind_some,
    Option.bind_some]

end Opened

namespace Nested

variable {opened : List (Passage K V Q R)} {frames rest : List (Frame K V Q R)}
  {frame : Frame K V Q R} {before binding : Option Interrupter}

/-- Frames of no scope may be put on the stack. -/
theorem append (hframes : ∀ frame ∈ frames, frame.isScoped = false)
    (hrest : Nested opened rest binding) : Nested opened (frames ++ rest) binding := by
  have hall : ∀ {others : List (Frame K V Q R)},
      (∀ frame ∈ others, frame.isScoped = false) →
      ∀ frame ∈ frames ++ others, frame.isScoped = false := fun hothers frame hframe =>
    (List.mem_append.mp hframe).elim (hframes frame) (hothers frame)
  cases hrest with
  | nil hothers => exact .nil (hall hothers)
  | cons hothers ht hentered hopened =>
    rw [← List.append_assoc]
    exact .cons (hall hothers) ht hentered hopened

/-- A frame of no scope may be taken away from the stack. -/
theorem tail (hframe : frame.isScoped = false) (hstack : Nested opened (frame :: rest) binding) :
    Nested opened rest binding := by
  generalize hwhole : frame :: rest = whole at hstack
  cases hstack with
  | nil hothers =>
    refine .nil fun other hother => hothers other ?_
    exact hwhole ▸ List.mem_cons_of_mem frame hother
  | @cons p opened frames t interrupter hothers ht hentered hopened =>
    cases frames with
    | nil =>
      obtain ⟨rfl, -⟩ := List.cons.inj hwhole
      cases hframe
    | cons other frames =>
      obtain ⟨rfl, rfl⟩ := List.cons.inj hwhole
      exact .cons (fun inner hinner => hothers inner (List.mem_cons_of_mem _ hinner)) ht hentered
        hopened

/-- The end of a scope on top of the stack belongs to the innermost scope that is open. -/
theorem leave (hstack : Nested opened (.scoped before :: rest) binding) :
    ∃ p outer t, opened = p :: outer ∧ p.thread? = some t ∧ t.stack = rest ∧
      t.binding = before ∧ Nested outer rest before := by
  generalize hwhole : Frame.scoped before :: rest = whole at hstack
  cases hstack with
  | nil hothers => cases hothers (.scoped before) (hwhole ▸ List.mem_cons_self)
  | @cons p outer frames t interrupter hothers ht hentered houter =>
    cases frames with
    | nil =>
      obtain ⟨hbinding, rfl⟩ := List.cons.inj hwhole
      obtain rfl := Frame.scoped.inj hbinding
      exact ⟨p, outer, t, rfl, ht, rfl, rfl, houter⟩
    | cons other frames =>
      obtain ⟨rfl, -⟩ := List.cons.inj hwhole
      cases hothers _ List.mem_cons_self

/-- The interrupter of the innermost scope is the one that is bound. -/
theorem binding_eq (hstack : Nested opened rest binding) :
    binding = opened.head?.bind Passage.entered? := by
  cases hstack with
  | nil => rfl
  | cons _ _ hentered => exact hentered.symm

end Nested

/-! ## Steps -/

/-- What a step of a thread does to the scopes: it enters one, leaves the innermost one, or replaces
some frames of what runs there. -/
inductive Thread.Scoping (t : Thread K V Q R) : Thread K V Q R → Prop where
  | enters {interrupter : Interrupter} {inside : Activity K V Q R} :
      t.activity = .enter interrupter inside →
      Scoping t ⟨inside, .scoped t.binding :: t.stack, some interrupter⟩
  | leaves {signal : Signal V} {before : Option Interrupter} {rest : List (Frame K V Q R)} :
      t.activity = .settle signal → t.stack = .scoped before :: rest →
      Scoping t ⟨.settle signal, rest, before⟩
  | pushes {a : Activity K V Q R} {frames : List (Frame K V Q R)} :
      t.entering? = none → t.leaving? = none → (∀ frame ∈ frames, frame.isScoped = false) →
      Scoping t ⟨a, frames ++ t.stack, t.binding⟩
  | pops {signal : Signal V} {frame : Frame K V Q R} {a : Activity K V Q R}
      {rest : List (Frame K V Q R)} :
      t.activity = .settle signal → t.stack = frame :: rest → frame.isScoped = false →
      Scoping t ⟨a, rest, t.binding⟩

/-- The interrupters that a step of an executor trips. -/
def Dispatch.trips (e : Executor K V Q R) : Dispatch K V Q R → List Interrupter
  | .drain q _ => (e.partition q).running.toList.map .ofTask
  | _ => []

/-- Frames that a store operation waits in are no ends of scopes. -/
theorem Frame.IsFresh.isScoped {frame : Frame K V Q R} (hframe : frame.IsFresh) :
    frame.isScoped = false := by
  cases frame with
  | «scoped» before => exact hframe.elim
  | _ => rfl

theorem Executor.partition_of_size_le {e : Executor K V Q R} {q : Nat}
    (hq : e.partitions.size ≤ q) : e.partition q = .idle := by
  rw [Executor.partition, Array.getElem?_eq_none hq, Option.getD_none]

/-- Only the draining of a partition trips an interrupter. -/
theorem Dispatch.trips_turn {e : Executor K V Q R} {interrupted timedOut : Bool}
    {d : Dispatch K V Q R} {turn : ExecutorTurn K V Q R}
    (hturn : d.turn e interrupted timedOut = some turn) : turn.trips = d.trips e := by
  cases Dispatch.sections hturn with
  | drainsNothing hq =>
    rw [trips, Executor.partition_of_size_le hq]
    rfl
  | _ => rfl

/-- The interrupters that the next step of a thread trips. -/
def Thread.trips (e : Executor K V Q R) (t : Thread K V Q R) : List Interrupter :=
  match t.activity with
  | .dispatch d => d.trips e
  | _ => []

section Step

variable {w : World K V Q R} {t : Thread K V Q R} {s : Step K V Q R}

theorem Store.trips_mapped (s : Store K V) (c : Computation K V Q R) (signal : Signal V) :
    (s.mapped c signal).trips = [] := by
  unfold mapped
  split
  · rfl
  · dsimp only
    split <;> rfl
  · dsimp only
    split <;> rfl

theorem Store.trips_listened (s : Store K V) (signal : Signal V) :
    (s.listened signal : StoreTurn K V Q R).trips = [] := by
  cases signal <;> rfl

theorem Executor.trips_delivered (e : Executor K V Q R) (task : Nat) (signal : Signal V) :
    (e.delivered task signal).trips = [] := by
  simp only [delivered]
  split <;> rfl

theorem Script.scoping {settings : Settings K V Q R} {reply : Option R} {script : Script K V Q R}
    (hactivity : t.activity = .code script) (hstep : script.step settings reply w t = some s) :
    t.Scoping s.thread ∧ s.world.tripped = w.tripped := by
  have hentering : t.entering? = none := by rw [Thread.entering?, hactivity]
  have hleaving : t.leaving? = none := by rw [Thread.leaving?, hactivity]
  have hpushes : ∀ (a : Activity K V Q R) (frames : List (Frame K V Q R)),
      (∀ frame ∈ frames, frame.isScoped = false) → t.Scoping (t.goOn a frames) :=
    fun a frames hframes => .pushes hentering hleaving hframes
  cases script with
  | order command next =>
    obtain rfl := Option.some.inj hstep
    refine ⟨hpushes _ _ fun frame hframe => ?_, rfl⟩
    rcases List.mem_append.mp hframe with hnext | hcalling
    · obtain ⟨stage, -, rfl⟩ := Option.map_eq_some_iff.mp (Option.mem_toList.mp hnext)
      rfl
    · rw [List.mem_singleton.mp hcalling]
      rfl
  | ask question next =>
    obtain ⟨r, -, rfl⟩ := Option.map_eq_some_iff.mp hstep
    exact ⟨hpushes _ _ (by simp), rfl⟩
  | _ =>
    obtain rfl := Option.some.inj hstep
    exact ⟨hpushes _ _ (by simp [Frame.isScoped]), rfl⟩

theorem Frame.scoping {signal : Signal V} {frame : Frame K V Q R} {rest : List (Frame K V Q R)}
    (hactivity : t.activity = .settle signal) (hstack : t.stack = frame :: rest) :
    t.Scoping (frame.receive w t.popped signal).thread ∧
      (frame.receive w t.popped signal).world.tripped = w.tripped := by
  obtain ⟨activity, stack, binding⟩ := t
  obtain rfl : activity = .settle signal := hactivity
  obtain rfl : stack = frame :: rest := hstack
  cases frame with
  | calling code => cases signal <;> exact ⟨.pops rfl rfl rfl, rfl⟩
  | guarded code => exact ⟨.pops rfl rfl rfl, rfl⟩
  | «scoped» before => exact ⟨.leaves rfl rfl, rfl⟩
  | next a => cases signal <;> exact ⟨.pops rfl rfl rfl, rfl⟩
  | computing c =>
    obtain ⟨-, hframes, -⟩ := w.store.mapped_spec c signal
    simp only [receive, Step.ofStore, Thread.goOn, hframes, w.store.trips_mapped c signal]
    exact ⟨.pops rfl rfl rfl, rfl⟩
  | listening =>
    obtain ⟨-, hframes⟩ := w.store.listened_spec (Q := Q) (R := R) signal
    simp only [receive, Step.ofStore, Thread.goOn, hframes, w.store.trips_listened signal]
    exact ⟨.pops rfl rfl rfl, rfl⟩
  | tasking task =>
    have htrips := w.executor.trips_delivered task signal
    obtain ⟨-, hframes⟩ := w.executor.delivered_goesOn task signal
    simp only [receive, Step.ofExecutor, Thread.goOn, hframes, htrips]
    exact ⟨.pops rfl rfl rfl, rfl⟩

variable [DecidableEq K] [DecidableEq V] {settings : Settings K V Q R} {chance : Chance K R}

theorem Thread.scoping (hstep : t.step settings chance w = some s) :
    t.Scoping s.thread ∧ s.world.tripped = t.trips w.executor ++ w.tripped := by
  obtain ⟨activity, stack, binding⟩ := t
  cases activity with
  | code script => exact Script.scoping rfl hstep
  | enter interrupter inside =>
    obtain rfl := Option.some.inj hstep
    exact ⟨.enters rfl, rfl⟩
  | keep stage =>
    obtain ⟨turn, hturn, rfl⟩ := Option.map_eq_some_iff.mp hstep
    have hfollows := Stage.follows hturn
    refine ⟨.pushes rfl rfl fun frame hframe => (hfollows.frames frame hframe).isScoped, ?_⟩
    exact congrArg (· ++ w.tripped) hfollows.trips
  | dispatch d =>
    obtain ⟨turn, hturn, rfl⟩ := Option.map_eq_some_iff.mp hstep
    have hplain := Dispatch.isPlain_turn hturn
    refine ⟨.pushes rfl rfl fun frame hframe => (hplain.frames frame hframe).2, ?_⟩
    exact congrArg (· ++ w.tripped) (Dispatch.trips_turn hturn)
  | settle signal =>
    cases stack with
    | nil => cases hstep
    | cons frame rest =>
      obtain rfl := Option.some.inj hstep
      exact Frame.scoping rfl rfl

end Step

/-! ## Passages -/

section Passages

variable {p : Passage K V Q R} {i : Nat} {t t' : Thread K V Q R}
  {opened : List (Passage K V Q R)}

/-- A thread that goes on stays within the scopes that are open on it. -/
theorem Thread.Scoping.nested (hscoping : t.Scoping t') (hmover : p.mover = some i)
    (ht : p.before.threads[i]? = some t) (hnested : Nested opened t.stack t.binding) :
    Nested (p.reopens i opened) t'.stack t'.binding := by
  rw [Passage.reopens_of_mover hmover ht]
  cases hscoping with
  | @enters interrupter inside hactivity =>
    have hentering : t.entering? = some interrupter := by rw [entering?, hactivity]
    have hentered : p.entered? = some interrupter := by
      rw [Passage.entered?, Passage.thread?_eq hmover ht, Option.bind_some, hentering]
    rw [if_pos (by rw [hentering]; rfl)]
    have hnone : ∀ frame ∈ ([] : List (Frame K V Q R)), frame.isScoped = false := by simp
    exact .cons hnone (Passage.thread?_eq hmover ht) hentered hnested
  | @leaves signal before rest hactivity hstack =>
    have hentering : t.entering? = none := by rw [entering?, hactivity]
    have hleaving : t.leaving? = some signal := by rw [leaving?, hactivity, hstack]
    obtain ⟨_, outer, _, rfl, -, -, -, houter⟩ := (hstack ▸ hnested).leave
    rw [if_neg (by simp [hentering]), if_pos (by rw [hleaving]; rfl)]
    exact houter
  | pushes hentering hleaving hframes =>
    rw [if_neg (by simp [hentering]), if_neg (by simp [hleaving])]
    exact hnested.append hframes
  | @pops signal frame _ rest hactivity hstack hframe =>
    have hentering : t.entering? = none := by rw [entering?, hactivity]
    have hleaving : t.leaving? = none := by
      rw [leaving?, hactivity, hstack]
      cases frame with
      | «scoped» before => cases hframe
      | _ => rfl
    rw [if_neg (by simp [hentering]), if_neg (by simp [hleaving])]
    exact (hstack ▸ hnested).tail hframe

theorem Thread.leaves_of_leaving? {signal : Signal V} (hleaving : t.leaving? = some signal) :
    ∃ before rest, t = ⟨.settle signal, .scoped before :: rest, t.binding⟩ := by
  obtain ⟨activity, stack, binding⟩ := t
  rw [leaving?] at hleaving
  split at hleaving
  · rename_i hactivity hstack
    obtain rfl := Option.some.inj hleaving
    exact ⟨_, _, by rw [show activity = _ from hactivity, show stack = _ from hstack]⟩
  · cases hleaving

theorem Passage.trips_iff_mem {j : Interrupter} (hmover : p.mover = some i)
    (ht : p.before.threads[i]? = some t) : p.Trips j ↔ j ∈ t.trips p.before.world.executor := by
  obtain ⟨activity, stack, binding⟩ := t
  constructor
  · rintro (⟨hnone, -⟩ | @⟨q, task, taken, hstage, hrunning⟩)
    · cases hmover.symm.trans hnone
    · rw [dispatch?, thread?_eq hmover ht] at hstage
      split at hstage
      · rename_i d _ _ heq
        obtain rfl : activity = .dispatch d := congrArg Thread.activity (Option.some.inj heq)
        obtain rfl := Option.some.inj hstage
        exact List.mem_map.mpr ⟨task, Option.mem_toList.mpr hrunning, rfl⟩
      · cases hstage
  · intro hmem
    rw [Thread.trips] at hmem
    split at hmem
    · rename_i d hactivity
      obtain rfl : activity = .dispatch d := hactivity
      cases d with
      | drain q taken =>
        obtain ⟨task, hrunning, rfl⟩ := List.mem_map.mp hmem
        exact .drained (dispatch?_of_activity hmover ht rfl) (Option.mem_toList.mp hrunning)
      | _ => cases hmem
    · cases hmem

variable [DecidableEq K] [DecidableEq V] {settings : Settings K V Q R}

/-- A passage trips what it trips and leaves all other flags as they are. -/
theorem Passage.Lawful.isTripped_iff (hp : p.Lawful settings) (j : Interrupter) :
    p.after.world.isTripped j = true ↔ p.before.world.isTripped j = true ∨ p.Trips j := by
  obtain ⟨before, mover, events, after⟩ := p
  cases mover with
  | none =>
    obtain ⟨houtside, -⟩ : before.Outside after ∧ events = [] := hp
    have htrips : ∀ after', Passage.Trips ⟨before, none, events, after'⟩ j →
        after' = { before with world := before.world.trip j } := by
      rintro after' (⟨-, hafter⟩ | ⟨hstage, -⟩)
      · exact hafter
      · cases hstage
    have hstays : ∀ after' : Machine K V Q R, after'.world.tripped = before.world.tripped →
        ¬ Passage.Trips ⟨before, none, events, after'⟩ j := fun after' hsame htripped => by
      rw [htrips after' htripped] at hsame
      exact absurd (congrArg List.length hsame) (Nat.succ_ne_self _)
    cases houtside with
    | @clock d w hclock =>
      obtain ⟨clock, -, rfl⟩ := Option.map_eq_some_iff.mp hclock
      have hnever := hstays { before with world := { before.world with clock := clock } } rfl
      exact (or_iff_left hnever).symm
    | spawn script => exact (or_iff_left (hstays (before.spawn (.running script)) rfl)).symm
    | trip k =>
      constructor
      · intro hafter
        rcases List.mem_cons.mp (List.contains_iff_mem.mp hafter) with rfl | hbefore
        · exact .inr (.outside rfl rfl)
        · exact .inl (List.contains_iff_mem.mpr hbefore)
      · rintro (hbefore | htripped)
        · exact List.contains_iff_mem.mpr
            (List.mem_cons_of_mem k (List.contains_iff_mem.mp hbefore))
        · have hafter : before.world.trip k = before.world.trip j :=
            congrArg Machine.world (htrips _ htripped)
          exact hafter ▸ List.contains_iff_mem.mpr List.mem_cons_self
  | some i =>
    obtain ⟨chance, hstep⟩ := hp
    change before.step settings chance i = some (after, events) at hstep
    obtain ⟨t, s, ht, hs, rfl, rfl⟩ := Machine.step_eq_some hstep
    have hafter : s.world.isTripped j = true ↔
        before.world.isTripped j = true ∨ j ∈ t.trips before.world.executor := by
      rw [World.isTripped, (Thread.scoping hs).2, List.contains_iff_mem, List.mem_append, or_comm]
      exact or_congr_left List.contains_iff_mem.symm
    refine hafter.trans (or_congr_right (Iff.symm ?_))
    exact Passage.trips_iff_mem rfl ht

end Passages

/-! ## Runs -/

section Runs

variable [DecidableEq K] [DecidableEq V] {settings : Settings K V Q R}
  {start m : Machine K V Q R} {trace : List (Passage K V Q R)}

/-- The stack and the binding of every thread belong to the scopes that are open on it.  On a thread
that does not exist yet none is open. -/
theorem Run.nested (hstart : start.Fresh settings) (run : Run settings start trace m) (i : Nat) :
    (∀ t, m.threads[i]? = some t → Nested (openScopes i trace) t.stack t.binding) ∧
      (m.threads[i]? = none → openScopes i trace = []) := by
  induction run with
  | rest => simp [hstart.threads]
  | @move trace p _ hp ih =>
    obtain ⟨hthreads, hnone⟩ := ih
    rw [openScopes_snoc]
    obtain ⟨before, mover, events, after⟩ := p
    cases mover with
    | none =>
      rw [Passage.reopens_of_ne (by simp)]
      rcases Machine.Outside.threads_eq hp.1 i with hsame | ⟨script, hbefore, hafter⟩
      · rw [show after.threads[i]? = before.threads[i]? from hsame]
        exact ⟨hthreads, hnone⟩
      · rw [hnone hbefore]
        refine ⟨fun t ht => ?_, fun _ => rfl⟩
        obtain rfl := Option.some.inj (hafter.symm.trans ht)
        exact .nil (by simp [Thread.running])
    | some j =>
      obtain ⟨chance, hstep⟩ := hp
      change before.step settings chance j = some (after, events) at hstep
      obtain ⟨t, s, ht, hs, rfl, rfl⟩ := Machine.step_eq_some hstep
      by_cases hij : j = i
      · subst hij
        have hsize := (Array.getElem?_eq_some_iff.mp ht).1
        refine ⟨fun t' ht' => ?_, fun hnone' => ?_⟩
        · obtain rfl : s.thread = t' := by
            simpa [Array.getElem?_setIfInBounds_self_of_lt hsize] using ht'
          exact (Thread.scoping hs).1.nested rfl ht (hthreads t ht)
        · simp [Array.getElem?_setIfInBounds_self_of_lt hsize] at hnone'
      · rw [Passage.reopens_of_ne (by simpa using hij)]
        change (∀ t', (before.threads.setIfInBounds j s.thread)[i]? = some t' → _) ∧
          ((before.threads.setIfInBounds j s.thread)[i]? = none → _)
        rw [Array.getElem?_setIfInBounds_ne hij]
        exact ⟨hthreads, hnone⟩

/-- In the course of a run the flags of the interrupters are raised by those who trip them, and none
is ever lowered. -/
theorem Run.isTripped_iff (hstart : start.Fresh settings) (run : Run settings start trace m)
    (j : Interrupter) : m.world.isTripped j = true ↔ ∃ p ∈ trace, p.Trips j := by
  induction run with
  | rest => simp [World.isTripped, hstart.tripped]
  | @move trace p _ hp ih => rw [hp.isTripped_iff j, ih]; simp [or_comm]

/-- The interrupt scopes of a run nest like a stack. -/
structure NestsScopes (trace : List (Passage K V Q R)) (m : Machine K V Q R) : Prop where
  /-- The frames of a thread are those of its open scopes. -/
  nested : ∀ i t, m.threads[i]? = some t → Nested (openScopes i trace) t.stack t.binding
  /-- A thread is interrupted when the interrupter of its innermost open scope has been tripped, and
  outside all scopes it is not. -/
  interrupted : ∀ i t, m.threads[i]? = some t → m.world.interrupts t.binding =
    ((openScopes i trace).head?.bind Passage.entered?).any m.world.isTripped
  /-- Tripping an interrupter raises the flag that everyone sees who has this interrupter, and no
  other flag; nothing else changes a flag. -/
  trips : ∀ p ∈ trace, ∀ j, p.after.world.isTripped j = true ↔
    p.before.world.isTripped j = true ∨ p.Trips j
  /-- A flag is up when somebody has raised it. -/
  tripped : ∀ j, m.world.isTripped j = true ↔ ∃ p ∈ trace, p.Trips j
  /-- The scope that is left, by a return or by a panic, is the innermost open one.  What was in
  force when it was entered is in force again, and the return or the panic passes on. -/
  restores : ∀ front p back signal, trace = front ++ p :: back → p.left? = some signal →
    ∃ i enter outer t, p.mover = some i ∧ openScopes i front = enter :: outer ∧
      enter.thread? = some t ∧ p.after.threads[i]? = some ⟨.settle signal, t.stack, t.binding⟩ ∧
      openScopes i (front ++ [p]) = outer

theorem Run.restores (hstart : start.Fresh settings) (run : Run settings start trace m)
    {front back : List (Passage K V Q R)} {p : Passage K V Q R} {signal : Signal V}
    (htrace : trace = front ++ p :: back) (hleft : p.left? = some signal) :
    ∃ i enter outer t, p.mover = some i ∧ openScopes i front = enter :: outer ∧
      enter.thread? = some t ∧ p.after.threads[i]? = some ⟨.settle signal, t.stack, t.binding⟩ ∧
      openScopes i (front ++ [p]) = outer := by
  obtain ⟨hbefore, hp, -⟩ := run.split htrace
  obtain ⟨t, hthread, hleaving⟩ := Option.bind_eq_some_iff.mp hleft
  obtain ⟨i, hmover, ht⟩ := Option.bind_eq_some_iff.mp hthread
  obtain ⟨before, rest, heq⟩ := Thread.leaves_of_leaving? hleaving
  have hnested := (hbefore.nested hstart i).1 t ht
  rw [heq] at hnested
  obtain ⟨enter, outer, origin, hopened, horigin, hstack, hbinding, -⟩ := hnested.leave
  have hentering : t.entering? = none := by rw [heq]; rfl
  have houter : openScopes i (front ++ [p]) = outer := by
    rw [openScopes_snoc, Passage.reopens_of_mover hmover ht, if_neg (by simp [hentering]),
      if_pos (by rw [hleaving]; rfl), hopened, List.tail_cons]
  rw [Passage.Lawful, hmover] at hp
  obtain ⟨chance, hstep⟩ := hp
  obtain ⟨t', s, ht', hs, hafter, -⟩ := Machine.step_eq_some hstep
  obtain rfl := Option.some.inj (ht.symm.trans ht')
  have hthread' : s.thread = ⟨.settle signal, rest, before⟩ := by
    rw [heq] at hs
    exact Option.some.inj hs ▸ rfl
  have hsize := (Array.getElem?_eq_some_iff.mp ht).1
  refine ⟨i, enter, outer, origin, hmover, hopened, horigin, ?_, houter⟩
  rw [hafter, Array.getElem?_setIfInBounds_self_of_lt hsize, hthread', hstack, hbinding]

/-- Interrupt scopes nest like a stack, whatever the threads do. -/
theorem Run.nestsScopes (hstart : start.Fresh settings) (run : Run settings start trace m) :
    NestsScopes trace m where
  nested i := (run.nested hstart i).1
  interrupted i t ht := by
    rw [World.interrupts, ← ((run.nested hstart i).1 t ht).binding_eq]
  trips _ hp := (run.lawful hp).isTripped_iff
  tripped := run.isTripped_iff hstart
  restores _ _ _ _ := run.restores hstart

end Runs

/-- A scope within a scope, left by a panic that is caught between the two. -/
def panickingScopes : Script Nat Nat Unit Unit :=
  .scope 1 (.guard (.scope 2 (.raise .silent) .finish) fun _ => .finish .unit) .finish

/-- The thread comes back to the outer scope. -/
def panickingMoves : List (Move Nat Nat Unit Unit) :=
  .spawn panickingScopes :: List.replicate 8 (.step 0 .none)

/-- Back in the outer scope, whose interrupter somebody trips, the thread is interrupted. -/
theorem panicking_nestsScopes : ∃ (start m : Machine Nat Nat Unit Unit)
    (trace : List (Passage Nat Nat Unit Unit)), start.Fresh plainSettings ∧
      Run plainSettings start trace m ∧ NestsScopes trace m ∧
      trace.filterMap Passage.left? = [.raised .silent] ∧
      (openScopes 0 trace).map Passage.entered? = [some (.named 1)] ∧
      m.world.tripped = [.named 1] := by
  have hfacts : (Machine.replay plainSettings panickingMoves).map (fun run =>
      (run.1.filterMap Passage.left?, (openScopes 0 run.1).map Passage.entered?,
        run.2.world.tripped)) = some ([.raised .silent], [some (.named 1)], []) := by
    decide +kernel
  obtain ⟨⟨trace, m⟩, hreplay, htuple⟩ := Option.map_eq_some_iff.mp hfacts
  obtain ⟨hleft, hopened, htripped⟩ : trace.filterMap Passage.left? = [.raised .silent] ∧
      (openScopes 0 trace).map Passage.entered? = [some (.named 1)] ∧ m.world.tripped = [] := by
    simpa only [Prod.mk.injEq] using htuple
  obtain ⟨start, hstart, hrun⟩ := Machine.run_of_replay hreplay
  let p : Passage Nat Nat Unit Unit :=
    ⟨m, none, [], { m with world := m.world.trip (.named 1) }⟩
  have run : Run plainSettings start (trace ++ [p]) p.after :=
    .move (p := p) hrun ⟨.trip (.named 1), rfl⟩
  refine ⟨start, p.after, trace ++ [p], hstart, run, Run.nestsScopes hstart run, ?_, ?_, ?_⟩
  · simp [hleft, p, Passage.left?, Passage.thread?]
  · rw [openScopes_snoc, Passage.reopens_of_ne (by simp [p]), hopened]
  · exact congrArg (Interrupter.named 1 :: ·) htripped

end SharedCache
