import Mathlib.Data.List.Nodup
import SharedCache.Proofs.Executor.Closing

/-!
# Conservation of tasks

What the events of a run tell of the tasks of an executor, and how the queues follow from it.  The
tasks of a partition that were started, then those that were handed back, then those that wait are
those that were submitted, in that order.  To the queues a step does one of four things, and each of
them keeps the two sides equal.
-/

namespace SharedCache

variable {K V Q R : Type}

/-! ## Movements -/

/-- The ways of a task into a queue and out of it. -/
inductive Movement where
  | submitted
  | started
  | handedBack
  deriving DecidableEq

/-- The event of a movement. -/
def Movement.event (p : Nat) : Movement → Nat → Event K V
  | .submitted, task => .submitted p task
  | .started, task => .started p task
  | .handedBack, task => .handedBack p task

/-- The events of one movement of several tasks of a partition. -/
def Movement.events (kind : Movement) (p : Nat) (tasks : List Nat) : List (Event K V) :=
  tasks.map (kind.event p)

/-- The partition and the task that an event tells such a movement of. -/
def Event.moved? : Movement → Event K V → Option (Nat × Nat)
  | .submitted, .submitted p task | .started, .started p task | .handedBack, .handedBack p task =>
    some (p, task)
  | _, _ => none

/-- The task that an event tells the end of. -/
def Event.delivered? : Event K V → Option Nat
  | .delivered task => some task
  | _ => none

/-- The movements of one kind, with the partition and the task of each. -/
def movements (kind : Movement) (events : List (Event K V)) : List (Nat × Nat) :=
  events.filterMap (Event.moved? kind)

/-- The tasks of a partition that moved in one way. -/
def tasksOf (kind : Movement) (p : Nat) (events : List (Event K V)) : List Nat :=
  ((movements kind events).filter fun entry => entry.1 = p).map Prod.snd

/-- The tasks that are over. -/
def deliveries (events : List (Event K V)) : List Nat := events.filterMap Event.delivered?

section Movements

variable {kind : Movement} {p task : Nat} {events events' : List (Event K V)}

@[simp]
theorem movements_nil : movements kind ([] : List (Event K V)) = [] := rfl

@[simp]
theorem movements_append :
    movements kind (events ++ events') = movements kind events ++ movements kind events' :=
  List.filterMap_append

@[simp]
theorem tasksOf_nil : tasksOf kind p ([] : List (Event K V)) = [] := rfl

@[simp]
theorem tasksOf_append :
    tasksOf kind p (events ++ events') = tasksOf kind p events ++ tasksOf kind p events' := by
  simp [tasksOf]

@[simp]
theorem deliveries_append :
    deliveries (events ++ events') = deliveries events ++ deliveries events' :=
  List.filterMap_append

theorem mem_tasksOf : task ∈ tasksOf kind p events ↔ (p, task) ∈ movements kind events := by
  simp [tasksOf]

theorem exists_mem_tasksOf (htask : 0 < ((movements kind events).map Prod.snd).count task) :
    ∃ p, task ∈ tasksOf kind p events := by
  obtain ⟨⟨p, other⟩, hentry, rfl⟩ := List.mem_map.mp (List.count_pos_iff.mp htask)
  exact ⟨p, mem_tasksOf.mpr hentry⟩

theorem tasksOf_of_movements (h : movements kind events = []) : tasksOf kind p events = [] := by
  rw [tasksOf, h]
  rfl

theorem moved?_eq_none {event : Event K V} (h : event.movesTask = false) :
    event.moved? kind = none := by
  cases event <;> cases kind <;> first | rfl | cases h

theorem delivered?_eq_none {event : Event K V} (h : event.movesTask = false) :
    event.delivered? = none := by
  cases event <;> first | rfl | cases h

theorem movements_of_rests (h : ∀ event ∈ events, event.movesTask = false) :
    movements kind events = [] :=
  List.filterMap_eq_nil_iff.mpr fun event hevent => moved?_eq_none (h event hevent)

theorem deliveries_of_rests (h : ∀ event ∈ events, event.movesTask = false) :
    deliveries events = [] :=
  List.filterMap_eq_nil_iff.mpr fun event hevent => delivered?_eq_none (h event hevent)

/-- Only what moves a task is of interest. -/
theorem filterMap_filter_movesTask {α : Type} {f : Event K V → Option α}
    (hf : ∀ event, event.movesTask = false → f event = none) :
    (events.filter Event.movesTask).filterMap f = events.filterMap f := by
  induction events with
  | nil => rfl
  | cons event events ih =>
    cases hmoves : event.movesTask with
    | true => simp [hmoves, List.filterMap_cons, ih]
    | false => simp [hmoves, hf event hmoves, ih]

theorem movements_of_delivered (h : events.filter Event.movesTask = [.delivered task]) :
    movements kind events = [] := by
  rw [movements, ← filterMap_filter_movesTask fun event => moved?_eq_none, h]
  cases kind <;> rfl

theorem deliveries_of_delivered (h : events.filter Event.movesTask = [.delivered task]) :
    deliveries events = [task] := by
  rw [deliveries, ← filterMap_filter_movesTask fun event => delivered?_eq_none, h]
  rfl

theorem moved?_event (p task : Nat) (kind' : Movement) :
    (kind'.event p task : Event K V).moved? kind =
      if kind' = kind then some (p, task) else none := by
  cases kind <;> cases kind' <;> rfl

@[simp]
theorem movements_events (p : Nat) (kind' : Movement) (tasks : List Nat) :
    movements kind (kind'.events p tasks : List (Event K V)) =
      if kind' = kind then tasks.map fun task => (p, task) else [] := by
  rw [movements, Movement.events, List.filterMap_map]
  split
  · rw [← List.filterMap_eq_map]
    refine List.filterMap_congr fun task _ => ?_
    simp [moved?_event, *]
  · exact List.filterMap_eq_nil_iff.mpr fun task _ => by simp [moved?_event, *]

@[simp]
theorem tasksOf_events (p q : Nat) (kind' : Movement) (tasks : List Nat) :
    tasksOf kind q (kind'.events p tasks : List (Event K V)) =
      if kind' = kind ∧ p = q then tasks else [] := by
  rw [tasksOf, movements_events]
  by_cases hkind : kind' = kind
  · by_cases hq : p = q <;> simp [hkind, hq, List.filter_map, Function.comp_def]
  · simp [hkind]

theorem deliveries_events (p : Nat) (kind : Movement) (tasks : List Nat) :
    deliveries (kind.events p tasks : List (Event K V)) = [] := by
  rw [deliveries, Movement.events, List.filterMap_map]
  exact List.filterMap_eq_nil_iff.mpr fun task _ => by cases kind <;> rfl

end Movements

namespace Executor

variable {e e' : Executor K V Q R} {events new : List (Event K V)}
  {done given base : List (Duty K V Q R)} {rosters : List (List (Duty K V Q R))}

/-- What a step can do to the queues. -/
inductive Moves (e e' : Executor K V Q R) : List (Event K V) → Prop where
  | rests {new : List (Event K V)} :
      (∀ q, (e'.partition q).queue = (e.partition q).queue) → e'.tasks.size = e.tasks.size →
      e'.handedBack ⊆ e.handedBack → (∀ kind, movements kind new = []) → Moves e e' new
  | joins {p : Nat} :
      e.phase = .running →
      (∀ q, (e'.partition q).queue =
        if q = p then (e.partition p).queue ++ [e.tasks.size] else (e.partition q).queue) →
      e'.tasks.size = e.tasks.size + 1 → e'.handedBack = e.handedBack →
      Moves e e' (Movement.submitted.events p [e.tasks.size])
  | leaves {p task : Nat} {rest : List Nat} :
      (e.partition p).queue = task :: rest →
      (∀ q, (e'.partition q).queue = if q = p then rest else (e.partition q).queue) →
      e'.tasks.size = e.tasks.size → e'.handedBack = e.handedBack →
      Moves e e' (Movement.started.events p [task])
  | returns {p : Nat} :
      e.phase ≠ .running →
      (∀ q, (e'.partition q).queue = if q = p then [] else (e.partition q).queue) →
      e'.tasks.size = e.tasks.size →
      e'.handedBack = e.handedBack ++ (e.partition p).queue.map (fun task => (p, task)) →
      Moves e e' (Movement.handedBack.events p (e.partition p).queue)

theorem queue_of_change {p : Nat} {partition : Partition}
    (hpartition : ∀ q, e'.partition q = if q = p then partition else e.partition q) (q : Nat) :
    (e'.partition q).queue = if q = p then partition.queue else (e.partition q).queue := by
  rw [hpartition]
  split <;> rfl

theorem Moves.of_settles {e₀ : Executor K V Q R} (hsettles : e₀.Settles e')
    (hqueue : ∀ q, (e'.partition q).queue = (e.partition q).queue)
    (htasks : e₀.tasks = e.tasks) (hback : e₀.handedBack = e.handedBack) : e.Moves e' [] :=
  .rests hqueue (hsettles.tasks.trans (by rw [htasks])) (hback ▸ hsettles.handedBack) fun _ => rfl

/-- What a step does after which nobody may be left to run the tasks that wait. -/
inductive Forsakes (e : Executor K V Q R) : Executor K V Q R → List (Duty K V Q R) → Prop where
  | loses {position : Nat} :
      position < e.jobs.length →
      Forsakes e
        { e with jobs := e.jobs.eraseIdx position, carriers := e.carriers - 1 }.settleForsaken
        [.act (.loseJob position)]
  | retires : Forsakes e { e with carriers := e.carriers - 1 }.settleForsaken [.act .retire]
  | releases : Forsakes e { e with owned := false }.settleForsaken [.act .release]

/-- Every other step does to the queues one of these things. -/
theorem Does.moves_or_forsakes (hdoes : e.Does e' events done given)
    (hfills : ∀ d ∈ done, ∀ p, d.fills? = some p → p < e.partitions.size)
    (hcarries : ∀ d ∈ done, ∀ p, d.carries? = some p → p < e.partitions.size)
    (hholds : ∀ d ∈ done, d.holds = true → e.phase = .running)
    (hcloses : ∀ d, done = [d] → d.closes = true → e.phase ≠ .running) :
    e.Moves e' events ∨ events = [] ∧ e.Forsakes e' done := by
  -- A partition whose queue stays as it is.
  have hmarks : ∀ {p : Nat} {change : Partition → Partition}, p < e.partitions.size →
      (change (e.partition p)).queue = (e.partition p).queue →
      e.Moves (e.onPartition p change) [] := by
    intro p change hp hchange
    refine .rests (fun q => ?_) rfl (List.Subset.refl _) fun _ => rfl
    rw [queue_of_change (partition_onPartition hp change), hchange]
    split
    · simp [*]
    · rfl
  cases hdoes with
  | passes hkeeps hevents =>
    exact .inl (.rests (fun q => by rw [hkeeps.partition]) hkeeps.tasks hkeeps.handedBack fun _ =>
      movements_of_rests hevents)
  | delivers hkeeps hevents =>
    exact .inl (.rests (fun q => by rw [hkeeps.partition]) hkeeps.tasks hkeeps.handedBack fun _ =>
      movements_of_delivered hevents)
  | enqueues | awakens =>
    have hp := hfills _ (List.mem_singleton_self _) _ rfl
    exact .inl (.joins (hholds _ (List.mem_singleton_self _) rfl)
      (queue_of_change (partition_withTask hp _)) (Array.size_push _) rfl)
  | starts hqueue =>
    have hp := hcarries _ (List.mem_singleton_self _) _ rfl
    exact .inl (.leaves hqueue (queue_of_change (partition_onPartition hp _)) rfl rfl)
  | drains hp =>
    exact .inl (.returns (hcloses _ rfl rfl) (queue_of_change (partition_withoutQueue hp)) rfl rfl)
  | lacks | finishes | resumes =>
    exact .inl (hmarks (hcarries _ (List.mem_singleton_self _) _ rfl) rfl)
  | loses hlt => exact .inr ⟨rfl, .loses hlt⟩
  | retires => exact .inr ⟨rfl, .retires⟩
  | releases => exact .inr ⟨rfl, .releases⟩
  | takesBack =>
    exact .inl (.rests (fun _ => rfl) rfl List.filter_sublist.subset fun _ => rfl)
  | _ =>
    exact .inl (.rests (fun _ => rfl) rfl (List.Subset.refl _) fun kind => by cases kind <;> rfl)

/-- Whatever a thread does to an executor whose tasks are attended to, it does to the queues one of
these things. -/
theorem Attended.moves {i : Nat} (hattended : e.Attended rosters)
    (hroster : rosters[i]? = some (done ++ base)) (hdoes : e.Does e' events done given)
    (hkept : ∀ position, done = [.act (.loseJob position)] → e.jobs.length ≤ position)
    (hlent : done = [.act .release] →
      ∀ duties ∈ rosters, SharedCache.withinJobs false duties = true) : e.Moves e' events := by
  have hmem : ∀ d ∈ done, d ∈ rosters.flatten := fun d hd =>
    List.mem_flatten_of_mem (List.mem_of_getElem? hroster) (List.mem_append_left _ hd)
  have hcases := hdoes.moves_or_forsakes (fun d hd => hattended.books.fills d (hmem d hd))
    (fun d hd p hp => lt_of_scheduled (hattended.books.scheduled (hmem d hd) hp))
    (fun d hd => hattended.phase_eq_running (hmem d hd))
    (fun d hd => hattended.phase_ne_running (hd ▸ hroster))
  rcases hcases with hmoves | ⟨rfl, hforsakes⟩
  · exact hmoves
  cases hforsakes with
  | loses hlt => exact absurd (hkept _ rfl) (Nat.not_le_of_lt hlt)
  | retires =>
    exact .of_settles (settles_settleForsaken _) (hattended.queue_of_retires hroster) rfl rfl
  | releases =>
    exact .of_settles (settles_settleForsaken _) (hattended.queue_of_releases (hlent rfl)) rfl rfl

/-- How the queues follow from what happened. -/
structure Conserves (e : Executor K V Q R) (events : List (Event K V)) : Prop where
  conserved : ∀ p, tasksOf .submitted p events =
    tasksOf .started p events ++ tasksOf .handedBack p events ++ (e.partition p).queue
  numbered : (movements .submitted events).map Prod.snd = List.range e.tasks.size
  /-- Nothing is put into a queue after tasks were handed back. -/
  late : ∀ p, tasksOf .handedBack p events ≠ [] →
    (e.partition p).queue = [] ∧ e.phase ≠ .running
  handedBack : ∀ entry ∈ e.handedBack, entry ∈ movements .handedBack events

namespace Conserves

theorem step (hconserves : e.Conserves events) (hmoves : e.Moves e' new)
    (hphase : e'.phase = .running → e.phase = .running) : e'.Conserves (events ++ new) := by
  have hlate : ∀ q, tasksOf .handedBack q events ≠ [] →
      (e.partition q).queue = [] ∧ e'.phase ≠ .running := fun q hq =>
    (hconserves.late q hq).imp_right fun hshut h => hshut (hphase h)
  cases hmoves with
  | rests hqueue hsize hback hnone =>
    have hnew : ∀ kind q, tasksOf kind q new = [] := fun kind q => tasksOf_of_movements (hnone kind)
    refine ⟨fun q => ?_, ?_, fun q hq => ?_, fun entry hentry => ?_⟩
    · simpa [hnew, hqueue] using hconserves.conserved q
    · simpa [hnone, hsize] using hconserves.numbered
    · rw [hqueue]
      exact hlate q (by simpa [hnew] using hq)
    · simpa [hnone] using hconserves.handedBack entry (hback hentry)
  | @joins p hrunning hqueue hsize hback =>
    have hnone : ∀ q, tasksOf .handedBack q events = [] := fun q =>
      Classical.byContradiction fun hq => (hconserves.late q hq).2 hrunning
    refine ⟨fun q => ?_, ?_, fun q hq => ?_, fun entry hentry => ?_⟩
    · rw [hqueue]
      by_cases hq : q = p
      · subst hq
        simp [hconserves.conserved q]
      · simp [hconserves.conserved q, hq, Ne.symm hq]
    · simp [hconserves.numbered, hsize, List.range_succ]
    · simp [hnone] at hq
    · rw [hback] at hentry
      simpa using hconserves.handedBack entry hentry
  | @leaves p task rest hhead hqueue hsize hback =>
    have hnone : tasksOf .handedBack p events = [] :=
      Classical.byContradiction fun hp => by simp [(hconserves.late p hp).1] at hhead
    refine ⟨fun q => ?_, ?_, fun q hq => ?_, fun entry hentry => ?_⟩
    · rw [hqueue]
      by_cases hq : q = p
      · subst hq
        simp [hconserves.conserved q, hnone, hhead]
      · simp [hconserves.conserved q, hq, Ne.symm hq]
    · simp [hconserves.numbered, hsize]
    · have hold : tasksOf .handedBack q events ≠ [] := by simpa using hq
      rw [hqueue, if_neg fun hqp => hold (by rw [hqp, hnone])]
      exact hlate q hold
    · rw [hback] at hentry
      simpa using hconserves.handedBack entry hentry
  | @returns p hshut hqueue hsize hback =>
    refine ⟨fun q => ?_, ?_, fun q hq => ?_, fun entry hentry => ?_⟩
    · rw [hqueue]
      by_cases hq : q = p
      · subst hq
        simp [hconserves.conserved q]
      · simp [hconserves.conserved q, hq, Ne.symm hq]
    · simp [hconserves.numbered, hsize]
    · refine ⟨?_, fun h => hshut (hphase h)⟩
      rw [hqueue]
      split
      · rfl
      · rename_i hne
        exact (hlate q (by simpa [Ne.symm hne] using hq)).1
    · rw [hback] at hentry
      rw [movements_append, movements_events, if_pos rfl]
      exact List.mem_append.mpr
        ((List.mem_append.mp hentry).imp_left (hconserves.handedBack entry))

/-- A task is submitted to one partition. -/
theorem partition_unique {p q task : Nat} (hconserves : e.Conserves events)
    (hp : task ∈ tasksOf .submitted p events) (hq : task ∈ tasksOf .submitted q events) :
    p = q := by
  have hnodup : ((movements .submitted events).map Prod.snd).Nodup :=
    hconserves.numbered ▸ List.nodup_range
  have hpair : (p, task) = (q, task) :=
    List.inj_on_of_nodup_map hnodup (mem_tasksOf.mp hp) (mem_tasksOf.mp hq) rfl
  exact congrArg Prod.fst hpair

theorem nodup_submitted (hconserves : e.Conserves events) (p : Nat) :
    (tasksOf .submitted p events).Nodup := by
  have hnodup : ((movements .submitted events).map Prod.snd).Nodup :=
    hconserves.numbered ▸ List.nodup_range
  exact hnodup.sublist (List.filter_sublist.map Prod.snd)

theorem nodup (hconserves : e.Conserves events) (p : Nat) :
    (tasksOf .started p events ++ tasksOf .handedBack p events ++ (e.partition p).queue).Nodup :=
  hconserves.conserved p ▸ hconserves.nodup_submitted p

/-- What moves has been submitted. -/
theorem sublist (hconserves : e.Conserves events) (kind : Movement) (p : Nat) :
    (tasksOf kind p events).Sublist (tasksOf .submitted p events) := by
  have hconserved := hconserves.conserved p
  cases kind with
  | submitted => exact List.Sublist.refl _
  | started =>
    rw [hconserved, List.append_assoc]
    exact List.sublist_append_left _ _
  | handedBack =>
    rw [hconserved]
    exact (List.sublist_append_right _ _).trans (List.sublist_append_left _ _)

section Places

variable {p q task : Nat} (hconserves : e.Conserves events)

include hconserves

theorem submitted_of_started (htask : task ∈ tasksOf .started p events) :
    task ∈ tasksOf .submitted p events :=
  (hconserves.sublist .started p).subset htask

theorem submitted_of_handedBack (htask : task ∈ tasksOf .handedBack p events) :
    task ∈ tasksOf .submitted p events :=
  (hconserves.sublist .handedBack p).subset htask

theorem submitted_of_queue (htask : task ∈ (e.partition p).queue) :
    task ∈ tasksOf .submitted p events := by
  rw [hconserves.conserved]
  exact List.mem_append_right _ htask

theorem lt_size (htask : task ∈ tasksOf .submitted p events) : task < e.tasks.size := by
  rw [← List.mem_range, ← hconserves.numbered]
  exact List.mem_map_of_mem (mem_tasksOf.mp htask)

/-- A task that was started is not handed back, from whatever partition. -/
theorem not_handedBack_of_started (htask : task ∈ tasksOf .started p events) :
    task ∉ tasksOf .handedBack q events := by
  intro hback
  obtain rfl := hconserves.partition_unique (hconserves.submitted_of_started htask)
    (hconserves.submitted_of_handedBack hback)
  have hnodup := (List.nodup_append.mp (hconserves.nodup p)).1
  exact (List.nodup_append.mp hnodup).2.2 task htask task hback rfl

/-- A task that waits was neither started nor handed back. -/
theorem fresh_of_queue (htask : task ∈ (e.partition p).queue) :
    task ∉ tasksOf .started q events ∧ task ∉ tasksOf .handedBack q events := by
  have hapart := (List.nodup_append.mp (hconserves.nodup p)).2.2
  constructor
  · intro hstarted
    obtain rfl := hconserves.partition_unique (hconserves.submitted_of_queue htask)
      (hconserves.submitted_of_started hstarted)
    exact hapart task (List.mem_append_left _ hstarted) task htask rfl
  · intro hback
    obtain rfl := hconserves.partition_unique (hconserves.submitted_of_queue htask)
      (hconserves.submitted_of_handedBack hback)
    exact hapart task (List.mem_append_right _ hback) task htask rfl

end Places

end Conserves

theorem conserves_of {partitions : Nat} {pool : PoolKind}
    (he : Executor.of partitions pool = .ok e) : e.Conserves [] := by
  have hidle := partition_of he
  rw [Executor.of] at he
  split at he
  · obtain rfl := Except.ok.inj he
    exact ⟨fun p => by rw [hidle]; rfl, rfl, by simp, by simp⟩
  · cases he

end Executor

end SharedCache
