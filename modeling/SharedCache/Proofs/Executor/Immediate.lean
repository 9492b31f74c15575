import SharedCache.Proofs.Executor.Queues
import SharedCache.Proofs.Scopes

/-!
# Immediate shutdown

A call of `shutdownNow` tells the executor to shut down and then drains one partition after the
other, while other threads run tasks, submit some or drain the same partitions.  What it hands back
are the tasks that wait in each partition when its turn comes, and it interrupts the tasks that are
under way then.  No queue is filled any more by that time, so a partition that has been drained
stays empty.
-/

namespace SharedCache

variable {K V Q R : Type}

/-! ## Tasks under way -/

/-- A task is under way in a partition when it was started there and the partition has not been
marked as not running since. -/
def UnderWay (q task : Nat) (trace : List (Passage K V Q R)) : Prop :=
  ∃ front s back, trace = front ++ s :: back ∧ .started q task ∈ s.events ∧
    ∀ p ∈ back, p.dispatch? ≠ some (.finish q)

/-- A passage of a run that has gone on is its last one, or it is one of those before. -/
theorem exists_split_snoc {trace : List (Passage K V Q R)} {last : Passage K V Q R}
    {P : List (Passage K V Q R) → Passage K V Q R → List (Passage K V Q R) → Prop} :
    (∃ front p back, trace ++ [last] = front ++ p :: back ∧ P front p back) ↔
      P trace last [] ∨
        ∃ front p back, trace = front ++ p :: back ∧ P front p (back ++ [last]) := by
  constructor
  · rintro ⟨front, p, back, htrace, hP⟩
    rcases List.eq_nil_or_concat back with rfl | ⟨back, other, rfl⟩
    · obtain ⟨rfl, hlast⟩ := List.append_inj' htrace rfl
      obtain rfl : last = p := by simpa using hlast
      exact .inl hP
    · rw [List.concat_eq_append, ← List.cons_append, ← List.append_assoc] at htrace
      obtain ⟨hfront, hlast⟩ := List.append_inj' htrace rfl
      obtain rfl : last = other := by simpa using hlast
      exact .inr ⟨front, p, back, hfront, by rwa [← List.concat_eq_append]⟩
  · rintro (hP | ⟨front, p, back, rfl, hP⟩)
    · exact ⟨trace, last, [], rfl, hP⟩
    · exact ⟨front, p, back ++ [last], by simp, hP⟩

theorem underWay_snoc {q task : Nat} {trace : List (Passage K V Q R)} {p : Passage K V Q R} :
    UnderWay q task (trace ++ [p]) ↔
      .started q task ∈ p.events ∨ UnderWay q task trace ∧ p.dispatch? ≠ some (.finish q) := by
  have hback : ∀ back : List (Passage K V Q R),
      (∀ r ∈ back ++ [p], r.dispatch? ≠ some (.finish q)) ↔
        (∀ r ∈ back, r.dispatch? ≠ some (.finish q)) ∧ p.dispatch? ≠ some (.finish q) := by
    intro back
    rw [List.forall_mem_append, List.forall_mem_singleton]
  rw [UnderWay, exists_split_snoc]
  simp only [hback, UnderWay, List.not_mem_nil, false_imp_iff, implies_true, and_true]
  tauto

namespace Executor

variable {e e' : Executor K V Q R} {events : List (Event K V)}
  {done given : List (Duty K V Q R)}

/-- What a step does to the task that a partition runs: it starts one, marks the partition as not
running, or neither. -/
theorem Does.running (hdoes : e.Does e' events done given)
    (hcarries : ∀ d ∈ done, ∀ p, d.carries? = some p → p < e.partitions.size)
    (hfills : ∀ d ∈ done, ∀ p, d.fills? = some p → p < e.partitions.size) (q : Nat) :
    (∃ task, done = [.act (.start q)] ∧ events = [.started q task] ∧
        (e'.partition q).running = some task) ∨
      done = [.act (.finish q)] ∧ events = [] ∧ (e'.partition q).running = none ∨
      (∀ task, .started q task ∉ events) ∧ done ≠ [.act (.finish q)] ∧
        (e'.partition q).running = (e.partition q).running := by
  have hchange : ∀ {p : Nat} {change : Partition → Partition}, p < e.partitions.size →
      (p = q → (change (e.partition p)).running = (e.partition p).running) →
      ((e.onPartition p change).partition q).running = (e.partition q).running := by
    intro p change hp hsame
    rw [partition_onPartition hp]
    split
    · rename_i hq
      rw [hsame hq.symm, hq]
    · rfl
  cases hdoes with
  | passes hkeeps hevents hdone =>
    refine .inr (.inr ⟨fun task hevent => ?_, ?_, by rw [hkeeps.partition]⟩)
    · cases hevents _ hevent
    · rintro rfl
      cases (hdone _ (List.mem_singleton_self _)).isCounted
  | delivers hkeeps hevents =>
    refine .inr (.inr ⟨fun task hevent => ?_, by simp, by rw [hkeeps.partition]⟩)
    have hmem : (.started q task : Event K V) ∈ events.filter Event.movesTask :=
      List.mem_filter.mpr ⟨hevent, rfl⟩
    rw [hevents] at hmem
    cases List.mem_singleton.mp hmem
  | @starts p task rest _ =>
    have hp := hcarries _ (List.mem_singleton_self _) _ rfl
    by_cases hq : p = q
    · subst hq
      exact .inl ⟨task, rfl, rfl, by rw [partition_onPartition hp, if_pos rfl]⟩
    · exact .inr (.inr ⟨by simp [Ne.symm hq], by simp, hchange hp fun h => absurd h hq⟩)
  | @finishes p | @resumes p =>
    have hp := hcarries _ (List.mem_singleton_self _) _ rfl
    by_cases hq : p = q
    · subst hq
      exact .inr (.inl ⟨rfl, rfl, by rw [partition_onPartition hp, if_pos rfl]⟩)
    · exact .inr (.inr ⟨by simp, by simp [hq], hchange hp fun h => absurd h hq⟩)
  | enqueues | awakens =>
    have hp := hfills _ (List.mem_singleton_self _) _ rfl
    exact .inr (.inr ⟨by simp, by simp, hchange hp fun _ => rfl⟩)
  | lacks =>
    have hp := hcarries _ (List.mem_singleton_self _) _ rfl
    exact .inr (.inr ⟨by simp, by simp, hchange hp fun _ => rfl⟩)
  | drains hp => exact .inr (.inr ⟨by simp, by simp, hchange hp fun _ => rfl⟩)
  | loses | retires | releases => exact .inr (.inr ⟨by simp, by simp, running_settleForsaken _ q⟩)
  | _ => exact .inr (.inr ⟨by simp, by simp, rfl⟩)

end Executor

section Running

variable [DecidableEq K] [DecidableEq V] {settings : Settings K V Q R} {start m : Machine K V Q R}
  {trace : List (Passage K V Q R)}

/-- A partition runs the task that is under way in it. -/
theorem Run.running_iff (hstart : start.Fresh settings) (run : Run settings start trace m)
    (q task : Nat) :
    (m.world.executor.partition q).running = some task ↔ UnderWay q task trace := by
  induction run with
  | rest =>
    obtain ⟨partitions, pool, hexecutor⟩ := hstart.executor
    rw [Executor.partition_of hexecutor]
    simp [Partition.idle, UnderWay]
  | @move trace p run hp ih =>
    have hm := run.reachable hstart
    have hguarded := hm.guarded
    rw [underWay_snoc]
    cases hp.labours hm with
    | outside hmover hevents hexecutor =>
      rw [hexecutor, ih, hevents, Passage.dispatch?_of_mover hmover]
      simp
    | @work i done given base hmover hroster hrosters hdone hdoes =>
      have hmem : ∀ d ∈ done, d ∈ p.before.rosters.flatten := fun d hd =>
        List.mem_flatten_of_mem (List.mem_of_getElem? hroster) (List.mem_append_left _ hd)
      have hrunning := hdoes.running (fun d hd _ => hguarded.size (hmem d hd))
        (fun d hd => hguarded.fills d (hmem d hd)) q
      rw [Ne, hdone.dispatch?_eq_some_iff]
      rcases hrunning with ⟨started, rfl, hevents, hafter⟩ | ⟨rfl, hevents, hafter⟩ |
        ⟨hevents, hfinish, hafter⟩
      · -- The job that starts a task finds none under way.
        have hfree : ¬ UnderWay q task trace := by
          rw [← ih, hguarded.running_of_start hroster]
          simp
        simp [hevents, hafter, hfree, eq_comm]
      · simp [hevents, hafter]
      · simp [hevents task, hfinish, hafter, ih]

end Running

/-! ## Empty queues -/

namespace Executor

variable {e e' : Executor K V Q R} {events : List (Event K V)}

/-- Nothing comes into a queue after the shutdown. -/
theorem Moves.queue_eq_nil {q : Nat} (hmoves : e.Moves e' events) (hphase : e.phase ≠ .running)
    (hq : (e.partition q).queue = []) : (e'.partition q).queue = [] := by
  cases hmoves with
  | rests hqueue => rw [hqueue, hq]
  | joins hrunning => exact absurd hrunning hphase
  | leaves hhead hqueue =>
    rw [hqueue]
    split
    · rename_i heq
      rw [heq, hhead] at hq
      cases hq
    · exact hq
  | returns _ hqueue =>
    rw [hqueue]
    split
    · rfl
    · exact hq

/-- The executor takes no more tasks and has none that waits. -/
structure IsEmptied (e : Executor K V Q R) : Prop where
  phase : e.phase ≠ .running
  queue : ∀ q, (e.partition q).queue = []

/-- Nothing is started from empty queues. -/
theorem IsEmptied.started_eq_nil (he : e.IsEmptied) (hmoves : e.Moves e' events) :
    movements .started events = [] := by
  cases hmoves with
  | rests _ _ _ hnone => exact hnone _
  | joins hrunning => exact absurd hrunning he.phase
  | leaves hhead =>
    rw [he.queue] at hhead
    cases hhead
  | returns => simp

theorem IsEmptied.queued_eq (he : e.IsEmptied) : e.queued = 0 := by
  rw [queued, List.flatMap_eq_nil_iff.mpr fun partition hpartition => ?_, List.length_nil]
  obtain ⟨q, hq⟩ := List.getElem?_of_mem hpartition
  have hqueue := he.queue q
  rw [Executor.partition, ← Array.getElem?_toList, hq, Option.getD_some] at hqueue
  exact hqueue

end Executor

section Empty

variable [DecidableEq K] [DecidableEq V] {settings : Settings K V Q R} {p : Passage K V Q R}

/-- A queue that is empty after the shutdown stays so. -/
theorem Passage.Lawful.queue_eq_nil (hp : p.Lawful settings) (hm : p.before.Reachable settings)
    {q : Nat} (hphase : p.before.world.executor.phase ≠ .running)
    (hq : (p.before.world.executor.partition q).queue = []) :
    (p.after.world.executor.partition q).queue = [] := by
  rcases hp.moves hm with hmoves | ⟨hclears, -⟩
  · exact hmoves.queue_eq_nil hphase hq
  · exact hclears.queue q

theorem Passage.Lawful.isEmptied (hp : p.Lawful settings) (hm : p.before.Reachable settings)
    (he : p.before.world.executor.IsEmptied) : p.after.world.executor.IsEmptied :=
  ⟨fun hphase => he.phase (hp.phase_running hm hphase), fun q =>
    hp.queue_eq_nil hm he.phase (he.queue q)⟩

/-- An executor that has been emptied is quiet: no task is put into a queue or started, and whoever
submits one is turned away. -/
structure Passage.IsQuiet (p : Passage K V Q R) : Prop where
  submits : movements .submitted p.events = []
  starts : movements .started p.events = []
  rejects : ∀ partition code, p.dispatch? = some (.accept partition code) → p.Rejects

theorem Passage.Lawful.isQuiet (hp : p.Lawful settings) (hm : p.before.Reachable settings)
    (he : p.before.world.executor.IsEmptied) : p.IsQuiet := by
  have hmoves : movements .submitted p.events = [] ∧ movements .started p.events = [] := by
    rcases hp.moves hm with hmoves | ⟨-, hevents, -⟩
    · exact ⟨hmoves.submitted_eq_nil he.phase, he.started_eq_nil hmoves⟩
    · simp [hevents]
  refine ⟨hmoves.1, hmoves.2, fun partition code hdispatch => ?_⟩
  obtain ⟨interrupted, timedOut, turn, hturn, hexecutor, hnext⟩ := hp.turn_of_dispatch? hdispatch
  obtain rfl : p.before.world.executor.accept partition code = turn := Option.some.inj hturn
  rw [Executor.accept, if_neg he.phase] at hexecutor hnext
  exact ⟨hexecutor, hnext⟩

theorem Passage.Lawful.size_eq (hp : p.Lawful settings) (hm : p.before.Reachable settings) :
    p.after.world.executor.partitions.size = p.before.world.executor.partitions.size := by
  cases hp.serves hm with
  | outside _ hexecutor => rw [hexecutor]
  | step _ _ _ hdoes => exact hdoes.size_eq

end Empty

/-! ## Calls -/

/-- How far a call of `shutdownNow` has come in the passages since it was made, after those of
`front`: the partitions below `q` have been drained, each in its turn, and `taken` is what waited in
them then. -/
inductive Drained (i : Nat) (front : List (Passage K V Q R)) :
    List (Passage K V Q R) → Nat → List (Nat × Nat) → Prop where
  | begins : Drained i front [] 0 []
  | waits {mid : List (Passage K V Q R)} {p : Passage K V Q R} {q : Nat}
      {taken : List (Nat × Nat)} :
      Drained i front mid q taken →
      (p.mover = some i → ∀ r taken', p.dispatch? ≠ some (.drain r taken')) →
      Drained i front (mid ++ [p]) q taken
  | drains {mid : List (Passage K V Q R)} {p : Passage K V Q R} {q : Nat}
      {taken : List (Nat × Nat)} :
      Drained i front mid q taken → p.mover = some i → p.dispatch? = some (.drain q taken) →
      Drained i front (mid ++ [p]) (q + 1)
        (taken ++ (waiting q (front ++ mid)).map fun task => (q, task))

/-- What a thread does one after the other while it shuts an executor down. -/
def shutdownActivities : List (Activity K V Q R) :=
  [.dispatch .shutdown, .dispatch .conclude, .dispatch .terminate, .dispatch .announce,
    .settle (.done .unit)]

/-- What a thread is at that is in a call of `shutdownNow`, made by code that is to be continued
with `code` on the stack of `t`: it shuts the executor down first, and then it drains. -/
inductive ShuttingDown (code : Answer V → Script K V Q R) (t : Thread K V Q R) :
    Nat → List (Nat × Nat) → Thread K V Q R → Prop where
  | shuts {a : Activity K V Q R} :
      a ∈ shutdownActivities →
      ShuttingDown code t 0 []
        ⟨a, .next (.dispatch (.drain 0 [])) :: .calling code :: t.stack, t.binding⟩
  | drains {q : Nat} {taken : List (Nat × Nat)} :
      ShuttingDown code t q taken
        ⟨.dispatch (.drain q taken), .calling code :: t.stack, t.binding⟩

/-- A call of `shutdownNow` at the end of a run, which was made by thread `i` in the last passage of
`front`, the thread being `t` then. -/
inductive ShutdownCall (i : Nat) (code : Answer V → Script K V Q R) (t : Thread K V Q R)
    (front back : List (Passage K V Q R)) (m : Machine K V Q R) : Prop where
  /-- The call has not come back. -/
  | goesOn {q : Nat} {taken : List (Nat × Nat)} {t' : Thread K V Q R} :
      Drained i front back q taken → m.threads[i]? = some t' → ShuttingDown code t q taken t' →
      ShutdownCall i code t front back m
  /-- The call has come back when it had drained all partitions, and gave what it had taken.  Since
  then the executor is quiet, and nothing waits in it. -/
  | returned {mid later : List (Passage K V Q R)} {p : Passage K V Q R}
      {taken : List (Nat × Nat)} :
      back = mid ++ p :: later →
      Drained i front mid p.before.world.executor.partitions.size taken →
      p.mover = some i →
      p.after.threads[i]? =
        some ⟨.settle (.done (.handedBack taken)), .calling code :: t.stack, t.binding⟩ →
      (∀ r ∈ later, r.IsQuiet) → m.world.executor.queued = 0 →
      ShutdownCall i code t front back m

/-- What is kept while a call goes on: the partitions that it has drained are empty. -/
structure ShutdownProgress (i : Nat) (code : Answer V → Script K V Q R) (t : Thread K V Q R)
    (front back : List (Passage K V Q R)) (m : Machine K V Q R) (q : Nat)
    (taken : List (Nat × Nat)) : Prop where
  drained : Drained i front back q taken
  thread : ∃ t', m.threads[i]? = some t' ∧ ShuttingDown code t q taken t'
  le_size : q ≤ m.world.executor.partitions.size
  phase : 0 < q → m.world.executor.phase ≠ .running
  queue : ∀ r < q, (m.world.executor.partition r).queue = []

/-- A thread that shuts an executor down goes on to do so until it is done. -/
theorem Dispatch.mem_shutdownActivities {e : Executor K V Q R} {interrupted timedOut : Bool}
    {d : Dispatch K V Q R} {turn : ExecutorTurn K V Q R} (hd : .dispatch d ∈ shutdownActivities)
    (hturn : d.turn e interrupted timedOut = some turn) :
    turn.next ∈ shutdownActivities ∧ turn.frames = [] := by
  cases Dispatch.sections hturn with
  | shuts | shutsNothing | concludes | concludesNothing | terminates | terminatesNothing
  | announces => exact ⟨by simp [shutdownActivities], rfl⟩
  | _ => simp [shutdownActivities] at hd

section Calls

variable [DecidableEq K] [DecidableEq V] {settings : Settings K V Q R} {start m : Machine K V Q R}
  {front back : List (Passage K V Q R)} {i : Nat} {code : Answer V → Script K V Q R}
  {t t' : Thread K V Q R} {p : Passage K V Q R} {q : Nat} {taken : List (Nat × Nat)}

namespace ShutdownProgress

/-- A call stays where it is in a passage that drains nothing on its behalf. -/
theorem keep (hprogress : ShutdownProgress i code t front back p.before q taken)
    (hp : p.Lawful settings) (hm : p.before.Reachable settings)
    (hwaits : p.mover = some i → ∀ r taken', p.dispatch? ≠ some (.drain r taken'))
    (hthread : ∃ t', p.after.threads[i]? = some t' ∧ ShuttingDown code t q taken t') :
    ShutdownProgress i code t front (back ++ [p]) p.after q taken where
  drained := hprogress.drained.waits hwaits
  thread := hthread
  le_size := (hp.size_eq hm).symm ▸ hprogress.le_size
  phase hpos hphase := hprogress.phase hpos (hp.phase_running hm hphase)
  queue r hr := hp.queue_eq_nil hm (hprogress.phase (Nat.zero_lt_of_lt hr)) (hprogress.queue r hr)

/-- The thread of a call shuts the executor down, and then it begins to drain. -/
theorem shut (hprogress : ShutdownProgress i code t front back p.before 0 [])
    (hp : p.Lawful settings) (hm : p.before.Reachable settings) (hmover : p.mover = some i)
    {a : Activity K V Q R} (ha : a ∈ shutdownActivities)
    (ht : p.before.threads[i]? = some
      ⟨a, .next (.dispatch (.drain 0 [])) :: .calling code :: t.stack, t.binding⟩) :
    ShutdownProgress i code t front (back ++ [p]) p.after 0 [] := by
  cases a with
  | dispatch d =>
    obtain ⟨interrupted, timedOut, turn, hturn, -, -, hthread⟩ := hp.own_dispatch hmover ht rfl
    obtain ⟨hnext, hframes⟩ := Dispatch.mem_shutdownActivities ha hturn
    rw [hframes] at hthread
    refine hprogress.keep hp hm (fun _ r taken' hdrain => ?_) ⟨_, hthread, .shuts hnext⟩
    rw [Passage.dispatch?_of_activity hmover ht rfl] at hdrain
    obtain rfl := Option.some.inj hdrain
    simp [shutdownActivities] at ha
  | settle signal =>
    obtain rfl : signal = .done .unit := by simpa [shutdownActivities] using ha
    obtain ⟨chance, s, hstep, -, hthread, -⟩ := hp.own_step hmover ht
    obtain rfl := Option.some.inj hstep
    refine hprogress.keep hp hm (fun _ r taken' hdrain => ?_) ⟨_, hthread, .drains⟩
    rw [Passage.dispatch?, Passage.thread?_eq hmover ht] at hdrain
    cases hdrain
  | _ => simp [shutdownActivities] at ha

/-- The thread of a call drains one partition after the other, and answers after the last. -/
theorem drain (hprogress : ShutdownProgress i code t front back p.before q taken)
    (hp : p.Lawful settings) (hm : p.before.Reachable settings) (hmover : p.mover = some i)
    (hqueue : ∀ r, (p.before.world.executor.partition r).queue = waiting r (front ++ back))
    (ht : p.before.threads[i]? = some
      ⟨.dispatch (.drain q taken), .calling code :: t.stack, t.binding⟩) :
    (∃ taken', ShutdownProgress i code t front (back ++ [p]) p.after (q + 1) taken') ∨
      q = p.before.world.executor.partitions.size ∧ p.after.world.executor.IsEmptied ∧
        p.after.threads[i]? =
          some ⟨.settle (.done (.handedBack taken)), .calling code :: t.stack, t.binding⟩ := by
  obtain ⟨interrupted, timedOut, turn, hturn, hexecutor, -, hthread⟩ :=
    hp.own_dispatch hmover ht rfl
  obtain rfl : p.before.world.executor.drain q taken = turn := Option.some.inj hturn
  have hroster : p.before.rosters[i]? = some (.act (.drain q taken) ::
      (Frame.calling code :: t.stack).flatMap Frame.duties) := by
    simp [Machine.rosters, ht, Thread.duties]
  have hphase := hm.guarded.phase_ne_running hroster rfl
  have hstays : ∀ r < q, (p.after.world.executor.partition r).queue = [] := fun r hr =>
    hp.queue_eq_nil hm hphase (hprogress.queue r hr)
  by_cases hq : q < p.before.world.executor.partitions.size
  · rw [Executor.drain, if_pos hq] at hexecutor hthread
    have hafter : p.after.world.executor = p.before.world.executor.withoutQueue q := hexecutor
    have hnext : p.after.threads[i]? = some ⟨.dispatch (.drain (q + 1)
        (taken ++ (p.before.world.executor.partition q).queue.map fun task => (q, task))),
        .calling code :: t.stack, t.binding⟩ := hthread
    rw [hqueue] at hnext
    have hdrained := hprogress.drained.drains hmover (Passage.dispatch?_of_activity hmover ht rfl)
    refine .inl ⟨_, hdrained, ⟨_, hnext, .drains⟩, (hp.size_eq hm).symm ▸ hq,
      fun _ hrunning => hphase (hp.phase_running hm hrunning), fun r hr => ?_⟩
    rcases Nat.lt_succ_iff_lt_or_eq.mp hr with hlt | rfl
    · exact hstays r hlt
    · rw [hafter, Executor.partition_withoutQueue hq, if_pos rfl]
  · have hsize : q = p.before.world.executor.partitions.size := by
      have hle := hprogress.le_size
      omega
    rw [Executor.drain, if_neg hq] at hexecutor hthread
    have hsame : p.after.world.executor = p.before.world.executor := hexecutor
    refine .inr ⟨hsize, ⟨by rwa [hsame], fun r => ?_⟩, hthread⟩
    rw [hsame]
    by_cases hr : r < q
    · exact hprogress.queue r hr
    · exact Executor.queue_of_size_le (by omega)

end ShutdownProgress

/-- A call goes on, or it comes back with what it has taken. -/
theorem ShutdownProgress.step (hprogress : ShutdownProgress i code t front back p.before q taken)
    (hp : p.Lawful settings) (hm : p.before.Reachable settings)
    (hqueue : ∀ r, (p.before.world.executor.partition r).queue = waiting r (front ++ back)) :
    (∃ q' taken', ShutdownProgress i code t front (back ++ [p]) p.after q' taken') ∨
      q = p.before.world.executor.partitions.size ∧ p.mover = some i ∧
        p.after.world.executor.IsEmptied ∧ p.after.threads[i]? =
          some ⟨.settle (.done (.handedBack taken)), .calling code :: t.stack, t.binding⟩ := by
  obtain ⟨t', ht, hshutting⟩ := hprogress.thread
  by_cases hmover : p.mover = some i
  · cases hshutting with
    | shuts ha => exact .inl ⟨_, _, hprogress.shut hp hm hmover ha ht⟩
    | drains =>
      rcases hprogress.drain hp hm hmover hqueue ht with ⟨taken', hgoes⟩ | ⟨hsize, hemptied, hend⟩
      · exact .inl ⟨_, _, hgoes⟩
      · exact .inr ⟨hsize, hmover, hemptied, hend⟩
  · exact .inl ⟨_, _, hprogress.keep hp hm (fun h => absurd h hmover)
      ⟨t', hp.thread_eq hmover ht, hshutting⟩⟩

/-- What has become of a call that was made in the last passage before `m`. -/
theorem Run.shutdownProgress (hstart : start.Fresh settings) {m' : Machine K V Q R}
    (hfront : Run settings start front m) (hback : Run settings m back m')
    (hbegins : ShutdownProgress i code t front [] m 0 []) :
    (∃ q taken, ShutdownProgress i code t front back m' q taken) ∨
      ∃ mid p later taken, back = mid ++ p :: later ∧
        Drained i front mid p.before.world.executor.partitions.size taken ∧ p.mover = some i ∧
        p.after.threads[i]? =
          some ⟨.settle (.done (.handedBack taken)), .calling code :: t.stack, t.binding⟩ ∧
        (∀ r ∈ later, r.IsQuiet) ∧ m'.world.executor.IsEmptied := by
  induction hback with
  | rest => exact .inl ⟨0, [], hbegins⟩
  | @move back p run hp ih =>
    have hrun := hfront.append run
    have hm := hrun.reachable hstart
    rcases ih with ⟨q, taken, hprogress⟩ |
      ⟨mid, last, later, taken, rfl, hdrained, hmover, hend, hquiet, hemptied⟩
    · rcases hprogress.step hp hm (hrun.queue_eq hstart) with
        hgoes | ⟨rfl, hmover, hemptied, hend⟩
      · exact .inl hgoes
      · exact .inr ⟨back, p, [], taken, rfl, hprogress.drained, hmover, hend, by simp, hemptied⟩
    · refine .inr ⟨mid, last, later ++ [p], taken, by simp, hdrained, hmover, hend, fun r hr => ?_,
        hp.isEmptied hm hemptied⟩
      rcases List.mem_append.mp hr with hold | hnew
      · exact hquiet r hold
      · exact List.mem_singleton.mp hnew ▸ hp.isQuiet hm hemptied

/-- Whoever orders an immediate shutdown is in a call of it from then on. -/
theorem Passage.Lawful.shutdownProgress (hp : p.Lawful settings) (hmover : p.mover = some i)
    (ht : p.before.threads[i]? = some t)
    (hactivity : t.activity = .code (.order .shutdownNow code)) :
    ShutdownProgress i code t front [] p.after 0 [] := by
  obtain ⟨chance, s, hstep, -, hthread, -⟩ := hp.own_step hmover ht
  rw [Thread.step, hactivity] at hstep
  obtain rfl := Option.some.inj hstep
  exact ⟨.begins, ⟨_, hthread, .shuts (by simp [shutdownActivities])⟩, Nat.zero_le _, by simp,
    by simp⟩

end Calls

/-! ## Tasks that were handed back -/

/-- A thread gets hold of a task that was handed back, to run it. -/
def Passage.TakesBack (task : Nat) (p : Passage K V Q R) : Prop :=
  p.dispatch? = some (.takeBack task) ∧ p.before.world.executor.isHandedBack task = true

/-- A thread comes to run a task by taking it back, or by starting it. -/
theorem Executor.Does.mem_given_run {e e' : Executor K V Q R} {events : List (Event K V)}
    {done given : List (Duty K V Q R)} {task : Nat} (hdoes : e.Does e' events done given)
    (hrun : .act (.run task) ∈ given) :
    done = [.act (.takeBack task)] ∧ e.isHandedBack task = true ∨
      ∃ q, .started q task ∈ events := by
  cases hdoes with
  | passes _ _ _ hgiven => cases (hgiven _ hrun).runs
  | idles hgiven => cases (bare_of_errands hgiven _ hrun).runs
  | starts =>
    obtain rfl : task = _ := by simpa using hrun
    exact .inr ⟨_, List.mem_singleton_self _⟩
  | takesBack hback =>
    obtain rfl : task = _ := by simpa using hrun
    exact .inl ⟨rfl, hback⟩
  | _ => simp at hrun

/-- An immediate shutdown takes exactly the tasks that have not been started. -/
structure ShutsDownAtOnce (trace : List (Passage K V Q R)) (m : Machine K V Q R) : Prop where
  /-- Every call takes, from one partition after the other, what waits there at that time, and the
  executor is quiet when it has come back. -/
  calls : ∀ front p back i t code, trace = front ++ p :: back → p.mover = some i →
    p.thread? = some t → t.activity = .code (.order .shutdownNow code) →
      ShutdownCall i code t (front ++ [p]) back m
  /-- What threads do interrupts the tasks that are under way in a partition when it is drained, and
  nothing else. -/
  interrupts : ∀ front p back, trace = front ++ p :: back → p.mover ≠ none → ∀ j,
    p.after.world.isTripped j = true ↔ p.before.world.isTripped j = true ∨
      ∃ q taken task, p.dispatch? = some (.drain q taken) ∧ UnderWay q task front ∧
        j = .ofTask task
  /-- A task that was handed back is run by a thread that has taken it back. -/
  runs : ∀ front p back q task, trace = front ++ p :: back →
    task ∈ tasksOf .handedBack q (eventsOf front) → p.dispatch? = some (.run task) →
      ∃ s ∈ front, s.mover = p.mover ∧ s.TakesBack task
  /-- A task that leaves its queue otherwise has nobody left to run it. -/
  forsakes : ∀ p ∈ trace, ∀ q, p.forsaken q ≠ [] →
    p.after.world.executor.owned = false ∧ p.after.world.executor.carriers = 0

section Runs

variable [DecidableEq K] [DecidableEq V] {settings : Settings K V Q R} {start m : Machine K V Q R}
  {trace front back : List (Passage K V Q R)} {p : Passage K V Q R}

theorem Run.exists_takesBack_or_started (hstart : start.Fresh settings)
    (run : Run settings start trace m) {task i : Nat} {duties : List (Duty K V Q R)}
    (hduties : m.rosters[i]? = some duties) (hrun : .act (.run task) ∈ duties) :
    (∃ s ∈ trace, s.mover = some i ∧ s.TakesBack task) ∨
      ∃ q, task ∈ tasksOf .started q (eventsOf trace) := by
  induction run generalizing duties with
  | rest => simp [Machine.rosters, hstart.threads] at hduties
  | @move trace p run hp ih =>
    have hold : ∀ {duties : List (Duty K V Q R)}, p.before.rosters[i]? = some duties →
        .act (.run task) ∈ duties → (∃ s ∈ trace ++ [p], s.mover = some i ∧ s.TakesBack task) ∨
          ∃ q, task ∈ tasksOf .started q (eventsOf (trace ++ [p])) := by
      intro duties hduties hrun
      refine (ih hduties hrun).imp ?_ ?_
      · rintro ⟨s, hs, htakes⟩
        exact ⟨s, List.mem_append_left _ hs, htakes⟩
      · rintro ⟨q, hq⟩
        rw [eventsOf_concat]
        exact ⟨q, by simp [hq]⟩
    cases hp.labours (run.reachable hstart) with
    | outside _ _ _ hrosters =>
      rcases hrosters with hsame | hspawned
      · exact hold (hsame ▸ hduties) hrun
      · rw [hspawned, List.getElem?_append] at hduties
        split at hduties
        · exact hold hduties hrun
        · rw [List.mem_singleton.mp (List.mem_of_getElem? hduties)] at hrun
          cases hrun
    | @work j done given base hmover hroster hrosters hdone hdoes =>
      rw [hrosters] at hduties
      by_cases hij : j = i
      · subst hij
        have hlt := (List.getElem?_eq_some_iff.mp hroster).1
        obtain rfl : given ++ base = duties := by simpa [hlt] using hduties
        rcases List.mem_append.mp hrun with hgiven | hbase
        · rcases hdoes.mem_given_run hgiven with ⟨rfl, hback⟩ | ⟨q, hstarted⟩
          · have hdispatch := (hdone.dispatch?_eq_some_iff _).mpr rfl
            exact .inl ⟨p, by simp, hmover, hdispatch, hback⟩
          · refine .inr ⟨q, ?_⟩
            rw [eventsOf_concat, tasksOf_append]
            refine List.mem_append_right _ (mem_tasksOf.mpr (List.mem_filterMap.mpr ?_))
            exact ⟨_, hstarted, rfl⟩
        · exact hold hroster (List.mem_append_right _ hbase)
      · rw [List.getElem?_set_ne hij] at hduties
        exact hold hduties hrun

/-- What threads trip when they drain a partition is what is under way there. -/
theorem Run.isTripped_iff_underWay (hstart : start.Fresh settings)
    (run : Run settings start trace m) (htrace : trace = front ++ p :: back)
    (hmover : p.mover ≠ none) (j : Interrupter) :
    p.after.world.isTripped j = true ↔ p.before.world.isTripped j = true ∨
      ∃ q taken task, p.dispatch? = some (.drain q taken) ∧ UnderWay q task front ∧
        j = .ofTask task := by
  obtain ⟨hfront, hp, -⟩ := run.split htrace
  refine (hp.isTripped_iff j).trans (or_congr_right ⟨?_, ?_⟩)
  · rintro (⟨hnone, -⟩ | @⟨q, task, taken, hdispatch, hrunning⟩)
    · exact absurd hnone hmover
    · exact ⟨q, taken, task, hdispatch, (hfront.running_iff hstart q task).mp hrunning, rfl⟩
  · rintro ⟨q, taken, task, hdispatch, hunderWay, rfl⟩
    exact .drained hdispatch ((hfront.running_iff hstart q task).mpr hunderWay)

/-- A task that was handed back has never been started. -/
theorem Run.takesBack_of_handedBack (hstart : start.Fresh settings)
    (run : Run settings start trace m) (htrace : trace = front ++ p :: back) {q task : Nat}
    (htask : task ∈ tasksOf .handedBack q (eventsOf front))
    (hdispatch : p.dispatch? = some (.run task)) :
    ∃ s ∈ front, s.mover = p.mover ∧ s.TakesBack task := by
  obtain ⟨hfront, -, -⟩ := run.split htrace
  obtain ⟨i, t, hmover, ht, hactivity⟩ := Passage.dispatch_of_dispatch? hdispatch
  have hroster : p.before.rosters[i]? =
      some (.act (.run task) :: t.stack.flatMap Frame.duties) := by
    simp [Machine.rosters, ht, Thread.duties, hactivity]
  rw [hmover]
  refine (hfront.exists_takesBack_or_started hstart hroster List.mem_cons_self).resolve_right ?_
  rintro ⟨r, hstarted⟩
  rw [← tasksOf_ledgerOf (by simp)] at hstarted
  exact (hfront.conserves hstart).not_handedBack_of_started hstarted
    (mem_withdrawn_iff.mp (List.mem_append_left _ htask))

theorem Run.forsakes (hstart : start.Fresh settings) (run : Run settings start trace m)
    (hp : p ∈ trace) {q : Nat} (hforsaken : p.forsaken q ≠ []) :
    p.after.world.executor.owned = false ∧ p.after.world.executor.carriers = 0 := by
  obtain ⟨front, back, htrace⟩ := List.append_of_mem hp
  obtain ⟨hfront, hlawful, -⟩ := run.split htrace
  rcases hlawful.moves (hfront.reachable hstart) with hmoves | ⟨hclears, -⟩
  · exact absurd (Executor.forsaken_of_moves hmoves q) hforsaken
  · exact ⟨hclears.owned, hclears.carriers⟩

/-- Whatever workers and submitters do meanwhile, an immediate shutdown takes exactly the tasks that
have not been started. -/
theorem Run.shutsDownAtOnce (hstart : start.Fresh settings) (run : Run settings start trace m) :
    ShutsDownAtOnce trace m where
  calls := by
    intro front p back i t code htrace hmover hthread hactivity
    obtain ⟨hfront, hp, hback⟩ := run.split htrace
    obtain ⟨j, hj, ht⟩ := Option.bind_eq_some_iff.mp hthread
    obtain rfl := Option.some.inj (hj.symm.trans hmover)
    rcases (hfront.move hp).shutdownProgress hstart hback (hp.shutdownProgress hmover ht hactivity)
      with ⟨q, taken, hprogress⟩ |
        ⟨mid, last, later, taken, rfl, hdrained, hlast, hend, hquiet, hemptied⟩
    · obtain ⟨t', ht', hshutting⟩ := hprogress.thread
      exact .goesOn hprogress.drained ht' hshutting
    · exact .returned rfl hdrained hlast hend hquiet hemptied.queued_eq
  interrupts front p back htrace hmover := run.isTripped_iff_underWay hstart htrace hmover
  runs _ _ _ _ _ htrace := run.takesBack_of_handedBack hstart htrace
  forsakes _ hp _ := run.forsakes hstart hp

end Runs

/-! ## A task that shuts its executor down -/

/-- A thread submits two tasks, the first of which shuts the executor down at once, runs the job
that the pool has for them, and then tries to submit another task. -/
def closingTasks : Script Nat Nat Unit Unit :=
  .order (.submit 0 (.order .shutdownNow .finish)) fun _ =>
    .order (.submit 0 (.finish .unit)) fun _ => .order (.runJob 0) fun _ =>
      .order (.submit 0 (.finish .unit)) .finish

/-- The whole script of the thread. -/
def closingMoves : List (Move Nat Nat Unit Unit) :=
  .spawn closingTasks :: List.replicate 43 (.step 0 .none)

/-- The task that runs is interrupted, the one that waits is handed back, and nothing is taken from
then on. -/
theorem closing_shutsDownAtOnce : ∃ (start m : Machine Nat Nat Unit Unit)
    (trace : List (Passage Nat Nat Unit Unit)), start.Fresh plainSettings ∧
      Run plainSettings start trace m ∧ ShutsDownAtOnce trace m ∧
      m.world.tripped = [.ofTask 0] ∧ m.world.executor.handedBack = [(0, 1)] ∧
      tasksOf .submitted 0 (eventsOf trace) = [0, 1] ∧
      tasksOf .started 0 (eventsOf trace) = [0] ∧
      (m.threads[0]?.bind Thread.result?) = some (.done .rejected) := by
  have hfacts : (Machine.replay plainSettings closingMoves).map (fun run =>
      ((run.2.world.tripped, run.2.world.executor.handedBack),
        (tasksOf .submitted 0 (eventsOf run.1), tasksOf .started 0 (eventsOf run.1)),
        run.2.threads[0]?.bind Thread.result?)) =
      some (([.ofTask 0], [(0, 1)]), ([0, 1], [0]), some (.done .rejected)) := by
    decide +kernel
  obtain ⟨⟨trace, m⟩, hreplay, htuple⟩ := Option.map_eq_some_iff.mp hfacts
  obtain ⟨start, hstart, run⟩ := Machine.run_of_replay hreplay
  exact ⟨start, m, trace, hstart, run, Run.shutsDownAtOnce hstart run,
    by simpa only [Prod.mk.injEq, and_assoc] using htuple⟩

end SharedCache
