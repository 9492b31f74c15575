import SharedCache.Proofs.Executor.Ledger

/-!
# The order of tasks

The tasks of a partition are started in the order in which they were submitted, and each of them is
over before the next one starts.  A job that has started a task keeps two duties on its thread: to
come to the end of the task's code, and right below that to come to its own.  As long as these are
on some thread the partition is carried there, so no other job of the partition comes to its queue.

Nothing is assumed of the threads that take jobs out of the pool, nor of the time when they do.  A
pool that runs some jobs at once and keeps others is covered as one that keeps all of them, where a
thread comes for some of them at once.
-/

namespace SharedCache

variable {K V Q R : Type}

/-! ## Who runs a task -/

/-- Below each task that was started is the end of the job that started it. -/
def Paired (started : List (Nat × Nat)) : List (Duty K V Q R) → Prop
  | [] => True
  | d :: rest =>
    (∀ p task, d.runs? = some task → (p, task) ∈ started →
      rest.head? = some (.act (.finish p))) ∧ Paired started rest

section Pairs

variable {started started' : List (Nat × Nat)} {d : Duty K V Q R}
  {duties given base : List (Duty K V Q R)}

theorem Paired.of_append (h : Paired started (given ++ base)) : Paired started base := by
  induction given with
  | nil => exact h
  | cons d given ih => exact ih h.2

theorem Paired.append (hgiven : ∀ d ∈ given, d.runs? = none) (hbase : Paired started base) :
    Paired started (given ++ base) := by
  induction given with
  | nil => exact hbase
  | cons d given ih =>
    have hd := hgiven d List.mem_cons_self
    exact ⟨by simp [hd], ih fun other hother => hgiven other (List.mem_cons_of_mem d hother)⟩

/-- Tasks that are started elsewhere are no concern of a thread. -/
theorem Paired.extend (h : Paired started duties)
    (hnew : ∀ d ∈ duties, ∀ p task, d.runs? = some task → (p, task) ∈ started' →
      (p, task) ∈ started) : Paired started' duties := by
  induction duties with
  | nil => trivial
  | cons d duties ih =>
    refine ⟨fun p task hruns hstarted => h.1 p task hruns ?_, ih h.2 fun other hother => ?_⟩
    · exact hnew d List.mem_cons_self p task hruns hstarted
    · exact hnew other (List.mem_cons_of_mem d hother)

/-- The end of a job of the partition is there for each task of it that a thread runs. -/
theorem Paired.exists_finish (h : Paired started duties) {p task : Nat} (hd : d ∈ duties)
    (hruns : d.runs? = some task) (hstarted : (p, task) ∈ started) :
    .act (.finish p) ∈ duties := by
  induction duties with
  | nil => cases hd
  | cons other duties ih =>
    rcases List.mem_cons.mp hd with rfl | hmem
    · exact List.mem_cons_of_mem _ (List.mem_of_head? (h.1 p task hruns hstarted))
    · exact List.mem_cons_of_mem _ (ih h.2 hmem)

/-- Whether a duty runs one of some tasks. -/
def Duty.runsOneOf (tasks : List Nat) (d : Duty K V Q R) : Bool :=
  d.runs?.any fun task => task ∈ tasks

theorem Duty.executes?_of_runsOneOf {tasks : List Nat} (hd : d.runsOneOf tasks = true) :
    d.executes? = none := by
  cases d with
  | act stage => cases stage <;> first | rfl | cases hd
  | deliver => rfl

/-- Each task of a partition that a thread runs takes up a job of the partition. -/
theorem Paired.countP_le {p : Nat} {tasks : List Nat} (h : Paired started duties)
    (htasks : ∀ task ∈ tasks, (p, task) ∈ started) :
    duties.countP (Duty.runsOneOf tasks) + (duties.head?.any fun d => d.executes? = some p).toNat ≤
      duties.countP fun d => d.executes? = some p := by
  induction duties with
  | nil => exact Nat.le_refl 0
  | cons d duties ih =>
    have hrest := ih h.2
    rw [List.countP_cons, List.countP_cons, List.head?_cons, Option.any_some]
    cases hruns : d.runsOneOf tasks with
    | false =>
      cases decide (d.executes? = some p) <;> simp <;> omega
    | true =>
      obtain ⟨task, htask, hmem⟩ := (Option.any_eq_true _ _).mp hruns
      have hhead := h.1 p task htask (htasks task (of_decide_eq_true hmem))
      have hfinish : decide ((Duty.act (.finish p) : Duty K V Q R).executes? = some p) = true :=
        decide_eq_true rfl
      rw [hhead, Option.any_some, hfinish, Bool.toNat_true] at hrest
      simpa [Duty.executes?_of_runsOneOf hruns] using hrest

end Pairs

namespace Executor

variable {e e' : Executor K V Q R} {events new : List (Event K V)}
  {done given base : List (Duty K V Q R)} {rosters : List (List (Duty K V Q R))}

/-- The place of a task in the course of things: with a thread that runs it, or over. -/
theorem Does.countP_runs {task : Nat} (hdoes : e.Does e' events done given)
    (hback : done = [.act (.takeBack task)] → e.isHandedBack task = false)
    (hsize : ∀ d ∈ done, d.runs? = some task → task < e.tasks.size) :
    given.countP (fun d => d.runs? = some task) + (deliveries events).count task =
      done.countP (fun d => d.runs? = some task) +
        ((movements .started events).map Prod.snd).count task := by
  have hnone : ∀ {duties : List (Duty K V Q R)}, (∀ d ∈ duties, d.IsBare) →
      duties.countP (fun d => d.runs? = some task) = 0 :=
    countP_eq_zero_of_bare fun _ hd => by simp [hd.runs]
  cases hdoes with
  | passes _ hevents hdone hgiven =>
    rw [hnone hdone, hnone hgiven, deliveries_of_rests hevents, movements_of_rests hevents]
    rfl
  | idles hgiven => rw [hnone (bare_of_errands hgiven)]; rfl
  | delivers _ hevents =>
    rw [deliveries_of_delivered hevents, movements_of_delivered hevents]
    simp [Duty.runs?, List.count_singleton]
  | @starts p started rest _ =>
    have hmoved : movements .started [(.started p started : Event K V)] = [(p, started)] := rfl
    have hover : deliveries [(.started p started : Event K V)] = [] := rfl
    simp [hmoved, hover, Duty.runs?, List.countP_cons, List.count_singleton]
  | @misses missed hmissed =>
    have hother : missed ≠ task := by
      rintro rfl
      exact absurd (hsize _ (List.mem_singleton_self _) rfl) (by omega)
    simp [Duty.runs?, deliveries, hother]
  | @drains p taken _ =>
    have hmoved : movements .started (Movement.handedBack.events p (e.partition p).queue :
        List (Event K V)) = [] := movements_events p .handedBack _
    change _ + (deliveries (Movement.handedBack.events p _)).count task =
      _ + ((movements .started (Movement.handedBack.events p _)).map Prod.snd).count task
    rw [deliveries_events, hmoved]
    rfl
  | @takesBack other hother =>
    have hne : other ≠ task := by
      rintro rfl
      exact absurd hother (by simp [hback rfl])
    simp [Duty.runs?, deliveries, hne]
  | _ => rfl

/-- A task that is started has the end of its job right below it, and keeps it. -/
theorem Does.paired {started : List (Nat × Nat)} (hdoes : e.Does e' new done given)
    (hnew : movements .started new ⊆ started)
    (hunique : ∀ p q task, (p, task) ∈ started → (q, task) ∈ started → p = q)
    (hback : ∀ p task, e.isHandedBack task = true → (p, task) ∉ started)
    (hdone : Paired started (done ++ base)) : Paired started (given ++ base) := by
  have hbase := hdone.of_append
  have hbare : (∀ g ∈ given, g.IsBare) → Paired started (given ++ base) := fun hgiven =>
    .append (fun g hg => (hgiven g hg).runs) hbase
  cases hdoes with
  | passes _ _ _ hgiven => exact hbare hgiven
  | idles hgiven => exact hbare (bare_of_errands hgiven)
  | @starts p task rest _ =>
    refine ⟨fun q other hruns hstarted => ?_, .append (by simp [Duty.runs?]) hbase⟩
    obtain rfl := Option.some.inj hruns
    rw [hunique q p _ hstarted (hnew List.mem_cons_self)]
    rfl
  | runs => exact hdone
  | takesBack hother =>
    refine ⟨fun q other hruns hstarted => ?_, hbase⟩
    obtain rfl := Option.some.inj hruns
    exact absurd hstarted (hback q _ hother)
  | _ => exact .append (by simp [Duty.runs?]) hbase

theorem Does.done_of_started {p task : Nat} (hdoes : e.Does e' events done given)
    (hevent : .started p task ∈ events) : done = [.act (.start p)] := by
  cases hdoes with
  | passes _ hevents => cases hevents _ hevent
  | delivers _ hevents =>
    have hmem : (.started p task : Event K V) ∈ events.filter Event.movesTask :=
      List.mem_filter.mpr ⟨hevent, rfl⟩
    rw [hevents] at hmem
    cases List.mem_singleton.mp hmem
  | starts =>
    cases List.mem_singleton.mp hevent
    rfl
  | drains =>
    obtain ⟨_, -, hother⟩ := List.mem_map.mp hevent
    cases hother
  | _ => simp at hevent

/-- A task that is started has waited until then. -/
theorem Moves.mem_queue_of_started {p task : Nat} (hmoves : e.Moves e' new)
    (hstarted : (p, task) ∈ movements .started new) : task ∈ (e.partition p).queue := by
  cases hmoves with
  | rests _ _ _ hnone => simp [hnone] at hstarted
  | joins | returns => simp at hstarted
  | leaves hhead =>
    obtain ⟨rfl, rfl⟩ : _ = _ ∧ _ = _ := by simpa using hstarted
    exact hhead ▸ List.mem_cons_self

/-- What the threads, the queues and the events so far have to do with each other. -/
structure Ordered (e : Executor K V Q R) (rosters : List (List (Duty K V Q R)))
    (events : List (Event K V)) : Prop where
  attended : e.Attended rosters
  conserves : e.Conserves events
  /-- A task that was started is with a thread or over. -/
  runs : ∀ task, (∀ p, task ∉ tasksOf .handedBack p events) →
    rosters.flatten.countP (fun d => d.runs? = some task) + (deliveries events).count task =
      ((movements .started events).map Prod.snd).count task
  paired : ∀ duties ∈ rosters, Paired (movements .started events) duties

namespace Conserves

variable {p task : Nat}

theorem mem_of_isHandedBack (hconserves : e.Conserves events)
    (htask : e.isHandedBack task = true) : ∃ p, task ∈ tasksOf .handedBack p events := by
  obtain ⟨⟨p, other⟩, hentry, hother⟩ := List.any_eq_true.mp htask
  obtain rfl : other = task := by simpa using hother
  exact ⟨p, mem_tasksOf.mpr (hconserves.handedBack _ hentry)⟩

/-- A task moves in each way once at most. -/
theorem count_moved {kind : Movement} (hconserves : e.Conserves events)
    (htask : task ∈ tasksOf kind p events) :
    ((movements kind events).map Prod.snd).count task = 1 := by
  have hcount : (tasksOf kind p events).count task = 1 :=
    List.count_eq_one_of_mem ((hconserves.nodup_submitted p).sublist (hconserves.sublist kind p))
      htask
  rw [← hcount, tasksOf, List.count_eq_countP, List.count_eq_countP, List.countP_map,
    List.countP_map, List.countP_filter]
  refine List.countP_congr fun entry hentry => ?_
  have hpartition : entry.2 = task → entry.1 = p := fun h =>
    hconserves.partition_unique
      ((hconserves.sublist kind _).subset (mem_tasksOf.mpr (by rw [← h]; exact hentry)))
      ((hconserves.sublist kind p).subset htask)
  simpa using hpartition

end Conserves

namespace Ordered

variable {p task i : Nat} {d : Duty K V Q R}

/-- A task that is run and was not handed back was started. -/
theorem exists_started (hordered : e.Ordered rosters events) (hd : d ∈ rosters.flatten)
    (hruns : d.runs? = some task) (hback : ∀ p, task ∉ tasksOf .handedBack p events) :
    ∃ p, task ∈ tasksOf .started p events := by
  have hcount := hordered.runs task hback
  have hpos : 0 < rosters.flatten.countP fun d => d.runs? = some task :=
    List.countP_pos_iff.mpr ⟨d, hd, by simpa using hruns⟩
  exact exists_mem_tasksOf (by omega)

/-- A task that was started is with one thread, until it is over. -/
theorem countP_runs (hordered : e.Ordered rosters events)
    (htask : task ∈ tasksOf .started p events) :
    rosters.flatten.countP (fun d => d.runs? = some task) + (deliveries events).count task = 1 := by
  rw [hordered.runs task fun q => hordered.conserves.not_handedBack_of_started htask]
  exact hordered.conserves.count_moved htask

/-- No thread runs a task that a step takes out of a queue. -/
theorem not_runs_of_moves (hordered : e.Ordered rosters events) (hmoves : e.Moves e' new)
    (hstarted : (p, task) ∈ movements .started new) (hd : d ∈ rosters.flatten) :
    d.runs? ≠ some task := by
  intro hruns
  have hqueue := hmoves.mem_queue_of_started hstarted
  obtain ⟨q, hq⟩ := hordered.exists_started hd hruns fun q =>
    (hordered.conserves.fresh_of_queue hqueue).2
  exact (hordered.conserves.fresh_of_queue hqueue).1 hq

theorem step (hordered : e.Ordered rosters events) (hroster : rosters[i]? = some (done ++ base))
    (hdoes : e.Does e' new done given)
    (hkept : ∀ position, done = [.act (.loseJob position)] → e.jobs.length ≤ position)
    (hlent : done = [.act .release] → ∀ duties ∈ rosters, withinJobs false duties = true) :
    e'.Ordered (rosters.set i (given ++ base)) (events ++ new) := by
  have hmem := List.mem_of_getElem? hroster
  have hmoves := hordered.attended.moves hroster hdoes hkept hlent
  have hconserves := hordered.conserves.step hmoves hdoes.phase_eq
  constructor
  case attended => exact hordered.attended.step hroster hdoes hkept hlent
  case conserves => exact hconserves
  case runs =>
    intro task hnever
    have hbefore : ∀ q, task ∉ tasksOf .handedBack q events := fun q hq =>
      hnever q (by simp [hq])
    obtain ⟨others, hperm, hafter⟩ := exists_perm_flatten_set hroster
    have hold := hordered.runs task hbefore
    have hback : e.isHandedBack task = false := by
      by_contra hback
      obtain ⟨q, hq⟩ := hordered.conserves.mem_of_isHandedBack (by simpa using hback)
      exact hbefore q hq
    have hsize : ∀ d ∈ done, d.runs? = some task → task < e.tasks.size := by
      intro d hd hruns
      obtain ⟨q, hq⟩ := hordered.exists_started
        (List.mem_flatten_of_mem hmem (List.mem_append_left _ hd)) hruns hbefore
      exact hordered.conserves.lt_size (hordered.conserves.submitted_of_started hq)
    have hchange := hdoes.countP_runs (fun _ => hback) hsize
    rw [hperm.countP_eq, List.countP_append] at hold
    rw [(hafter given).countP_eq, List.countP_append, deliveries_append, List.count_append,
      movements_append, List.map_append, List.count_append]
    omega
  case paired =>
    have hextend : ∀ duties ∈ rosters, Paired (movements .started (events ++ new)) duties := by
      intro duties hduties
      refine (hordered.paired duties hduties).extend fun d hd p task hruns hstarted => ?_
      rw [movements_append] at hstarted
      refine (List.mem_append.mp hstarted).resolve_right fun hnew => ?_
      exact hordered.not_runs_of_moves hmoves hnew (List.mem_flatten_of_mem hduties hd) hruns
    have hsubmitted : ∀ p task, (p, task) ∈ movements .started (events ++ new) →
        task ∈ tasksOf .submitted p (events ++ new) := fun p task h =>
      hconserves.submitted_of_started (mem_tasksOf.mpr h)
    refine Attended.forall_mem_set hextend (hdoes.paired ?_ ?_ ?_ (hextend _ hmem))
    · rw [movements_append]
      exact List.subset_append_right _ _
    · exact fun p q task hp hq =>
        hconserves.partition_unique (hsubmitted p task hp) (hsubmitted q task hq)
    · intro p task hback hstarted
      obtain ⟨q, hq⟩ := hordered.conserves.mem_of_isHandedBack hback
      exact hconserves.not_handedBack_of_started (q := q) (mem_tasksOf.mpr hstarted) (by simp [hq])

theorem spawned (hordered : e.Ordered rosters events) : e.Ordered (rosters ++ [[]]) events := by
  obtain ⟨hattended, hconserves, hruns, hpaired⟩ := hordered
  refine ⟨hattended.spawned, hconserves, fun task hback => ?_, fun duties hduties => ?_⟩
  · simpa using hruns task hback
  · rcases List.mem_append.mp hduties with hold | hnew
    · exact hpaired duties hold
    · exact List.mem_singleton.mp hnew ▸ trivial

/-- While a thread runs a task of a partition, no other job of the partition comes to its queue. -/
theorem not_runs_of_start (hordered : e.Ordered rosters events)
    (hroster : rosters[i]? = some (.act (.start p) :: base))
    (htask : task ∈ tasksOf .started p events) (hd : d ∈ rosters.flatten) :
    d.runs? ≠ some task := by
  intro hruns
  obtain ⟨duties, hduties, hmem⟩ := List.mem_flatten.mp hd
  have hfinish : .act (.finish p) ∈ rosters.flatten := List.mem_flatten_of_mem hduties
    ((hordered.paired duties hduties).exists_finish hmem hruns (mem_tasksOf.mp htask))
  have hhead : rosters[i]? = some ([.act (.start p)] ++ base) := hroster
  obtain ⟨others, hperm, -⟩ := exists_perm_flatten_set hhead
  have hother : .act (.finish p) ∈ others := by simpa using hperm.mem_iff.mp hfinish
  have hpos : 0 < others.countP fun d => d.carries? = some p :=
    List.countP_pos_iff.mpr ⟨_, hother, decide_eq_true rfl⟩
  have hcarried := hordered.attended.books.carried p
  have hmost := Bool.toNat_le (e.partition p).scheduled
  rw [hperm.countP_eq, List.singleton_append, countP_carries_cons rfl, if_pos rfl] at hcarried
  omega

/-- No two threads run tasks that were taken out of one queue. -/
theorem countP_runsOneOf_le (hordered : e.Ordered rosters events) (p : Nat) :
    rosters.flatten.countP (Duty.runsOneOf (tasksOf .started p events)) ≤ 1 := by
  have hstarted : ∀ task ∈ tasksOf .started p events, (p, task) ∈ movements .started events :=
    fun task => mem_tasksOf.mp
  have hfinish : ∀ rosters : List (List (Duty K V Q R)),
      (∀ duties ∈ rosters, Paired (movements .started events) duties) →
      rosters.flatten.countP (Duty.runsOneOf (tasksOf .started p events)) ≤
        rosters.flatten.countP fun d => d.executes? = some p := by
    intro rosters hpaired
    induction rosters with
    | nil => exact Nat.le_refl 0
    | cons duties rosters ih =>
      have hhead := (hpaired duties List.mem_cons_self).countP_le hstarted
      have hrest := ih fun other hother => hpaired other (List.mem_cons_of_mem _ hother)
      rw [List.flatten_cons, List.countP_append, List.countP_append]
      omega
  have hcarried := hordered.attended.books.carried p
  have hmost := Bool.toNat_le (e.partition p).scheduled
  rw [countP_carries_eq] at hcarried
  have hjobs := hfinish rosters hordered.paired
  omega

end Ordered

theorem ordered_of {partitions : Nat} {pool : PoolKind}
    (he : Executor.of partitions pool = .ok e) : e.Ordered [] [] :=
  ⟨attended_of he, conserves_of he, fun _ _ => rfl, by simp⟩

end Executor

/-! ## Runs -/

/-- The events of a trace. -/
def eventsOf (trace : List (Passage K V Q R)) : List (Event K V) := trace.flatMap Passage.events

theorem eventsOf_concat (trace : List (Passage K V Q R)) (p : Passage K V Q R) :
    eventsOf (trace ++ [p]) = eventsOf trace ++ p.events := by
  simp [eventsOf]

/-- The tasks of each partition are started one after the other and in the order in which they were
submitted, and none is lost. -/
structure InOrder (trace : List (Passage K V Q R)) (m : Machine K V Q R) : Prop where
  /-- The tasks that were started come first, then those that were handed back, then those that
  wait. -/
  conserved : ∀ p, tasksOf .submitted p (eventsOf trace) =
    tasksOf .started p (eventsOf trace) ++ tasksOf .handedBack p (eventsOf trace) ++
      (m.world.executor.partition p).queue
  /-- No task is submitted twice. -/
  distinct : ((movements .submitted (eventsOf trace)).map Prod.snd).Nodup
  /-- A task that was started is run by one thread until it is over, and by none from then on. -/
  carriedOut : ∀ p, ∀ task ∈ tasksOf .started p (eventsOf trace),
    m.duties.countP (fun d => d.runs? = some task) +
      (deliveries (eventsOf trace)).count task = 1
  /-- At most one of the tasks that were started in a partition is being run. -/
  exclusive : ∀ p, m.duties.countP (Duty.runsOneOf (tasksOf .started p (eventsOf trace))) ≤ 1
  /-- When a task starts, all that were started in its partition before are over. -/
  sequential : ∀ front passage back, trace = front ++ passage :: back →
    ∀ p task, .started p task ∈ passage.events →
      ∀ earlier ∈ tasksOf .started p (eventsOf front), earlier ∈ deliveries (eventsOf front)

section Runs

variable [DecidableEq K] [DecidableEq V] {settings : Settings K V Q R} {start m : Machine K V Q R}
  {trace : List (Passage K V Q R)}

theorem Passage.Lawful.ordered {p : Passage K V Q R} {events : List (Event K V)}
    (hp : p.Lawful settings) (hm : p.before.Reachable settings) (hkept : p.losesJob = false)
    (hlent : p.breaksLoan = false)
    (hordered : p.before.world.executor.Ordered p.before.rosters events) :
    p.after.world.executor.Ordered p.after.rosters (events ++ p.events) := by
  cases hp.serves hm with
  | outside hevents hexecutor hrosters =>
    rw [hexecutor, hevents, List.append_nil]
    rcases hrosters with hsame | hspawned
    · rwa [hsame]
    · rw [hspawned]
      exact hordered.spawned
  | @step i done given base hroster hrosters hdispatch hdoes =>
    rw [hrosters]
    refine hordered.step hroster hdoes (fun position hdone => ?_) fun hdone =>
      Passage.withinJobs_of_letsGo hlent (hdispatch _ hdone)
    simpa [Passage.losesJob, hdispatch _ hdone, Dispatch.losesJob] using hkept

theorem Run.ordered (hstart : start.Fresh settings) (run : Run settings start trace m)
    (hkept : ∀ p ∈ trace, p.losesJob = false) (hlent : ∀ p ∈ trace, p.breaksLoan = false) :
    m.world.executor.Ordered m.rosters (eventsOf trace) := by
  induction run with
  | rest =>
    obtain ⟨partitions, pool, hexecutor⟩ := hstart.executor
    simpa [Machine.rosters, hstart.threads, eventsOf] using Executor.ordered_of hexecutor
  | @move trace p run hp ih =>
    rw [eventsOf_concat]
    exact hp.ordered (run.reachable hstart) (hkept p (by simp)) (hlent p (by simp))
      (ih (fun q hq => hkept q (List.mem_append_left _ hq)) fun q hq =>
        hlent q (List.mem_append_left _ hq))

/-- A task that starts finds no thread with an earlier task of its partition. -/
theorem Passage.Lawful.delivered_of_started {passage : Passage K V Q R} {events : List (Event K V)}
    {p task earlier : Nat} (hp : passage.Lawful settings) (hm : passage.before.Reachable settings)
    (hordered : passage.before.world.executor.Ordered passage.before.rosters events)
    (hstarted : .started p task ∈ passage.events)
    (hearlier : earlier ∈ tasksOf .started p events) : earlier ∈ deliveries events := by
  cases hp.serves hm with
  | outside hevents => simp [hevents] at hstarted
  | step hroster _ _ hdoes =>
    obtain rfl := hdoes.done_of_started hstarted
    have hnone : passage.before.rosters.flatten.countP (fun d => d.runs? = some earlier) = 0 :=
      List.countP_eq_zero.mpr fun d hd => by
        simpa using hordered.not_runs_of_start hroster hearlier hd
    have hcount := hordered.countP_runs hearlier
    exact List.count_pos_iff.mp (by omega)

/-- Whatever the threads do, and whenever jobs are run, an executor whose pool keeps its jobs starts
the tasks of each partition in order and one at a time. -/
theorem Run.inOrder (hstart : start.Fresh settings) (run : Run settings start trace m)
    (hkept : ∀ p ∈ trace, p.losesJob = false) (hlent : ∀ p ∈ trace, p.breaksLoan = false) :
    InOrder trace m := by
  have hordered := run.ordered hstart hkept hlent
  constructor
  case conserved => exact hordered.conserves.conserved
  case distinct =>
    rw [hordered.conserves.numbered]
    exact List.nodup_range
  case carriedOut => exact fun p task htask => hordered.countP_runs htask
  case exclusive => exact hordered.countP_runsOneOf_le
  case sequential =>
    intro front passage back htrace p task hstarted earlier hearlier
    obtain ⟨hfront, hpassage, -⟩ := run.split htrace
    have hbefore := hfront.ordered hstart
      (fun q hq => hkept q (htrace ▸ List.mem_append_left _ hq))
      fun q hq => hlent q (htrace ▸ List.mem_append_left _ hq)
    exact hpassage.delivered_of_started (hfront.reachable hstart) hbefore hstarted hearlier

end Runs

/-! ## A task that submits another one -/

/-- A thread submits a task that submits another one and panics, then a task that does nothing, runs
two jobs, and takes back what is left before it lets go of the executor. -/
def layeredTasks : Script Nat Nat Unit Unit :=
  .order (.submit 0 (.order (.submit 0 (.finish .unit)) fun _ => .raise .silent)) fun _ =>
    .order (.submit 0 (.finish .unit)) fun _ => .order (.runJob 0) fun _ =>
      .order (.runJob 0) fun _ => .order .shutdownNow fun _ => .order .letGo .finish

/-- The whole script of the thread. -/
def layeredMoves : List (Move Nat Nat Unit Unit) :=
  .spawn layeredTasks :: List.replicate 61 (.step 0 .none)

/-- The task that was submitted last is handed back, and the two before it have run in order. -/
theorem layered_in_order : ∃ (start m : Machine Nat Nat Unit Unit)
    (trace : List (Passage Nat Nat Unit Unit)), start.Fresh plainSettings ∧
      Run plainSettings start trace m ∧ (∀ p ∈ trace, p.losesJob = false) ∧
      (∀ p ∈ trace, p.breaksLoan = false) ∧ InOrder trace m ∧
      m.world.executor.owned = false ∧
      tasksOf .submitted 0 (eventsOf trace) = [0, 1, 2] ∧
      tasksOf .started 0 (eventsOf trace) = [0, 1] ∧
      tasksOf .handedBack 0 (eventsOf trace) = [2] := by
  have hfacts : (Machine.replay plainSettings layeredMoves).map (fun run =>
      (run.1.all fun p => !p.losesJob && !p.breaksLoan, run.2.world.executor.owned,
        tasksOf .submitted 0 (eventsOf run.1), tasksOf .started 0 (eventsOf run.1),
        tasksOf .handedBack 0 (eventsOf run.1))) = some (true, false, [0, 1, 2], [0, 1], [2]) := by
    decide +kernel
  obtain ⟨⟨trace, m⟩, hreplay, htuple⟩ := Option.map_eq_some_iff.mp hfacts
  obtain ⟨hall, hrest⟩ :
      (trace.all fun p => !p.losesJob && !p.breaksLoan) = true ∧
        m.world.executor.owned = false ∧ tasksOf .submitted 0 (eventsOf trace) = [0, 1, 2] ∧
        tasksOf .started 0 (eventsOf trace) = [0, 1] ∧
        tasksOf .handedBack 0 (eventsOf trace) = [2] := by
    simpa only [Prod.mk.injEq] using htuple
  obtain ⟨start, hstart, run⟩ := Machine.run_of_replay hreplay
  have hsafe : ∀ p ∈ trace, p.losesJob = false ∧ p.breaksLoan = false := fun p hp => by
    simpa using List.all_eq_true.mp hall p hp
  have hkept : ∀ p ∈ trace, p.losesJob = false := fun p hp => (hsafe p hp).1
  have hlent : ∀ p ∈ trace, p.breaksLoan = false := fun p hp => (hsafe p hp).2
  exact ⟨start, m, trace, hstart, run, hkept, hlent, Run.inOrder hstart run hkept hlent, hrest⟩

end SharedCache
