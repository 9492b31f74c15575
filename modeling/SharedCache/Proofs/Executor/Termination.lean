import SharedCache.Proofs.Executor.Order
import SharedCache.Proofs.Promises

/-!
# Termination

An executor that was told to shut down terminates when its last active partition is counted down,
neither before nor never.  As long as it could terminate and has not, some thread is about to look
whether it can: the one that has told it to shut down, or the one that has counted the last
partition down.  Whichever of them comes second sees what the other has done.

It does not terminate before, since the count is never below the number of partitions on their way:
a submission that has not counted its partition yet holds the phase, and lets it go only then.
-/

namespace SharedCache

variable {K V Q R : Type}

/-- The changes of the phase that lead to a phase. -/
def Phase.history : Phase → List (Phase × Phase)
  | .running => []
  | .shuttingDown => [(.running, .shuttingDown)]
  | .terminated => [(.running, .shuttingDown), (.shuttingDown, .terminated)]

/-- Whether the termination may have to wait for a duty, which is the rest of a job or of a
submission, or a look at the phase. -/
def Duty.delays : Duty K V Q R → Bool
  | .act .conclude | .act .terminate | .act .announce => true
  | d => d.isCounted

theorem Duty.delays_of_isCounted {d : Duty K V Q R} (hd : d.isCounted = true) :
    d.delays = true := by
  cases d with
  | act stage => cases stage <;> first | rfl | exact hd
  | deliver => cases hd

theorem Duty.delays_of_looks {d : Duty K V Q R} (hd : d.looks = true) : d.delays = true := by
  cases d with
  | act stage => cases stage <;> first | rfl | cases hd
  | deliver => cases hd

/-- A duty that carries a partition is counted, unless it holds the phase. -/
theorem Duty.carries?_eq_none {d : Duty K V Q R} (hcounted : d.isCounted = false)
    (hholds : d.holds = false) : d.carries? = none := by
  by_contra hcarries
  rw [isCounted_of_carries? (Option.isSome_iff_ne_none.mpr hcarries) hholds] at hcounted
  cases hcounted

namespace Executor

variable {e e' : Executor K V Q R} {events : List (Event K V)}
  {done given others duties : List (Duty K V Q R)}

/-! ## Steps -/

/-- The phase goes from one to the next, the first time at the behest of a shutdown. -/
theorem Does.phase_cases (hdoes : e.Does e' events done given) :
    e'.phase = e.phase ∨
      e.phase = .running ∧ e'.phase = .shuttingDown ∧ done = [.act .shutdown] ∨
      e.phase = .shuttingDown ∧ e'.phase = .terminated := by
  cases hdoes with
  | passes hkeeps => exact .inl hkeeps.phase
  | delivers hkeeps => exact .inl hkeeps.phase
  | loses | retires | releases => exact .inl (settles_settleForsaken _).phase
  | shuts hrunning => exact .inr (.inl ⟨hrunning, rfl, rfl⟩)
  | terminates hphase => exact .inr (.inr ⟨hphase, rfl⟩)
  | _ => exact .inl rfl

theorem announced_settleForsaken (e : Executor K V Q R) :
    e.settleForsaken.announced = e.announced := by
  have hkept : ∀ lost : List Nat,
      (lost.foldl (fun e task => e.deliver task .closed) e).announced = e.announced := by
    intro lost
    generalize e = start
    induction lost generalizing start with
    | nil => rfl
    | cons task lost ih => exact ih (start.deliver task .closed)
  rw [settleForsaken]
  split
  · rfl
  · exact hkept _

theorem running_settleForsaken (e : Executor K V Q R) (p : Nat) :
    (e.settleForsaken.partition p).running = (e.partition p).running := by
  rw [settleForsaken]
  split
  · rfl
  · simp only [partition, Array.getElem?_map]
    cases e.partitions[p]? <;> rfl

/-- What the phase, the count of active partitions, the flag and the tasks of the partitions have to
do with the duties of all threads. -/
structure Watched (e : Executor K V Q R) (duties : List (Duty K V Q R)) : Prop where
  /-- As long as the executor can terminate, some thread is about to look whether it can. -/
  looked : e.canTerminate = true → ∃ d ∈ duties, d.looks = true
  idle : e.phase = .terminated → e.active = 0
  /-- A terminated executor has raised the flag, or is about to. -/
  announced : e.phase = .terminated ↔ e.announced = true ∨ .act .announce ∈ duties
  /-- Whoever runs a task of a partition will come to the end of it. -/
  manned : ∀ p, (e.partition p).running ≠ none → .act (.finish p) ∈ duties

theorem canTerminate_iff :
    e.canTerminate = true ↔ e.phase = .shuttingDown ∧ e.active = 0 := by
  rw [canTerminate, Bool.and_eq_true, decide_eq_true_eq, decide_eq_true_eq]

namespace Watched

theorem perm (hwatched : e.Watched duties) {duties' : List (Duty K V Q R)}
    (hperm : duties.Perm duties') : e.Watched duties' :=
  ⟨fun hcan => (hwatched.looked hcan).imp fun _ hd => hd.imp_left hperm.mem_iff.mp, hwatched.idle,
    by rw [hwatched.announced, hperm.mem_iff],
    fun p hp => hperm.mem_iff.mp (hwatched.manned p hp)⟩

/-- A step that leaves the phase and the count alone, and heeds the termination. -/
theorem keep (hwatched : e.Watched (done ++ others)) (hphase : e'.phase = e.phase)
    (hactive : e'.active = e.active) (hheeds : e.Heeds e' done given)
    (hmanned : ∀ p, (e'.partition p).running ≠ none → .act (.finish p) ∈ given ++ others) :
    e'.Watched (given ++ others) := by
  have hcan : e'.canTerminate = e.canTerminate := by rw [canTerminate, hphase, hactive]; rfl
  refine ⟨fun h => ?_, fun h => ?_, ?_, hmanned⟩
  · rw [hcan] at h
    obtain ⟨d, hd, hlooks⟩ := hwatched.looked h
    rcases List.mem_append.mp hd with hdone | hother
    · obtain ⟨g, hg, hlooks'⟩ := hheeds.looks h ⟨d, hdone, hlooks⟩
      exact ⟨g, List.mem_append_left _ hg, hlooks'⟩
    · exact ⟨d, List.mem_append_right _ hother, hlooks⟩
  · rw [hactive, hwatched.idle (hphase ▸ h)]
  · rw [hphase, hwatched.announced, hheeds.announced, List.mem_append, List.mem_append, or_assoc,
      or_iff_right hheeds.given]

end Watched

/-- A step without a look and without the raising of the flag. -/
theorem Heeds.of_plain (hannounced : e'.announced = e.announced)
    (hdone : ∀ d ∈ done, d.looks = false ∧ d ≠ .act .announce)
    (hgiven : .act .announce ∉ given) : e.Heeds e' done given := by
  refine ⟨fun _ ⟨d, hd, hlooks⟩ => ?_, ?_, hgiven⟩
  · rw [(hdone d hd).1] at hlooks
    cases hlooks
  · rw [hannounced]
    exact (or_iff_left fun h => (hdone _ h).2 rfl).symm

/-- A task that a partition runs has a job that will come to the end of it. -/
theorem Does.manned (hdoes : e.Does e' events done given)
    (hcarries : ∀ d ∈ done, ∀ p, d.carries? = some p → p < e.partitions.size)
    (hfills : ∀ d ∈ done, ∀ p, d.fills? = some p → p < e.partitions.size)
    (hmanned : ∀ p, (e.partition p).running ≠ none → .act (.finish p) ∈ done ++ others) (q : Nat)
    (hq : (e'.partition q).running ≠ none) : .act (.finish q) ∈ given ++ others := by
  -- The tasks that run are the same ones, and the step is not the end of any.
  have hsame : (e'.partition q).running = (e.partition q).running →
      (∀ d ∈ done, ∀ r, d ≠ .act (.finish r)) → .act (.finish q) ∈ given ++ others := by
    intro hrunning hdone
    have hall := List.mem_append.mp (hmanned q (hrunning ▸ hq))
    refine List.mem_append_right _ (hall.resolve_left ?_)
    exact fun hmem => hdone _ hmem q rfl
  have hchange : ∀ {p : Nat} {change : Partition → Partition}, p < e.partitions.size →
      (∀ partition, (change partition).running = partition.running) →
      ((e.onPartition p change).partition q).running = (e.partition q).running := by
    intro p change hp hchange
    rw [partition_onPartition hp]
    split
    · rw [hchange, ‹q = p›]
    · rfl
  have hends : ∀ {p : Nat} {change : Partition → Partition}, p < e.partitions.size →
      (∀ partition, (change partition).running = none) →
      ((e.onPartition p change).partition q).running ≠ none →
      done = [.act (.finish p)] → .act (.finish q) ∈ given ++ others := by
    rintro p change hp hnone hrunning rfl
    rw [partition_onPartition hp] at hrunning
    split at hrunning
    · exact absurd (hnone _) hrunning
    · rename_i hne
      have hmem := hmanned q hrunning
      rw [List.singleton_append, List.mem_cons] at hmem
      exact List.mem_append_right _ (hmem.resolve_left (by simpa using hne))
  cases hdoes with
  | passes hkeeps _ hdone =>
    refine hsame (by rw [hkeeps.partition]) fun d hd r hfinish => ?_
    have hbare := (hdone d hd).isCounted
    rw [hfinish] at hbare
    cases hbare
  | delivers hkeeps => exact hsame (by rw [hkeeps.partition]) (by simp)
  | enqueues | awakens =>
    exact hsame (hchange (hfills _ (List.mem_singleton_self _) _ rfl) fun _ => rfl) (by simp)
  | drains hp => exact hsame (hchange hp fun _ => rfl) (by simp)
  | lacks =>
    exact hsame (hchange (hcarries _ (List.mem_singleton_self _) _ rfl) fun _ => rfl) (by simp)
  | @starts p task rest _ =>
    by_cases hqp : q = p
    · simp [hqp]
    · rw [partition_onPartition (hcarries _ (List.mem_singleton_self _) _ rfl), if_neg hqp] at hq
      have hmem := hmanned q hq
      rw [List.singleton_append, List.mem_cons] at hmem
      exact List.mem_append_right _ (hmem.resolve_left (by simp))
  | finishes | resumes =>
    exact hends (hcarries _ (List.mem_singleton_self _) _ rfl) (fun _ => rfl) hq rfl
  | loses | retires | releases => exact hsame (running_settleForsaken _ q) (by simp)
  | _ => exact hsame rfl (by simp)

theorem Watched.step (hwatched : e.Watched (done ++ others)) (hbooks : e.Books (done ++ others))
    (hdoes : e.Does e' events done given) : e'.Watched (given ++ others) := by
  have hmanned := hdoes.manned
    (fun d hd p hp => lt_of_scheduled (hbooks.scheduled (List.mem_append_left _ hd) hp))
    (fun d hd => hbooks.fills d (List.mem_append_left _ hd)) hwatched.manned
  cases hdoes with
  | passes hkeeps _ _ _ _ _ hheeds => exact hwatched.keep hkeeps.phase hkeeps.active hheeds hmanned
  | delivers hkeeps _ hannounced =>
    exact hwatched.keep hkeeps.phase hkeeps.active
      (.of_plain hannounced (by simp [Duty.looks]) (by simp)) hmanned
  | loses | retires | releases =>
    exact hwatched.keep (settles_settleForsaken _).phase (settles_settleForsaken _).active
      (.of_plain (announced_settleForsaken _) (by simp [Duty.looks]) (by simp)) hmanned
  | activates =>
    -- A submission counts its partition while it holds the phase of a running executor.
    have hrunning : e.phase = .running := hbooks.held (by
      rw [hbooks.holders]
      exact List.countP_pos_iff.mpr ⟨_, List.mem_cons_self, rfl⟩)
    have hannounced := hwatched.announced
    refine ⟨fun hcan => ?_, fun h => ?_, ?_, hmanned⟩
    · cases hrunning.symm.trans (canTerminate_iff.mp hcan).1
    · cases hrunning.symm.trans h
    · simpa using hannounced
  | idles _ hquiet hlast =>
    have hpos : 0 < e.active := by
      rw [hbooks.active]
      exact Nat.lt_of_lt_of_le (List.countP_pos_iff.mpr ⟨_, List.mem_cons_self, rfl⟩)
        (Nat.le_add_left _ _)
    have hannounced := hwatched.announced
    refine ⟨fun hcan => ?_, fun h => ?_, ?_, hmanned⟩
    · have hactive : e.active - 1 = 0 := (canTerminate_iff.mp hcan).2
      obtain ⟨g, hg, hlooks⟩ := hlast (by omega)
      exact ⟨g, List.mem_append_left _ hg, hlooks⟩
    · have hactive := hwatched.idle h
      omega
    · simpa [hquiet] using hannounced
  | shuts hrunning =>
    have hannounced := hwatched.announced
    refine ⟨fun _ => ⟨_, List.mem_cons_self, rfl⟩, by rintro ⟨⟩, ?_, hmanned⟩
    simpa [hrunning] using hannounced
  | terminates hphase hactive =>
    refine ⟨fun hcan => ?_, fun _ => hactive, by simp, hmanned⟩
    cases (canTerminate_iff.mp hcan).1
  | _ =>
    exact hwatched.keep rfl rfl (.of_plain rfl (by simp [Duty.looks]) (by simp)) hmanned

theorem watched_of {partitions : Nat} {pool : PoolKind}
    (he : Executor.of partitions pool = .ok e) : e.Watched [] := by
  have hidle := partition_of he
  rw [Executor.of] at he
  split at he
  · obtain rfl := Except.ok.inj he
    refine ⟨by rintro ⟨⟩, by rintro ⟨⟩, by simp, fun p hp => ?_⟩
    rw [hidle] at hp
    exact absurd rfl hp
  · cases he

/-- Only a running executor takes tasks. -/
theorem Moves.submitted_eq_nil (hmoves : e.Moves e' events) (hphase : e.phase ≠ .running) :
    movements .submitted events = [] := by
  cases hmoves with
  | rests _ _ _ hnone => exact hnone _
  | joins hrunning => exact absurd hrunning hphase
  | leaves | returns => simp

/-! ## An executor without active partitions -/

/-- Where nothing is active and the executor takes no more tasks, no partition is on its way. -/
theorem Books.resting (hbooks : e.Books duties) (hphase : e.phase ≠ .running)
    (hactive : e.active = 0) :
    e.jobs = [] ∧ ∀ d ∈ duties, d.isCounted = false ∧ d.carries? = none := by
  have hcount := hbooks.active
  have hholders : duties.countP Duty.holds = 0 := by
    rw [← hbooks.holders]
    exact Nat.eq_zero_of_not_pos fun hpos => hphase (hbooks.held hpos)
  have hcounted : ∀ d ∈ duties, d.isCounted = false := fun d hd => by
    simpa using List.countP_eq_zero.mp (show duties.countP Duty.isCounted = 0 by omega) d hd
  refine ⟨List.eq_nil_of_length_eq_zero (by omega), fun d hd => ⟨hcounted d hd, ?_⟩⟩
  exact Duty.carries?_eq_none (hcounted d hd)
    (by simpa using List.countP_eq_zero.mp hholders d hd)

/-- An executor that was told to shut down and is not waiting for anything has terminated. -/
theorem Watched.terminated (hwatched : e.Watched duties) (hbooks : e.Books duties)
    (hphase : e.phase ≠ .running) (hjobs : e.jobs = [])
    (hduties : ∀ d ∈ duties, d.delays = false) :
    e.phase = .terminated ∧ e.announced = true := by
  have hactive : e.active = 0 := by
    rw [hbooks.active, hjobs, List.countP_eq_zero.mpr fun d hd hcounted => ?_]
    · rfl
    · exact absurd (Duty.delays_of_isCounted hcounted) (by simp [hduties d hd])
  have hterminated : e.phase = .terminated := by
    cases hcase : e.phase with
    | running => exact absurd hcase hphase
    | terminated => rfl
    | shuttingDown =>
      obtain ⟨d, hd, hlooks⟩ := hwatched.looked (canTerminate_iff.mpr ⟨hcase, hactive⟩)
      exact absurd (Duty.delays_of_looks hlooks) (by simp [hduties d hd])
  refine ⟨hterminated, (hwatched.announced.mp hterminated).resolve_right fun hmem => ?_⟩
  exact absurd (hduties _ hmem) (by simp [Duty.delays])

end Executor

/-! ## Runs -/

/-- Whether a step tells the executor to shut down. -/
def Dispatch.shutsDown : Dispatch K V Q R → Bool
  | .shutdown => true
  | _ => false

namespace Passage

/-- Whether the executor is told to shut down in a passage. -/
def shutsDown (p : Passage K V Q R) : Bool := p.dispatch?.any Dispatch.shutsDown

/-- The change of the phase in a passage, if there is one. -/
def phaseChange? (p : Passage K V Q R) : Option (Phase × Phase) :=
  if p.after.world.executor.phase = p.before.world.executor.phase then none
  else some (p.before.world.executor.phase, p.after.world.executor.phase)

/-- A submission is turned away and leaves the executor alone. -/
structure Rejects (p : Passage K V Q R) : Prop where
  executor : p.after.world.executor = p.before.world.executor
  next : p.next? = some (.settle (.done .rejected))

end Passage

/-- The executor has no task left: every one that it took is over or was handed back. -/
structure Machine.IsWoundUp (m : Machine K V Q R) (events : List (Event K V)) : Prop where
  queue : ∀ p, (m.world.executor.partition p).queue = []
  running : ∀ p, (m.world.executor.partition p).running = none
  /-- No thread runs a task that was taken out of a queue to be run. -/
  idle : ∀ p, ∀ task ∈ tasksOf .started p events, ∀ d ∈ m.duties, d.runs? ≠ some task
  ended : ∀ p, ∀ task ∈ tasksOf .submitted p events,
    task ∈ deliveries events ∨ task ∈ tasksOf .handedBack p events

/-- An executor terminates when it has been told to shut down and its last task is over, not before
and not later. -/
structure TerminatesInTime (trace : List (Passage K V Q R)) (m : Machine K V Q R) : Prop where
  /-- The phases follow each other, and none is ever left twice. -/
  phases : trace.filterMap Passage.phaseChange? = m.world.executor.phase.history
  /-- The executor runs until it is told to shut down. -/
  shutDown : m.world.executor.phase ≠ .running ↔ ∃ p ∈ trace, p.shutsDown = true
  /-- From then on every submission is turned away, and no task is put into a queue. -/
  rejects : ∀ front p back, trace = front ++ p :: back → (∃ q ∈ front, q.shutsDown = true) →
    movements .submitted p.events = [] ∧
      ∀ partition code, p.dispatch? = some (.accept partition code) → p.Rejects
  /-- It does not terminate before all tasks are over. -/
  terminated : m.world.executor.phase = .terminated → m.IsWoundUp (eventsOf trace)
  announced : m.world.executor.announced = true → m.world.executor.phase = .terminated
  /-- It has terminated when there is nothing to wait for. -/
  concluded : (∃ p ∈ trace, p.shutsDown = true) → m.world.executor.jobs = [] →
    (∀ d ∈ m.duties, d.delays = false) →
      m.world.executor.phase = .terminated ∧ m.world.executor.announced = true

section Runs

variable [DecidableEq K] [DecidableEq V] {settings : Settings K V Q R} {start m : Machine K V Q R}
  {p : Passage K V Q R} {trace : List (Passage K V Q R)}

omit [DecidableEq K] [DecidableEq V] in
theorem Passage.dispatch_of_dispatch? {stage : Dispatch K V Q R}
    (hdispatch : p.dispatch? = some stage) :
    ∃ i t, p.mover = some i ∧ p.before.threads[i]? = some t ∧ t.activity = .dispatch stage := by
  rw [dispatch?] at hdispatch
  split at hdispatch
  · rename_i found stack binding hthread
    obtain ⟨i, hmover, ht⟩ := Option.bind_eq_some_iff.mp hthread
    obtain rfl := Option.some.inj hdispatch
    exact ⟨i, _, hmover, ht, rfl⟩
  · cases hdispatch

/-- A passage in a step of the executor is a turn of it. -/
theorem Passage.Lawful.turn_of_dispatch? (hp : p.Lawful settings) {stage : Dispatch K V Q R}
    (hdispatch : p.dispatch? = some stage) :
    ∃ interrupted timedOut turn,
      stage.turn p.before.world.executor interrupted timedOut = some turn ∧
        p.after.world.executor = turn.state ∧ p.next? = some turn.next := by
  obtain ⟨i, t, hmover, ht, hactivity⟩ := dispatch_of_dispatch? hdispatch
  obtain ⟨chance, s, hstep, hworld, hthread, -⟩ := hp.own_step hmover ht
  rw [Thread.step, hactivity] at hstep
  obtain ⟨turn, hturn, rfl⟩ := Option.map_eq_some_iff.mp hstep
  exact ⟨_, _, turn, hturn, by rw [hworld]; rfl,
    by simp [next?, hmover, hthread, Step.ofExecutor, Thread.goOn]⟩

/-- Nobody who tells an executor to shut down leaves it running. -/
theorem Passage.Lawful.phase_of_shutsDown (hp : p.Lawful settings) (hshuts : p.shutsDown = true) :
    p.after.world.executor.phase ≠ .running := by
  obtain ⟨stage, hdispatch, hstage⟩ := (Option.any_eq_true _ _).mp hshuts
  obtain rfl : stage = .shutdown := by cases stage <;> first | rfl | cases hstage
  obtain ⟨interrupted, timedOut, turn, hturn, hexecutor, -⟩ := hp.turn_of_dispatch? hdispatch
  change (if _ then some p.before.world.executor.shutdown else none) = some turn at hturn
  split at hturn
  · obtain rfl := Option.some.inj hturn
    rw [hexecutor, Executor.shutdown]
    split
    · rintro ⟨⟩
    · assumption
  · cases hturn

theorem Passage.Lawful.phase_cases (hp : p.Lawful settings) (hm : p.before.Reachable settings) :
    p.after.world.executor.phase = p.before.world.executor.phase ∨
      p.before.world.executor.phase = .running ∧
        p.after.world.executor.phase = .shuttingDown ∧ p.shutsDown = true ∨
      p.before.world.executor.phase = .shuttingDown ∧
        p.after.world.executor.phase = .terminated := by
  cases hp.serves hm with
  | outside _ hexecutor => exact .inl (by rw [hexecutor])
  | step _ _ hdispatch hdoes =>
    refine hdoes.phase_cases.imp_right (Or.imp_left fun ⟨hbefore, hafter, hdone⟩ => ?_)
    exact ⟨hbefore, hafter, by simp [Passage.shutsDown, hdispatch _ hdone, Dispatch.shutsDown]⟩

omit [DecidableEq K] [DecidableEq V] in
theorem Machine.Fresh.phase_eq (hstart : start.Fresh settings) :
    start.world.executor.phase = .running := by
  obtain ⟨partitions, pool, he⟩ := hstart.executor
  rw [Executor.of] at he
  split at he
  · rw [← Except.ok.inj he]
  · cases he

theorem Run.phaseChanges (hstart : start.Fresh settings) (run : Run settings start trace m) :
    trace.filterMap Passage.phaseChange? = m.world.executor.phase.history := by
  induction run with
  | rest => rw [hstart.phase_eq]; rfl
  | @move trace p run hp ih =>
    rw [List.filterMap_append, ih]
    rcases hp.phase_cases (run.reachable hstart) with
      hsame | ⟨hbefore, hafter, -⟩ | ⟨hbefore, hafter⟩
    · simp [Passage.phaseChange?, hsame]
    · simp [Passage.phaseChange?, hbefore, hafter, Phase.history]
    · simp [Passage.phaseChange?, hbefore, hafter, Phase.history]

theorem Run.phase_ne_running_iff (hstart : start.Fresh settings)
    (run : Run settings start trace m) :
    m.world.executor.phase ≠ .running ↔ ∃ p ∈ trace, p.shutsDown = true := by
  induction run with
  | rest => simp [hstart.phase_eq]
  | @move trace p run hp ih =>
    have hsplit : (∃ q ∈ trace ++ [p], q.shutsDown = true) ↔
        p.before.world.executor.phase ≠ .running ∨ p.shutsDown = true := by
      simp [ih, or_and_right, exists_or]
    rw [hsplit]
    constructor
    · intro hafter
      rcases hp.phase_cases (run.reachable hstart) with hsame | ⟨-, -, hshuts⟩ | ⟨hbefore, -⟩
      · exact .inl (hsame ▸ hafter)
      · exact .inr hshuts
      · exact .inl (by simp [hbefore])
    · rintro (hbefore | hshuts)
      · rcases hp.phase_cases (run.reachable hstart) with hsame | ⟨-, hafter, -⟩ | ⟨-, hafter⟩
        · exact hsame ▸ hbefore
        · simp [hafter]
        · simp [hafter]
      · exact hp.phase_of_shutsDown hshuts

theorem Run.watched (hstart : start.Fresh settings) (run : Run settings start trace m)
    (hkept : ∀ p ∈ trace, p.losesJob = false) : m.world.executor.Watched m.duties := by
  induction run with
  | rest =>
    obtain ⟨partitions, pool, hexecutor⟩ := hstart.executor
    simpa [Machine.duties, Machine.rosters, hstart.threads] using Executor.watched_of hexecutor
  | @move trace p run hp ih =>
    have hbefore := fun q hq => hkept q (List.mem_append_left _ hq)
    cases hp.serves (run.reachable hstart) with
    | outside _ hexecutor hrosters =>
      have hsame : p.after.duties = p.before.duties := by
        rcases hrosters with hsame | hspawned
        · rw [Machine.duties, hsame, Machine.duties]
        · simp [Machine.duties, hspawned]
      rw [hexecutor, hsame]
      exact ih hbefore
    | @step i done given base hroster hrosters _ hdoes =>
      obtain ⟨others, hperm, hafter⟩ := exists_perm_flatten_set hroster
      rw [Machine.duties, hrosters]
      exact ((ih hbefore).perm hperm |>.step ((run.books hstart hbefore).perm hperm) hdoes).perm
        (hafter given).symm

/-- An executor that does not run takes no task. -/
theorem Passage.Lawful.rejects (hp : p.Lawful settings)
    (hm : p.before.Reachable settings) (hkept : p.losesJob = false) (hlent : p.breaksLoan = false)
    (hattended : p.before.world.executor.Attended p.before.rosters)
    (hphase : p.before.world.executor.phase ≠ .running) :
    movements .submitted p.events = [] ∧
      ∀ partition code, p.dispatch? = some (.accept partition code) → p.Rejects := by
  constructor
  · cases hp.serves hm with
    | outside hevents => rw [hevents, movements_nil]
    | step hroster _ hdispatch hdoes =>
      refine (hattended.moves hroster hdoes (fun position hdone => ?_) fun hdone =>
        Passage.withinJobs_of_letsGo hlent (hdispatch _ hdone)).submitted_eq_nil hphase
      simpa [Passage.losesJob, hdispatch _ hdone, Dispatch.losesJob] using hkept
  · intro partition code hdispatch
    obtain ⟨interrupted, timedOut, turn, hturn, hexecutor, hnext⟩ := hp.turn_of_dispatch? hdispatch
    obtain rfl : p.before.world.executor.accept partition code = turn := Option.some.inj hturn
    rw [Executor.accept, if_neg hphase] at hexecutor hnext
    exact ⟨hexecutor, hnext⟩

omit [DecidableEq K] [DecidableEq V] in
/-- The tasks of an executor that has terminated are over. -/
theorem Machine.isWoundUp_of_terminated {events : List (Event K V)}
    (hordered : m.world.executor.Ordered m.rosters events)
    (hwatched : m.world.executor.Watched m.duties)
    (hphase : m.world.executor.phase = .terminated) : m.IsWoundUp events := by
  have hbooks : m.world.executor.Books m.duties := hordered.attended.books
  obtain ⟨hjobs, hduties⟩ := hbooks.resting (by simp [hphase]) (hwatched.idle hphase)
  have hqueue := hbooks.queue_eq_nil hjobs fun d hd => (hduties d hd).2
  have hidle : ∀ p, ∀ task ∈ tasksOf .started p events, ∀ d ∈ m.duties, d.runs? ≠ some task := by
    intro p task htask d hd hruns
    obtain ⟨duties, hroster, hmem⟩ := List.mem_flatten.mp hd
    have hfinish := (hordered.paired duties hroster).exists_finish hmem hruns (mem_tasksOf.mp htask)
    exact absurd (hduties _ (List.mem_flatten_of_mem hroster hfinish)).1
      (by simp [Duty.isCounted])
  refine ⟨hqueue, fun p => ?_, hidle, fun p task htask => ?_⟩
  · by_contra hrunning
    exact absurd (hduties _ (hwatched.manned p hrunning)).1 (by simp [Duty.isCounted])
  · rw [hordered.conserves.conserved, hqueue, List.append_nil] at htask
    refine (List.mem_append.mp htask).imp_left fun hstarted => ?_
    have hnone : m.duties.countP (fun d => d.runs? = some task) = 0 :=
      List.countP_eq_zero.mpr fun d hd => by simpa using hidle p task hstarted d hd
    have hcount := hordered.countP_runs hstarted
    exact List.count_pos_iff.mp (by rw [Machine.duties] at hnone; omega)

/-- Whatever the threads do, an executor whose pool keeps its jobs terminates when it has been told
to shut down and its last task is over. -/
theorem Run.terminatesInTime (hstart : start.Fresh settings) (run : Run settings start trace m)
    (hkept : ∀ p ∈ trace, p.losesJob = false) (hlent : ∀ p ∈ trace, p.breaksLoan = false) :
    TerminatesInTime trace m := by
  have hordered := run.ordered hstart hkept hlent
  have hwatched := run.watched hstart hkept
  have hshut := run.phase_ne_running_iff hstart
  constructor
  case phases => exact run.phaseChanges hstart
  case shutDown => exact hshut
  case rejects =>
    intro front p back htrace hrequested
    obtain ⟨hfront, hp, -⟩ := run.split htrace
    have hmem : p ∈ trace := by simp [htrace]
    have hbefore := hfront.attended hstart
      (fun q hq => hkept q (htrace ▸ List.mem_append_left _ hq))
      fun q hq => hlent q (htrace ▸ List.mem_append_left _ hq)
    exact hp.rejects (hfront.reachable hstart) (hkept p hmem) (hlent p hmem) hbefore
      ((hfront.phase_ne_running_iff hstart).mpr hrequested)
  case terminated => exact Machine.isWoundUp_of_terminated hordered hwatched
  case announced => exact fun h => hwatched.announced.mpr (.inl h)
  case concluded =>
    exact fun hrequested hjobs hduties =>
      hwatched.terminated hordered.attended.books (hshut.mpr hrequested) hjobs hduties

end Runs

/-! ## A shutdown while a task waits -/

/-- A thread submits a task and shuts the executor down, submits another one, which is turned away,
and runs the job of the first. -/
def lateTasks : Script Nat Nat Unit Unit :=
  .order (.submit 0 (.finish .unit)) fun _ => .order .shutdown fun _ =>
    .order (.submit 0 (.finish .unit)) fun _ => .order (.runJob 0) .finish

/-- The whole script of the thread. -/
def lateMoves : List (Move Nat Nat Unit Unit) :=
  .spawn lateTasks :: List.replicate 33 (.step 0 .none)

/-- The executor terminates after its task, and the later submission has left no trace. -/
theorem terminates_after_late_tasks : ∃ (start m : Machine Nat Nat Unit Unit)
    (trace : List (Passage Nat Nat Unit Unit)), start.Fresh plainSettings ∧
      Run plainSettings start trace m ∧ (∀ p ∈ trace, p.losesJob = false) ∧
      (∀ p ∈ trace, p.breaksLoan = false) ∧ TerminatesInTime trace m ∧
      m.world.executor.phase = .terminated ∧ m.world.executor.announced = true ∧
      tasksOf .submitted 0 (eventsOf trace) = [0] ∧ deliveries (eventsOf trace) = [0] := by
  have hfacts : (Machine.replay plainSettings lateMoves).map (fun run =>
      (run.1.all fun p => !p.losesJob && !p.breaksLoan, run.2.world.executor.phase,
        run.2.world.executor.announced, tasksOf .submitted 0 (eventsOf run.1),
        deliveries (eventsOf run.1))) = some (true, .terminated, true, [0], [0]) := by
    decide +kernel
  obtain ⟨⟨trace, m⟩, hreplay, htuple⟩ := Option.map_eq_some_iff.mp hfacts
  obtain ⟨hall, hrest⟩ :
      (trace.all fun p => !p.losesJob && !p.breaksLoan) = true ∧
        m.world.executor.phase = .terminated ∧ m.world.executor.announced = true ∧
        tasksOf .submitted 0 (eventsOf trace) = [0] ∧ deliveries (eventsOf trace) = [0] := by
    simpa only [Prod.mk.injEq] using htuple
  obtain ⟨start, hstart, run⟩ := Machine.run_of_replay hreplay
  have hsafe : ∀ p ∈ trace, p.losesJob = false ∧ p.breaksLoan = false := fun p hp => by
    simpa using List.all_eq_true.mp hall p hp
  have hkept : ∀ p ∈ trace, p.losesJob = false := fun p hp => (hsafe p hp).1
  have hlent : ∀ p ∈ trace, p.breaksLoan = false := fun p hp => (hsafe p hp).2
  exact ⟨start, m, trace, hstart, run, hkept, hlent,
    Run.terminatesInTime hstart run hkept hlent, hrest⟩

end SharedCache
