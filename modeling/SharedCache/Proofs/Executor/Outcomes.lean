import SharedCache.Proofs.Executor.Deliveries

/-!
# The outcomes of tasks

Whoever is the first to ask for the outcome of a task after its end is told how it has ended.  Who
asks later is told that the task was cancelled, as are all who ask for a task that was dropped, but
only from the moment on when the task has let go of the end that its outcome was sent from.  Before
that they are told that there is nothing yet, as if the task were not over.
-/

namespace SharedCache

variable {K V Q R : Type}

/-! ## Answers -/

namespace Signal

variable {signal : Signal V}

theorem outcome_ne_cancelled : signal.outcome ≠ .lost .cancelled := by
  cases signal with
  | raised panic => simp [outcome]
  | done answer => cases answer <;> simp [outcome]

/-- A task gives a value when its code returns without an error. -/
theorem outcome_eq_returned_iff {value : Option V} : signal.outcome = .returned value ↔
    ∃ answer, signal = .done answer ∧ (∀ text, answer ≠ .complaint text) ∧
      answer.value? = value := by
  cases signal with
  | raised panic => simp [outcome]
  | done answer => cases answer <;> simp [outcome]

theorem outcome_eq_failed_iff {text : String} :
    signal.outcome = .lost (.failed text) ↔ signal = .done (.complaint text) := by
  cases signal with
  | raised panic => simp [outcome]
  | done answer => cases answer <;> simp [outcome]

theorem outcome_eq_panicked_iff {text : String} : signal.outcome = .lost (.panicked text) ↔
    ∃ panic, signal = .raised panic ∧ panic.message = text := by
  cases signal with
  | raised panic => simp [outcome]
  | done answer => cases answer <;> simp [outcome]

end Signal

/-- What somebody is told who asks for an outcome and does not wait any longer. -/
def Delivery.answer : Delivery V → Answer V
  | .pending | .taken => .timedOut
  | .ready outcome _ => .outcome outcome
  | .closed => .outcome (.lost .cancelled)

/-- Somebody is told an outcome. -/
def Passage.Tells (p : Passage K V Q R) (outcome : Outcome V) : Prop :=
  p.next? = some (.settle (.done (.outcome outcome)))

/-- Somebody who asks for the outcome of a task is told the right thing, all passages before being
those of `front`. -/
structure Passage.AnswersRightly (p : Passage K V Q R) (task : Nat)
    (front : List (Passage K V Q R)) : Prop where
  answers : p.next? = some (.settle (.done .timedOut)) ∨ ∃ outcome, p.Tells outcome
  returned : ∀ value, p.Tells (.returned value) ↔ ¬ Taken task front ∧
    ∃ answer, (task, .done answer) ∈ endings front ∧ (∀ text, answer ≠ .complaint text) ∧
      answer.value? = value
  failed : ∀ text, p.Tells (.lost (.failed text)) ↔ ¬ Taken task front ∧
    (task, .done (.complaint text)) ∈ endings front
  panicked : ∀ text, p.Tells (.lost (.panicked text)) ↔ ¬ Taken task front ∧
    ∃ panic, (task, .raised panic) ∈ endings front ∧ panic.message = text
  cancelled : p.Tells (.lost .cancelled) ↔
    Taken task front ∧ LetGo task front ∨ task ∈ discarded front
  /-- There is nothing yet, or the outcome was taken and the task may still send another one, as it
  seems. -/
  timedOut : p.next? = some (.settle (.done .timedOut)) ↔
    (task ∉ (endings front).map Prod.fst ∧ task ∉ discarded front) ∨
      Taken task front ∧ ¬ LetGo task front

/-- Somebody gets what a task has come to. -/
def Passage.HandsOut (p : Passage K V Q R) (task : Nat) : Prop :=
  p.dispatch? = some (.join task) ∧ ∃ outcome, outcome ≠ .lost .cancelled ∧ p.Tells outcome

/-- A task ends, and all that is left of it is its outcome.  Its thread goes on in the same way
however the task has ended: it is about to let go of the sending end. -/
structure Passage.LeavesOutcome (p : Passage K V Q R) (task : Nat) (signal : Signal V) : Prop where
  world : p.after.world =
    { p.before.world with
      executor := p.before.world.executor.deliver task (.ready signal.outcome true) }
  thread : ∃ i t, p.mover = some i ∧ p.before.threads[i]? = some t ∧
    p.after.threads[i]? = some ⟨.dispatch (.hangUp task), t.stack.tail, t.binding⟩
  others : ∀ i, p.mover ≠ some i → ∀ t, p.before.threads[i]? = some t →
    p.after.threads[i]? = some t

/-- A task lets go of the sending end, and its thread goes on with what is below the task. -/
structure Passage.LetsGo (p : Passage K V Q R) (task : Nat) : Prop where
  world : p.after.world =
    { p.before.world with executor := p.before.world.executor.onDelivery task .hangUp }
  thread : ∃ i t, p.mover = some i ∧ p.before.threads[i]? = some t ∧
    p.after.threads[i]? = some { t with activity := .settle (.done .unit) }
  others : ∀ i, p.mover ≠ some i → ∀ t, p.before.threads[i]? = some t →
    p.after.threads[i]? = some t

section Answers

variable [DecidableEq K] [DecidableEq V] {settings : Settings K V Q R} {start m : Machine K V Q R}
  {trace front back : List (Passage K V Q R)} {p : Passage K V Q R} {task : Nat}

theorem Passage.Lawful.answer_of_join (hp : p.Lawful settings)
    (hdispatch : p.dispatch? = some (.join task)) {delivery : Delivery V}
    (hdelivery : p.before.world.executor.delivery? task = some delivery) :
    p.next? = some (.settle (.done delivery.answer)) := by
  obtain ⟨_, timedOut, turn, hturn, -, hnext⟩ := hp.turn_of_dispatch? hdispatch
  change p.before.world.executor.join task timedOut = some turn at hturn
  rw [Executor.join, ← Executor.delivery?, hdelivery] at hturn
  rw [hnext]
  cases delivery with
  | pending | taken =>
    dsimp only at hturn
    split at hturn
    · exact Option.some.inj hturn ▸ rfl
    · cases hturn
  | ready | closed => exact Option.some.inj hturn ▸ rfl

/-- Only the first to ask after the end of a task is told how it has ended, and those who ask after
that are told so as soon as the task has let go of its sending end. -/
theorem Run.tells_iff (hstart : start.Fresh settings) (run : Run settings start front p.before)
    (hp : p.Lawful settings) (hdispatch : p.dispatch? = some (.join task))
    (htask : task < p.before.world.executor.tasks.size) (outcome : Outcome V) :
    p.Tells outcome ↔
      (¬ Taken task front ∧ ∃ signal, (task, signal) ∈ endings front ∧ signal.outcome = outcome) ∨
        (Taken task front ∧ LetGo task front ∨ task ∈ discarded front) ∧
          outcome = .lost .cancelled := by
  have hended : ∀ {signal : Signal V}, (task, signal) ∈ endings front → task ∉ discarded front :=
    fun hsignal => run.not_discarded_of_ended hstart (mem_map_endings hsignal)
  obtain ⟨delivery, hdelivery⟩ := Executor.exists_delivery htask
  rw [Passage.Tells, hp.answer_of_join hdispatch hdelivery]
  cases run.fate hstart task delivery hdelivery with
  | lies hopen hkept =>
    refine iff_of_false (by simp [Delivery.answer]) ?_
    rintro (⟨-, signal, hsignal, -⟩ | ⟨⟨htaken, -⟩ | hdropped, -⟩)
    · exact hopen (mem_map_endings hsignal)
    · exact hopen htaken.ended
    · exact hkept hdropped
  | @awaits signal _ hsignal hnot =>
    simp only [Delivery.answer, Option.some.injEq, Activity.settle.injEq, Signal.done.injEq,
      Answer.outcome.injEq]
    constructor
    · exact fun h => .inl ⟨hnot, signal, hsignal, h⟩
    · rintro (⟨-, other, hother, rfl⟩ | ⟨⟨htaken, -⟩ | hdropped, -⟩)
      · rw [run.ending_unique hstart hsignal hother]
      · exact absurd htaken hnot
      · exact absurd hdropped (hended hsignal)
  | spent htaken hsending =>
    refine iff_of_false (by simp [Delivery.answer]) ?_
    rintro (⟨hnot, -⟩ | ⟨⟨-, hgone⟩ | hdropped, -⟩)
    · exact hnot htaken
    · exact hsending hgone
    · exact run.not_discarded_of_ended hstart htaken.ended hdropped
  | closes hclosed =>
    simp only [Delivery.answer, Option.some.injEq, Activity.settle.injEq, Signal.done.injEq,
      Answer.outcome.injEq]
    constructor
    · exact fun h => .inr ⟨hclosed, h.symm⟩
    · rintro (⟨hnot, other, hother, -⟩ | ⟨-, rfl⟩)
      · exact absurd (hclosed.resolve_left fun h => hnot h.1) (hended hother)
      · rfl

theorem Run.answersRightly (hstart : start.Fresh settings)
    (run : Run settings start front p.before) (hp : p.Lawful settings)
    (hdispatch : p.dispatch? = some (.join task))
    (htask : task < p.before.world.executor.tasks.size) : p.AnswersRightly task front := by
  obtain ⟨delivery, hdelivery⟩ := Executor.exists_delivery htask
  have htells := run.tells_iff hstart hp hdispatch htask
  have hanswer := hp.answer_of_join hdispatch hdelivery
  constructor
  case answers =>
    rw [hanswer]
    cases delivery with
    | pending | taken => exact .inl rfl
    | ready outcome => exact .inr ⟨outcome, hanswer⟩
    | closed => exact .inr ⟨_, hanswer⟩
  case returned => simp [htells, Signal.outcome_eq_returned_iff]
  case failed => simp [htells, Signal.outcome_eq_failed_iff]
  case panicked => simp [htells, Signal.outcome_eq_panicked_iff]
  case cancelled => simp [htells, Signal.outcome_ne_cancelled]
  case timedOut =>
    rw [hanswer]
    cases run.fate hstart task delivery hdelivery with
    | lies hopen hkept => exact iff_of_true rfl (.inl ⟨hopen, hkept⟩)
    | spent htaken hsending => exact iff_of_true rfl (.inr ⟨htaken, hsending⟩)
    | awaits hsignal hnot =>
      refine iff_of_false (by simp [Delivery.answer]) ?_
      rintro (⟨hopen, -⟩ | ⟨htaken, -⟩)
      · exact hopen (mem_map_endings hsignal)
      · exact hnot htaken
    | closes hclosed =>
      refine iff_of_false (by simp [Delivery.answer]) ?_
      rcases hclosed with ⟨htaken, hgone⟩ | hdropped
      · rintro (⟨hopen, -⟩ | ⟨-, hsending⟩)
        · exact hopen htaken.ended
        · exact hsending hgone
      · rintro (⟨-, hkept⟩ | ⟨htaken, -⟩)
        · exact hkept hdropped
        · exact run.not_discarded_of_ended hstart htaken.ended hdropped

/-- A handle tells that its task is finished from the end of the task until somebody takes what it
has come to. -/
theorem Run.isFinished_iff (hstart : start.Fresh settings) (run : Run settings start trace m)
    (task : Nat) : m.world.executor.isFinished task = true ↔
      task ∈ (endings trace).map Prod.fst ∧ ¬ Taken task trace := by
  have hready : m.world.executor.isFinished task = true ↔
      ∃ outcome sending, m.world.executor.delivery? task = some (.ready outcome sending) := by
    rw [Executor.isFinished, ← Executor.delivery?]
    cases m.world.executor.delivery? task with
    | none => simp
    | some delivery => cases delivery <;> simp
  rw [hready]
  constructor
  · rintro ⟨outcome, sending, hdelivery⟩
    cases run.fate hstart task _ hdelivery with
    | awaits hsignal hnot => exact ⟨mem_map_endings hsignal, hnot⟩
  · rintro ⟨hended, hnot⟩
    have hexits : 0 < exits (ledgerOf trace) task := by
      have hpos := List.count_pos_iff.mpr hended
      have hbegun := run.endings_le_begun hstart task
      have hle := run.begun_add_discarded_le hstart task
      omega
    obtain ⟨delivery, hdelivery⟩ :=
      Executor.exists_delivery ((run.conserves hstart).lt_size_of_exits hexits)
    cases run.fate hstart task delivery hdelivery with
    | lies hopen => exact absurd hended hopen
    | awaits => exact ⟨_, _, hdelivery⟩
    | spent htaken => exact absurd htaken hnot
    | closes hclosed =>
      exact absurd (hclosed.resolve_left fun h => hnot h.1)
        (run.not_discarded_of_ended hstart hended)

/-- The code of a task ends with a step of its thread that no other thread notices. -/
theorem Passage.Lawful.leavesOutcome (hp : p.Lawful settings) {signal : Signal V}
    (hending : p.ending? = some (task, signal)) : p.LeavesOutcome task signal := by
  obtain ⟨t, hthread, hended⟩ := Option.bind_eq_some_iff.mp hending
  obtain ⟨i, hmover, ht⟩ := Option.bind_eq_some_iff.mp hthread
  obtain ⟨rest, binding, rfl⟩ := Thread.eq_of_ending? hended
  obtain ⟨chance, s, hstep, hworld, hafter, -⟩ := hp.own_step hmover ht
  obtain rfl := Option.some.inj hstep
  have htrips := p.before.world.executor.trips_delivered task signal
  obtain ⟨hnext, hframes⟩ := p.before.world.executor.delivered_goesOn task signal
  refine ⟨?_, ⟨i, _, hmover, ht, ?_⟩, fun j hj t hother => hp.thread_eq hj hother⟩
  · simp [hworld, Frame.receive, Step.ofExecutor, htrips, Executor.delivered_state]
  · simp [hafter, Frame.receive, Step.ofExecutor, Thread.goOn, Thread.popped, hframes, hnext]

/-- No other thread notices either how the task lets go of its sending end. -/
theorem Passage.Lawful.letsGo (hp : p.Lawful settings)
    (hdispatch : p.dispatch? = some (.hangUp task)) : p.LetsGo task := by
  obtain ⟨i, t, hmover, ht, hactivity⟩ := dispatch_of_dispatch? hdispatch
  obtain ⟨chance, s, hstep, hworld, hafter, -⟩ := hp.own_step hmover ht
  rw [Thread.step, hactivity] at hstep
  obtain rfl := Option.some.inj hstep
  exact ⟨hworld, ⟨i, t, hmover, ht, hafter⟩, fun j hj t hother => hp.thread_eq hj hother⟩

/-- The end of its job stands below each task that was started. -/
theorem Run.paired (hstart : start.Fresh settings) (run : Run settings start trace m) :
    ∀ duties ∈ m.rosters, Paired (movements .started (eventsOf trace)) duties := by
  induction run with
  | rest => simp [Machine.rosters, hstart.threads]
  | @move trace p run hp ih =>
    have hm := run.reachable hstart
    have hconserves := (run.move hp).conserves hstart
    have hledger : ∀ {trace : List (Passage K V Q R)} {q task : Nat},
        (q, task) ∈ movements .started (eventsOf trace) →
          task ∈ tasksOf .started q (ledgerOf trace) := fun h => by
      rwa [tasksOf_ledgerOf (by simp), mem_tasksOf]
    -- Nobody runs a task that is started only now.
    have hextend : ∀ duties ∈ p.before.rosters,
        Paired (movements .started (eventsOf (trace ++ [p]))) duties := by
      intro duties hduties
      refine (ih duties hduties).extend fun d hd q task hruns hstarted => ?_
      rw [eventsOf_concat, movements_append] at hstarted
      refine (List.mem_append.mp hstarted).resolve_right fun hnew => ?_
      rcases hp.moves hm with hmoves | ⟨-, hevents, -⟩
      · have hplaces := run.places hstart task
        rw [(run.conserves hstart).exits_of_queue (hmoves.mem_queue_of_started hnew)] at hplaces
        have hpos : 0 < p.before.rosters.flatten.countP fun d => d.runs? = some task :=
          List.countP_pos_iff.mpr ⟨d, List.mem_flatten_of_mem hduties hd, by simpa using hruns⟩
        omega
      · simp [hevents] at hnew
    cases hp.labours hm with
    | outside _ _ _ hrosters =>
      rcases hrosters with hsame | hspawned
      · rwa [hsame]
      · rw [hspawned]
        exact List.forall_mem_append.mpr ⟨hextend, by simp [Paired]⟩
    | work _ hroster hrosters _ hdoes =>
      rw [hrosters]
      refine Executor.Attended.forall_mem_set hextend
        (hdoes.paired ?_ (fun q r task hq hr => ?_) (fun q task hback hstarted => ?_)
          (hextend _ (List.mem_of_getElem? hroster)))
      · rw [eventsOf_concat, movements_append]
        exact List.subset_append_right _ _
      · exact hconserves.partition_unique (hconserves.submitted_of_started (hledger hq))
          (hconserves.submitted_of_started (hledger hr))
      · obtain ⟨r, hr⟩ := (run.conserves hstart).mem_of_isHandedBack hback
        refine hconserves.not_handedBack_of_started (q := r) (hledger hstarted) ?_
        rw [ledgerOf_snoc, tasksOf_append]
        exact List.mem_append_left _ hr

/-- Whoever ends a task of a partition lets go of the sending end and goes on to the end of the
job. -/
theorem Run.resumes (hstart : start.Fresh settings) (run : Run settings start front p.before)
    (hp : p.Lawful settings) {signal : Signal V} {q : Nat}
    (hending : p.ending? = some (task, signal))
    (hstarted : task ∈ tasksOf .started q (eventsOf front)) :
    ∃ i duties, p.mover = some i ∧
      p.after.rosters[i]? = some (.act (.hangUp task) :: .act (.finish q) :: duties) := by
  obtain ⟨i, t, hmover, ht, hafter⟩ := (hp.leavesOutcome hending).thread
  obtain ⟨t', hthread, hended⟩ := Option.bind_eq_some_iff.mp hending
  obtain rfl := Option.some.inj ((Passage.thread?_eq hmover ht).symm.trans hthread)
  obtain ⟨rest, binding, rfl⟩ := Thread.eq_of_ending? hended
  have hbefore : p.before.rosters[i]? = some (.deliver task :: rest.flatMap Frame.duties) := by
    simp [Machine.rosters, ht, Thread.duties]
  have hpaired := run.paired hstart _ (List.mem_of_getElem? hbefore)
  obtain ⟨duties, hduties⟩ := List.head?_eq_some_iff.mp
    (hpaired.1 q task rfl (mem_tasksOf.mp hstarted))
  exact ⟨i, duties, hmover, by simp [Machine.rosters, hafter, Thread.duties, hduties]⟩

/-- What becomes of tasks, and what those are told who ask for it. -/
structure TellsOutcomes (trace : List (Passage K V Q R)) (m : Machine K V Q R) : Prop where
  /-- The code of a task is begun once at most, and never if the task is dropped. -/
  once : ∀ task, (begun trace).count task + (discarded trace).count task ≤ 1
  /-- It ends once at most, after it has been begun. -/
  ends : ∀ task, ((endings trace).map Prod.fst).count task ≤ (begun trace).count task
  answers : ∀ front p back q task, trace = front ++ p :: back →
    task ∈ tasksOf .submitted q (eventsOf front) → p.dispatch? = some (.join task) →
      p.AnswersRightly task front
  /-- What a task has come to is handed out once. -/
  handsOut : ∀ front p mid later back q task, trace = front ++ p :: (mid ++ later :: back) →
    task ∈ tasksOf .submitted q (eventsOf front) → p.HandsOut task → ¬ later.HandsOut task
  finished : ∀ task, m.world.executor.isFinished task = true ↔
    task ∈ (endings trace).map Prod.fst ∧ ¬ Taken task trace
  /-- However a task ends, nothing but its outcome is left of it. -/
  isolates : ∀ p ∈ trace, ∀ task signal, p.ending? = some (task, signal) →
    p.LeavesOutcome task signal
  letsGo : ∀ p ∈ trace, ∀ task, p.dispatch? = some (.hangUp task) → p.LetsGo task
  /-- However a task ends that a job has started, the job goes on. -/
  resumes : ∀ front p back q task signal, trace = front ++ p :: back →
    p.ending? = some (task, signal) → task ∈ tasksOf .started q (eventsOf front) →
      ∃ i duties, p.mover = some i ∧
        p.after.rosters[i]? = some (.act (.hangUp task) :: .act (.finish q) :: duties)

theorem Run.lt_size_of_submitted (hstart : start.Fresh settings)
    (run : Run settings start trace m) {q : Nat}
    (htask : task ∈ tasksOf .submitted q (eventsOf trace)) :
    task < m.world.executor.tasks.size := by
  rw [← tasksOf_ledgerOf (by simp)] at htask
  exact (run.conserves hstart).lt_size htask

/-- Every handle gives the outcome of its task, and gives it once. -/
theorem Run.tellsOutcomes (hstart : start.Fresh settings) (run : Run settings start trace m) :
    TellsOutcomes trace m where
  once task := Nat.le_trans (run.begun_add_discarded_le hstart task)
    ((run.conserves hstart).exits_le_one task)
  ends := run.endings_le_begun hstart
  answers := by
    intro front p back q task htrace htask hdispatch
    obtain ⟨hfront, hp, -⟩ := run.split htrace
    exact hfront.answersRightly hstart hp hdispatch (hfront.lt_size_of_submitted hstart htask)
  handsOut := by
    rintro front p mid later back q task htrace htask ⟨hdispatch, outcome, hne, htells⟩
      ⟨hdispatch', outcome', hne', htells'⟩
    have htrace' : trace = (front ++ p :: mid) ++ later :: back := by simpa using htrace
    obtain ⟨hfront, hp, -⟩ := run.split htrace
    obtain ⟨hmid, hlater, -⟩ := run.split htrace'
    have htask' : task ∈ tasksOf .submitted q (eventsOf (front ++ p :: mid)) := by
      rw [eventsOf, List.flatMap_append, tasksOf_append]
      exact List.mem_append_left _ htask
    obtain ⟨-, signal, hsignal, -⟩ := (hfront.tells_iff hstart hp hdispatch
      (hfront.lt_size_of_submitted hstart htask) outcome).mp htells |>.resolve_right
        fun h => hne h.2
    have htaken : Taken task (front ++ p :: mid) :=
      ⟨front, p, mid, rfl, hdispatch, mem_map_endings hsignal⟩
    rcases (hmid.tells_iff hstart hlater hdispatch' (hmid.lt_size_of_submitted hstart htask')
      outcome').mp htells' with ⟨hnot, -⟩ | ⟨-, hcancelled⟩
    · exact hnot htaken
    · exact hne' hcancelled
  finished := run.isFinished_iff hstart
  isolates p hp task signal hending := (run.lawful hp).leavesOutcome hending
  letsGo p hp task hdispatch := (run.lawful hp).letsGo hdispatch
  resumes := by
    intro front p back q task signal htrace hending hstarted
    obtain ⟨hfront, hp, -⟩ := run.split htrace
    exact hfront.resumes hstart hp hending hstarted

end Answers

/-! ## Four tasks -/

/-- The task that somebody asks for, and what they are told. -/
def Passage.told? (p : Passage K V Q R) : Option (Nat × Answer V) :=
  match p.dispatch?, p.next? with
  | some (.join task), some (.settle (.done answer)) => some (task, answer)
  | _, _ => none

/-- A thread submits a task that returns a value, one that returns an error, one that panics and one
that it drops, and in the end it asks for all of them. -/
def mixedTasks : Script Nat Nat Unit Unit :=
  .order (.submit 0 (.finish (.value (some 7)))) fun _ =>
    .order (.submit 0 (.finish (.complaint "bad"))) fun _ =>
      .order (.submit 0 (.raise (.text "boom"))) fun _ =>
        .order (.submit 0 (.finish .unit)) fun _ =>
          .order (.runJob 0) fun _ => .order (.runJob 0) fun _ => .order (.runJob 0) fun _ =>
            .order .shutdownNow fun _ => .order (.dropHandedBack 3) fun _ =>
              .order (.join 1) fun _ => .order (.join 2) fun _ => .order (.join 3) fun _ =>
                .order (.join 0) .finish

/-- Another thread asks for the first of them twice. -/
def repeatedJoins : Script Nat Nat Unit Unit :=
  .order (.join 0) fun _ => .order (.join 0) .finish

/-- The other thread asks right after the end of the first task, which still holds its sending end,
and does not wait. -/
def mixedMoves : List (Move Nat Nat Unit Unit) :=
  .spawn mixedTasks :: .spawn repeatedJoins ::
    (List.replicate 30 (.step 0 .none) ++ List.replicate 6 (.step 1 ⟨[], none, true⟩) ++
      List.replicate 64 (.step 0 .none))

/-- Each of them is told what became of its task.  Who asks for the first one again is told that
there is nothing yet, and after the task has let go of its sending end that it was cancelled. -/
theorem mixed_tellsOutcomes : ∃ (start m : Machine Nat Nat Unit Unit)
    (trace : List (Passage Nat Nat Unit Unit)), start.Fresh plainSettings ∧
      Run plainSettings start trace m ∧ TellsOutcomes trace m ∧ begun trace = [0, 1, 2] ∧
      discarded trace = [3] ∧ trace.filterMap Passage.told? =
        [(0, .outcome (.returned (some 7))), (0, .timedOut),
          (1, .outcome (.lost (.failed "bad"))), (2, .outcome (.lost (.panicked "boom"))),
          (3, .outcome (.lost .cancelled)), (0, .outcome (.lost .cancelled))] := by
  have hfacts : (Machine.replay plainSettings mixedMoves).map (fun run =>
      (begun run.1, discarded run.1, run.1.filterMap Passage.told?)) =
      some ([0, 1, 2], [3],
        [(0, .outcome (.returned (some 7))), (0, .timedOut),
          (1, .outcome (.lost (.failed "bad"))), (2, .outcome (.lost (.panicked "boom"))),
          (3, .outcome (.lost .cancelled)), (0, .outcome (.lost .cancelled))]) := by
    decide +kernel
  obtain ⟨⟨trace, m⟩, hreplay, htriple⟩ := Option.map_eq_some_iff.mp hfacts
  obtain ⟨start, hstart, run⟩ := Machine.run_of_replay hreplay
  exact ⟨start, m, trace, hstart, run, Run.tellsOutcomes hstart run,
    by simpa only [Prod.mk.injEq] using htriple⟩

end SharedCache
