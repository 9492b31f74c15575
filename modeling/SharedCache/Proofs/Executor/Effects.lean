import SharedCache.Proofs.Executor.Duties

/-!
# Effects

`Executor.Does` says what a step can do to an executor, which duties it discharges and which ones
take their place.  Everything that is shown about an executor goes through it.
-/

namespace SharedCache

variable {K V Q R : Type}

/-- Whether an event tells what becomes of a task. -/
def Event.movesTask : Event K V → Bool
  | .submitted .. | .started .. | .delivered _ | .handedBack .. => true
  | _ => false

namespace Executor

/-- Everything is as it was, but for outcomes of tasks, the tasks in the hands of callers and the
flag that termination is waited for with. -/
structure Keeps (e e' : Executor K V Q R) : Prop where
  partitions : e'.partitions = e.partitions
  phase : e'.phase = e.phase
  holders : e'.holders = e.holders
  active : e'.active = e.active
  jobs : e'.jobs = e.jobs
  carriers : e'.carriers = e.carriers
  owned : e'.owned = e.owned
  tasks : e'.tasks.size = e.tasks.size
  handedBack : e'.handedBack ⊆ e.handedBack

/-- What a step that leaves the phase and the counters alone is to the termination.  Whoever looks
whether the executor can terminate and finds that it can looks again, and the flag that termination
is waited for with is raised by whoever has come to that. -/
structure Heeds (e e' : Executor K V Q R) (done given : List (Duty K V Q R)) : Prop where
  looks : e.canTerminate = true → (∃ d ∈ done, d.looks = true) → ∃ g ∈ given, g.looks = true
  announced : e'.announced = true ↔ e.announced = true ∨ .act .announce ∈ done
  given : .act .announce ∉ given

/-- What a step can do to an executor: what it becomes, what is emitted, and the duties that are
discharged and those that take their place. -/
inductive Does (e : Executor K V Q R) :
    Executor K V Q R → List (Event K V) → List (Duty K V Q R) → List (Duty K V Q R) → Prop where
  /-- The step has to do with no partition and no task that is run. -/
  | passes {e' : Executor K V Q R} {events : List (Event K V)} {done given : List (Duty K V Q R)} :
      e.Keeps e' → (∀ event ∈ events, event.movesTask = false) → (∀ d ∈ done, d.IsBare) →
      (∀ g ∈ given, g.IsBare) → (.act .shutdown ∈ done → e.phase ≠ .running) →
      ShutsFirst False given → e.Heeds e' done given → Does e e' events done given
  | submits {p : Nat} {code : Script K V Q R} :
      p < e.partitions.size → Does e e [] [] [.act (.accept p code)]
  | rejects {p : Nat} {code : Script K V Q R} : Does e e [] [.act (.accept p code)] []
  | accepts {p : Nat} {code : Script K V Q R} :
      e.phase = .running →
      Does e { e with holders := e.holders + 1 } [] [.act (.accept p code)]
        [.act (.enqueue p code)]
  /-- A task joins those that wait for a partition that is scheduled already. -/
  | enqueues {p : Nat} {code : Script K V Q R} :
      (e.partition p).scheduled = true →
      Does e (e.withTask p code) [.submitted p e.tasks.size] [.act (.enqueue p code)]
        [.act (.unlock p e.tasks.size false)]
  /-- A task finds its partition unscheduled. -/
  | awakens {p : Nat} {code : Script K V Q R} :
      (e.partition p).scheduled = false →
      Does e (e.withTask p code) [.submitted p e.tasks.size] [.act (.enqueue p code)]
        [.act (.activate p e.tasks.size)]
  | activates {p task : Nat} :
      Does e { e with active := e.active + 1 } [] [.act (.activate p task)]
        [.act (.unlock p task true)]
  | unlocks {p task : Nat} :
      Does e { e with holders := e.holders - 1 } [] [.act (.unlock p task false)] []
  /-- A submission lets go of the phase and is about to hand its partition over. -/
  | proceeds {p task : Nat} :
      Does e { e with holders := e.holders - 1 } [] [.act (.unlock p task true)]
        [.act (.schedule p)]
  /-- A pool runs the job at once. -/
  | hands {p : Nat} :
      Does e { e with carriers := e.carriers + 1 } [.scheduled p] [.act (.schedule p)]
        [.act (.start p), .act .retire]
  /-- A pool keeps the job. -/
  | stores {p : Nat} :
      Does e { e with carriers := e.carriers + 1, jobs := e.jobs ++ [p] } [.scheduled p]
        [.act (.schedule p)] []
  | takes {p position : Nat} :
      e.jobs[position]? = some p →
      Does e { e with jobs := e.jobs.eraseIdx position } [] [.act (.takeJob position)]
        [.act (.start p), .act .retire]
  /-- A pool forgets a job. -/
  | loses {position : Nat} :
      position < e.jobs.length →
      Does e
        { e with
          jobs := e.jobs.eraseIdx position
          carriers := e.carriers - 1 }.settleForsaken
        [] [.act (.loseJob position)] []
  | starts {p task : Nat} {rest : List Nat} :
      (e.partition p).queue = task :: rest →
      Does e
        (e.onPartition p fun partition => { partition with queue := rest, running := some task })
        [.started p task] [.act (.start p)] [.act (.run task), .act (.finish p)]
  /-- A job finds nothing to do. -/
  | lacks {p : Nat} :
      (e.partition p).queue = [] →
      Does e (e.onPartition p fun partition => { partition with scheduled := false }) []
        [.act (.start p)] [.act .idle]
  | runs {task : Nat} : Does e e [] [.act (.run task)] [.deliver task]
  /-- There is no task to run. -/
  | misses {task : Nat} : e.tasks.size ≤ task → Does e e [] [.act (.run task)] []
  | delivers {e' : Executor K V Q R} {events : List (Event K V)} {task : Nat} :
      e.Keeps e' → events.filter Event.movesTask = [.delivered task] →
      e'.announced = e.announced → Does e e' events [.deliver task] [.act (.hangUp task)]
  | finishes {p : Nat} :
      (e.partition p).queue = [] →
      Does e
        (e.onPartition p fun partition => { partition with running := none, scheduled := false })
        [] [.act (.finish p)] [.act .idle]
  /-- A job hands its partition over again. -/
  | resumes {p : Nat} :
      (e.partition p).queue ≠ [] →
      Does e (e.onPartition p fun partition => { partition with running := none }) []
        [.act (.finish p)] [.act (.schedule p)]
  /-- A partition is counted as not active, and the last one makes its thread look whether the
  executor can terminate. -/
  | idles {given : List (Duty K V Q R)} :
      (∀ g ∈ given, g.isErrand = true) → .act .announce ∉ given →
      (e.active = 1 → ∃ g ∈ given, g.looks = true) →
      Does e { e with active := e.active - 1 } [] [.act .idle] given
  | retires :
      Does e { e with carriers := e.carriers - 1 }.settleForsaken [] [.act .retire] []
  | shuts :
      e.phase = .running → e.holders = 0 →
      Does e { e with phase := .shuttingDown } [.logged .shuttingDown] [.act .shutdown]
        [.act .conclude]
  | terminates :
      e.phase = .shuttingDown → e.active = 0 →
      Does e { e with phase := .terminated } [] [.act .terminate] [.act .announce]
  | drains {p : Nat} {taken : List (Nat × Nat)} :
      p < e.partitions.size →
      Does e (e.withoutQueue p) ((e.partition p).queue.map fun task => .handedBack p task)
        [.act (.drain p taken)]
        [.act (.drain (p + 1) (taken ++ (e.partition p).queue.map fun task => (p, task)))]
  | releases :
      Does e { e with owned := false }.settleForsaken [] [.act .release] []
  /-- The caller runs a task that was handed back. -/
  | takesBack {task : Nat} :
      e.isHandedBack task = true →
      Does e (e.takeFromHandedBack task) [] [.act (.takeBack task)] [.act (.run task)]

variable {e e' : Executor K V Q R}

theorem Keeps.refl : e.Keeps e := ⟨rfl, rfl, rfl, rfl, rfl, rfl, rfl, rfl, List.Subset.refl _⟩

theorem keeps_onDelivery (task : Nat) (change : Delivery V → Delivery V) :
    e.Keeps (e.onDelivery task change) :=
  ⟨rfl, rfl, rfl, rfl, rfl, rfl, rfl, Array.size_modify, List.Subset.refl _⟩

theorem keeps_deliver (task : Nat) (delivery : Delivery V) : e.Keeps (e.deliver task delivery) :=
  keeps_onDelivery task fun _ => delivery

theorem keeps_takeFromHandedBack (task : Nat) : e.Keeps (e.takeFromHandedBack task) :=
  ⟨rfl, rfl, rfl, rfl, rfl, rfl, rfl, rfl, List.filter_sublist.subset⟩

theorem Keeps.trans {e'' : Executor K V Q R} (h : e.Keeps e') (h' : e'.Keeps e'') : e.Keeps e'' :=
  ⟨h'.partitions.trans h.partitions, h'.phase.trans h.phase, h'.holders.trans h.holders,
    h'.active.trans h.active, h'.jobs.trans h.jobs, h'.carriers.trans h.carriers,
    h'.owned.trans h.owned, h'.tasks.trans h.tasks, fun _ h'' => h.handedBack (h'.handedBack h'')⟩

/-- A thread takes duties on itself. -/
theorem Heeds.begins {given : List (Duty K V Q R)} (hgiven : .act .announce ∉ given) :
    e.Heeds e [] given :=
  ⟨by simp, by simp, hgiven⟩

/-- Nothing is to be done after this. -/
theorem Heeds.answers {d : Duty K V Q R} (hannounced : e'.announced = e.announced)
    (hlooks : d.looks = true → e.canTerminate = false) (hd : d ≠ .act .announce) :
    e.Heeds e' [d] [] :=
  ⟨fun hcan hdone => by simp_all, by simp [hannounced, hd.symm], by simp⟩

/-- The step is no concern of the executor. -/
theorem Does.rests {events : List (Event K V)}
    (hevents : ∀ event ∈ events, event.movesTask = false) : e.Does e events [] [] :=
  .passes .refl hevents (by simp) (by simp) (by simp) trivial (.begins (by simp))

/-- A command begins with an errand. -/
theorem Does.begins {d : Duty K V Q R} (hd : d.isErrand = true) (hannounce : d ≠ .act .announce) :
    e.Does e [] [] [d] :=
  .passes .refl (by simp) (by simp) (by simpa using Duty.isBare_of_isErrand hd) (by simp)
    (shutsFirst_of_not_closes (by simpa using Duty.closes_of_isErrand hd))
    (.begins (by simpa using hannounce.symm))

/-- A command begins with a shutdown. -/
theorem Does.closes {d : Duty K V Q R} (hd : d.closes = true) :
    e.Does e [] [] [.act .shutdown, d] :=
  .passes .refl (by simp) (by simp)
    (by simpa using ⟨Duty.isBare_of_isErrand rfl, Duty.isBare_of_closes hd⟩) (by simp)
    ⟨by simp [Duty.closes], fun _ => rfl, trivial⟩
    (.begins (by
      rw [List.mem_cons, List.mem_singleton]
      rintro (hshutdown | rfl)
      · cases hshutdown
      · cases hd))

/-- An errand leads to other errands. -/
theorem Does.leads {events : List (Event K V)} {d : Duty K V Q R} {given : List (Duty K V Q R)}
    (hkeeps : e.Keeps e') (hevents : ∀ event ∈ events, event.movesTask = false) (hd : d.IsBare)
    (hshutdown : d = .act .shutdown → e.phase ≠ .running)
    (hgiven : ∀ g ∈ given, g.isErrand = true) (hheeds : e.Heeds e' [d] given) :
    e.Does e' events [d] given :=
  .passes hkeeps hevents (by simpa using hd) (fun g hg => Duty.isBare_of_isErrand (hgiven g hg))
    (by simpa [eq_comm] using hshutdown)
    (shutsFirst_of_not_closes fun g hg => Duty.closes_of_isErrand (hgiven g hg)) hheeds

/-- An errand may be answered without further ado. -/
theorem Does.answers {d : Duty K V Q R} (hkeeps : e.Keeps e') (hd : d.isErrand = true)
    (hshutdown : d = .act .shutdown → e.phase ≠ .running) (hheeds : e.Heeds e' [d] []) :
    e.Does e' [] [d] [] :=
  .leads hkeeps (by simp) (Duty.isBare_of_isErrand hd) hshutdown (by simp) hheeds

theorem does_delivered (e : Executor K V Q R) (task : Nat) (signal : Signal V) :
    e.Does (e.delivered task signal).state (e.delivered task signal).events [.deliver task]
      (e.delivered task signal).duties := by
  simp only [delivered]
  split
  · exact .delivers (e.keeps_deliver task _) rfl rfl
  · exact .delivers (e.keeps_deliver task _) rfl rfl
  · exact .delivers (e.keeps_deliver task _) rfl rfl

end Executor

/-- A step of the executor discharges the duty that it is. -/
theorem Dispatch.does {e : Executor K V Q R} {interrupted timedOut : Bool}
    {stage : Dispatch K V Q R} {turn : ExecutorTurn K V Q R}
    (hturn : stage.turn e interrupted timedOut = some turn) :
    e.Does turn.state turn.events [.act stage] turn.duties := by
  have hquiet : ∀ {e' : Executor K V Q R} {d : Duty K V Q R}, e'.announced = e.announced →
      d.looks = false → d ≠ .act .announce → e.Heeds e' [d] [] := fun hannounced hlooks hd =>
    .answers hannounced (by simp [hlooks]) hd
  cases Dispatch.sections hturn with
  | accepts hphase => exact .accepts hphase
  | rejects => exact .rejects
  | enqueues hscheduled => exact .enqueues hscheduled
  | awakens hscheduled => exact .awakens hscheduled
  | activates => exact .activates
  | unlocks => exact .unlocks
  | proceeds => exact .proceeds
  | hands => exact .hands
  | stores => exact .stores
  | starts hqueue => exact .starts hqueue
  | lacks hqueue => exact .lacks hqueue
  | runs => exact .runs
  | misses hnone => exact .misses (by simpa using hnone)
  | finishes hqueue => exact .finishes hqueue
  | resumes hqueue => exact .resumes hqueue
  | idlesLast => exact .idles (by simp [Duty.isErrand]) (by simp) (by simp [Duty.looks])
  | idles hactive => exact .idles (by simp) (by simp) (absurd · hactive)
  | retires => exact .retires
  | takes hjob => exact .takes hjob
  | loses hposition => exact .loses hposition
  | concludes =>
    exact .leads .refl (by simp) (Duty.isBare_of_isErrand rfl) (by simp) (by simp [Duty.isErrand])
      ⟨by simp [Duty.looks], by simp, by simp⟩
  | concludesNothing hcan | terminatesNothing _ hcan =>
    exact .answers .refl rfl (by simp) (.answers rfl (fun _ => hcan) (by simp))
  | terminates _ hcan =>
    obtain ⟨hphase, hactive⟩ : e.phase = .shuttingDown ∧ e.active = 0 := by
      simpa only [Executor.canTerminate, Bool.and_eq_true, decide_eq_true_eq] using hcan
    exact .terminates hphase hactive
  | announces =>
    exact .leads ⟨rfl, rfl, rfl, rfl, rfl, rfl, rfl, rfl, List.Subset.refl _⟩
      (by simp [Event.movesTask]) (Duty.isBare_of_isErrand rfl) (by simp) (by simp)
      ⟨by simp [Duty.looks], by simp [Turn.answer, Turn.goTo, Turn.after], by simp⟩
  | shuts hholders hphase => exact .shuts hphase hholders
  | shutsNothing _ hphase => exact .answers .refl rfl (fun _ => hphase) (hquiet rfl rfl (by simp))
  | drains hp => exact .drains hp
  | drainsNothing =>
    exact .leads .refl (by simp [Event.movesTask]) (Duty.isBare_of_closes rfl) (by simp) (by simp)
      (hquiet rfl rfl (by simp))
  | releases => exact .releases
  | takesBack hback => exact .takesBack hback
  | @cancels task =>
    exact .answers ((e.keeps_takeFromHandedBack task).trans (Executor.keeps_deliver task .closed))
      rfl (by simp) (hquiet rfl rfl (by simp))
  | joins | hangsUp =>
    exact .answers (Executor.keeps_onDelivery _ _) rfl (by simp) (hquiet rfl rfl (by simp))
  | takesNothing | losesNothing | takesNothingBack | cancelsNothing | awaits | interrupts
  | awaitsNothing | joinsPending | joinsNothing =>
    exact .answers .refl rfl (by simp) (hquiet rfl rfl (by simp))

/-- A command begins with errands of the thread, or with a shutdown. -/
theorem Command.does (e : Executor K V Q R) (command : Command K V Q R) :
    e.Does e [] []
      (.act (command.stages e).1 :: ((command.stages e).2.map Duty.act).toList) := by
  cases command with
  | submit place code => exact .submits (Nat.mod_lt _ e.partitions_pos)
  | shutdownNow | letGo => exact .closes rfl
  | _ => exact .begins rfl (by simp [stages])

end SharedCache
