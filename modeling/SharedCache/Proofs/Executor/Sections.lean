import SharedCache.Executor.Turn

/-!
# The sections of an executor

What a step of an executor can be.  `Dispatch.Section` lists the ways through `Dispatch.turn`
together with what leads to them, and `Dispatch.sections` says that there are no others.  What is
true of every step is proved by cases of this list.
-/

namespace SharedCache

variable {K V Q R : Type}

namespace Executor

/-- The executor with another task at the end of a queue. -/
def withTask (e : Executor K V Q R) (p : Nat) (code : Script K V Q R) : Executor K V Q R :=
  { e.onPartition p fun partition =>
      { partition with queue := partition.queue ++ [e.tasks.size], scheduled := true } with
    tasks := e.tasks.push ⟨p, code, .pending⟩ }

/-- The executor after the tasks of a partition have been handed back. -/
def withoutQueue (e : Executor K V Q R) (p : Nat) : Executor K V Q R :=
  { e.onPartition p fun partition => { partition with queue := [] } with
    handedBack := e.handedBack ++ (e.partition p).queue.map fun task => (p, task) }

end Executor

/-- The tasks that wait for a partition go back to the caller. -/
def Executor.draining (e : Executor K V Q R) (p : Nat) (taken : List (Nat × Nat)) :
    ExecutorTurn K V Q R where
  state := e.withoutQueue p
  events := (e.partition p).queue.map fun task => .handedBack p task
  next := .dispatch (.drain (p + 1) (taken ++ (e.partition p).queue.map fun task => (p, task)))
  frames := []
  trips := (e.partition p).running.toList.map .ofTask

/-- What a step of an executor does, by what it finds. -/
inductive Dispatch.Section (e : Executor K V Q R) (interrupted timedOut : Bool) :
    Dispatch K V Q R → ExecutorTurn K V Q R → Prop where
  | accepts {p : Nat} {code : Script K V Q R} :
      e.phase = .running →
      Section e interrupted timedOut (.accept p code)
        (.goTo { e with holders := e.holders + 1 } (.dispatch (.enqueue p code)))
  | rejects {p : Nat} {code : Script K V Q R} :
      e.phase ≠ .running →
      Section e interrupted timedOut (.accept p code) (.answer e .rejected)
  | enqueues {p : Nat} {code : Script K V Q R} :
      (e.partition p).scheduled = true →
      Section e interrupted timedOut (.enqueue p code)
        ((Turn.goTo (e.withTask p code) (.dispatch (.unlock p e.tasks.size false))).after
          [.submitted p e.tasks.size])
  | awakens {p : Nat} {code : Script K V Q R} :
      (e.partition p).scheduled = false →
      Section e interrupted timedOut (.enqueue p code)
        ((Turn.goTo (e.withTask p code) (.dispatch (.activate p e.tasks.size))).after
          [.submitted p e.tasks.size])
  | activates {p task : Nat} :
      Section e interrupted timedOut (.activate p task)
        (.goTo { e with active := e.active + 1 } (.dispatch (.unlock p task true)))
  | unlocks {p task : Nat} :
      Section e interrupted timedOut (.unlock p task false)
        (.answer { e with holders := e.holders - 1 } (.accepted task))
  | proceeds {p task : Nat} :
      Section e interrupted timedOut (.unlock p task true)
        ((Turn.goTo { e with holders := e.holders - 1 } (.dispatch (.schedule p))).andThen
          (.settle (.done (.accepted task))))
  | hands {p : Nat} :
      e.pool = .immediate →
      Section e interrupted timedOut (.schedule p)
        (((Turn.goTo { e with carriers := e.carriers + 1 } (.dispatch (.start p))).andThen
          (.dispatch .retire)).after [.scheduled p])
  | stores {p : Nat} :
      e.pool = .deferred →
      Section e interrupted timedOut (.schedule p)
        ((Turn.answer { e with carriers := e.carriers + 1, jobs := e.jobs ++ [p] } .unit).after
          [.scheduled p])
  | starts {p task : Nat} {rest : List Nat} :
      (e.partition p).queue = task :: rest →
      Section e interrupted timedOut (.start p)
        (((Turn.goTo (e.onPartition p fun partition =>
              { partition with queue := rest, running := some task })
            (.enter (.ofTask task) (.dispatch (.run task)))).andThen
          (.dispatch (.finish p))).after [.started p task])
  | lacks {p : Nat} :
      (e.partition p).queue = [] →
      Section e interrupted timedOut (.start p)
        (.goTo (e.onPartition p fun partition => { partition with scheduled := false })
          (.dispatch .idle))
  | runs {task : Nat} {t : Task K V Q R} :
      e.tasks[task]? = some t →
      Section e interrupted timedOut (.run task)
        ((Turn.goTo e (.code t.code)).above (.tasking task))
  | misses {task : Nat} :
      e.tasks[task]? = none → Section e interrupted timedOut (.run task) (.answer e .unit)
  | hangsUp {task : Nat} :
      Section e interrupted timedOut (.hangUp task) (.answer (e.onDelivery task .hangUp) .unit)
  | finishes {p : Nat} :
      (e.partition p).queue = [] →
      Section e interrupted timedOut (.finish p)
        (.goTo (e.onPartition p fun partition =>
            { partition with running := none, scheduled := false })
          (.dispatch .idle))
  | resumes {p : Nat} :
      (e.partition p).queue ≠ [] →
      Section e interrupted timedOut (.finish p)
        (.goTo (e.onPartition p fun partition => { partition with running := none })
          (.dispatch (.schedule p)))
  | idlesLast :
      e.active = 1 →
      Section e interrupted timedOut .idle
        (.goTo { e with active := e.active - 1 } (.dispatch .conclude))
  | idles :
      e.active ≠ 1 →
      Section e interrupted timedOut .idle (.answer { e with active := e.active - 1 } .unit)
  | retires :
      Section e interrupted timedOut .retire
        (.answer { e with carriers := e.carriers - 1 }.settleForsaken .unit)
  | takes {p position : Nat} :
      e.jobs[position]? = some p →
      Section e interrupted timedOut (.takeJob position)
        (((Turn.goTo { e with jobs := e.jobs.eraseIdx position } (.dispatch (.start p))).andThen
          (.dispatch .retire)).andThen (.settle (.done (.flag true))))
  | takesNothing {position : Nat} :
      e.jobs[position]? = none →
      Section e interrupted timedOut (.takeJob position) (.answer e (.flag false))
  | loses {position : Nat} :
      position < e.jobs.length →
      Section e interrupted timedOut (.loseJob position)
        (.answer
          { e with
            jobs := e.jobs.eraseIdx position
            carriers := e.carriers - 1 }.settleForsaken
          (.flag true))
  | losesNothing {position : Nat} :
      e.jobs.length ≤ position →
      Section e interrupted timedOut (.loseJob position) (.answer e (.flag false))
  | concludes :
      e.canTerminate = true →
      Section e interrupted timedOut .conclude (.goTo e (.dispatch .terminate))
  | concludesNothing :
      e.canTerminate = false → Section e interrupted timedOut .conclude (.answer e .unit)
  | terminates :
      e.holders = 0 → e.canTerminate = true →
      Section e interrupted timedOut .terminate
        (.goTo { e with phase := .terminated } (.dispatch .announce))
  | terminatesNothing :
      e.holders = 0 → e.canTerminate = false →
      Section e interrupted timedOut .terminate (.answer e .unit)
  | announces :
      Section e interrupted timedOut .announce
        ((Turn.answer { e with announced := true } .unit).after [.logged .terminated])
  | shuts :
      e.holders = 0 → e.phase = .running →
      Section e interrupted timedOut .shutdown
        ((Turn.goTo { e with phase := .shuttingDown } (.dispatch .conclude)).after
          [.logged .shuttingDown])
  | shutsNothing :
      e.holders = 0 → e.phase ≠ .running →
      Section e interrupted timedOut .shutdown (.answer e .unit)
  | drains {p : Nat} {taken : List (Nat × Nat)} :
      p < e.partitions.size →
      Section e interrupted timedOut (.drain p taken) (e.draining p taken)
  | drainsNothing {p : Nat} {taken : List (Nat × Nat)} :
      e.partitions.size ≤ p →
      Section e interrupted timedOut (.drain p taken)
        ((Turn.answer e (.handedBack taken)).after [.logged (.drained taken.length)])
  | releases :
      Section e interrupted timedOut .release
        (.answer { e with owned := false }.settleForsaken .unit)
  | takesBack {task : Nat} :
      e.isHandedBack task = true →
      Section e interrupted timedOut (.takeBack task)
        ((Turn.goTo (e.takeFromHandedBack task) (.dispatch (.run task))).andThen
          (.settle (.done (.flag true))))
  | takesNothingBack {task : Nat} :
      e.isHandedBack task = false →
      Section e interrupted timedOut (.takeBack task) (.answer e (.flag false))
  | cancels {task : Nat} :
      e.isHandedBack task = true →
      Section e interrupted timedOut (.cancel task)
        (.answer ((e.takeFromHandedBack task).deliver task .closed) (.flag true))
  | cancelsNothing {task : Nat} :
      e.isHandedBack task = false →
      Section e interrupted timedOut (.cancel task) (.answer e (.flag false))
  | awaits :
      e.announced = true → Section e interrupted timedOut .await (.answer e (.flag true))
  | interrupts :
      e.announced = false → interrupted = true →
      Section e interrupted timedOut .await (.answer e .interrupted)
  | awaitsNothing :
      e.announced = false → interrupted = false → timedOut = true →
      Section e interrupted timedOut .await (.answer e (.flag false))
  | joins {task : Nat} {outcome : Outcome V} {sending : Bool} :
      e.tasks[task]?.map Task.delivery = some (.ready outcome sending) →
      Section e interrupted timedOut (.join task)
        (.answer (e.onDelivery task .take) (.outcome outcome))
  /-- Nothing is to be had, though something could still be sent. -/
  | joinsPending {task : Nat} :
      e.tasks[task]?.map Task.delivery = some .pending ∨
        e.tasks[task]?.map Task.delivery = some .taken →
      timedOut = true → Section e interrupted timedOut (.join task) (.answer e .timedOut)
  /-- The outcome has been handed out, or never will be. -/
  | joinsNothing {task : Nat} :
      e.tasks[task]?.map Task.delivery = some .closed ∨ e.tasks[task]?.map Task.delivery = none →
      Section e interrupted timedOut (.join task) (.answer e (.outcome (.lost .cancelled)))

variable {e : Executor K V Q R} {interrupted timedOut : Bool}

theorem Executor.enqueue_section (p : Nat) (code : Script K V Q R) :
    (Dispatch.enqueue p code).Section e interrupted timedOut (e.enqueue p code) := by
  cases hscheduled : (e.partition p).scheduled with
  | true =>
    rw [enqueue, if_pos hscheduled]
    exact .enqueues hscheduled
  | false =>
    rw [enqueue, if_neg (by simp [hscheduled])]
    exact .awakens hscheduled

theorem Executor.schedule_section (p : Nat) :
    (Dispatch.schedule p).Section e interrupted timedOut (e.schedule p) := by
  rw [schedule]
  dsimp only
  split
  · exact .hands ‹_›
  · exact .stores ‹_›

theorem Executor.drain_section (p : Nat) (taken : List (Nat × Nat)) :
    (Dispatch.drain p taken).Section e interrupted timedOut (e.drain p taken) := by
  by_cases hp : p < e.partitions.size
  · have hturn : e.drain p taken = e.draining p taken := by
      simp only [drain, if_pos hp, List.map_map]
      rfl
    exact hturn ▸ .drains hp
  · rw [drain, if_neg hp]
    exact .drainsNothing (Nat.le_of_not_lt hp)

theorem Executor.join_section {task : Nat} {turn : ExecutorTurn K V Q R}
    (hturn : e.join task timedOut = some turn) :
    (Dispatch.join task).Section e interrupted timedOut turn := by
  rw [join] at hturn
  split at hturn
  · exact Option.some.inj hturn ▸ .joins ‹_›
  · split at hturn
    · exact Option.some.inj hturn ▸ .joinsPending (.inl ‹_›) ‹_›
    · cases hturn
  · split at hturn
    · exact Option.some.inj hturn ▸ .joinsPending (.inr ‹_›) ‹_›
    · cases hturn
  · exact Option.some.inj hturn ▸ .joinsNothing (.inl ‹_›)
  · exact Option.some.inj hturn ▸ .joinsNothing (.inr ‹_›)

theorem Executor.await_section {turn : ExecutorTurn K V Q R}
    (hturn : e.await interrupted timedOut = some turn) :
    Dispatch.await.Section e interrupted timedOut turn := by
  rw [await] at hturn
  split at hturn
  · exact Option.some.inj hturn ▸ .awaits ‹_›
  · rename_i hannounced
    have hannounced : e.announced = false := Bool.eq_false_iff.mpr hannounced
    split at hturn
    · exact Option.some.inj hturn ▸ .interrupts hannounced ‹_›
    · rename_i hinterrupted
      split at hturn
      · exact Option.some.inj hturn ▸
          .awaitsNothing hannounced (Bool.eq_false_iff.mpr hinterrupted) ‹_›
      · cases hturn

/-- An executor does nothing else. -/
theorem Dispatch.sections {stage : Dispatch K V Q R} {turn : ExecutorTurn K V Q R}
    (hturn : stage.turn e interrupted timedOut = some turn) :
    stage.Section e interrupted timedOut turn := by
  cases stage with
  | accept p code =>
    obtain rfl := Option.some.inj hturn
    rw [Executor.accept]
    split
    · exact .accepts ‹_›
    · exact .rejects ‹_›
  | enqueue p code => exact Option.some.inj hturn ▸ Executor.enqueue_section p code
  | activate => exact Option.some.inj hturn ▸ .activates
  | unlock p task handOver =>
    obtain rfl := Option.some.inj hturn
    cases handOver with
    | true => exact .proceeds
    | false => exact .unlocks
  | schedule p => exact Option.some.inj hturn ▸ Executor.schedule_section p
  | start p =>
    obtain rfl := Option.some.inj hturn
    rw [Executor.start]
    split
    · exact .lacks ‹_›
    · exact .starts ‹_›
  | run task =>
    obtain rfl := Option.some.inj hturn
    rw [Executor.run]
    split
    · exact .misses ‹_›
    · exact .runs ‹_›
  | hangUp => exact Option.some.inj hturn ▸ .hangsUp
  | finish p =>
    obtain rfl := Option.some.inj hturn
    rw [Executor.finish]
    split <;> rename_i hempty
    · exact .finishes (List.isEmpty_iff.mp hempty)
    · exact .resumes fun hnil => hempty (List.isEmpty_iff.mpr hnil)
  | idle =>
    obtain rfl := Option.some.inj hturn
    rw [Executor.idle]
    split
    · exact .idlesLast ‹_›
    · exact .idles ‹_›
  | conclude =>
    obtain rfl := Option.some.inj hturn
    rw [Executor.conclude]
    split
    · exact .concludes ‹_›
    · exact .concludesNothing (Bool.eq_false_iff.mpr ‹_›)
  | terminate =>
    change (if e.holders = 0 then some e.terminate else none) = some turn at hturn
    split at hturn
    · obtain rfl := Option.some.inj hturn
      rw [Executor.terminate]
      split
      · exact .terminates ‹_› ‹_›
      · exact .terminatesNothing ‹_› (Bool.eq_false_iff.mpr ‹_›)
    · cases hturn
  | announce => exact Option.some.inj hturn ▸ .announces
  | shutdown =>
    change (if e.holders = 0 then some e.shutdown else none) = some turn at hturn
    split at hturn
    · obtain rfl := Option.some.inj hturn
      rw [Executor.shutdown]
      split
      · exact .shuts ‹_› ‹_›
      · exact .shutsNothing ‹_› ‹_›
    · cases hturn
  | drain p taken => exact Option.some.inj hturn ▸ Executor.drain_section p taken
  | retire => exact Option.some.inj hturn ▸ .retires
  | takeJob position =>
    obtain rfl := Option.some.inj hturn
    rw [Executor.takeJob]
    split
    · exact .takesNothing ‹_›
    · exact .takes ‹_›
  | loseJob position =>
    obtain rfl := Option.some.inj hturn
    rw [Executor.loseJob]
    split
    · exact .loses ‹_›
    · exact .losesNothing (Nat.le_of_not_lt ‹_›)
  | takeBack task =>
    obtain rfl := Option.some.inj hturn
    rw [Executor.takeBack]
    split
    · exact .takesBack ‹_›
    · exact .takesNothingBack (Bool.eq_false_iff.mpr ‹_›)
  | cancel task =>
    obtain rfl := Option.some.inj hturn
    rw [Executor.cancel]
    split
    · exact .cancels ‹_›
    · exact .cancelsNothing (Bool.eq_false_iff.mpr ‹_›)
  | release => exact Option.some.inj hturn ▸ .releases
  | await => exact Executor.await_section hturn
  | join task => exact Executor.join_section hturn

end SharedCache
