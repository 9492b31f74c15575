import SharedCache.Proofs.Executor.Immediate

/-!
# The place of a task

A task that an executor took is in one place at a time: it waits in a queue, it is in the hands of
whoever shut the executor down, a thread runs it, it is over, or it was dropped.  The ledger of a
run tells when a task leaves its queue, which happens once, and the other four places take up those
that have left.
-/

namespace SharedCache

variable {K V Q R : Type}

/-! ## Steps of the executor -/

/-- The task whose code a step begins. -/
def Dispatch.begins? : Dispatch K V Q R → Option Nat
  | .run task => some task
  | _ => none

/-- The task that a step takes from those that were handed back. -/
def Dispatch.fetches? : Dispatch K V Q R → Option Nat
  | .takeBack task | .cancel task => some task
  | _ => none

/-- The task that a step takes from those that were handed back, to drop it. -/
def Dispatch.cancels? : Dispatch K V Q R → Option Nat
  | .cancel task => some task
  | _ => none

/-- The task whose outcome a step asks for. -/
def Dispatch.joins? : Dispatch K V Q R → Option Nat
  | .join task => some task
  | _ => none

/-- The task whose sending end a step lets go of. -/
def Dispatch.letsGo? : Dispatch K V Q R → Option Nat
  | .hangUp task => some task
  | _ => none

/-- The tasks whose code a duty is about to begin. -/
def Duty.begins? : Duty K V Q R → Option Nat
  | .act stage => stage.begins?
  | .deliver _ => none

/-- The task whose code a duty waits for to end. -/
def Duty.delivers? : Duty K V Q R → Option Nat
  | .act _ => none
  | .deliver task => some task

/-- How a task ended whose code ended so. -/
def Signal.outcome : Signal V → Outcome V
  | .done (.complaint text) => .lost (.failed text)
  | .done answer => .returned answer.value?
  | .raised panic => .lost (.panicked panic.message)

namespace Executor

variable {e e' : Executor K V Q R} {events : List (Event K V)} {done given : List (Duty K V Q R)}

/-- What has become of the outcome of a task. -/
def delivery? (e : Executor K V Q R) (task : Nat) : Option (Delivery V) :=
  e.tasks[task]?.map Task.delivery

theorem delivery?_onDelivery (task : Nat) (change : Delivery V → Delivery V) (other : Nat) :
    (e.onDelivery task change).delivery? other =
      if other = task then (e.delivery? other).map change else e.delivery? other := by
  simp only [delivery?, onDelivery, Array.getElem?_modify]
  by_cases hother : other = task
  · subst hother
    simp [Function.comp_def]
  · simp [hother, Ne.symm hother]

theorem delivery?_deliver (task : Nat) (delivery : Delivery V) (other : Nat) :
    (e.deliver task delivery).delivery? other =
      if other = task then (e.delivery? other).map fun _ => delivery else e.delivery? other :=
  delivery?_onDelivery task (fun _ => delivery) other

theorem delivery?_eq_none_iff {task : Nat} : e.delivery? task = none ↔ e.tasks.size ≤ task := by
  simp [delivery?]

theorem exists_delivery {task : Nat} (htask : task < e.tasks.size) :
    ∃ delivery, e.delivery? task = some delivery :=
  Option.ne_none_iff_exists'.mp fun hnone =>
    Nat.not_le.mpr htask (delivery?_eq_none_iff.mp hnone)

theorem delivered_state (task : Nat) (signal : Signal V) :
    (e.delivered task signal).state = e.deliver task (.ready signal.outcome true) := by
  simp only [delivered]
  split <;> first | rfl | skip
  rename_i answer hanswer
  cases answer with
  | complaint text => exact absurd rfl (hanswer text)
  | _ => rfl

theorem mem_queues_iff {task : Nat} :
    task ∈ e.partitions.toList.flatMap Partition.queue ↔ ∃ q, task ∈ (e.partition q).queue := by
  rw [List.mem_flatMap]
  constructor
  · rintro ⟨partition, hpartition, htask⟩
    obtain ⟨q, hq⟩ := List.getElem?_of_mem hpartition
    exact ⟨q, by rwa [Executor.partition, ← Array.getElem?_toList, hq]⟩
  · rintro ⟨q, htask⟩
    cases hq : e.partitions[q]? with
    | none => simp [Executor.partition, hq, Partition.idle] at htask
    | some partition =>
      refine ⟨partition, ?_, by simpa [Executor.partition, hq] using htask⟩
      exact List.mem_of_getElem? (by rwa [Array.getElem?_toList])

/-- Only the tasks that wait are let go of. -/
theorem delivery?_settleForsaken (task : Nat) :
    e.settleForsaken.delivery? task =
      if e.owned = false ∧ e.carriers = 0 ∧ task ∈ e.partitions.toList.flatMap Partition.queue then
        (e.delivery? task).map fun _ => .closed
      else e.delivery? task := by
  have hfold : ∀ (lost : List Nat) (e : Executor K V Q R),
      (lost.foldl (fun e task => e.deliver task .closed) e).delivery? task =
        if task ∈ lost then (e.delivery? task).map fun _ => .closed else e.delivery? task := by
    intro lost
    induction lost with
    | nil => simp
    | cons head lost ih =>
      intro e
      rw [List.foldl_cons, ih, delivery?_deliver]
      by_cases hhead : task = head
      · subst hhead
        simp [Function.comp_def]
      · simp [hhead]
  rw [settleForsaken]
  split
  · rename_i hkept
    rw [if_neg]
    rintro ⟨howned, hcarriers, -⟩
    simp [howned, hcarriers] at hkept
  · rename_i hforsaken
    obtain ⟨howned, hcarriers⟩ : e.owned = false ∧ e.carriers = 0 := by simpa using hforsaken
    simp only [howned, hcarriers, true_and]
    exact hfold _ e

theorem settleForsaken_handedBack (e : Executor K V Q R) :
    e.settleForsaken.handedBack = e.handedBack := by
  have hfold : ∀ (lost : List Nat) (e : Executor K V Q R),
      (lost.foldl (fun e task => e.deliver task .closed) e).handedBack = e.handedBack := by
    intro lost
    induction lost with
    | nil => exact fun _ => rfl
    | cons head lost ih => exact fun e => ih _
  rw [settleForsaken]
  split
  · rfl
  · exact hfold _ e

theorem isHandedBack_iff {task : Nat} :
    e.isHandedBack task = true ↔ 0 < (e.handedBack.map Prod.snd).count task := by
  simp [isHandedBack, List.count_pos_iff, List.mem_map]

/-! ## Duties -/

/-- What is over is what a thread has waited for. -/
theorem Does.deliveries_eq (hdoes : e.Does e' events done given) :
    deliveries events = done.filterMap Duty.delivers? := by
  cases hdoes with
  | passes _ hevents hdone =>
    rw [deliveries_of_rests hevents, eq_comm, List.filterMap_eq_nil_iff]
    intro d hd
    cases d with
    | act => rfl
    | deliver => cases (hdone _ hd).runs
  | delivers _ hevents => exact deliveries_of_delivered hevents
  | drains => exact deliveries_events _ .handedBack _
  | _ => rfl

/-- Only a step of the executor moves tasks. -/
theorem Does.movements_eq_nil {kind : Movement} (hdoes : e.Does e' events done given)
    (hdone : ∀ stage, .act stage ∉ done) : movements kind events = [] := by
  cases hdoes with
  | passes _ hevents => exact movements_of_rests hevents
  | delivers _ hevents => exact movements_of_delivered hevents
  | submits => rfl
  | _ => exact absurd (List.mem_singleton_self _) (hdone _)

/-- A thread waits for the end of the code that it has begun. -/
theorem Does.countP_delivers {task : Nat} (hdoes : e.Does e' events done given)
    (hsize : ∀ d ∈ done, d.runs? = some task → task < e.tasks.size) :
    given.countP (fun d => d.delivers? = some task) =
      done.countP fun d => d.begins? = some task := by
  have hbare : ∀ d : Duty K V Q R, d.IsBare → d.begins? = none ∧ d.delivers? = none := by
    rintro (stage | _) hd
    · cases stage with
      | run => cases hd.runs
      | _ => exact ⟨rfl, rfl⟩
    · cases hd.runs
  have hbegins : ∀ {duties : List (Duty K V Q R)}, (∀ d ∈ duties, d.IsBare) →
      duties.countP (fun d => d.begins? = some task) = 0 :=
    countP_eq_zero_of_bare fun d hd => by simp [(hbare d hd).1]
  have hdelivers : ∀ {duties : List (Duty K V Q R)}, (∀ d ∈ duties, d.IsBare) →
      duties.countP (fun d => d.delivers? = some task) = 0 :=
    countP_eq_zero_of_bare fun d hd => by simp [(hbare d hd).2]
  cases hdoes with
  | passes _ _ hdone hgiven => rw [hdelivers hgiven, hbegins hdone]
  | idles hgiven =>
    rw [hdelivers (bare_of_errands hgiven)]
    rfl
  | @misses missed hmissed =>
    have hother : missed ≠ task := by
      rintro rfl
      exact absurd (hsize _ (List.mem_singleton_self _) rfl) (by omega)
    simp [Duty.begins?, Dispatch.begins?, hother]
  | runs => simp [Duty.begins?, Dispatch.begins?, Duty.delivers?]
  | _ => rfl

end Executor

/-- What a step of the executor does to the tasks, and to those in the hands of callers. -/
inductive Dispatch.Handles (e e' : Executor K V Q R) (events : List (Event K V)) :
    Dispatch K V Q R → Prop where
  /-- The step looks at no task that was accepted. -/
  | rests {stage : Dispatch K V Q R} :
      stage.fetches? = none → stage.joins? = none → stage.letsGo? = none →
      stage.forsakes = false → e'.tasks = e.tasks →
      e'.handedBack = e.handedBack ++ movements .handedBack events → Handles e e' events stage
  /-- What the step looks for is not there. -/
  | misses {stage : Dispatch K V Q R} :
      (∀ task, stage.fetches? = some task → e.isHandedBack task = false) →
      (∀ task outcome sending, stage.joins? = some task →
        e.delivery? task ≠ some (.ready outcome sending)) →
      stage.letsGo? = none → e' = e → events = [] → Handles e e' events stage
  | accepts {p : Nat} {code : Script K V Q R} :
      e'.tasks = e.tasks.push ⟨p, code, .pending⟩ →
      e'.handedBack = e.handedBack ++ movements .handedBack events →
      Handles e e' events (.enqueue p code)
  | takesBack {task : Nat} :
      e.isHandedBack task = true → e' = e.takeFromHandedBack task → events = [] →
      Handles e e' events (.takeBack task)
  | cancels {task : Nat} :
      e.isHandedBack task = true → e' = (e.takeFromHandedBack task).deliver task .closed →
      events = [] → Handles e e' events (.cancel task)
  | handsOut {task : Nat} {outcome : Outcome V} {sending : Bool} :
      e.delivery? task = some (.ready outcome sending) → e' = e.onDelivery task .take →
      events = [] → Handles e e' events (.join task)
  | letsGo {task : Nat} :
      e' = e.onDelivery task .hangUp → events = [] → Handles e e' events (.hangUp task)
  /-- The tasks that wait may have nobody left to run them. -/
  | settles {stage : Dispatch K V Q R} {e₀ : Executor K V Q R} :
      e' = e₀.settleForsaken → stage.fetches? = none → stage.joins? = none →
      stage.letsGo? = none → stage.forsakes = true → e₀.partitions = e.partitions →
      e₀.tasks = e.tasks → e₀.handedBack = e.handedBack → events = [] → Handles e e' events stage

/-- Every step does one of these things. -/
theorem Dispatch.handles {e : Executor K V Q R} {interrupted timedOut : Bool}
    {stage : Dispatch K V Q R} {turn : ExecutorTurn K V Q R}
    (hturn : stage.turn e interrupted timedOut = some turn) :
    stage.Handles e turn.state turn.events := by
  have hsame : e.handedBack = e.handedBack ++ movements .handedBack ([] : List (Event K V)) :=
    (List.append_nil _).symm
  cases Dispatch.sections hturn with
  | enqueues | awakens => exact .accepts rfl hsame
  | loses | retires | releases => exact .settles rfl rfl rfl rfl rfl rfl rfl rfl rfl
  | losesNothing => exact .misses (fun _ h => by cases h) (fun _ _ _ h => by cases h) rfl rfl rfl
  | takesBack hback => exact .takesBack hback rfl rfl
  | cancels hback => exact .cancels hback rfl rfl
  | takesNothingBack hback | cancelsNothing hback =>
    exact .misses (fun _ hother => Option.some.inj hother ▸ hback) (fun _ _ _ h => by cases h) rfl
      rfl rfl
  | @drains p =>
    have hback : movements .handedBack ((e.partition p).queue.map fun task =>
        (.handedBack p task : Event K V)) = (e.partition p).queue.map fun task => (p, task) :=
      movements_events p .handedBack _
    exact .rests rfl rfl rfl rfl rfl (congrArg (e.handedBack ++ ·) hback.symm)
  | joins hready => exact .handsOut hready rfl rfl
  | hangsUp => exact .letsGo rfl rfl
  | joinsPending hnothing | joinsNothing hnothing =>
    refine .misses (fun _ h => by cases h) (fun _ outcome sending hother hready => ?_) rfl rfl rfl
    obtain rfl := Option.some.inj hother
    rcases hnothing with hnothing | hnothing <;> cases hready.symm.trans hnothing
  | _ => exact .rests rfl rfl rfl rfl rfl hsame

/-! ## Passages -/

/-- The tasks that a passage drops: one that was handed back, or those that nobody is left to
run. -/
def Passage.dropped (p : Passage K V Q R) : List Nat :=
  ((p.dispatch?.bind Dispatch.cancels?).filter p.before.world.executor.isHandedBack).toList ++
    (List.range p.before.world.executor.partitions.size).flatMap p.forsaken

/-- What a passage does to the tasks: nothing, or it delivers an outcome, or it is a step of the
executor. -/
inductive Passage.Handling (p : Passage K V Q R) : Prop where
  | rests :
      p.dispatch? = none → p.ending? = none →
      p.after.world.executor = p.before.world.executor →
      movements .handedBack p.events = [] → Handling p
  | ends {task : Nat} {signal : Signal V} :
      p.dispatch? = none → p.ending? = some (task, signal) →
      p.after.world.executor =
        p.before.world.executor.deliver task (.ready signal.outcome true) →
      movements .handedBack p.events = [] → Handling p
  | acts {stage : Dispatch K V Q R} :
      p.dispatch? = some stage → p.ending? = none →
      stage.Handles p.before.world.executor p.after.world.executor p.events → Handling p

theorem Executor.count_takeFromHandedBack (e : Executor K V Q R) (fetched task : Nat) :
    ((e.takeFromHandedBack fetched).handedBack.map Prod.snd).count task =
      if fetched = task then 0 else (e.handedBack.map Prod.snd).count task := by
  rw [takeFromHandedBack, List.count_eq_countP, List.countP_map, List.countP_filter]
  split
  · rename_i hfetched
    subst hfetched
    exact List.countP_eq_zero.mpr fun entry _ => by simp
  · rename_i hother
    rw [List.count_eq_countP, List.countP_map]
    refine List.countP_congr fun entry _ => ?_
    have hne : entry.2 = task → ¬ entry.2 = fetched := fun h h' => hother (h' ▸ h)
    simpa using hne

/-- What is fetched and not run is dropped. -/
theorem Executor.count_fetched (e : Executor K V Q R) (stage? : Option (Dispatch K V Q R))
    {task : Nat} (hhands : (e.handedBack.map Prod.snd).count task ≤ 1)
    (hnot : stage? = some (.takeBack task) → e.isHandedBack task = false) :
    (if stage?.bind Dispatch.fetches? = some task then 0
        else (e.handedBack.map Prod.snd).count task) +
      ((stage?.bind Dispatch.cancels?).filter e.isHandedBack).toList.count task =
    (e.handedBack.map Prod.snd).count task := by
  have hnone : e.isHandedBack task = false → (e.handedBack.map Prod.snd).count task = 0 := by
    intro hfalse
    rw [← Bool.not_eq_true, isHandedBack_iff] at hfalse
    exact Nat.eq_zero_of_not_pos hfalse
  cases stage? with
  | none => simp
  | some stage =>
    cases stage with
    | takeBack other =>
      by_cases hother : other = task
      · subst hother
        rw [hnone (hnot rfl)]
        simp [Dispatch.cancels?]
      · simp [Dispatch.fetches?, Dispatch.cancels?, hother]
    | cancel other =>
      have hfilter : ((some (Dispatch.cancel other : Dispatch K V Q R)).bind
          Dispatch.cancels?).filter e.isHandedBack =
            if e.isHandedBack other then some other else none := rfl
      rw [hfilter]
      by_cases hother : other = task
      · subst hother
        rw [Option.bind_some, Dispatch.fetches?, if_pos rfl]
        cases hmine : e.isHandedBack other with
        | true =>
          have hpos := isHandedBack_iff.mp hmine
          rw [if_pos rfl, Option.toList_some, List.count_singleton_self]
          omega
        | false =>
          rw [hnone hmine]
          rfl
      · rw [Option.bind_some, Dispatch.fetches?, if_neg (by simpa using hother)]
        split <;> simp [hother]
    | _ => simp [Dispatch.fetches?, Dispatch.cancels?]

/-- Whatever is fetched is no more in anybody's hands. -/
theorem Passage.Handling.count_handedBack {p : Passage K V Q R} (h : p.Handling) (task : Nat) :
    (p.after.world.executor.handedBack.map Prod.snd).count task =
      (if p.dispatch?.bind Dispatch.fetches? = some task then 0
        else (p.before.world.executor.handedBack.map Prod.snd).count task) +
      ((movements .handedBack p.events).map Prod.snd).count task := by
  cases h with
  | rests hdispatch _ hexecutor hevents => simp [hdispatch, hexecutor, hevents]
  | ends hdispatch _ hexecutor hevents =>
    simp [hdispatch, hexecutor, hevents, Executor.deliver, Executor.onDelivery]
  | @acts stage hdispatch _ hhandles =>
    rw [hdispatch, Option.bind_some]
    cases hhandles with
    | rests hfetches _ _ _ _ hback => simp [hfetches, hback]
    | misses hfetches _ _ hexecutor hevents =>
      rw [hexecutor, hevents]
      split
      · rename_i hfetched
        have hnone := hfetches task hfetched
        rw [← Bool.not_eq_true, Executor.isHandedBack_iff] at hnone
        simpa using Nat.eq_zero_of_not_pos hnone
      · simp
    | accepts _ hback => simp [hback, Dispatch.fetches?]
    | takesBack _ hexecutor hevents =>
      rw [hexecutor, hevents]
      simpa [Dispatch.fetches?] using Executor.count_takeFromHandedBack _ _ task
    | cancels _ hexecutor hevents =>
      rw [hexecutor, hevents]
      simpa [Dispatch.fetches?, Executor.deliver, Executor.onDelivery] using
        Executor.count_takeFromHandedBack _ _ task
    | handsOut _ hexecutor hevents | letsGo hexecutor hevents =>
      simp [hexecutor, hevents, Dispatch.fetches?, Executor.onDelivery]
    | settles hexecutor hfetches _ _ _ _ _ hback hevents =>
      simp [hexecutor, hevents, hfetches, Executor.settleForsaken_handedBack, hback]

section Passages

variable [DecidableEq K] [DecidableEq V] {settings : Settings K V Q R} {p : Passage K V Q R}
  {task : Nat}

theorem Passage.Lawful.handling (hp : p.Lawful settings) (hm : p.before.Reachable settings) :
    p.Handling := by
  cases hp.labours hm with
  | outside hmover hevents hexecutor =>
    exact .rests (dispatch?_of_mover hmover) (ending?_of_mover hmover) hexecutor
      (by rw [hevents, movements_nil])
  | work hmover hroster hrosters hdone hdoes =>
    cases hdone with
    | nothing hdispatch hending hexecutor =>
      exact .rests hdispatch hending hexecutor (hdoes.movements_eq_nil (by simp))
    | act hdispatch hending =>
      obtain ⟨i, t, hmover, ht, hactivity⟩ := dispatch_of_dispatch? hdispatch
      obtain ⟨interrupted, timedOut, turn, hturn, hexecutor, hevents, -⟩ :=
        hp.own_dispatch hmover ht hactivity
      refine .acts hdispatch hending ?_
      rw [hexecutor, hevents]
      exact Dispatch.handles hturn
    | deliver hdispatch hending hexecutor =>
      exact .ends hdispatch hending (hexecutor.trans (Executor.delivered_state _ _))
        (hdoes.movements_eq_nil (by simp))

omit [DecidableEq K] [DecidableEq V] in
theorem Passage.Discharges.filterMap_delivers? {done : List (Duty K V Q R)}
    (hdone : p.Discharges done) :
    done.filterMap Duty.delivers? = (p.ending?.map Prod.fst).toList := by
  cases hdone with
  | nothing _ hending => simp [hending]
  | act _ hending => simp [hending, Duty.delivers?]
  | deliver _ hending => simp [hending, Duty.delivers?]

omit [DecidableEq K] [DecidableEq V] in
theorem Passage.Discharges.filterMap_begins? {done : List (Duty K V Q R)}
    (hdone : p.Discharges done) :
    done.filterMap Duty.begins? = (p.dispatch?.bind Dispatch.begins?).toList := by
  cases hdone with
  | nothing hdispatch => simp [hdispatch]
  | @act stage hdispatch => cases stage <;> simp [hdispatch, Duty.begins?, Dispatch.begins?]
  | deliver hdispatch => simp [hdispatch, Duty.begins?]

/-- The tasks that threads run, but for one that is taken back: some are started, and some end. -/
theorem Passage.Lawful.countP_runs (hp : p.Lawful settings) (hm : p.before.Reachable settings)
    (hsize : ∀ d ∈ p.before.rosters.flatten, d.runs? = some task →
      task < p.before.world.executor.tasks.size) (hback : ¬ p.TakesBack task) :
    p.after.rosters.flatten.countP (fun d => d.runs? = some task) +
        (p.ending?.map Prod.fst).toList.count task =
      p.before.rosters.flatten.countP (fun d => d.runs? = some task) +
        ((movements .started p.events).map Prod.snd).count task := by
  cases hp.labours hm with
  | outside hmover hevents _ hrosters =>
    rw [hevents, ending?_of_mover hmover]
    rcases hrosters with hsame | hspawned
    · simp [hsame]
    · simp [hspawned]
  | @work i done given base hmover hroster hrosters hdone hdoes =>
    obtain ⟨others, hbefore, hafter⟩ := exists_perm_flatten_set hroster
    have hkept : done = [.act (.takeBack task)] →
        p.before.world.executor.isHandedBack task = false := fun htakes =>
      Bool.eq_false_iff.mpr fun hmine =>
        hback ⟨(hdone.dispatch?_eq_some_iff _).mpr htakes, hmine⟩
    have hchange := hdoes.countP_runs hkept fun d hd =>
      hsize d (hbefore.mem_iff.mpr (List.mem_append_left _ hd))
    rw [hdoes.deliveries_eq, hdone.filterMap_delivers?] at hchange
    rw [hrosters, (hafter given).countP_eq, hbefore.countP_eq, List.countP_append,
      List.countP_append]
    omega

/-- A thread that takes a task back is going to run it. -/
theorem Passage.Lawful.countP_runs_of_takesBack (hp : p.Lawful settings)
    (hm : p.before.Reachable settings) (hback : p.TakesBack task) :
    p.after.rosters.flatten.countP (fun d => d.runs? = some task) =
        p.before.rosters.flatten.countP (fun d => d.runs? = some task) + 1 ∧
      p.events = [] ∧ p.ending? = none := by
  obtain ⟨hdispatch, hmine⟩ := hback
  obtain ⟨i, t, hmover, ht, hactivity⟩ := dispatch_of_dispatch? hdispatch
  obtain ⟨_, _, turn, hturn, -, hevents, hthread⟩ := hp.own_dispatch hmover ht hactivity
  obtain rfl : p.before.world.executor.takeBack task = turn := Option.some.inj hturn
  rw [Executor.takeBack, if_pos hmine] at hevents hthread
  cases hp.labours hm with
  | outside hnone => cases hnone.symm.trans hmover
  | @work j done given base hj hroster hrosters hdone hdoes =>
    obtain rfl := Option.some.inj (hj.symm.trans hmover)
    obtain rfl := (hdone.dispatch?_eq_some_iff _).mp hdispatch
    have hbase : base = t.stack.flatMap Frame.duties := by
      simpa [Machine.rosters, ht, Thread.duties, hactivity, eq_comm] using hroster
    have hlt := (List.getElem?_eq_some_iff.mp hroster).1
    have hafter : p.after.rosters[j]? = some (given ++ base) := by simp [hrosters, hlt]
    have hsplit : given ++ base = [.act (.run task)] ++ base := by
      simpa [Machine.rosters, hthread, Thread.duties, hbase, Turn.goTo, Turn.andThen, eq_comm]
        using hafter
    have hgiven := List.append_cancel_right hsplit
    refine ⟨?_, hevents, ?_⟩
    · obtain ⟨others, hbefore, hset⟩ := exists_perm_flatten_set hroster
      rw [hrosters, (hset given).countP_eq, hbefore.countP_eq, hgiven]
      simp [Duty.runs?]
    · cases hdone with
      | act _ hending => exact hending

/-- In a passage a task may come into one of the places of those that have left a queue, and it may
change from one of them to another one. -/
theorem Passage.Lawful.places (hp : p.Lawful settings) (hm : p.before.Reachable settings)
    (hsize : ∀ d ∈ p.before.rosters.flatten, d.runs? = some task →
      task < p.before.world.executor.tasks.size)
    (hhands : (p.before.world.executor.handedBack.map Prod.snd).count task ≤ 1) :
    p.after.rosters.flatten.countP (fun d => d.runs? = some task) +
        (p.ending?.map Prod.fst).toList.count task +
        (p.after.world.executor.handedBack.map Prod.snd).count task +
        ((p.dispatch?.bind Dispatch.cancels?).filter
          p.before.world.executor.isHandedBack).toList.count task =
      p.before.rosters.flatten.countP (fun d => d.runs? = some task) +
        (p.before.world.executor.handedBack.map Prod.snd).count task +
        (((movements .started p.events).map Prod.snd).count task +
          ((movements .handedBack p.events).map Prod.snd).count task) := by
  have hback := (hp.handling hm).count_handedBack task
  have hiff : p.before.world.executor.isHandedBack task = true ↔
      0 < (p.before.world.executor.handedBack.map Prod.snd).count task :=
    Executor.isHandedBack_iff
  by_cases htakes : p.TakesBack task
  · obtain ⟨hruns, hevents, hending⟩ := hp.countP_runs_of_takesBack hm htakes
    obtain ⟨hdispatch, hmine⟩ := htakes
    have hpos := hiff.mp hmine
    simp only [hdispatch, Option.bind_some, Dispatch.fetches?, if_true, hevents, movements_nil,
      List.map_nil, List.count_nil] at hback
    simp only [hdispatch, Option.bind_some, Dispatch.cancels?, hevents, hending, movements_nil,
      List.map_nil, List.count_nil, Option.map_none, Option.toList_none, Option.filter_none]
    omega
  · have hruns := hp.countP_runs hm hsize htakes
    have hfetched := p.before.world.executor.count_fetched p.dispatch? hhands
      fun hdispatch => Bool.eq_false_iff.mpr fun hmine => htakes ⟨hdispatch, hmine⟩
    omega

/-- A thread that begins the code of a task waits for its end. -/
theorem Passage.Lawful.countP_delivers (hp : p.Lawful settings) (hm : p.before.Reachable settings)
    (hsize : ∀ d ∈ p.before.rosters.flatten, d.runs? = some task →
      task < p.before.world.executor.tasks.size) :
    p.after.rosters.flatten.countP (fun d => d.delivers? = some task) +
        (p.ending?.map Prod.fst).toList.count task =
      p.before.rosters.flatten.countP (fun d => d.delivers? = some task) +
        (p.dispatch?.bind Dispatch.begins?).toList.count task := by
  cases hp.labours hm with
  | outside hmover _ _ hrosters =>
    rw [ending?_of_mover hmover, dispatch?_of_mover hmover]
    rcases hrosters with hsame | hspawned
    · simp [hsame]
    · simp [hspawned]
  | @work i done given base hmover hroster hrosters hdone hdoes =>
    obtain ⟨others, hbefore, hafter⟩ := exists_perm_flatten_set hroster
    have hsubmitted : ∀ d ∈ done, d.runs? = some task →
        task < p.before.world.executor.tasks.size := fun d hd =>
      hsize d (hbefore.mem_iff.mpr (List.mem_append_left _ hd))
    have hchange := hdoes.countP_delivers hsubmitted
    have hends := congrArg (List.count task) hdone.filterMap_delivers?
    have hbegins := congrArg (List.count task) hdone.filterMap_begins?
    simp only [List.count_filterMap, beq_eq_decide] at hends hbegins
    rw [hrosters, (hafter given).countP_eq, hbefore.countP_eq, List.countP_append,
      List.countP_append]
    omega

end Passages

/-! ## Runs -/

/-- The tasks whose code was begun in the course of a run. -/
def begun (trace : List (Passage K V Q R)) : List Nat :=
  trace.filterMap fun p => p.dispatch?.bind Dispatch.begins?

/-- The tasks whose code has come to an end, each with how it has. -/
def endings (trace : List (Passage K V Q R)) : List (Nat × Signal V) :=
  trace.filterMap Passage.ending?

/-- The tasks that were dropped. -/
def discarded (trace : List (Passage K V Q R)) : List Nat := trace.flatMap Passage.dropped

/-- How often a task has left its queue, as the entries of a ledger tell. -/
def exits (entries : List (Event K V)) (task : Nat) : Nat :=
  ((movements .started entries).map Prod.snd).count task +
    ((movements .handedBack entries).map Prod.snd).count task

namespace Executor

variable {e e' : Executor K V Q R} {events : List (Event K V)} {task : Nat}

theorem exits_append (events new : List (Event K V)) (task : Nat) :
    exits (events ++ new) task = exits events task + exits new task := by
  simp only [exits, movements_append, List.map_append, List.count_append]
  omega

/-- What is forsaken leaves its queue. -/
theorem exits_entries : exits (e.entries e' events) task = exits events task +
    ((List.range e.partitions.size).flatMap (e.forsaken e' events)).count task := by
  have hforsaken : ∀ queues : List Nat, ((movements .handedBack (queues.flatMap fun q =>
      (Movement.handedBack.events q (e.forsaken e' events q) : List (Event K V)))).map Prod.snd) =
        queues.flatMap (e.forsaken e' events) := by
    intro queues
    induction queues with
    | nil => rfl
    | cons q queues ih => simp [ih, Function.comp_def]
  rw [exits, movements_entries (by simp), entries, movements_append, List.map_append, hforsaken,
    List.count_append, exits, Nat.add_assoc]

namespace Conserves

/-- A task leaves its queue once. -/
theorem exits_le_one (hconserves : e.Conserves events) (task : Nat) : exits events task ≤ 1 := by
  rw [exits]
  rcases Nat.eq_zero_or_pos (((movements .handedBack events).map Prod.snd).count task) with
    hnone | hback
  · rw [hnone]
    rcases Nat.eq_zero_or_pos (((movements .started events).map Prod.snd).count task) with
      hzero | hstarted
    · omega
    · obtain ⟨p, hp⟩ := exists_mem_tasksOf hstarted
      exact Nat.le_of_eq (hconserves.count_moved hp)
  · obtain ⟨p, hp⟩ := exists_mem_tasksOf hback
    have hnone : ¬ 0 < ((movements .started events).map Prod.snd).count task := by
      intro hstarted
      obtain ⟨q, hq⟩ := exists_mem_tasksOf hstarted
      exact hconserves.not_handedBack_of_started hq hp
    rw [hconserves.count_moved hp]
    omega

/-- A task that waits has not left its queue. -/
theorem exits_of_queue {q : Nat} (hconserves : e.Conserves events)
    (htask : task ∈ (e.partition q).queue) : exits events task = 0 := by
  have hnone : ∀ kind, (∀ p, task ∉ tasksOf kind p events) →
      ((movements kind events).map Prod.snd).count task = 0 := fun kind hnot =>
    Nat.eq_zero_of_not_pos fun hpos => (exists_mem_tasksOf hpos).elim hnot
  rw [exits, hnone _ fun p => (hconserves.fresh_of_queue (q := p) htask).1,
    hnone _ fun p => (hconserves.fresh_of_queue (q := p) htask).2]

/-- Only a task that was submitted leaves a queue. -/
theorem lt_size_of_exits (hconserves : e.Conserves events) (htask : 0 < exits events task) :
    task < e.tasks.size := by
  have hmoved : ∀ kind, 0 < ((movements kind events).map Prod.snd).count task →
      task < e.tasks.size := by
    intro kind hpos
    obtain ⟨p, hp⟩ := exists_mem_tasksOf hpos
    exact hconserves.lt_size ((hconserves.sublist kind p).subset hp)
  rw [exits] at htask
  rcases Nat.eq_zero_or_pos (((movements .started events).map Prod.snd).count task) with
    hzero | hstarted
  · exact hmoved .handedBack (by omega)
  · exact hmoved .started hstarted

/-- What a thread runs was submitted, since it has left its queue. -/
theorem lt_size_of_runs {duties : List (Duty K V Q R)} {d : Duty K V Q R}
    (hconserves : e.Conserves events)
    (hle : duties.countP (fun d => d.runs? = some task) ≤ exits events task) (hd : d ∈ duties)
    (hruns : d.runs? = some task) : task < e.tasks.size := by
  have hpos : 0 < duties.countP fun d => d.runs? = some task :=
    List.countP_pos_iff.mpr ⟨d, hd, by simpa using hruns⟩
  exact hconserves.lt_size_of_exits (by omega)

end Conserves

end Executor

section Runs

variable {trace : List (Passage K V Q R)} {p : Passage K V Q R} {task : Nat}

theorem begun_snoc : begun (trace ++ [p]) =
    begun trace ++ (p.dispatch?.bind Dispatch.begins?).toList := by
  simp [begun, List.filterMap_cons]
  cases p.dispatch?.bind Dispatch.begins? <;> rfl

theorem endings_snoc : endings (trace ++ [p]) = endings trace ++ p.ending?.toList := by
  simp [endings, List.filterMap_cons]
  cases p.ending? <;> rfl

theorem discarded_snoc : discarded (trace ++ [p]) = discarded trace ++ p.dropped := by
  simp [discarded]

variable [DecidableEq K] [DecidableEq V] {settings : Settings K V Q R} {start m : Machine K V Q R}

/-- A task that has left its queue is run by a thread, over, in the hands of somebody, or dropped,
and not two of these. -/
theorem Run.places (hstart : start.Fresh settings) (run : Run settings start trace m)
    (task : Nat) :
    m.rosters.flatten.countP (fun d => d.runs? = some task) +
        ((endings trace).map Prod.fst).count task +
        (m.world.executor.handedBack.map Prod.snd).count task + (discarded trace).count task =
      exits (ledgerOf trace) task := by
  induction run with
  | rest =>
    obtain ⟨partitions, pool, hexecutor⟩ := hstart.executor
    rw [Executor.of] at hexecutor
    split at hexecutor
    · have hback : start.world.executor.handedBack = [] := by rw [← Except.ok.inj hexecutor]
      simp [Machine.rosters, hstart.threads, hback, endings, discarded, ledgerOf, exits]
    · cases hexecutor
  | @move trace p run hp ih =>
    have hm := run.reachable hstart
    have hconserves := run.conserves hstart
    have honce := hconserves.exits_le_one task
    have hle : p.before.rosters.flatten.countP (fun d => d.runs? = some task) ≤
        exits (ledgerOf trace) task := by omega
    have hplaces := hp.places hm (fun d => hconserves.lt_size_of_runs hle) (by omega)
    rw [endings_snoc, discarded_snoc, ledgerOf_snoc, Executor.exits_append, Executor.exits_entries,
      List.map_append, List.count_append, List.count_append, Passage.dropped, List.count_append,
      ← Option.toList_map]
    have hnew : exits p.events task = ((movements .started p.events).map Prod.snd).count task +
      ((movements .handedBack p.events).map Prod.snd).count task := rfl
    have hforsaken : p.forsaken = p.before.world.executor.forsaken p.after.world.executor
      p.events := rfl
    rw [hforsaken]
    omega

/-- What was begun and is not over is being run. -/
theorem Run.count_begun (hstart : start.Fresh settings) (run : Run settings start trace m)
    (task : Nat) :
    (begun trace).count task =
      m.rosters.flatten.countP (fun d => d.delivers? = some task) +
        ((endings trace).map Prod.fst).count task := by
  induction run with
  | rest => simp [Machine.rosters, hstart.threads, begun, endings]
  | @move trace p run hp ih =>
    have hplaces := run.places hstart task
    have hle : p.before.rosters.flatten.countP (fun d => d.runs? = some task) ≤
        exits (ledgerOf trace) task := by omega
    have hdelivers := hp.countP_delivers (run.reachable hstart) fun d =>
      (run.conserves hstart).lt_size_of_runs hle
    rw [begun_snoc, endings_snoc, List.map_append, List.count_append, List.count_append,
      ← Option.toList_map]
    omega

/-- A task whose code is begun has left its queue, and so has one that is dropped, and no task does
both. -/
theorem Run.begun_add_discarded_le (hstart : start.Fresh settings)
    (run : Run settings start trace m) (task : Nat) :
    (begun trace).count task + (discarded trace).count task ≤ exits (ledgerOf trace) task := by
  have hplaces := run.places hstart task
  have hbegun := run.count_begun hstart task
  have hmono : m.rosters.flatten.countP (fun d => d.delivers? = some task) ≤
      m.rosters.flatten.countP fun d => d.runs? = some task := by
    refine List.countP_mono_left fun d _ => ?_
    cases d <;> simp [Duty.delivers?, Duty.runs?]
  omega

/-- A task ends once at most, and only after it has been begun. -/
theorem Run.endings_le_begun (hstart : start.Fresh settings) (run : Run settings start trace m)
    (task : Nat) : ((endings trace).map Prod.fst).count task ≤ (begun trace).count task := by
  have hbegun := run.count_begun hstart task
  omega

end Runs

end SharedCache
