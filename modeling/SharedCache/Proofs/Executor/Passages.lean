import SharedCache.Proofs.Executor.Termination

/-!
# Passages and the executor

What a passage of a run is to the executor, and what holds of the executor and the duties of the
threads at all times, even where the pool has lost a job or the owner has let go of the executor
while it is in use.  A partition is then carried by one hand at most: a lost job leaves it scheduled
with nobody to carry it, but nothing ever gives it a second carrier.
-/

namespace SharedCache

variable {K V Q R : Type}

namespace Passage

/-- The task whose code has ended by the time of the passage, which delivers its outcome, and how
it has ended. -/
def ending? (p : Passage K V Q R) : Option (Nat × Signal V) := p.thread?.bind Thread.ending?

/-- The duties that a passage discharges: that of an executor's step, that of delivering the outcome
of a task, or none, and then the executor stays as it is. -/
inductive Discharges (p : Passage K V Q R) : List (Duty K V Q R) → Prop where
  | nothing :
      p.dispatch? = none → p.ending? = none →
      p.after.world.executor = p.before.world.executor → Discharges p []
  | act {stage : Dispatch K V Q R} :
      p.dispatch? = some stage → p.ending? = none → Discharges p [.act stage]
  | deliver {task : Nat} {signal : Signal V} :
      p.dispatch? = none → p.ending? = some (task, signal) →
      p.after.world.executor = (p.before.world.executor.delivered task signal).state →
      Discharges p [.deliver task]

/-- What a passage is to the executor: nothing, or the work of one thread. -/
inductive Labour (p : Passage K V Q R) : Prop where
  | outside :
      p.mover = none → p.events = [] → p.after.world.executor = p.before.world.executor →
      (p.after.rosters = p.before.rosters ∨ p.after.rosters = p.before.rosters ++ [[]]) → Labour p
  | work {i : Nat} {done given base : List (Duty K V Q R)} :
      p.mover = some i → p.before.rosters[i]? = some (done ++ base) →
      p.after.rosters = p.before.rosters.set i (given ++ base) → p.Discharges done →
      p.before.world.executor.Does p.after.world.executor p.events done given → Labour p

theorem dispatch?_of_mover {p : Passage K V Q R} (hmover : p.mover = none) :
    p.dispatch? = none := by
  rw [dispatch?, thread?, hmover]
  rfl

theorem ending?_of_mover {p : Passage K V Q R} (hmover : p.mover = none) : p.ending? = none := by
  rw [ending?, thread?, hmover]
  rfl

variable [DecidableEq K] [DecidableEq V] {settings : Settings K V Q R} {p : Passage K V Q R}

omit [DecidableEq K] [DecidableEq V] in
/-- A passage discharges what the step of its thread does. -/
theorem discharges_of_step {i : Nat} {t : Thread K V Q R} {s : Step K V Q R}
    {done : List (Duty K V Q R)} (hmover : p.mover = some i) (ht : p.before.threads[i]? = some t)
    (hworld : p.after.world = s.world) (hstep : t.Discharges p.before.world s done) :
    p.Discharges done := by
  have hthread := thread?_eq hmover ht
  have hending : p.ending? = t.ending? := by rw [ending?, hthread, Option.bind_some]
  have hdispatch : (∀ stage, t.activity ≠ .dispatch stage) → p.dispatch? = none := by
    intro hnone
    rw [dispatch?, hthread]
    split
    · rename_i heq
      exact absurd (congrArg Thread.activity (Option.some.inj heq)) (hnone _)
    · rfl
  cases hstep with
  | nothing hactivity hnone hexecutor =>
    exact .nothing (hdispatch hactivity) (hending.trans hnone) (by rw [hworld, hexecutor])
  | act hactivity =>
    refine .act (dispatch?_of_activity hmover ht hactivity) (hending.trans ?_)
    rw [Thread.ending?, hactivity]
  | deliver hended hexecutor =>
    refine .deliver (hdispatch fun stage hactivity => ?_) (hending.trans hended)
      (by rw [hworld, hexecutor])
    rw [Thread.ending?, hactivity] at hended
    cases hended

/-- A thread that moves in a step of the executor takes the turn of that step. -/
theorem Lawful.own_dispatch (hp : p.Lawful settings) {i : Nat} {t : Thread K V Q R}
    (hmover : p.mover = some i) (ht : p.before.threads[i]? = some t) {stage : Dispatch K V Q R}
    (hactivity : t.activity = .dispatch stage) :
    ∃ interrupted timedOut turn,
      stage.turn p.before.world.executor interrupted timedOut = some turn ∧
        p.after.world.executor = turn.state ∧ p.events = turn.events ∧
        p.after.threads[i]? = some ⟨turn.next, turn.frames ++ t.stack, t.binding⟩ := by
  obtain ⟨chance, s, hstep, hworld, hthread, hevents⟩ := hp.own_step hmover ht
  rw [Thread.step, hactivity] at hstep
  obtain ⟨turn, hturn, rfl⟩ := Option.map_eq_some_iff.mp hstep
  exact ⟨_, _, turn, hturn, by rw [hworld]; rfl, hevents, hthread⟩

omit [DecidableEq K] [DecidableEq V] in
/-- A passage is a step of the executor where it discharges the duty of that step. -/
theorem Discharges.dispatch?_eq_some_iff {done : List (Duty K V Q R)} (hdone : p.Discharges done)
    (stage : Dispatch K V Q R) : p.dispatch? = some stage ↔ done = [.act stage] := by
  cases hdone with
  | nothing hdispatch => simp [hdispatch]
  | act hdispatch => simp [hdispatch]
  | deliver hdispatch => simp [hdispatch]

/-- Every passage is one or the other. -/
theorem Lawful.labours (hp : p.Lawful settings) (hm : p.before.Reachable settings) : p.Labour := by
  rw [Passage.Lawful] at hp
  split at hp
  · rename_i i hmover
    obtain ⟨chance, hstep⟩ := hp
    obtain ⟨t, s, ht, hs, hafter, hevents⟩ := Machine.step_eq_some hstep
    obtain ⟨done, given, base, hserves⟩ := Thread.serves hs (hm.isCovered i t ht)
    have hworld : p.after.world = s.world := by rw [hafter]
    have hbefore : p.before.rosters[i]? = some (done ++ base) := by
      simp [Machine.rosters, ht, hserves.before]
    have hrosters : p.after.rosters = p.before.rosters.set i (given ++ base) := by
      simp [Machine.rosters, hafter, List.map_set, hserves.after]
    refine .work hmover hbefore hrosters
      (discharges_of_step hmover ht hworld hserves.discharges) ?_
    rw [hworld, hevents]
    exact hserves.does
  · exact .outside ‹_› hp.2 hp.1.executor_eq hp.1.rosters_eq

end Passage

namespace Executor

variable {e e' : Executor K V Q R} {events : List (Event K V)}
  {done given base : List (Duty K V Q R)} {rosters : List (List (Duty K V Q R))}

/-! ## What is always the case -/

/-- What the partitions, the jobs, the phase and the duties of the threads have to do with each
other, whatever has become of some jobs. -/
structure Guarded (e : Executor K V Q R) (rosters : List (List (Duty K V Q R))) : Prop where
  fills : ∀ d ∈ rosters.flatten, ∀ p, d.fills? = some p → p < e.partitions.size
  /-- Nothing carries a partition that is not scheduled, and no two carry the same one. -/
  carried : ∀ p, e.jobs.count p + rosters.flatten.countP (fun d => d.carries? = some p) ≤
    (e.partition p).scheduled.toNat
  holders : e.holders = rosters.flatten.countP Duty.holds
  held : 0 < e.holders → e.phase = .running
  shutsFirst : e.phase = .running → ∀ duties ∈ rosters, ShutsFirst False duties
  owned : e.phase = .running → e.owned = true
  /-- Whoever runs a task of a partition will come to the end of it. -/
  manned : ∀ p, (e.partition p).running ≠ none → .act (.finish p) ∈ rosters.flatten

/-- The carriers of a partition do not become more than its mark allows. -/
theorem Does.carried (hdoes : e.Does e' events done given)
    (hfills : ∀ d ∈ done, ∀ p, d.fills? = some p → p < e.partitions.size)
    (hcarries : ∀ d ∈ done, ∀ p, d.carries? = some p → (e.partition p).scheduled = true) (q : Nat) :
    e'.jobs.count q + given.countP (fun d => d.carries? = some q) +
        (e.partition q).scheduled.toNat ≤
      e.jobs.count q + done.countP (fun d => d.carries? = some q) +
        (e'.partition q).scheduled.toNat := by
  by_cases hlost : ∃ position, done = [.act (.loseJob position)] ∧ position < e.jobs.length
  · obtain ⟨position, rfl, hlt⟩ := hlost
    cases hdoes with
    | passes hkeeps _ hdone hgiven =>
      have hnone := (countP_carries_eq_zero hgiven q).trans (countP_carries_eq_zero hdone q).symm
      exact Nat.le_of_eq (handsOn_of_settles hkeeps.settles rfl (fun _ => rfl) hnone)
    | loses _ =>
      have hcount : (e.jobs.eraseIdx position).count q ≤ e.jobs.count q :=
        (List.eraseIdx_sublist _ _).count_le q
      rw [(settles_settleForsaken _).jobs, (settles_settleForsaken _).scheduled]
      exact Nat.add_le_add_right hcount _
  · refine Nat.le_of_eq (hdoes.handsOn (fun position hdone => ?_) hfills hcarries q)
    exact Nat.le_of_not_lt fun hlt => hlost ⟨position, hdone, hlt⟩

namespace Guarded

variable {i p : Nat} {d : Duty K V Q R}

/-- What a duty carries is scheduled. -/
theorem scheduled (hguarded : e.Guarded rosters) (hd : d ∈ rosters.flatten)
    (hp : d.carries? = some p) : (e.partition p).scheduled = true := by
  have hcount := hguarded.carried p
  have hpos : 0 < rosters.flatten.countP fun d => d.carries? = some p :=
    List.countP_pos_iff.mpr ⟨d, hd, by simpa using hp⟩
  cases hscheduled : (e.partition p).scheduled with
  | true => rfl
  | false =>
    rw [hscheduled, Bool.toNat_false] at hcount
    omega

theorem size (hguarded : e.Guarded rosters) (hd : d ∈ rosters.flatten) (hp : d.carries? = some p) :
    p < e.partitions.size :=
  lt_of_scheduled (hguarded.scheduled hd hp)

/-- What closes an executor comes after its shutdown. -/
theorem phase_ne_running (hguarded : e.Guarded rosters)
    (hroster : rosters[i]? = some (d :: base)) (hd : d.closes = true) : e.phase ≠ .running :=
  fun hphase => (hguarded.shutsFirst hphase _ (List.mem_of_getElem? hroster)).1 hd

theorem phase_eq_running (hguarded : e.Guarded rosters) (hd : d ∈ rosters.flatten)
    (hholds : d.holds = true) : e.phase = .running := by
  refine hguarded.held ?_
  rw [hguarded.holders]
  exact List.countP_pos_iff.mpr ⟨d, hd, hholds⟩

/-- A job that comes to a queue finds no task of the partition running. -/
theorem running_of_start (hguarded : e.Guarded rosters)
    (hroster : rosters[i]? = some (.act (.start p) :: base)) : (e.partition p).running = none := by
  by_contra hrunning
  have hhead : rosters[i]? = some ([.act (.start p)] ++ base) := hroster
  obtain ⟨others, hperm, -⟩ := exists_perm_flatten_set hhead
  have hother : .act (.finish p) ∈ others := by
    simpa using hperm.mem_iff.mp (hguarded.manned p hrunning)
  have hpos : 0 < others.countP fun d => d.carries? = some p :=
    List.countP_pos_iff.mpr ⟨_, hother, decide_eq_true rfl⟩
  have hcarried := hguarded.carried p
  have hmost := Bool.toNat_le (e.partition p).scheduled
  rw [hperm.countP_eq, List.singleton_append, countP_carries_cons rfl, if_pos rfl] at hcarried
  omega

theorem step (hguarded : e.Guarded rosters) (hroster : rosters[i]? = some (done ++ base))
    (hdoes : e.Does e' events done given) : e'.Guarded (rosters.set i (given ++ base)) := by
  obtain ⟨others, hbefore, hafter⟩ := exists_perm_flatten_set hroster
  have hmem := List.mem_of_getElem? hroster
  have hdone : ∀ d ∈ done, d ∈ rosters.flatten := fun d hd =>
    List.mem_flatten_of_mem hmem (List.mem_append_left _ hd)
  have hfills : ∀ d ∈ done, ∀ p, d.fills? = some p → p < e.partitions.size := fun d hd =>
    hguarded.fills d (hdone d hd)
  have hscheduled : ∀ d ∈ done, ∀ p, d.carries? = some p → (e.partition p).scheduled = true :=
    fun d hd p => hguarded.scheduled (hdone d hd)
  constructor
  case fills =>
    intro d hd p hp
    rw [hdoes.size_eq]
    rcases List.mem_append.mp ((hafter given).mem_iff.mp hd) with hgiven | hother
    · exact hdoes.fills hfills d hgiven p hp
    · exact hguarded.fills d (hbefore.mem_iff.mpr (List.mem_append_right _ hother)) p hp
  case carried =>
    intro p
    have hold := hguarded.carried p
    have hchange := hdoes.carried hfills hscheduled p
    rw [hbefore.countP_eq, List.countP_append] at hold
    rw [(hafter given).countP_eq, List.countP_append]
    omega
  case holders =>
    have hold := hguarded.holders
    rw [hbefore.countP_eq, List.countP_append] at hold
    rw [(hafter given).countP_eq, List.countP_append]
    have hchange := hdoes.holders (by omega)
    omega
  case held => exact hdoes.held hguarded.held
  case shutsFirst =>
    intro hphase
    have hold := hguarded.shutsFirst (hdoes.phase_eq hphase)
    exact Attended.forall_mem_set hold (hdoes.shutsFirst hphase (hold _ hmem))
  case owned =>
    exact fun hphase => hdoes.owned hphase hguarded.owned fun d hd =>
      hguarded.phase_ne_running (hd ▸ hroster)
  case manned =>
    intro p hp
    refine (hafter given).mem_iff.mpr (hdoes.manned
      (fun d hd p hp => lt_of_scheduled (hscheduled d hd p hp)) hfills (fun q hq => ?_) p hp)
    exact hbefore.mem_iff.mp (hguarded.manned q hq)

/-- Another thread has no duties. -/
theorem spawned (hguarded : e.Guarded rosters) : e.Guarded (rosters ++ [[]]) := by
  obtain ⟨hfills, hcarried, hholders, hheld, hshut, howned, hmanned⟩ := hguarded
  have hflatten : (rosters ++ [[]]).flatten = rosters.flatten := by simp
  refine ⟨hflatten ▸ hfills, hflatten ▸ hcarried, hflatten ▸ hholders, hheld,
    fun hphase duties hduties => ?_, howned, hflatten ▸ hmanned⟩
  rcases List.mem_append.mp hduties with hold | hnew
  · exact hshut hphase duties hold
  · exact List.mem_singleton.mp hnew ▸ trivial

end Guarded

theorem guarded_of {partitions : Nat} {pool : PoolKind}
    (he : Executor.of partitions pool = .ok e) : e.Guarded [] := by
  have hidle := partition_of he
  have hattended := attended_of he
  refine ⟨by simp, fun p => Nat.le_of_eq (hattended.books.carried p), hattended.books.holders,
    hattended.books.held, by simp, hattended.owned, fun p hp => ?_⟩
  rw [hidle] at hp
  exact absurd rfl hp

end Executor

/-! ## Runs -/

section Runs

variable [DecidableEq K] [DecidableEq V] {settings : Settings K V Q R} {m : Machine K V Q R}

theorem Machine.Reachable.guarded (hm : m.Reachable settings) :
    m.world.executor.Guarded m.rosters := by
  obtain ⟨start, trace, hstart, run⟩ := hm
  induction run with
  | rest =>
    obtain ⟨partitions, pool, hexecutor⟩ := hstart.executor
    simpa [Machine.rosters, hstart.threads] using Executor.guarded_of hexecutor
  | move run hp ih =>
    cases hp.serves (run.reachable hstart) with
    | outside _ hexecutor hrosters =>
      rw [hexecutor]
      rcases hrosters with hsame | hspawned
      · rwa [hsame]
      · rw [hspawned]
        exact ih.spawned
    | step hroster hrosters _ hdoes =>
      rw [hrosters]
      exact ih.step hroster hdoes

end Runs

end SharedCache
