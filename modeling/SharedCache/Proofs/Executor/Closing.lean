import SharedCache.Proofs.Executor.HandOvers

/-!
# Letting go

An executor that its owner has let go of lives on in its jobs, and when the last of them is over
the tasks that still wait are cancelled.  There are none.  Their partitions would be carried, and by
then only jobs carry partitions: no submission is accepted any more, and those that were accepted
before have handed their partitions over, since a call of `submit` borrows the executor from its
owner.
-/

namespace SharedCache

variable {K V Q R : Type}

/-! ## Jobs -/

/-- Whether a duty belongs to a job: that of running a partition, and that of handing one over when
there is no owner. -/
def Duty.needsJob (owned : Bool) (d : Duty K V Q R) : Bool :=
  d.executes?.isSome || !owned && d.handsOver?.isSome

/-- Whether all duties of a thread that belong to a job are within one. -/
def withinJobs (owned : Bool) : List (Duty K V Q R) → Bool
  | [] => true
  | d :: rest => (!d.needsJob owned || rest.any Duty.retires) && withinJobs owned rest

section WithinJobs

variable {owned : Bool} {d : Duty K V Q R} {duties given base : List (Duty K V Q R)}

theorem withinJobs_cons_iff : withinJobs owned (d :: duties) = true ↔
    (d.needsJob owned = true → duties.any Duty.retires = true) ∧
      withinJobs owned duties = true := by
  rw [withinJobs, Bool.and_eq_true]
  cases d.needsJob owned <;> simp

theorem withinJobs_of_append (h : withinJobs owned (given ++ base) = true) :
    withinJobs owned base = true := by
  induction given with
  | nil => exact h
  | cons d given ih => exact ih (withinJobs_cons_iff.mp h).2

theorem withinJobs_append (hgiven : ∀ d ∈ given, d.needsJob owned = false)
    (hbase : withinJobs owned base = true) : withinJobs owned (given ++ base) = true := by
  induction given with
  | nil => exact hbase
  | cons d given ih =>
    have hd := hgiven d List.mem_cons_self
    exact withinJobs_cons_iff.mpr
      ⟨by simp [hd], ih fun other hother => hgiven other (List.mem_cons_of_mem d hother)⟩

/-- Where no job ends, nothing belongs to one. -/
theorem needsJob_eq_false (h : withinJobs owned duties = true)
    (hretires : ∀ d ∈ duties, d.retires = false) : ∀ d ∈ duties, d.needsJob owned = false := by
  induction duties with
  | nil => simp
  | cons d duties ih =>
    obtain ⟨hneeds, hrest⟩ := withinJobs_cons_iff.mp h
    have hothers : ∀ other ∈ duties, other.retires = false := fun other hother =>
      hretires other (List.mem_cons_of_mem d hother)
    intro other hother
    rcases List.mem_cons.mp hother with rfl | hmem
    · by_contra hjob
      obtain ⟨last, hlast, hends⟩ := List.any_eq_true.mp (hneeds (by simpa using hjob))
      exact absurd hends (by simp [hothers last hlast])
    · exact ih hrest hothers other hmem

theorem Duty.needsJob_false (d : Duty K V Q R) : d.needsJob false = d.carries?.isSome := by
  rw [needsJob, carries?, Option.isSome_or, Bool.or_comm]
  rfl

theorem Duty.IsBare.needsJob (hd : d.IsBare) (owned : Bool) : d.needsJob owned = false := by
  have hcarries := hd.carries
  rw [carries?, Option.or_eq_none_iff] at hcarries
  simp [Duty.needsJob, hcarries]

end WithinJobs

namespace Executor

variable {e e' : Executor K V Q R} {events : List (Event K V)}
  {done given base : List (Duty K V Q R)} {rosters : List (List (Duty K V Q R))}

/-! ## Steps -/

theorem Does.owned_eq (hdoes : e.Does e' events done given) (hdone : done ≠ [.act .release]) :
    e'.owned = e.owned := by
  cases hdoes with
  | passes hkeeps => exact hkeeps.owned
  | delivers hkeeps => exact hkeeps.owned
  | loses => exact (settles_settleForsaken _).owned
  | retires => exact (settles_settleForsaken _).owned
  | releases => exact absurd rfl hdone
  | _ => rfl

/-- Nothing makes an executor run again. -/
theorem Does.phase_eq (hdoes : e.Does e' events done given) (hphase : e'.phase = .running) :
    e.phase = .running := by
  cases hdoes with
  | passes hkeeps => exact hkeeps.phase.symm.trans hphase
  | delivers hkeeps => exact hkeeps.phase.symm.trans hphase
  | loses | retires | releases => rwa [(settles_settleForsaken _).phase] at hphase
  | shuts | terminates => cases hphase
  | _ => exact hphase

theorem Does.carriers (hdoes : e.Does e' events done given)
    (hkept : ∀ position, done = [.act (.loseJob position)] → e.jobs.length ≤ position)
    (hcarriers : done.countP Duty.retires ≤ e.carriers) :
    e'.carriers + e.jobs.length + done.countP Duty.retires =
      e.carriers + e'.jobs.length + given.countP Duty.retires := by
  have hnone : ∀ {duties : List (Duty K V Q R)}, (∀ d ∈ duties, d.IsBare) →
      duties.countP Duty.retires = 0 := countP_eq_zero_of_bare fun _ hd => hd.retires
  cases hdoes with
  | passes hkeeps _ hdone hgiven =>
    rw [hnone hdone, hnone hgiven, hkeeps.carriers, hkeeps.jobs]
  | idles hgiven => rw [hnone (bare_of_errands hgiven)]; rfl
  | delivers hkeeps => rw [hkeeps.carriers, hkeeps.jobs]; rfl
  | loses hlt => exact absurd (hkept _ rfl) (by omega)
  | retires =>
    rw [(settles_settleForsaken _).carriers, (settles_settleForsaken _).jobs]
    change e.carriers - 1 + e.jobs.length + 1 = e.carriers + e.jobs.length
    have hpos : 1 ≤ e.carriers := hcarriers
    omega
  | releases => rw [(settles_settleForsaken _).carriers, (settles_settleForsaken _).jobs]; rfl
  | @takes p position hjob =>
    have hlt := (List.getElem?_eq_some_iff.mp hjob).1
    change e.carriers + e.jobs.length + 0 = e.carriers + (e.jobs.eraseIdx position).length + 1
    rw [List.length_eraseIdx_of_lt hlt]
    omega
  | hands =>
    change e.carriers + 1 + e.jobs.length + 0 = e.carriers + e.jobs.length + 1
    omega
  | stores =>
    change e.carriers + 1 + e.jobs.length + 0 = e.carriers + (e.jobs ++ _).length + 0
    rw [List.length_append, List.length_singleton]
    omega
  | _ => rfl

/-- Duties that belong to a job come within one, for submissions need an owner. -/
theorem Does.withinJobs {owned : Bool} (hdoes : e.Does e' events done given)
    (howned : e.phase = .running → owned = true)
    (hheld : ∀ d ∈ done, d.holds = true → e.phase = .running)
    (hdone : SharedCache.withinJobs owned (done ++ base) = true) :
    SharedCache.withinJobs owned (given ++ base) = true := by
  have hbase := withinJobs_of_append hdone
  have hbare : (∀ g ∈ given, g.IsBare) → SharedCache.withinJobs owned (given ++ base) = true :=
    fun hgiven => withinJobs_append (fun g hg => (hgiven g hg).needsJob owned) hbase
  have hplain : (∀ g ∈ given, g.needsJob owned = false) →
      SharedCache.withinJobs owned (given ++ base) = true := fun hgiven =>
    withinJobs_append hgiven hbase
  cases hdoes with
  | passes _ _ _ hgiven => exact hbare hgiven
  | idles hgiven => exact hbare (bare_of_errands hgiven)
  | submits => exact hplain (List.forall_mem_singleton.mpr (Bool.and_false _))
  | runs | delivers | takesBack => exact hplain (List.forall_mem_singleton.mpr (Bool.and_false _))
  | accepts => exact hplain (List.forall_mem_singleton.mpr (Bool.and_false _))
  | lacks | finishes | shuts | terminates | drains =>
    exact hplain (List.forall_mem_singleton.mpr (Bool.and_false _))
  | enqueues | awakens | activates | proceeds =>
    obtain rfl := howned (hheld _ (List.mem_singleton_self _) rfl)
    exact hplain (List.forall_mem_singleton.mpr rfl)
  | hands | takes =>
    exact withinJobs_cons_iff.mpr ⟨fun _ => rfl, withinJobs_cons_iff.mpr
      ⟨fun hneeds => absurd hneeds (by simp [Duty.needsJob, Duty.executes?, Duty.handsOver?]),
        hbase⟩⟩
  | starts =>
    have hjob := (withinJobs_cons_iff.mp hdone).1 rfl
    exact withinJobs_cons_iff.mpr
      ⟨fun hneeds => absurd hneeds (by simp [Duty.needsJob, Duty.executes?, Duty.handsOver?]),
        withinJobs_cons_iff.mpr ⟨fun _ => hjob, hbase⟩⟩
  | resumes =>
    exact withinJobs_cons_iff.mpr ⟨fun _ => (withinJobs_cons_iff.mp hdone).1 rfl, hbase⟩
  | _ => exact hbase

theorem Does.shutsFirst (hdoes : e.Does e' events done given) (hphase : e'.phase = .running)
    (hdone : ShutsFirst False (done ++ base)) : ShutsFirst False (given ++ base) := by
  have hrunning := hdoes.phase_eq hphase
  have hafter : ∀ {d : Duty K V Q R}, d ≠ .act .shutdown → ShutsFirst False (d :: base) →
      ShutsFirst False base := fun hd h => h.2.mono hd
  cases hdoes with
  | submits => exact ⟨by simp [Duty.closes], hdone.mono False.elim⟩
  | passes _ _ _ _ hshutdown hgiven =>
    exact hgiven.append (hdone.of_append fun hmem => hshutdown hmem hrunning)
  | idles hgiven =>
    refine .append (shutsFirst_of_not_closes fun g hg => Duty.closes_of_isErrand (hgiven g hg)) ?_
    exact hafter (by simp) hdone
  | shuts | terminates => cases hphase
  | drains => exact absurd rfl hdone.1
  | _ => exact .append (shutsFirst_of_not_closes (by simp [Duty.closes])) (hafter (by simp) hdone)

/-- An executor that is running keeps its owner, who lets go only after the shutdown. -/
theorem Does.owned (hdoes : e.Does e' events done given) (hphase : e'.phase = .running)
    (howned : e.phase = .running → e.owned = true)
    (hcloses : ∀ d, done = [d] → d.closes = true → e.phase ≠ .running) : e'.owned = true := by
  have hrunning := hdoes.phase_eq hphase
  have hdone : done ≠ [.act .release] := fun hdone => hcloses _ hdone rfl hrunning
  rw [hdoes.owned_eq hdone]
  exact howned hrunning

/-! ## Attendance -/

/-- Whoever carries a partition will come to its queue before the executor is gone. -/
structure Attended (e : Executor K V Q R) (rosters : List (List (Duty K V Q R))) : Prop where
  books : e.Books rosters.flatten
  carriers : e.carriers = e.jobs.length + rosters.flatten.countP Duty.retires
  withinJobs : ∀ duties ∈ rosters, SharedCache.withinJobs e.owned duties = true
  shutsFirst : e.phase = .running → ∀ duties ∈ rosters, ShutsFirst False duties
  owned : e.phase = .running → e.owned = true

/-- Nobody waits in an executor without carriers. -/
theorem Books.queue_eq_nil {duties : List (Duty K V Q R)} (hbooks : e.Books duties)
    (hjobs : e.jobs = []) (hduties : ∀ d ∈ duties, d.carries? = none) (p : Nat) :
    (e.partition p).queue = [] := by
  have hcount := hbooks.carried p
  rw [hjobs, List.countP_eq_zero.mpr fun d hd => by simp [hduties d hd]] at hcount
  by_contra hqueue
  rw [hbooks.queued p hqueue] at hcount
  cases hcount

namespace Attended

variable {i : Nat}

/-- What closes an executor comes after its shutdown. -/
theorem phase_ne_running {d : Duty K V Q R} (hattended : e.Attended rosters)
    (hroster : rosters[i]? = some (d :: base)) (hd : d.closes = true) : e.phase ≠ .running :=
  fun hphase => (hattended.shutsFirst hphase _ (List.mem_of_getElem? hroster)).1 hd

theorem phase_eq_running {d : Duty K V Q R} (hattended : e.Attended rosters)
    (hd : d ∈ rosters.flatten) (hholds : d.holds = true) : e.phase = .running := by
  refine hattended.books.held ?_
  rw [hattended.books.holders]
  exact List.countP_pos_iff.mpr ⟨d, hd, hholds⟩

/-- Where no job is left, and whoever carries a partition belongs to a job, nothing is carried. -/
theorem carries?_eq_none (hretires : rosters.flatten.countP Duty.retires = 0)
    (hjobs : ∀ duties ∈ rosters, SharedCache.withinJobs false duties = true) :
    ∀ d ∈ rosters.flatten, d.carries? = none := by
  intro d hd
  obtain ⟨duties, hduties, hmem⟩ := List.mem_flatten.mp hd
  have hnone := needsJob_eq_false (hjobs duties hduties) (fun other hother => by
    simpa using List.countP_eq_zero.mp hretires other (List.mem_flatten_of_mem hduties hother)) d
    hmem
  rwa [Duty.needsJob_false, Option.isSome_eq_false_iff, Option.isNone_iff_eq_none] at hnone

theorem forall_mem_set {P : List (Duty K V Q R) → Prop} {duties : List (Duty K V Q R)}
    (hrosters : ∀ duties ∈ rosters, P duties) (hduties : P duties) :
    ∀ other ∈ rosters.set i duties, P other := fun other hother =>
  (List.mem_or_eq_of_mem_set hother).elim (hrosters other) fun h => h ▸ hduties

/-- The end of the last job cancels nothing. -/
theorem queue_of_retires (hattended : e.Attended rosters)
    (hroster : rosters[i]? = some (.act .retire :: base)) (p : Nat) :
    ({ e with carriers := e.carriers - 1 }.settleForsaken.partition p).queue =
      (e.partition p).queue := by
  rcases (settles_settleForsaken { e with carriers := e.carriers - 1 }).queue p with
    hsame | ⟨howned, hcarriers, hnil⟩
  · exact hsame
  have hhead : rosters[i]? = some ([.act .retire] ++ base) := hroster
  obtain ⟨others, hbefore, hafter⟩ := exists_perm_flatten_set hhead
  have hsum : e.carriers = e.jobs.length + (others.countP Duty.retires + 1) := by
    rw [hattended.carriers, hbefore.countP_eq, List.singleton_append,
      List.countP_cons_of_pos rfl]
  have hlast : e.carriers - 1 = 0 := hcarriers
  have hothers : ∀ d ∈ others, d.carries? = none := by
    have hwithin : ∀ duties ∈ rosters.set i base, SharedCache.withinJobs false duties = true := by
      have hold : ∀ duties ∈ rosters, SharedCache.withinJobs false duties = true := by
        simpa [show e.owned = false from howned] using hattended.withinJobs
      exact forall_mem_set hold (withinJobs_cons_iff.mp (hold _ (List.mem_of_getElem? hroster))).2
    have hnone : (rosters.set i base).flatten.countP Duty.retires = 0 := by
      have hperm := (hafter []).countP_eq Duty.retires
      simp only [List.nil_append] at hperm
      omega
    intro d hd
    exact carries?_eq_none hnone hwithin d ((hafter []).mem_iff.mpr hd)
  rw [hnil, (hattended.books.perm hbefore).queue_eq_nil (List.eq_nil_of_length_eq_zero (by omega))
    (List.forall_mem_cons.mpr ⟨rfl, hothers⟩)]

/-- The owner cancels nothing by letting go. -/
theorem queue_of_releases (hattended : e.Attended rosters)
    (hlent : ∀ duties ∈ rosters, SharedCache.withinJobs false duties = true) (p : Nat) :
    ({ e with owned := false }.settleForsaken.partition p).queue = (e.partition p).queue := by
  rcases (settles_settleForsaken { e with owned := false }).queue p with
    hsame | ⟨-, hcarriers, hnil⟩
  · exact hsame
  have hsum := hattended.carriers
  have hlast : e.carriers = 0 := hcarriers
  rw [hnil, hattended.books.queue_eq_nil (List.eq_nil_of_length_eq_zero (by omega))
    (carries?_eq_none (by omega) hlent)]

theorem step (hattended : e.Attended rosters) (hroster : rosters[i]? = some (done ++ base))
    (hdoes : e.Does e' events done given)
    (hkept : ∀ position, done = [.act (.loseJob position)] → e.jobs.length ≤ position)
    (hlent : done = [.act .release] →
      ∀ duties ∈ rosters, SharedCache.withinJobs false duties = true) :
    e'.Attended (rosters.set i (given ++ base)) := by
  obtain ⟨others, hbefore, hafter⟩ := exists_perm_flatten_set hroster
  have hmem := List.mem_of_getElem? hroster
  have hbooks := hattended.books.perm hbefore
  constructor
  case books => exact (hbooks.step hdoes hkept).perm (hafter given).symm
  case carriers =>
    have hsum := hattended.carriers
    rw [hbefore.countP_eq, List.countP_append] at hsum
    rw [(hafter given).countP_eq, List.countP_append]
    have hchange := hdoes.carriers hkept (by omega)
    omega
  case withinJobs =>
    by_cases hdone : done = [.act .release]
    · subst hdone
      have hbase := withinJobs_of_append (hlent rfl _ hmem)
      cases hdoes with
      | passes hkeeps _ _ hgiven =>
        rw [hkeeps.owned]
        exact forall_mem_set hattended.withinJobs (withinJobs_append
          (fun g hg => (hgiven g hg).needsJob _)
          (withinJobs_of_append (hattended.withinJobs _ hmem)))
      | releases =>
        rw [(settles_settleForsaken _).owned]
        exact forall_mem_set (hlent rfl) hbase
    · rw [hdoes.owned_eq hdone]
      refine forall_mem_set hattended.withinJobs (hdoes.withinJobs hattended.owned (fun d hd => ?_)
        (hattended.withinJobs _ hmem))
      exact hattended.phase_eq_running (List.mem_flatten_of_mem hmem (List.mem_append_left _ hd))
  case shutsFirst =>
    intro hphase
    have hold := hattended.shutsFirst (hdoes.phase_eq hphase)
    exact forall_mem_set hold (hdoes.shutsFirst hphase (hold _ hmem))
  case owned =>
    exact fun hphase => hdoes.owned hphase hattended.owned fun d hd =>
      hattended.phase_ne_running (hd ▸ hroster)

/-- Another thread has no duties. -/
theorem spawned (hattended : e.Attended rosters) : e.Attended (rosters ++ [[]]) := by
  obtain ⟨hbooks, hcarriers, hwithin, hshut, howned⟩ := hattended
  have hflatten : (rosters ++ [[]]).flatten = rosters.flatten := by simp
  refine ⟨hflatten ▸ hbooks, hflatten ▸ hcarriers, fun duties hduties => ?_,
    fun hphase duties hduties => ?_, howned⟩
  · rcases List.mem_append.mp hduties with hold | hnew
    · exact hwithin duties hold
    · exact List.mem_singleton.mp hnew ▸ rfl
  · rcases List.mem_append.mp hduties with hold | hnew
    · exact hshut hphase duties hold
    · exact List.mem_singleton.mp hnew ▸ trivial

end Attended

theorem attended_of {partitions : Nat} {pool : PoolKind}
    (he : Executor.of partitions pool = .ok e) : e.Attended [] := by
  have hbooks := books_of he
  rw [Executor.of] at he
  split at he
  · obtain rfl := Except.ok.inj he
    exact ⟨hbooks, rfl, by simp, by simp, fun _ => rfl⟩
  · cases he

end Executor

/-! ## Runs -/

/-- Whether a step lets go of the executor. -/
def Dispatch.letsGo : Dispatch K V Q R → Bool
  | .release => true
  | _ => false

/-- Whether the executor is let go of in a passage while a call of `submit`, outside of all jobs,
has not handed its partition over. -/
def Passage.breaksLoan (p : Passage K V Q R) : Bool :=
  p.dispatch?.any Dispatch.letsGo && p.before.rosters.any fun duties => !withinJobs false duties

theorem Passage.withinJobs_of_letsGo {p : Passage K V Q R} (hp : p.breaksLoan = false)
    (hdispatch : p.dispatch? = some .release) :
    ∀ duties ∈ p.before.rosters, withinJobs false duties = true := by
  simpa [breaksLoan, hdispatch, Dispatch.letsGo] using hp

section Runs

variable [DecidableEq K] [DecidableEq V] {settings : Settings K V Q R} {start m : Machine K V Q R}
  {trace : List (Passage K V Q R)}

theorem Passage.Lawful.attended {p : Passage K V Q R} (hp : p.Lawful settings)
    (hm : p.before.Reachable settings) (hkept : p.losesJob = false) (hlent : p.breaksLoan = false)
    (hattended : p.before.world.executor.Attended p.before.rosters) :
    p.after.world.executor.Attended p.after.rosters := by
  cases hp.serves hm with
  | outside _ hexecutor hrosters =>
    rw [hexecutor]
    rcases hrosters with hsame | hspawned
    · rwa [hsame]
    · rw [hspawned]
      exact hattended.spawned
  | @step i done given base hroster hrosters hdispatch hdoes =>
    rw [hrosters]
    refine hattended.step hroster hdoes (fun position hdone => ?_) fun hdone =>
      Passage.withinJobs_of_letsGo hlent (hdispatch _ hdone)
    simpa [Passage.losesJob, hdispatch _ hdone, Dispatch.losesJob] using hkept

theorem Run.attended (hstart : start.Fresh settings) (run : Run settings start trace m)
    (hkept : ∀ p ∈ trace, p.losesJob = false) (hlent : ∀ p ∈ trace, p.breaksLoan = false) :
    m.world.executor.Attended m.rosters := by
  induction run with
  | rest =>
    obtain ⟨partitions, pool, hexecutor⟩ := hstart.executor
    simpa [Machine.rosters, hstart.threads] using Executor.attended_of hexecutor
  | @move trace p run hp ih =>
    exact hp.attended (run.reachable hstart) (hkept p (by simp)) (hlent p (by simp))
      (ih (fun q hq => hkept q (List.mem_append_left _ hq)) fun q hq =>
        hlent q (List.mem_append_left _ hq))

end Runs

end SharedCache
