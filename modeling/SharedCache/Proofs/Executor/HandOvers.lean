import Mathlib.Data.List.Perm.Basic
import SharedCache.Proofs.Executor.Services

/-!
# Handing partitions over

Each partition with work to do is carried by one hand at a time.  Whoever marks it as scheduled is
about to hand it to the pool, the pool keeps it as a job, and the job either marks it as not
scheduled any more or is about to hand it over again.  So a partition is scheduled exactly while it
is carried, nobody strands its tasks, and no two jobs ever run it at once.

The count of active partitions follows the marks with a delay at both ends.  A submission that has
not counted its partition yet holds the phase of the executor, which is why the executor cannot
terminate in between.
-/

namespace SharedCache

variable {K V Q R : Type}

section Bare

variable {duties : List (Duty K V Q R)}

/-- Bare duties count for nothing. -/
theorem countP_eq_zero_of_bare {counts : Duty K V Q R → Bool}
    (hcounts : ∀ d, d.IsBare → counts d = false) (hbare : ∀ d ∈ duties, d.IsBare) :
    duties.countP counts = 0 :=
  List.countP_eq_zero.mpr fun d hd => by simp [hcounts d (hbare d hd)]

theorem countP_carries_eq_zero (hbare : ∀ d ∈ duties, d.IsBare) (p : Nat) :
    duties.countP (fun d => d.carries? = some p) = 0 :=
  countP_eq_zero_of_bare (fun d hd => by simp [hd.carries]) hbare

theorem countP_carries_cons {d : Duty K V Q R} {p : Nat} (hd : d.carries? = some p) (q : Nat) :
    (d :: duties).countP (fun d => d.carries? = some q) =
      duties.countP (fun d => d.carries? = some q) + if p = q then 1 else 0 := by
  simp [List.countP_cons, hd]

/-- A duty carries a partition in one way only. -/
theorem Duty.handsOver?_of_executes? {d : Duty K V Q R} (hd : d.executes? ≠ none) :
    d.handsOver? = none := by
  cases d with
  | act stage => cases stage <;> first | rfl | exact absurd rfl hd
  | deliver => rfl

theorem countP_carries_eq (duties : List (Duty K V Q R)) (p : Nat) :
    duties.countP (fun d => d.carries? = some p) =
      duties.countP (fun d => d.handsOver? = some p) +
        duties.countP fun d => d.executes? = some p := by
  induction duties with
  | nil => rfl
  | cons d duties ih =>
    rw [List.countP_cons, List.countP_cons, List.countP_cons, ih, Duty.carries?]
    cases hexecutes : d.executes? with
    | none => simp [Nat.add_right_comm]
    | some q =>
      rw [Duty.handsOver?_of_executes? (by simp [hexecutes])]
      simp [Nat.add_assoc]

end Bare

namespace Executor

variable {e e' : Executor K V Q R} {events : List (Event K V)} {done given : List (Duty K V Q R)}

/-- The partitions after a change of one of them. -/
theorem partition_onPartition {p : Nat} (hp : p < e.partitions.size)
    (change : Partition → Partition) (q : Nat) :
    (e.onPartition p change).partition q =
      if q = p then change (e.partition p) else e.partition q := by
  simp only [partition, onPartition, Array.getElem?_modify]
  by_cases hq : q = p
  · subst hq
    simp [hp]
  · simp [hq, Ne.symm hq]

theorem partition_withTask {p : Nat} (hp : p < e.partitions.size) (code : Script K V Q R)
    (q : Nat) :
    (e.withTask p code).partition q =
      if q = p then
        { e.partition p with queue := (e.partition p).queue ++ [e.tasks.size], scheduled := true }
      else e.partition q :=
  partition_onPartition hp _ q

theorem partition_withoutQueue {p : Nat} (hp : p < e.partitions.size) (q : Nat) :
    (e.withoutQueue p).partition q =
      if q = p then { e.partition p with queue := [] } else e.partition q :=
  partition_onPartition hp _ q

theorem lt_of_scheduled {p : Nat} (hp : (e.partition p).scheduled = true) :
    p < e.partitions.size := by
  by_contra hsize
  rw [partition, Array.getElem?_eq_none (by omega)] at hp
  cases hp

theorem Keeps.partition (hkeeps : e.Keeps e') (p : Nat) : e'.partition p = e.partition p := by
  rw [Executor.partition, Executor.partition, hkeeps.partitions]

/-- Everything is as it was, but the queues are empty where nobody is left to run their tasks. -/
structure Settles (e e' : Executor K V Q R) : Prop where
  size : e'.partitions.size = e.partitions.size
  scheduled : ∀ p, (e'.partition p).scheduled = (e.partition p).scheduled
  queue : ∀ p, (e'.partition p).queue = (e.partition p).queue ∨
    e.owned = false ∧ e.carriers = 0 ∧ (e'.partition p).queue = []
  phase : e'.phase = e.phase
  holders : e'.holders = e.holders
  active : e'.active = e.active
  jobs : e'.jobs = e.jobs
  carriers : e'.carriers = e.carriers
  owned : e'.owned = e.owned
  tasks : e'.tasks.size = e.tasks.size
  handedBack : e'.handedBack ⊆ e.handedBack

theorem Keeps.settles (hkeeps : e.Keeps e') : e.Settles e' :=
  ⟨by rw [hkeeps.partitions], fun p => by rw [hkeeps.partition],
    fun p => by simp [hkeeps.partition], hkeeps.phase, hkeeps.holders, hkeeps.active, hkeeps.jobs,
    hkeeps.carriers, hkeeps.owned, hkeeps.tasks, hkeeps.handedBack⟩

theorem settles_settleForsaken (e : Executor K V Q R) : e.Settles e.settleForsaken := by
  have hkeeps : ∀ lost : List Nat,
      e.Keeps (lost.foldl (fun e task => e.deliver task .closed) e) := by
    intro lost
    generalize e = start
    induction lost generalizing start with
    | nil => exact .refl
    | cons task lost ih => exact (start.keeps_deliver task _).trans (ih _)
  rw [settleForsaken]
  split
  · exact Keeps.refl.settles
  · rename_i hforsaken
    obtain ⟨howned, hcarriers⟩ : e.owned = false ∧ e.carriers = 0 := by simpa using hforsaken
    obtain ⟨-, hphase, hholders, hactive, hjobs, hcarriers', howned', htasks, hhandedBack⟩ :=
      hkeeps (e.partitions.toList.flatMap Partition.queue)
    refine ⟨by simp, fun p => ?_, fun p => .inr ⟨howned, hcarriers, ?_⟩, hphase, hholders,
      hactive, hjobs, hcarriers', howned', htasks, hhandedBack⟩
    · simp only [Executor.partition, Array.getElem?_map]
      cases e.partitions[p]? <;> rfl
    · simp only [Executor.partition, Array.getElem?_map]
      cases e.partitions[p]? <;> rfl

/-- What the partitions, the jobs, the counters and the duties of all threads have to do with each
other. -/
structure Books (e : Executor K V Q R) (duties : List (Duty K V Q R)) : Prop where
  fills : ∀ d ∈ duties, ∀ p, d.fills? = some p → p < e.partitions.size
  queued : ∀ p, (e.partition p).queue ≠ [] → (e.partition p).scheduled = true
  /-- A partition is scheduled while it is carried, and it is never carried twice. -/
  carried : ∀ p, e.jobs.count p + duties.countP (fun d => d.carries? = some p) =
    (e.partition p).scheduled.toNat
  holders : e.holders = duties.countP Duty.holds
  held : 0 < e.holders → e.phase = .running
  active : e.active = e.jobs.length + duties.countP Duty.isCounted

namespace Books

variable {duties others : List (Duty K V Q R)} {d : Duty K V Q R} {p : Nat}

/-- The order of the duties is no matter. -/
theorem perm {duties' : List (Duty K V Q R)} (hbooks : e.Books duties)
    (hperm : duties.Perm duties') : e.Books duties' := by
  refine ⟨fun d hd => hbooks.fills d (hperm.mem_iff.mpr hd), hbooks.queued, fun p => ?_, ?_,
    hbooks.held, ?_⟩
  · rw [← hperm.countP_eq]
    exact hbooks.carried p
  · rw [← hperm.countP_eq]
    exact hbooks.holders
  · rw [← hperm.countP_eq]
    exact hbooks.active

/-- What a duty carries is scheduled. -/
theorem scheduled (hbooks : e.Books duties) (hd : d ∈ duties) (hp : d.carries? = some p) :
    (e.partition p).scheduled = true := by
  have hcount := hbooks.carried p
  have hpos : 0 < duties.countP fun d => d.carries? = some p :=
    List.countP_pos_iff.mpr ⟨d, hd, by simpa using hp⟩
  cases hscheduled : (e.partition p).scheduled with
  | true => rfl
  | false =>
    rw [hscheduled, Bool.toNat_false] at hcount
    omega

/-- The books are kept when what is entered for the new duties makes up for what is struck out with
the old ones. -/
theorem exchange {done given : List (Duty K V Q R)} (hbooks : e.Books (done ++ others))
    (hsize : e'.partitions.size = e.partitions.size)
    (hfills : ∀ d ∈ given, ∀ p, d.fills? = some p → p < e.partitions.size)
    (hqueued : ∀ p, (e'.partition p).queue ≠ [] → (e'.partition p).scheduled = true)
    (hcarried : ∀ p, e'.jobs.count p + given.countP (fun d => d.carries? = some p) +
        (e.partition p).scheduled.toNat =
      e.jobs.count p + done.countP (fun d => d.carries? = some p) +
        (e'.partition p).scheduled.toNat)
    (hholders : e'.holders + done.countP Duty.holds = e.holders + given.countP Duty.holds)
    (hheld : 0 < e'.holders → e'.phase = .running)
    (hactive : e'.active + e.jobs.length + done.countP Duty.isCounted =
      e.active + e'.jobs.length + given.countP Duty.isCounted) :
    e'.Books (given ++ others) := by
  refine ⟨fun d hd p hp => ?_, hqueued, fun p => ?_, ?_, hheld, ?_⟩
  · rw [hsize]
    rcases List.mem_append.mp hd with hgiven | hother
    · exact hfills d hgiven p hp
    · exact hbooks.fills d (List.mem_append_right _ hother) p hp
  · have hold := hbooks.carried p
    have hnew := hcarried p
    rw [List.countP_append] at hold ⊢
    omega
  · have hold := hbooks.holders
    rw [List.countP_append] at hold ⊢
    omega
  · have hold := hbooks.active
    rw [List.countP_append] at hold ⊢
    omega

end Books

variable {others : List (Duty K V Q R)}

theorem Does.size_eq (hdoes : e.Does e' events done given) :
    e'.partitions.size = e.partitions.size := by
  cases hdoes with
  | passes hkeeps => rw [hkeeps.partitions]
  | delivers hkeeps => rw [hkeeps.partitions]
  | loses => exact (settles_settleForsaken _).size
  | retires => exact (settles_settleForsaken _).size
  | releases => exact (settles_settleForsaken _).size
  | enqueues | awakens | starts | lacks | finishes | resumes | drains => exact Array.size_modify
  | _ => rfl

theorem bare_of_errands (hgiven : ∀ g ∈ given, g.isErrand = true) : ∀ g ∈ given, g.IsBare :=
  fun g hg => Duty.isBare_of_isErrand (hgiven g hg)

theorem Does.holders (hdoes : e.Does e' events done given)
    (hholders : done.countP Duty.holds ≤ e.holders) :
    e'.holders + done.countP Duty.holds = e.holders + given.countP Duty.holds := by
  have hnone : ∀ {duties : List (Duty K V Q R)}, (∀ d ∈ duties, d.IsBare) →
      duties.countP Duty.holds = 0 := countP_eq_zero_of_bare fun _ hd => hd.holds
  cases hdoes with
  | passes hkeeps _ hdone hgiven => rw [hnone hdone, hnone hgiven, hkeeps.holders]
  | idles hgiven => rw [hnone (bare_of_errands hgiven)]; rfl
  | delivers hkeeps => rw [hkeeps.holders]; rfl
  | loses => exact congrArg (· + _) (settles_settleForsaken _).holders
  | retires => exact congrArg (· + _) (settles_settleForsaken _).holders
  | releases => exact congrArg (· + _) (settles_settleForsaken _).holders
  | unlocks => exact Nat.sub_add_cancel hholders
  | proceeds => exact Nat.sub_add_cancel hholders
  | _ => rfl

theorem Does.held (hdoes : e.Does e' events done given)
    (hheld : 0 < e.holders → e.phase = .running) (hpos : 0 < e'.holders) : e'.phase = .running := by
  -- Where nothing but queues and the jobs are concerned, the phase is held as before.
  have hsettles : ∀ {e₀ : Executor K V Q R}, e₀.Settles e' → e₀.phase = e.phase →
      e₀.holders = e.holders → e'.phase = .running := fun h hphase hholders =>
    (h.phase.trans hphase).trans (hheld (hholders ▸ h.holders ▸ hpos))
  cases hdoes with
  | passes hkeeps => exact hsettles hkeeps.settles rfl rfl
  | delivers hkeeps => exact hsettles hkeeps.settles rfl rfl
  | accepts hrunning => exact hrunning
  | loses => exact hsettles (settles_settleForsaken _) rfl rfl
  | retires => exact hsettles (settles_settleForsaken _) rfl rfl
  | releases => exact hsettles (settles_settleForsaken _) rfl rfl
  | unlocks | proceeds => exact hheld (Nat.lt_of_lt_of_le hpos (Nat.sub_le _ _))
  | shuts _ hholders => exact absurd hpos (by simp [hholders])
  | terminates hphase => cases (hheld hpos).symm.trans hphase
  | _ => exact hheld hpos

theorem Does.active (hdoes : e.Does e' events done given)
    (hkept : ∀ position, done = [.act (.loseJob position)] → e.jobs.length ≤ position)
    (hactive : done.countP Duty.isCounted ≤ e.active) :
    e'.active + e.jobs.length + done.countP Duty.isCounted =
      e.active + e'.jobs.length + given.countP Duty.isCounted := by
  have hnone : ∀ {duties : List (Duty K V Q R)}, (∀ d ∈ duties, d.IsBare) →
      duties.countP Duty.isCounted = 0 := countP_eq_zero_of_bare fun _ hd => hd.isCounted
  cases hdoes with
  | passes hkeeps _ hdone hgiven =>
    rw [hnone hdone, hnone hgiven, hkeeps.active, hkeeps.jobs]
  | idles hgiven =>
    rw [hnone (bare_of_errands hgiven)]
    change e.active - 1 + e.jobs.length + 1 = e.active + e.jobs.length
    have hpos : 1 ≤ e.active := hactive
    omega
  | delivers hkeeps => rw [hkeeps.active, hkeeps.jobs]; rfl
  | loses hlt => exact absurd (hkept _ rfl) (by omega)
  | retires => rw [(settles_settleForsaken _).active, (settles_settleForsaken _).jobs]; rfl
  | releases => rw [(settles_settleForsaken _).active, (settles_settleForsaken _).jobs]; rfl
  | @takes p position hjob =>
    have hlt := (List.getElem?_eq_some_iff.mp hjob).1
    change e.active + e.jobs.length + 0 = e.active + (e.jobs.eraseIdx position).length + 1
    rw [List.length_eraseIdx_of_lt hlt]
    omega
  | activates =>
    change e.active + 1 + e.jobs.length + 0 = e.active + e.jobs.length + 1
    omega
  | stores =>
    change e.active + e.jobs.length + 1 = e.active + (e.jobs ++ _).length + 0
    rw [List.length_append]
    exact Nat.add_assoc _ _ _
  | _ => rfl

/-- A partition is carried by one more hand where it has become scheduled, and by one less where it
is not scheduled any more. -/
def HandsOn (e e' : Executor K V Q R) (done given : List (Duty K V Q R)) (q : Nat) : Prop :=
  e'.jobs.count q + given.countP (fun d => d.carries? = some q) + (e.partition q).scheduled.toNat =
    e.jobs.count q + done.countP (fun d => d.carries? = some q) + (e'.partition q).scheduled.toNat

section HandsOn

variable {p q : Nat} {partition : Partition}

theorem handsOn_of_settles {e₀ : Executor K V Q R} (hsettles : e₀.Settles e')
    (hjobs : e₀.jobs = e.jobs) (hsame : ∀ p, e₀.partition p = e.partition p)
    (hduties : given.countP (fun d => d.carries? = some q) =
      done.countP fun d => d.carries? = some q) :
    e.HandsOn e' done given q := by
  rw [HandsOn, hsettles.jobs, hjobs, hsettles.scheduled, hsame, hduties]

/-- One carrier takes the place of another. -/
theorem handsOn_of_change
    (hpartition : ∀ r, e'.partition r = if r = p then partition else e.partition r)
    (hmark : partition.scheduled = (e.partition p).scheduled) (hjobs : e'.jobs = e.jobs)
    (hduties : given.countP (fun d => d.carries? = some q) =
      done.countP fun d => d.carries? = some q) :
    e.HandsOn e' done given q := by
  have hsame : (e'.partition q).scheduled = (e.partition q).scheduled := by
    rw [hpartition]
    split
    · rename_i hq
      rw [hmark, hq]
    · rfl
  rw [HandsOn, hjobs, hsame, hduties]

/-- The carrier of a partition finds nothing left to do. -/
theorem handsOn_of_clear
    (hpartition : ∀ r, e'.partition r = if r = p then partition else e.partition r)
    (hp : (e.partition p).scheduled = true) (hmark : partition.scheduled = false)
    (hjobs : e'.jobs = e.jobs) (hgiven : given.countP (fun d => d.carries? = some q) = 0)
    (hdone : done.countP (fun d => d.carries? = some q) = if p = q then 1 else 0) :
    e.HandsOn e' done given q := by
  rw [HandsOn, hjobs, hgiven, hdone, hpartition]
  by_cases hq : p = q
  · subst hq
    simp [hp, hmark]
  · simp [hq, Ne.symm hq]

/-- A partition gets its first carrier. -/
theorem handsOn_of_mark
    (hpartition : ∀ r, e'.partition r = if r = p then partition else e.partition r)
    (hp : (e.partition p).scheduled = false) (hmark : partition.scheduled = true)
    (hjobs : e'.jobs = e.jobs)
    (hgiven : given.countP (fun d => d.carries? = some q) = if p = q then 1 else 0)
    (hdone : done.countP (fun d => d.carries? = some q) = 0) :
    e.HandsOn e' done given q := by
  rw [HandsOn, hjobs, hgiven, hdone, hpartition]
  by_cases hq : p = q
  · subst hq
    simp [hp, hmark]
  · simp [hq, Ne.symm hq]

end HandsOn

theorem Does.handsOn (hdoes : e.Does e' events done given)
    (hkept : ∀ position, done = [.act (.loseJob position)] → e.jobs.length ≤ position)
    (hfills : ∀ d ∈ done, ∀ p, d.fills? = some p → p < e.partitions.size)
    (hcarries : ∀ d ∈ done, ∀ p, d.carries? = some p → (e.partition p).scheduled = true) (q : Nat) :
    e.HandsOn e' done given q := by
  cases hdoes with
  | passes hkeeps _ hdone hgiven =>
    exact handsOn_of_settles hkeeps.settles rfl (fun _ => rfl)
      ((countP_carries_eq_zero hgiven q).trans (countP_carries_eq_zero hdone q).symm)
  | idles hgiven =>
    exact congrArg (_ + · + _) (countP_carries_eq_zero (bare_of_errands hgiven) q)
  | delivers hkeeps => exact handsOn_of_settles hkeeps.settles rfl (fun _ => rfl) rfl
  | loses hlt => exact absurd (hkept _ rfl) (by omega)
  | retires => exact handsOn_of_settles (settles_settleForsaken _) rfl (fun _ => rfl) rfl
  | releases => exact handsOn_of_settles (settles_settleForsaken _) rfl (fun _ => rfl) rfl
  | @stores p =>
    have hcount : (e.jobs ++ [p]).count q = e.jobs.count q + if p = q then 1 else 0 := by
      simp [List.count_singleton]
    rw [HandsOn, countP_carries_cons rfl, hcount, List.countP_nil, Nat.add_zero, Nat.zero_add]
    rfl
  | @takes p position hjob =>
    obtain ⟨hlt, rfl⟩ := List.getElem?_eq_some_iff.mp hjob
    have hcount := (List.getElem_cons_eraseIdx_perm hlt).count_eq q
    rw [List.count_cons] at hcount
    rw [HandsOn, countP_carries_cons rfl, ← hcount]
    simp [Duty.carries?, Duty.handsOver?, Duty.executes?]
    rfl
  | enqueues hscheduled =>
    exact handsOn_of_change (partition_withTask (lt_of_scheduled hscheduled) _) hscheduled.symm rfl
      rfl
  | awakens hidle =>
    have hp := hfills _ (List.mem_singleton_self _) _ rfl
    exact handsOn_of_mark (partition_withTask hp _) hidle rfl rfl
      (by simp [Duty.carries?, Duty.handsOver?]) rfl
  | starts | resumes =>
    have hscheduled := hcarries _ (List.mem_singleton_self _) _ rfl
    exact handsOn_of_change (partition_onPartition (lt_of_scheduled hscheduled) _) rfl rfl rfl
  | lacks | finishes =>
    have hscheduled := hcarries _ (List.mem_singleton_self _) _ rfl
    exact handsOn_of_clear (partition_onPartition (lt_of_scheduled hscheduled) _) hscheduled rfl rfl
      rfl (by simp [Duty.carries?, Duty.handsOver?, Duty.executes?])
  | drains hp => exact handsOn_of_change (partition_withoutQueue hp) rfl rfl rfl
  | _ => rfl

theorem Does.queued (hdoes : e.Does e' events done given)
    (hqueued : ∀ p, (e.partition p).queue ≠ [] → (e.partition p).scheduled = true)
    (hfills : ∀ d ∈ done, ∀ p, d.fills? = some p → p < e.partitions.size)
    (hcarries : ∀ d ∈ done, ∀ p, d.carries? = some p → (e.partition p).scheduled = true) (q : Nat)
    (hqueue : (e'.partition q).queue ≠ []) : (e'.partition q).scheduled = true := by
  have hchange : ∀ {p : Nat} {partition : Partition},
      (∀ r, e'.partition r = if r = p then partition else e.partition r) →
      (partition.queue ≠ [] → partition.scheduled = true) → (e'.partition q).scheduled = true := by
    intro p partition hpartition hmark
    rw [hpartition] at hqueue ⊢
    split
    · exact hmark (by simpa [*] using hqueue)
    · exact hqueued q (by simpa [*] using hqueue)
  have hsettles : ∀ {e₀ : Executor K V Q R}, e₀.Settles e' → (∀ p, e₀.partition p = e.partition p) →
      (e'.partition q).scheduled = true := by
    intro e₀ h hsame
    rcases h.queue q with hold | ⟨-, -, hnil⟩
    · rw [h.scheduled, hsame]
      exact hqueued q (by rwa [hold, hsame] at hqueue)
    · exact absurd hnil hqueue
  cases hdoes with
  | passes hkeeps => exact hsettles hkeeps.settles fun _ => rfl
  | delivers hkeeps => exact hsettles hkeeps.settles fun _ => rfl
  | loses => exact hsettles (settles_settleForsaken _) fun _ => rfl
  | retires => exact hsettles (settles_settleForsaken _) fun _ => rfl
  | releases => exact hsettles (settles_settleForsaken _) fun _ => rfl
  | enqueues | awakens =>
    have hp := hfills _ (List.mem_singleton_self _) _ rfl
    exact hchange (partition_withTask hp _) fun _ => rfl
  | starts | resumes =>
    have hscheduled := hcarries _ (List.mem_singleton_self _) _ rfl
    exact hchange (partition_onPartition (lt_of_scheduled hscheduled) _) fun _ => hscheduled
  | lacks hnil | finishes hnil =>
    have hscheduled := hcarries _ (List.mem_singleton_self _) _ rfl
    exact hchange (partition_onPartition (lt_of_scheduled hscheduled) _) fun hnot =>
      absurd hnil hnot
  | drains hp => exact hchange (partition_withoutQueue hp) fun hnot => absurd rfl hnot
  | _ => exact hqueued q hqueue

theorem Does.fills (hdoes : e.Does e' events done given)
    (hfills : ∀ d ∈ done, ∀ p, d.fills? = some p → p < e.partitions.size) :
    ∀ d ∈ given, ∀ p, d.fills? = some p → p < e.partitions.size := by
  intro d hd p hp
  have hbare : (∀ g ∈ given, g.IsBare) → p < e.partitions.size := fun hgiven => by
    simp [(hgiven d hd).fills] at hp
  cases hdoes with
  | submits hlt =>
    obtain rfl := List.mem_singleton.mp hd
    exact Option.some.inj hp ▸ hlt
  | accepts =>
    obtain rfl := List.mem_singleton.mp hd
    exact hfills _ (List.mem_singleton_self _) p hp
  | passes _ _ _ hgiven => exact hbare hgiven
  | idles hgiven => exact hbare (bare_of_errands hgiven)
  | hands | takes | starts =>
    rcases List.mem_pair.mp hd with rfl | rfl <;> cases hp
  | rejects | stores | unlocks | misses | loses | retires | releases => cases hd
  | _ =>
    obtain rfl := List.mem_singleton.mp hd
    cases hp

/-- What a step does to the executor and the duties keeps the books, unless it is that the pool
loses a job. -/
theorem Books.step {others : List (Duty K V Q R)} (hbooks : e.Books (done ++ others))
    (hdoes : e.Does e' events done given)
    (hkept : ∀ position, done = [.act (.loseJob position)] → e.jobs.length ≤ position) :
    e'.Books (given ++ others) := by
  have hfills : ∀ d ∈ done, ∀ p, d.fills? = some p → p < e.partitions.size := fun d hd =>
    hbooks.fills d (List.mem_append_left _ hd)
  have hcarries : ∀ d ∈ done, ∀ p, d.carries? = some p → (e.partition p).scheduled = true :=
    fun d hd p hp => hbooks.scheduled (List.mem_append_left _ hd) hp
  have hholders := hbooks.holders
  have hactive := hbooks.active
  rw [List.countP_append] at hholders hactive
  exact hbooks.exchange hdoes.size_eq (hdoes.fills hfills)
    (hdoes.queued hbooks.queued hfills hcarries) (hdoes.handsOn hkept hfills hcarries)
    (hdoes.holders (by omega)) (hdoes.held hbooks.held) (hdoes.active hkept (by omega))

/-- How many partitions are marked as scheduled. -/
def scheduledCount (e : Executor K V Q R) : Nat :=
  (List.range e.partitions.size).countP fun p => (e.partition p).scheduled

/-- There are as many carriers as scheduled partitions. -/
theorem Books.scheduledCount_eq {duties : List (Duty K V Q R)} (hbooks : e.Books duties) :
    e.scheduledCount = e.jobs.length + duties.countP fun d => d.carries?.isSome := by
  have hcount : ∀ p, (e.jobs ++ duties.filterMap Duty.carries?).count p =
      (e.partition p).scheduled.toNat := by
    intro p
    rw [List.count_append, ← hbooks.carried p, List.count_eq_countP (l := duties.filterMap _),
      List.countP_filterMap]
    congr 2
    funext d
    cases d.carries? with
    | none => simp
    | some q => simp [beq_eq_decide]
  have hperm : ((List.range e.partitions.size).filter fun p => (e.partition p).scheduled).Perm
      (e.jobs ++ duties.filterMap Duty.carries?) := by
    refine (List.perm_ext_iff_of_nodup (List.nodup_range.filter _) ?_).mpr fun p => ?_
    · exact List.nodup_iff_count_le_one.mpr fun p =>
        Nat.le_trans (Nat.le_of_eq (hcount p)) (Bool.toNat_le _)
    · rw [← List.count_pos_iff (l := e.jobs ++ _), hcount, List.mem_filter, List.mem_range]
      cases hp : (e.partition p).scheduled with
      | true => simp [lt_of_scheduled hp]
      | false => simp
  rw [scheduledCount, List.countP_eq_length_filter, hperm.length_eq, List.length_append,
    List.length_filterMap_eq_countP]

theorem partition_of {partitions : Nat} {pool : PoolKind}
    (he : Executor.of partitions pool = .ok e) (p : Nat) : e.partition p = Partition.idle := by
  rw [Executor.of] at he
  split at he
  · obtain rfl := Except.ok.inj he
    simp [partition, Array.getElem?_replicate]
    split <;> rfl
  · cases he

theorem books_of {partitions : Nat} {pool : PoolKind} (he : Executor.of partitions pool = .ok e) :
    e.Books [] := by
  have hidle := partition_of he
  rw [Executor.of] at he
  split at he
  · obtain rfl := Except.ok.inj he
    refine ⟨by simp, fun p hqueue => ?_, fun p => ?_, rfl, fun hpos => ?_, rfl⟩
    · rw [hidle] at hqueue
      exact absurd rfl hqueue
    · rw [hidle]
      rfl
    · cases hpos
  · cases he

end Executor

/-! ## Runs -/

/-- Whether a step makes the pool forget a job. -/
def Dispatch.losesJob (e : Executor K V Q R) : Dispatch K V Q R → Bool
  | .loseJob position => position < e.jobs.length
  | _ => false

/-- Whether the pool forgets a job in a passage. -/
def Passage.losesJob (p : Passage K V Q R) : Bool :=
  p.dispatch?.any (Dispatch.losesJob p.before.world.executor)

/-- Whether a duty stands between the change of a partition and the change of the counter. -/
def Duty.lags : Duty K V Q R → Bool
  | .act (.activate ..) | .act .idle => true
  | _ => false

theorem Duty.isCounted_of_carries? {d : Duty K V Q R} (hcarries : d.carries?.isSome = true)
    (hholds : d.holds = false) : d.isCounted = true := by
  cases d with
  | act stage =>
    cases stage with
    | schedule | start | finish => rfl
    | activate | unlock => cases hholds
    | _ => cases hcarries
  | deliver => cases hcarries

theorem Duty.isCounted_eq {d : Duty K V Q R} (hd : d.lags = false) :
    d.isCounted = d.carries?.isSome := by
  cases d with
  | act stage =>
    cases stage with
    | unlock p task handOver => cases handOver <;> rfl
    | activate | idle => cases hd
    | _ => rfl
  | deliver => rfl

/-- No partition is stuck: those that have work to do are carried to it, each by one hand. -/
structure Machine.NeverStuck (m : Machine K V Q R) : Prop where
  /-- A partition with tasks that wait is scheduled. -/
  queued : ∀ p, (m.world.executor.partition p).queue ≠ [] →
    (m.world.executor.partition p).scheduled = true
  /-- A scheduled partition is a job in the pool, or about to be handed over, or run by a job that
  has not left it, and only one of these once.  Any other partition is none of them. -/
  carried : ∀ p, m.world.executor.jobs.count p +
      m.duties.countP (fun d => d.handsOver? = some p) +
      m.duties.countP (fun d => d.executes? = some p) =
    if (m.world.executor.partition p).scheduled then 1 else 0
  /-- While nobody holds the phase, all scheduled partitions are counted. -/
  counted : m.world.executor.holders = 0 →
    m.world.executor.scheduledCount ≤ m.world.executor.active
  /-- The count is exact while no submission and no job is between its two changes. -/
  exact : (∀ d ∈ m.duties, d.lags = false) →
    m.world.executor.active = m.world.executor.scheduledCount

section Runs

variable [DecidableEq K] [DecidableEq V] {settings : Settings K V Q R} {start m : Machine K V Q R}
  {trace : List (Passage K V Q R)}

theorem Passage.Lawful.books {p : Passage K V Q R} (hp : p.Lawful settings)
    (hm : p.before.Reachable settings) (hkept : p.losesJob = false)
    (hbooks : p.before.world.executor.Books p.before.duties) :
    p.after.world.executor.Books p.after.duties := by
  cases hp.serves hm with
  | outside _ hexecutor hrosters =>
    rw [hexecutor]
    rcases hrosters with hsame | hspawned
    · rwa [Machine.duties, hsame]
    · rw [Machine.duties, hspawned, List.flatten_append]
      exact (List.append_nil p.before.duties).symm ▸ hbooks
  | @step i done given base hroster hrosters hdispatch hdoes =>
    obtain ⟨others, hbefore, hafter⟩ := exists_perm_flatten_set hroster
    refine ((hbooks.perm hbefore).step hdoes fun position hdone => ?_).perm ?_
    · simpa [Passage.losesJob, hdispatch _ hdone, Dispatch.losesJob] using hkept
    · rw [Machine.duties, hrosters]
      exact (hafter given).symm

theorem Run.books (hstart : start.Fresh settings) (run : Run settings start trace m)
    (hkept : ∀ p ∈ trace, p.losesJob = false) : m.world.executor.Books m.duties := by
  induction run with
  | rest =>
    obtain ⟨partitions, pool, hexecutor⟩ := hstart.executor
    simpa [Machine.duties, Machine.rosters, hstart.threads] using Executor.books_of hexecutor
  | @move trace p run hp ih =>
    exact hp.books (run.reachable hstart) (hkept p (by simp))
      (ih fun q hq => hkept q (List.mem_append_left _ hq))

/-- Whatever is submitted and shut down meanwhile, an executor strands no partition whose jobs the
pool keeps. -/
theorem Run.neverStuck (hstart : start.Fresh settings) (run : Run settings start trace m)
    (hkept : ∀ p ∈ trace, p.losesJob = false) : m.NeverStuck := by
  have hbooks := run.books hstart hkept
  have hcount := hbooks.scheduledCount_eq
  constructor
  case queued => exact hbooks.queued
  case carried =>
    intro p
    rw [Nat.add_assoc, ← countP_carries_eq, hbooks.carried]
    cases (m.world.executor.partition p).scheduled <;> rfl
  case counted =>
    intro hholders
    rw [hcount, hbooks.active]
    refine Nat.add_le_add_left (List.countP_mono_left fun d hd hcarries => ?_) _
    have hfree := List.countP_eq_zero.mp (hbooks.holders.symm.trans hholders) d hd
    exact Duty.isCounted_of_carries? hcarries (by simpa using hfree)
  case exact =>
    intro hlags
    rw [hcount, hbooks.active]
    exact congrArg _ (List.countP_congr fun d hd => by rw [Duty.isCounted_eq (hlags d hd)])

end Runs

/-! ## Between two tasks -/

/-- A thread submits two tasks and runs the job that the pool has for them. -/
def twoTasks : Script Nat Nat Unit Unit :=
  .order (.submit 0 (.finish .unit)) fun _ => .order (.submit 0 (.finish .unit)) fun _ =>
    .order (.runJob 0) .finish

/-- The first task is over, and its job has not handed the partition back yet. -/
def betweenTasks : List (Move Nat Nat Unit Unit) :=
  .spawn twoTasks :: List.replicate 24 (.step 0 .none)

/-- The second task waits while the pool has no job, and is not stranded. -/
theorem never_stuck_between_tasks : ∃ (start m : Machine Nat Nat Unit Unit)
    (trace : List (Passage Nat Nat Unit Unit)), start.Fresh plainSettings ∧
      Run plainSettings start trace m ∧ (∀ p ∈ trace, p.losesJob = false) ∧ m.NeverStuck ∧
      (m.world.executor.partition 0).queue = [1] ∧ m.world.executor.jobs = [] ∧
      m.duties.countP (fun d => d.handsOver? = some 0) = 1 := by
  have hfacts : (Machine.replay plainSettings betweenTasks).map (fun run =>
      (run.1.all fun p => !p.losesJob, (run.2.world.executor.partition 0).queue,
        run.2.world.executor.jobs, run.2.duties.countP fun d => d.handsOver? = some 0)) =
      some (true, [1], [], 1) := by
    decide +kernel
  obtain ⟨⟨trace, m⟩, hreplay, htuple⟩ := Option.map_eq_some_iff.mp hfacts
  obtain ⟨hall, hqueue, hjobs, hcount⟩ :
      (trace.all fun p => !p.losesJob) = true ∧ (m.world.executor.partition 0).queue = [1] ∧
        m.world.executor.jobs = [] ∧ m.duties.countP (fun d => d.handsOver? = some 0) = 1 := by
    simpa only [Prod.mk.injEq] using htuple
  obtain ⟨start, hstart, run⟩ := Machine.run_of_replay hreplay
  have hkept : ∀ p ∈ trace, p.losesJob = false := fun p hp => by
    simpa using List.all_eq_true.mp hall p hp
  exact ⟨start, m, trace, hstart, run, hkept, Run.neverStuck hstart run hkept, hqueue, hjobs,
    hcount⟩

end SharedCache
