import SharedCache.Proofs.Executor.Places

/-!
# What a machine keeps of a task

What a machine keeps of a task is what follows from its course: nothing while the task may still
run, the outcome from its end until somebody takes it, and nothing from then on.  The task lets go
of the end that its outcome was sent from after its end, and only then does nobody expect an outcome
any more.
-/

namespace SharedCache

variable {K V Q R : Type}

/-! ## What becomes of an outcome -/

/-- A step of the executor was made after the end of a task. -/
def MadeAfterEnd (stage : Dispatch K V Q R) (task : Nat) (trace : List (Passage K V Q R)) : Prop :=
  ∃ front p back, trace = front ++ p :: back ∧
    p.dispatch? = some stage ∧ task ∈ (endings front).map Prod.fst

theorem madeAfterEnd_snoc {stage : Dispatch K V Q R} {task : Nat}
    {trace : List (Passage K V Q R)} {p : Passage K V Q R} :
    MadeAfterEnd stage task (trace ++ [p]) ↔ MadeAfterEnd stage task trace ∨
      p.dispatch? = some stage ∧ task ∈ (endings trace).map Prod.fst := by
  rw [MadeAfterEnd, exists_split_snoc, or_comm]
  rfl

/-- The outcome of a task was taken: somebody has asked for it after the end of the task. -/
def Taken (task : Nat) (trace : List (Passage K V Q R)) : Prop :=
  MadeAfterEnd (.join task) task trace

/-- A task that is over has let go of the end that its outcome was sent from. -/
def LetGo (task : Nat) (trace : List (Passage K V Q R)) : Prop :=
  MadeAfterEnd (.hangUp task) task trace

/-- What there is to be had of a task in the light of its course. -/
inductive Fate (task : Nat) (trace : List (Passage K V Q R)) : Delivery V → Prop where
  | lies :
      task ∉ (endings trace).map Prod.fst → task ∉ discarded trace → Fate task trace .pending
  | awaits {signal : Signal V} {sending : Bool} :
      (task, signal) ∈ endings trace → ¬ Taken task trace →
      (sending = true ↔ ¬ LetGo task trace) → Fate task trace (.ready signal.outcome sending)
  | spent : Taken task trace → ¬ LetGo task trace → Fate task trace .taken
  | closes :
      Taken task trace ∧ LetGo task trace ∨ task ∈ discarded trace → Fate task trace .closed

/-- What a passage does to the outcome of one task. -/
inductive Passage.Treats (p : Passage K V Q R) (task : Nat) : Prop where
  | keeps :
      p.after.world.executor.delivery? task = p.before.world.executor.delivery? task →
      task ∉ (p.ending?.map Prod.fst).toList → task ∉ p.dropped →
      (p.dispatch? = some (.join task) → ∀ outcome sending,
        p.before.world.executor.delivery? task ≠ some (.ready outcome sending)) →
      p.dispatch? ≠ some (.hangUp task) → Treats p task
  | accepts :
      p.before.world.executor.delivery? task = none →
      p.after.world.executor.delivery? task = some .pending → p.ending? = none →
      task ∉ p.dropped → Treats p task
  | ends {signal : Signal V} :
      p.ending? = some (task, signal) → p.dispatch? = none →
      p.after.world.executor.delivery? task =
        (p.before.world.executor.delivery? task).map (fun _ => .ready signal.outcome true) →
      Treats p task
  | drops :
      task ∈ p.dropped →
      p.after.world.executor.delivery? task =
        (p.before.world.executor.delivery? task).map (fun _ => .closed) → Treats p task
  | handsOut {outcome : Outcome V} {sending : Bool} :
      p.dispatch? = some (.join task) →
      p.before.world.executor.delivery? task = some (.ready outcome sending) →
      p.after.world.executor.delivery? task = some (Delivery.ready outcome sending).take →
      Treats p task
  | letsGo :
      p.dispatch? = some (.hangUp task) → p.ending? = none → task ∉ p.dropped →
      p.after.world.executor.delivery? task =
        (p.before.world.executor.delivery? task).map Delivery.hangUp → Treats p task

namespace Executor

variable {e e' : Executor K V Q R} {events : List (Event K V)} {q : Nat}

theorem not_mem_forsaken_of_queue_eq {task : Nat}
    (hqueue : (e'.partition q).queue = (e.partition q).queue) :
    task ∉ e.forsaken e' events q := by
  rw [forsaken, hqueue, List.mem_filter, decide_eq_true_eq]
  exact fun h => h.2.1 h.1

theorem forsaken_of_queue_nil (hqueue : (e'.partition q).queue = []) :
    e.forsaken e' [] q = (e.partition q).queue := by
  rw [forsaken, List.filter_eq_self]
  intro task _
  simp [hqueue]

/-- Where nobody is left to run the tasks that wait, each of them is dropped; otherwise the outcome
of every task is kept. -/
theorem settles_or_drops {e₀ : Executor K V Q R} (hpartitions : e₀.partitions = e.partitions)
    (htasks : e₀.tasks = e.tasks) (task : Nat) :
    (e₀.settleForsaken.delivery? task = e.delivery? task ∧
        ∀ q, task ∉ e.forsaken e₀.settleForsaken [] q) ∨
      e₀.settleForsaken.delivery? task = (e.delivery? task).map (fun _ => .closed) ∧
        ∃ q < e.partitions.size, task ∈ e.forsaken e₀.settleForsaken [] q := by
  have hpartition : ∀ q, e₀.partition q = e.partition q := fun q => by
    rw [partition, hpartitions, partition]
  have hstart : e₀.delivery? task = e.delivery? task := by
    rw [delivery?, htasks, delivery?]
  rcases e₀.settleForsaken_cases with hkept | ⟨howned, hcarriers, hqueue⟩
  · rw [hkept]
    exact .inl ⟨hstart, fun q => not_mem_forsaken_of_queue_eq (by rw [hpartition])⟩
  · have hforsaken := fun q => forsaken_of_queue_nil (e := e) (hqueue q)
    rw [delivery?_settleForsaken, hstart]
    by_cases htask : task ∈ e₀.partitions.toList.flatMap Partition.queue
    · obtain ⟨q, hq⟩ := mem_queues_iff.mp htask
      rw [hpartition] at hq
      have hsize : q < e.partitions.size := by
        by_contra hsize
        rw [queue_of_size_le (Nat.le_of_not_lt hsize)] at hq
        cases hq
      rw [if_pos ⟨howned, hcarriers, htask⟩]
      exact .inr ⟨rfl, q, hsize, hforsaken q ▸ hq⟩
    · rw [if_neg fun h => htask h.2.2]
      refine .inl ⟨rfl, fun q hq => htask ?_⟩
      rw [hforsaken, ← hpartition] at hq
      exact mem_queues_iff.mpr ⟨q, hq⟩

end Executor

namespace Passage

variable {p : Passage K V Q R} {task : Nat}

/-- Nothing is dropped where nothing is fetched and nothing forsaken. -/
theorem not_mem_dropped
    (hcancels : (p.dispatch?.bind Dispatch.cancels?).filter
      p.before.world.executor.isHandedBack ≠ some task)
    (hforsaken : ∀ q, task ∉ p.forsaken q) : task ∉ p.dropped := by
  rw [dropped, List.mem_append, List.mem_flatMap, Option.mem_toList]
  rintro (hcancelled | ⟨q, -, hq⟩)
  · exact hcancels hcancelled
  · exact hforsaken q hq

theorem fetches?_of_cancels? {stage : Dispatch K V Q R} (hstage : stage.cancels? = some task) :
    stage.fetches? = some task := by
  cases stage <;> first | exact hstage | cases hstage

theorem cancels?_of_fetches? {stage : Dispatch K V Q R} (hstage : stage.fetches? = none) :
    stage.cancels? = none := by
  cases stage <;> first | rfl | cases hstage

variable [DecidableEq K] [DecidableEq V] {settings : Settings K V Q R}

/-- Only some steps leave tasks with nobody to run them. -/
theorem Lawful.not_mem_forsaken (hp : p.Lawful settings) (hm : p.before.Reachable settings)
    (hstage : p.forsakes = false) (q : Nat) : task ∉ p.forsaken q := by
  rcases hp.moves hm with hmoves | ⟨-, -, hforsakes⟩
  · rw [forsaken, Executor.forsaken_of_moves hmoves]
    exact List.not_mem_nil
  · cases hforsakes.symm.trans hstage

/-- A step of the executor touches the outcome of a task where the task is dropped, where somebody
asks for it, or where the task lets go of its sending end. -/
theorem Lawful.treats_of_dispatch (hp : p.Lawful settings) (hm : p.before.Reachable settings)
    {stage : Dispatch K V Q R} (hdispatch : p.dispatch? = some stage) (hending : p.ending? = none)
    (hhandles : stage.Handles p.before.world.executor p.after.world.executor p.events) :
    p.Treats task := by
  have hends : task ∉ (p.ending?.map Prod.fst).toList := by simp [hending]
  have hsame : p.after.world.executor.tasks = p.before.world.executor.tasks →
      p.after.world.executor.delivery? task = p.before.world.executor.delivery? task := fun h => by
    rw [Executor.delivery?, h, Executor.delivery?]
  have hquiet : stage.forsakes = false → ∀ q, task ∉ p.forsaken q := fun hstage =>
    hp.not_mem_forsaken hm (by rw [forsakes, hdispatch]; exact hstage)
  have hcancels : stage.cancels? = none → (p.dispatch?.bind Dispatch.cancels?).filter
      p.before.world.executor.isHandedBack ≠ some task := fun hstage => by simp [hdispatch, hstage]
  have hjoins : stage.joins? = none → p.dispatch? ≠ some (.join task) := by
    rintro hstage hjoin
    obtain rfl := Option.some.inj (hdispatch.symm.trans hjoin)
    cases hstage
  have hletsGo : stage.letsGo? = none → p.dispatch? ≠ some (.hangUp task) := by
    rintro hstage hhang
    obtain rfl := Option.some.inj (hdispatch.symm.trans hhang)
    cases hstage
  cases hhandles with
  | rests hfetches hjoin hgo hforsakes htasks =>
    exact .keeps (hsame htasks) hends
      (not_mem_dropped (hcancels (cancels?_of_fetches? hfetches)) (hquiet hforsakes))
      (fun h => absurd h (hjoins hjoin)) (hletsGo hgo)
  | misses hfetches hjoin hgo hexecutor hevents =>
    refine .keeps (by rw [hexecutor]) hends (not_mem_dropped ?_ fun q => ?_)
      (fun h outcome sending => ?_) (hletsGo hgo)
    · rw [hdispatch, Option.bind_some]
      intro hcancelled
      obtain ⟨hstage, hmine⟩ := Option.filter_eq_some_iff.mp hcancelled
      rw [hfetches task (fetches?_of_cancels? hstage)] at hmine
      cases hmine
    · exact Executor.not_mem_forsaken_of_queue_eq (by rw [hexecutor])
    · obtain rfl := Option.some.inj (hdispatch.symm.trans h)
      exact hjoin task outcome sending rfl
  | accepts htasks =>
    have hdropped := not_mem_dropped (hcancels rfl) (hquiet rfl)
    have hdelivery : p.after.world.executor.delivery? task =
        if task = p.before.world.executor.tasks.size then some .pending
        else p.before.world.executor.delivery? task := by
      rw [Executor.delivery?, htasks, Array.getElem?_push]
      split <;> rfl
    by_cases htask : task = p.before.world.executor.tasks.size
    · rw [if_pos htask] at hdelivery
      exact .accepts (Executor.delivery?_eq_none_iff.mpr (Nat.le_of_eq htask.symm)) hdelivery
        hending hdropped
    · rw [if_neg htask] at hdelivery
      exact .keeps hdelivery hends hdropped (fun h => absurd h (hjoins rfl)) (hletsGo rfl)
  | takesBack _ hexecutor =>
    exact .keeps (hsame (by rw [hexecutor]; rfl)) hends
      (not_mem_dropped (hcancels rfl) (hquiet rfl)) (fun h => absurd h (hjoins rfl)) (hletsGo rfl)
  | @cancels other hmine hexecutor hevents =>
    have hdelivery := congrArg (fun e => e.delivery? task) hexecutor
    rw [Executor.delivery?_deliver] at hdelivery
    by_cases hother : task = other
    · subst hother
      rw [if_pos rfl] at hdelivery
      refine .drops ?_ hdelivery
      rw [dropped, hdispatch, Option.bind_some, Dispatch.cancels?, Option.filter_some, if_pos hmine]
      simp
    · rw [if_neg hother] at hdelivery
      refine .keeps hdelivery hends (not_mem_dropped ?_ (hquiet rfl))
        (fun h => absurd h (hjoins rfl)) (hletsGo rfl)
      rw [hdispatch, Option.bind_some, Dispatch.cancels?, Option.filter_some, if_pos hmine]
      simpa using Ne.symm hother
  | @handsOut other outcome sending hready hexecutor hevents =>
    have hdelivery := congrArg (fun e => e.delivery? task) hexecutor
    rw [Executor.delivery?_onDelivery] at hdelivery
    by_cases hother : task = other
    · subst hother
      rw [if_pos rfl, hready] at hdelivery
      exact .handsOut hdispatch hready hdelivery
    · rw [if_neg hother] at hdelivery
      refine .keeps hdelivery hends (not_mem_dropped (hcancels rfl) (hquiet rfl)) (fun h => ?_)
        (hletsGo rfl)
      cases hdispatch.symm.trans h
      exact absurd rfl hother
  | @letsGo other hexecutor hevents =>
    have hdropped := not_mem_dropped (hcancels rfl) (hquiet rfl)
    have hdelivery := congrArg (fun e => e.delivery? task) hexecutor
    rw [Executor.delivery?_onDelivery] at hdelivery
    by_cases hother : task = other
    · subst hother
      rw [if_pos rfl] at hdelivery
      exact .letsGo hdispatch hending hdropped hdelivery
    · rw [if_neg hother] at hdelivery
      refine .keeps hdelivery hends hdropped (fun h => absurd h (hjoins rfl)) fun h => ?_
      cases hdispatch.symm.trans h
      exact absurd rfl hother
  | @settles _ e₀ hexecutor hfetches hjoin hgo hforsakes hpartitions htasks _ hevents =>
    have hforsaken : ∀ q, p.forsaken q = p.before.world.executor.forsaken e₀.settleForsaken [] q :=
      fun q => by rw [forsaken, hexecutor, hevents]
    rcases Executor.settles_or_drops hpartitions htasks task with
      ⟨hdelivery, hnone⟩ | ⟨hdelivery, q, hsize, hq⟩
    · refine .keeps (hexecutor ▸ hdelivery) hends ?_ (fun h => absurd h (hjoins hjoin))
        (hletsGo hgo)
      exact not_mem_dropped (hcancels (cancels?_of_fetches? hfetches)) fun q =>
        hforsaken q ▸ hnone q
    · refine .drops (List.mem_append_right _ (List.mem_flatMap.mpr ?_)) (hexecutor ▸ hdelivery)
      exact ⟨q, List.mem_range.mpr hsize, hforsaken q ▸ hq⟩

/-- Every passage does one of these things to the outcome of a task. -/
theorem Lawful.treats (hp : p.Lawful settings) (hm : p.before.Reachable settings) (task : Nat) :
    p.Treats task := by
  have hapart : p.dispatch? = none → task ∉ p.dropped := fun hdispatch =>
    not_mem_dropped (by simp [hdispatch])
      (hp.not_mem_forsaken hm (by rw [forsakes, hdispatch]; rfl))
  cases hp.handling hm with
  | rests hdispatch hending hexecutor =>
    exact .keeps (by rw [hexecutor]) (by simp [hending]) (hapart hdispatch)
      (fun h => by cases hdispatch.symm.trans h) fun h => by cases hdispatch.symm.trans h
  | @ends other signal hdispatch hending hexecutor =>
    have hdelivery := congrArg (fun e => e.delivery? task) hexecutor
    rw [Executor.delivery?_deliver] at hdelivery
    by_cases hother : task = other
    · subst hother
      rw [if_pos rfl] at hdelivery
      exact .ends hending hdispatch hdelivery
    · rw [if_neg hother] at hdelivery
      exact .keeps hdelivery (by simpa [hending] using hother) (hapart hdispatch)
        (fun h => by cases hdispatch.symm.trans h) fun h => by cases hdispatch.symm.trans h
  | acts hdispatch hending hhandles => exact hp.treats_of_dispatch hm hdispatch hending hhandles

end Passage

/-! ## Runs -/

section Runs

variable [DecidableEq K] [DecidableEq V] {settings : Settings K V Q R} {start m : Machine K V Q R}
  {trace front back : List (Passage K V Q R)} {p : Passage K V Q R} {task : Nat}

/-- A task ends once at most, and then it is not dropped. -/
theorem Run.endings_add_discarded_le (hstart : start.Fresh settings)
    (run : Run settings start trace m) (task : Nat) :
    ((endings trace).map Prod.fst).count task + (discarded trace).count task ≤ 1 := by
  have hbegun := run.endings_le_begun hstart task
  have hle := run.begun_add_discarded_le hstart task
  have honce := (run.conserves hstart).exits_le_one task
  omega

omit [DecidableEq K] [DecidableEq V] in
theorem mem_map_endings {signal : Signal V} (hended : (task, signal) ∈ endings trace) :
    task ∈ (endings trace).map Prod.fst :=
  List.mem_map_of_mem hended

theorem Run.not_discarded_of_ended (hstart : start.Fresh settings)
    (run : Run settings start trace m) (hended : task ∈ (endings trace).map Prod.fst) :
    task ∉ discarded trace := by
  intro hdropped
  have hle := run.endings_add_discarded_le hstart task
  have hpos := List.count_pos_iff.mpr hended
  have hpos' := List.count_pos_iff.mpr hdropped
  omega

/-- A task ends in one way. -/
theorem Run.ending_unique (hstart : start.Fresh settings) (run : Run settings start trace m)
    {signal signal' : Signal V} (hsignal : (task, signal) ∈ endings trace)
    (hsignal' : (task, signal') ∈ endings trace) : signal = signal' := by
  have hle := run.endings_add_discarded_le hstart task
  have honce : ((endings trace).map Prod.fst).count task ≤ 1 := by omega
  generalize endings trace = ended at hsignal hsignal' honce
  induction ended with
  | nil => cases hsignal
  | cons entry ended ih =>
    rw [List.map_cons, List.count_cons] at honce
    by_cases hentry : entry.1 = task
    · -- None of the others is an end of the task.
      have hnone : ∀ signal, (task, signal) ∉ ended := fun signal hmem => by
        have hpos : 0 < (ended.map Prod.fst).count task :=
          List.count_pos_iff.mpr (List.mem_map_of_mem hmem)
        simp only [hentry, BEq.rfl, if_true] at honce
        omega
      have hfirst := (List.mem_cons.mp hsignal).resolve_right (hnone _)
      have hfirst' := (List.mem_cons.mp hsignal').resolve_right (hnone _)
      exact congrArg Prod.snd (hfirst.trans hfirst'.symm)
    · have hother : ∀ signal, (task, signal) ∈ entry :: ended → (task, signal) ∈ ended :=
        fun signal hmem => (List.mem_cons.mp hmem).resolve_left fun h => hentry (h ▸ rfl)
      exact ih (hother _ hsignal) (hother _ hsignal') (by omega)

omit [DecidableEq K] [DecidableEq V] in
theorem MadeAfterEnd.ended {stage : Dispatch K V Q R} (hmade : MadeAfterEnd stage task trace) :
    task ∈ (endings trace).map Prod.fst := by
  obtain ⟨front, p, back, rfl, -, hended⟩ := hmade
  rw [endings, List.filterMap_append, List.map_append]
  exact List.mem_append_left _ hended

omit [DecidableEq K] [DecidableEq V] in
theorem MadeAfterEnd.later {stage : Dispatch K V Q R} (hmade : MadeAfterEnd stage task trace) :
    MadeAfterEnd stage task (trace ++ [p]) :=
  madeAfterEnd_snoc.mpr (.inl hmade)

omit [DecidableEq K] [DecidableEq V] in
/-- A passage that is no such step leaves it at what was made before. -/
theorem madeAfterEnd_snoc_of_ne {stage : Dispatch K V Q R} (hne : p.dispatch? ≠ some stage) :
    MadeAfterEnd stage task (trace ++ [p]) ↔ MadeAfterEnd stage task trace := by
  simp [madeAfterEnd_snoc, hne]

omit [DecidableEq K] [DecidableEq V] in
theorem mem_endings_snoc {entry : Nat × Signal V} (hended : entry ∈ endings trace) :
    entry ∈ endings (trace ++ [p]) := by
  rw [endings_snoc]
  exact List.mem_append_left _ hended

omit [DecidableEq K] [DecidableEq V] in
theorem mem_discarded_snoc (hdropped : task ∈ discarded trace) :
    task ∈ discarded (trace ++ [p]) := by
  rw [discarded_snoc]
  exact List.mem_append_left _ hdropped

omit [DecidableEq K] [DecidableEq V] in
theorem Fate.lies_snoc (hopen : task ∉ (endings trace).map Prod.fst)
    (hkept : task ∉ discarded trace) (hends : task ∉ (p.ending?.map Prod.fst).toList)
    (hdropped : task ∉ p.dropped) : Fate task (trace ++ [p]) (.pending : Delivery V) := by
  refine .lies ?_ ?_
  · rw [endings_snoc, List.map_append, ← Option.toList_map]
    exact fun h => (List.mem_append.mp h).elim hopen hends
  · rw [discarded_snoc]
    exact fun h => (List.mem_append.mp h).elim hkept hdropped

omit [DecidableEq K] [DecidableEq V] in
/-- A passage in which a task comes to nothing new. -/
theorem Fate.keeps {delivery : Delivery V} (hfate : Fate task trace delivery)
    (hends : task ∉ (p.ending?.map Prod.fst).toList) (hdropped : task ∉ p.dropped)
    (hjoin : p.dispatch? = some (.join task) → ∀ outcome sending,
      delivery ≠ .ready outcome sending)
    (hhang : p.dispatch? ≠ some (.hangUp task)) : Fate task (trace ++ [p]) delivery := by
  have hletGo : LetGo task (trace ++ [p]) ↔ LetGo task trace := madeAfterEnd_snoc_of_ne hhang
  cases hfate with
  | lies hopen hkept => exact .lies_snoc hopen hkept hends hdropped
  | @awaits signal sending hended hnot hsending =>
    have htaken : Taken task (trace ++ [p]) ↔ Taken task trace :=
      madeAfterEnd_snoc_of_ne fun hdispatch => hjoin hdispatch _ _ rfl
    exact .awaits (mem_endings_snoc hended) (mt htaken.mp hnot)
      (hsending.trans (not_congr hletGo.symm))
  | spent htaken hnot => exact .spent htaken.later (mt hletGo.mp hnot)
  | closes hclosed =>
    exact .closes (hclosed.imp (And.imp MadeAfterEnd.later MadeAfterEnd.later) mem_discarded_snoc)

omit [DecidableEq K] [DecidableEq V] in
/-- Somebody takes the outcome of a task. -/
theorem Fate.handsOut {outcome : Outcome V} {sending : Bool}
    (hfate : Fate task trace (.ready outcome sending))
    (hjoin : p.dispatch? = some (.join task)) :
    Fate task (trace ++ [p]) (Delivery.ready outcome sending).take := by
  cases hfate with
  | awaits hended _ hsending =>
    have htaken : Taken task (trace ++ [p]) :=
      madeAfterEnd_snoc.mpr (.inr ⟨hjoin, List.mem_map_of_mem hended⟩)
    have hletGo : LetGo task (trace ++ [p]) ↔ LetGo task trace :=
      madeAfterEnd_snoc_of_ne (by simp [hjoin])
    cases sending with
    | true => exact .spent htaken (mt hletGo.mp (hsending.mp rfl))
    | false =>
      refine .closes (.inl ⟨htaken, hletGo.mpr ?_⟩)
      exact Classical.not_not.mp fun hnot => Bool.false_ne_true (hsending.mpr hnot)

omit [DecidableEq K] [DecidableEq V] in
/-- The task lets go of the end that its outcome was sent from. -/
theorem Fate.letsGo {delivery : Delivery V} (hfate : Fate task trace delivery)
    (hhang : p.dispatch? = some (.hangUp task)) (hending : p.ending? = none)
    (hdropped : task ∉ p.dropped) : Fate task (trace ++ [p]) delivery.hangUp := by
  have htaken : Taken task (trace ++ [p]) ↔ Taken task trace :=
    madeAfterEnd_snoc_of_ne (by simp [hhang])
  have hletGo : task ∈ (endings trace).map Prod.fst → LetGo task (trace ++ [p]) := fun hended =>
    madeAfterEnd_snoc.mpr (.inr ⟨hhang, hended⟩)
  cases hfate with
  | lies hopen hkept => exact .lies_snoc hopen hkept (by simp [hending]) hdropped
  | awaits hended hnot =>
    exact .awaits (mem_endings_snoc hended) (mt htaken.mp hnot)
      (iff_of_false Bool.false_ne_true fun h => h (hletGo (List.mem_map_of_mem hended)))
  | spent htaken => exact .closes (.inl ⟨htaken.later, hletGo htaken.ended⟩)
  | closes hclosed =>
    exact .closes (hclosed.imp (And.imp MadeAfterEnd.later MadeAfterEnd.later) mem_discarded_snoc)

/-- What a machine keeps of a task follows from its course. -/
theorem Run.fate (hstart : start.Fresh settings) (run : Run settings start trace m) (task : Nat)
    (delivery : Delivery V) (hdelivery : m.world.executor.delivery? task = some delivery) :
    Fate task trace delivery := by
  induction run generalizing delivery with
  | rest =>
    obtain ⟨partitions, pool, hexecutor⟩ := hstart.executor
    rw [Executor.of] at hexecutor
    split at hexecutor
    · simp [Executor.delivery?, ← Except.ok.inj hexecutor] at hdelivery
    · cases hexecutor
  | @move trace p run hp ih =>
    have hafter := run.move hp
    cases hp.treats (run.reachable hstart) task with
    | keeps hsame hends hdropped hjoin hhang =>
      rw [hsame] at hdelivery
      exact (ih delivery hdelivery).keeps hends hdropped
        (fun h outcome sending hready => hjoin h outcome sending (hready ▸ hdelivery)) hhang
    | accepts hnone hpending hending hdropped =>
      obtain rfl := Option.some.inj (hpending.symm.trans hdelivery)
      have hsize := Executor.delivery?_eq_none_iff.mp hnone
      have hexits : ¬ 0 < exits (ledgerOf trace) task := fun hpos =>
        Nat.not_lt.mpr hsize ((run.conserves hstart).lt_size_of_exits hpos)
      have hle := run.begun_add_discarded_le hstart task
      have hbegun := run.endings_le_begun hstart task
      exact .lies_snoc (List.count_eq_zero.mp (by omega)) (List.count_eq_zero.mp (by omega))
        (by simp [hending]) hdropped
    | @ends signal hending hdispatch hready =>
      obtain rfl : .ready signal.outcome true = delivery := by
        rw [hdelivery, eq_comm, Option.map_eq_some_iff] at hready
        obtain ⟨-, -, h⟩ := hready
        exact h
      -- The task has not ended before, so nothing was made after its end.
      have hopen : task ∉ (endings trace).map Prod.fst := fun hended => by
        have hle := hafter.endings_add_discarded_le hstart task
        have hpos := List.count_pos_iff.mpr hended
        rw [endings_snoc, hending, List.map_append, List.count_append] at hle
        simp at hle
        omega
      have hnot : ∀ stage, ¬ MadeAfterEnd stage task (trace ++ [p]) := fun stage hmade =>
        hopen ((madeAfterEnd_snoc_of_ne (by simp [hdispatch])).mp hmade).ended
      exact .awaits (by simp [endings_snoc, hending]) (hnot _) (iff_of_true rfl (hnot _))
    | drops hdropped hclosed =>
      obtain rfl : .closed = delivery := by
        rw [hdelivery, eq_comm, Option.map_eq_some_iff] at hclosed
        obtain ⟨-, -, h⟩ := hclosed
        exact h
      exact .closes (.inr (by rw [discarded_snoc]; exact List.mem_append_right _ hdropped))
    | handsOut hjoin hready hclosed =>
      obtain rfl := Option.some.inj (hclosed.symm.trans hdelivery)
      exact (ih _ hready).handsOut hjoin
    | letsGo hhang hending hdropped hgone =>
      obtain ⟨before, hbefore, rfl⟩ := Option.map_eq_some_iff.mp (hgone.symm.trans hdelivery)
      exact (ih before hbefore).letsGo hhang hending hdropped

end Runs

end SharedCache
