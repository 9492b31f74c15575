import SharedCache.Proofs.Executor.Passages

/-!
# What waits

The tasks that wait in a queue are those that were submitted to its partition and have not left it,
in the order of their submission.  A task leaves its queue when it is started, when it is handed
back, or when nobody is left to run it.  The last of these leaves no event, so a ledger is kept here
in which forsaken tasks are entered like those that were handed back; the laws of conservation hold
of the ledger of every run.
-/

namespace SharedCache

variable {K V Q R : Type}

/-- Whether a step may leave the tasks that wait with nobody to run them. -/
def Dispatch.forsakes : Dispatch K V Q R → Bool
  | .loseJob _ | .retire | .release => true
  | _ => false

/-- Whether a passage is such a step. -/
def Passage.forsakes (p : Passage K V Q R) : Bool := p.dispatch?.any Dispatch.forsakes

namespace Executor

variable {e e' : Executor K V Q R} {events new : List (Event K V)}
  {done given base : List (Duty K V Q R)} {rosters : List (List (Duty K V Q R))}

/-! ## Steps -/

/-- The queues are emptied, since neither an owner nor a job is left. -/
structure Clears (e e' : Executor K V Q R) : Prop where
  phase : e.phase ≠ .running
  owned : e'.owned = false
  carriers : e'.carriers = 0
  queue : ∀ q, (e'.partition q).queue = []
  tasks : e'.tasks.size = e.tasks.size
  handedBack : e'.handedBack ⊆ e.handedBack

theorem settleForsaken_cases (e : Executor K V Q R) :
    e.settleForsaken = e ∨
      e.owned = false ∧ e.carriers = 0 ∧ ∀ q, (e.settleForsaken.partition q).queue = [] := by
  rw [settleForsaken]
  split
  · exact .inl rfl
  · rename_i hforsaken
    obtain ⟨howned, hcarriers⟩ : e.owned = false ∧ e.carriers = 0 := by simpa using hforsaken
    refine .inr ⟨howned, hcarriers, fun q => ?_⟩
    simp only [partition, Array.getElem?_map]
    cases e.partitions[q]? <;> rfl

/-- Letting go of forsaken tasks empties all queues or none. -/
theorem moves_or_clears {e₀ : Executor K V Q R} (hpartition : ∀ q, e₀.partition q = e.partition q)
    (htasks : e₀.tasks = e.tasks) (hback : e₀.handedBack = e.handedBack)
    (hphase : e₀.owned = false → e.phase ≠ .running) :
    e.Moves e₀.settleForsaken [] ∨ e.Clears e₀.settleForsaken := by
  have hsettles := settles_settleForsaken e₀
  have hsize : e₀.settleForsaken.tasks.size = e.tasks.size := by rw [hsettles.tasks, htasks]
  have hsubset : e₀.settleForsaken.handedBack ⊆ e.handedBack := hback ▸ hsettles.handedBack
  rcases e₀.settleForsaken_cases with hsame | ⟨howned, hcarriers, hqueue⟩
  · refine .inl (.rests (fun q => ?_) hsize hsubset fun _ => rfl)
    rw [hsame, hpartition]
  · exact .inr ⟨hphase howned, hsettles.owned.trans howned, hsettles.carriers.trans hcarriers,
      hqueue, hsize, hsubset⟩

/-- Whatever a thread does to an executor, it does to the queues one of these things. -/
theorem Guarded.moves {i : Nat} (hguarded : e.Guarded rosters)
    (hroster : rosters[i]? = some (done ++ base)) (hdoes : e.Does e' events done given) :
    e.Moves e' events ∨ e.Clears e' ∧ events = [] ∧
      ∃ stage, done = [.act stage] ∧ stage.forsakes = true := by
  have hmem : ∀ d ∈ done, d ∈ rosters.flatten := fun d hd =>
    List.mem_flatten_of_mem (List.mem_of_getElem? hroster) (List.mem_append_left _ hd)
  have hshut : e.owned = false → e.phase ≠ .running := fun howned hphase => by
    rw [hguarded.owned hphase] at howned
    cases howned
  have hcases := hdoes.moves_or_forsakes (fun d hd => hguarded.fills d (hmem d hd))
    (fun d hd _ => hguarded.size (hmem d hd)) (fun d hd => hguarded.phase_eq_running (hmem d hd))
    (fun d hd => hguarded.phase_ne_running (hd ▸ hroster))
  refine hcases.elim .inl ?_
  rintro ⟨rfl, hforsakes⟩
  cases hforsakes with
  | loses | retires =>
    refine Or.imp_right (fun hclears => ⟨hclears, rfl, _, rfl, rfl⟩) ?_
    exact moves_or_clears (fun _ => rfl) rfl rfl hshut
  | releases =>
    have hphase := hguarded.phase_ne_running hroster rfl
    refine Or.imp_right (fun hclears => ⟨hclears, rfl, _, rfl, rfl⟩) ?_
    exact moves_or_clears (fun _ => rfl) rfl rfl fun _ => hphase

/-! ## The ledger -/

/-- The tasks that leave a queue though some events tell neither of their start nor of their being
handed back. -/
def forsaken (e e' : Executor K V Q R) (events : List (Event K V)) (q : Nat) : List Nat :=
  (e.partition q).queue.filter fun task => task ∉ (e'.partition q).queue ∧
    task ∉ tasksOf .started q events ∧ task ∉ tasksOf .handedBack q events

/-- The entries of one step in the ledger: its events, and the forsaken tasks as if they were handed
back. -/
def entries (e e' : Executor K V Q R) (events : List (Event K V)) : List (Event K V) :=
  events ++ (List.range e.partitions.size).flatMap fun q =>
    Movement.handedBack.events q (e.forsaken e' events q)

theorem queue_of_size_le {q : Nat} (hq : e.partitions.size ≤ q) : (e.partition q).queue = [] := by
  rw [partition, Array.getElem?_eq_none hq]
  rfl

theorem forsaken_of_moves (hmoves : e.Moves e' new) (q : Nat) : e.forsaken e' new q = [] := by
  rw [forsaken, List.filter_eq_nil_iff]
  intro task htask
  rw [decide_eq_true_eq]
  rintro ⟨hgone, hstarted, hback⟩
  cases hmoves with
  | rests hqueue =>
    rw [hqueue] at hgone
    exact hgone htask
  | @joins p _ hqueue =>
    rw [hqueue] at hgone
    split at hgone
    · rename_i hq
      exact hgone (List.mem_append_left _ (hq ▸ htask))
    · exact hgone htask
  | @leaves p head rest hhead hqueue =>
    rw [hqueue] at hgone
    split at hgone
    · rename_i hq
      subst hq
      rw [hhead] at htask
      rcases List.mem_cons.mp htask with rfl | hrest
      · exact hstarted (by simp)
      · exact hgone hrest
    · exact hgone htask
  | @returns p _ hqueue =>
    rw [hqueue] at hgone
    split at hgone
    · rename_i hq
      subst hq
      exact hback (by simpa using htask)
    · exact hgone htask

theorem forsaken_of_clears (hclears : e.Clears e') (q : Nat) :
    e.forsaken e' [] q = (e.partition q).queue := by
  rw [forsaken, List.filter_eq_self]
  intro task _
  simp [hclears.queue q]

theorem entries_of_moves (hmoves : e.Moves e' new) : e.entries e' new = new := by
  rw [entries, List.flatMap_eq_nil_iff.mpr fun q _ => ?_, List.append_nil]
  rw [forsaken_of_moves hmoves]
  rfl

/-- What the entries of a step tell of a partition. -/
theorem tasksOf_entries (kind : Movement) (q : Nat) :
    tasksOf kind q (e.entries e' new) = tasksOf kind q new ++
      if kind = .handedBack then e.forsaken e' new q else [] := by
  have hranged : ∀ n, tasksOf kind q ((List.range n).flatMap fun r =>
      (Movement.handedBack.events r (e.forsaken e' new r) : List (Event K V))) =
        if kind = .handedBack ∧ q < n then e.forsaken e' new q else [] := by
    intro n
    induction n with
    | zero => simp
    | succ n ih =>
      rw [List.range_succ, List.flatMap_append, tasksOf_append, ih, List.flatMap_singleton,
        tasksOf_events]
      rcases Nat.lt_trichotomy q n with hlt | rfl | hgt
      · have hne : n ≠ q := by omega
        simp [hlt, hne, Nat.lt_succ_of_lt hlt]
      · simp [eq_comm]
      · have hne : n ≠ q := by omega
        have hnot : ¬ q < n := by omega
        have hnot' : ¬ q < n + 1 := by omega
        simp [hnot, hnot', hne]
  rw [entries, tasksOf_append, hranged]
  congr 1
  by_cases hq : q < e.partitions.size
  · simp [hq]
  · have hnone : e.forsaken e' new q = [] := by
      rw [forsaken, queue_of_size_le (Nat.le_of_not_lt hq)]
      rfl
    simp [hnone]

/-- Only what is forsaken is entered besides the events. -/
theorem movements_entries {kind : Movement} (hkind : kind ≠ .handedBack) :
    movements kind (e.entries e' new) = movements kind new := by
  have hnone : ∀ queues : List Nat, movements kind (queues.flatMap fun q =>
      (Movement.handedBack.events q (e.forsaken e' new q) : List (Event K V))) = [] := by
    intro queues
    induction queues with
    | nil => rfl
    | cons q queues ih =>
      rw [List.flatMap_cons, movements_append, ih, movements_events, if_neg (Ne.symm hkind)]
      rfl
  rw [entries, movements_append, hnone, List.append_nil]

theorem Conserves.cleared (hconserves : e.Conserves events) (hclears : e.Clears e')
    (hphase : e'.phase = .running → e.phase = .running) :
    e'.Conserves (events ++ e.entries e' []) := by
  have hentries : ∀ kind q, tasksOf kind q (e.entries e' []) =
      if kind = .handedBack then e.forsaken e' [] q else [] := tasksOf_entries
  refine ⟨fun q => ?_, ?_, fun q _ => ?_, fun entry hentry => ?_⟩
  · rw [tasksOf_append, tasksOf_append, tasksOf_append, hentries, hentries, hentries,
      forsaken_of_clears hclears, hclears.queue, hconserves.conserved q]
    simp
  · rw [movements_append, movements_entries (by simp), movements_nil, List.append_nil,
      hconserves.numbered, hclears.tasks]
  · exact ⟨hclears.queue q, fun h => hclears.phase (hphase h)⟩
  · rw [movements_append]
    exact List.mem_append_left _ (hconserves.handedBack entry (hclears.handedBack hentry))

/-- The tasks that are left of those submitted are those that wait. -/
theorem Conserves.filter_submitted (hconserves : e.Conserves events) (q : Nat) :
    ((tasksOf .submitted q events).filter fun task =>
      task ∉ tasksOf .started q events ∧ task ∉ tasksOf .handedBack q events) =
        (e.partition q).queue := by
  have hnodup := hconserves.nodup q
  have hgone : ∀ task ∈ tasksOf .started q events ++ tasksOf .handedBack q events,
      ¬ (task ∉ tasksOf .started q events ∧ task ∉ tasksOf .handedBack q events) :=
    fun task htask hnot => (List.mem_append.mp htask).elim hnot.1 hnot.2
  have hleft : ∀ task ∈ (e.partition q).queue,
      task ∉ tasksOf .started q events ∧ task ∉ tasksOf .handedBack q events :=
    fun task htask => hconserves.fresh_of_queue htask
  rw [hconserves.conserved q, List.filter_append, List.filter_eq_nil_iff.mpr fun task htask => ?_,
    List.filter_eq_self.mpr fun task htask => ?_, List.nil_append]
  · exact decide_eq_true (hleft task htask)
  · simpa only [decide_eq_true_eq] using hgone task htask

end Executor

/-! ## Runs -/

/-- The tasks that leave a queue in a passage and are neither started nor handed back: nobody is
left to run them. -/
def Passage.forsaken (p : Passage K V Q R) (q : Nat) : List Nat :=
  p.before.world.executor.forsaken p.after.world.executor p.events q

/-- The entries of all passages. -/
def ledgerOf (trace : List (Passage K V Q R)) : List (Event K V) :=
  trace.flatMap fun p => p.before.world.executor.entries p.after.world.executor p.events

/-- The tasks that were taken out of a queue in the course of a run, and not to be started: they
were handed back or forsaken. -/
def withdrawn (q : Nat) (trace : List (Passage K V Q R)) : List Nat :=
  tasksOf .handedBack q (eventsOf trace) ++ trace.flatMap (·.forsaken q)

/-- The tasks that were submitted to a partition and have been neither started nor withdrawn, in the
order of their submission. -/
def waiting (q : Nat) (trace : List (Passage K V Q R)) : List Nat :=
  (tasksOf .submitted q (eventsOf trace)).filter fun task =>
    task ∉ tasksOf .started q (eventsOf trace) ∧ task ∉ withdrawn q trace

section Ledger

variable {trace : List (Passage K V Q R)} {p : Passage K V Q R} {q task : Nat}

theorem eventsOf_cons : eventsOf (p :: trace) = p.events ++ eventsOf trace := List.flatMap_cons

theorem ledgerOf_snoc : ledgerOf (trace ++ [p]) =
    ledgerOf trace ++ p.before.world.executor.entries p.after.world.executor p.events := by
  simp [ledgerOf]

theorem tasksOf_ledgerOf {kind : Movement} (hkind : kind ≠ .handedBack) :
    tasksOf kind q (ledgerOf trace) = tasksOf kind q (eventsOf trace) := by
  induction trace with
  | nil => rfl
  | cons p trace ih =>
    rw [ledgerOf, List.flatMap_cons, tasksOf_append, Executor.tasksOf_entries, if_neg hkind,
      List.append_nil, eventsOf_cons, tasksOf_append, ← ih]
    rfl

theorem mem_withdrawn_iff :
    task ∈ withdrawn q trace ↔ task ∈ tasksOf .handedBack q (ledgerOf trace) := by
  induction trace with
  | nil => simp [withdrawn, ledgerOf, eventsOf]
  | cons p trace ih =>
    have hhead : task ∈ tasksOf .handedBack q
        (p.before.world.executor.entries p.after.world.executor p.events) ↔
          task ∈ tasksOf .handedBack q p.events ∨ task ∈ p.forsaken q := by
      rw [Executor.tasksOf_entries, if_pos rfl, List.mem_append, Passage.forsaken]
    rw [ledgerOf, List.flatMap_cons, tasksOf_append, List.mem_append, hhead, ← ledgerOf, ← ih,
      withdrawn, withdrawn, eventsOf_cons, tasksOf_append, List.flatMap_cons]
    simp only [List.mem_append]
    tauto

variable [DecidableEq K] [DecidableEq V] {settings : Settings K V Q R} {start m : Machine K V Q R}

/-- A passage does one of five things to the queues. -/
theorem Passage.Lawful.moves (hp : p.Lawful settings) (hm : p.before.Reachable settings) :
    p.before.world.executor.Moves p.after.world.executor p.events ∨
      p.before.world.executor.Clears p.after.world.executor ∧ p.events = [] ∧
        p.forsakes = true := by
  cases hp.serves hm with
  | outside hevents hexecutor =>
    rw [hexecutor, hevents]
    exact .inl (.rests (fun _ => rfl) rfl (List.Subset.refl _) fun _ => rfl)
  | step hroster _ hdispatch hdoes =>
    refine (hm.guarded.moves hroster hdoes).imp_right ?_
    rintro ⟨hclears, hevents, stage, hdone, hstage⟩
    exact ⟨hclears, hevents, by rw [Passage.forsakes, hdispatch stage hdone]; exact hstage⟩

theorem Passage.Lawful.phase_running (hp : p.Lawful settings) (hm : p.before.Reachable settings)
    (hphase : p.after.world.executor.phase = .running) :
    p.before.world.executor.phase = .running := by
  cases hp.serves hm with
  | outside _ hexecutor => rw [← hexecutor, hphase]
  | step _ _ _ hdoes => exact hdoes.phase_eq hphase

/-- The laws of conservation hold of the ledger of every run. -/
theorem Run.conserves (hstart : start.Fresh settings) (run : Run settings start trace m) :
    m.world.executor.Conserves (ledgerOf trace) := by
  induction run with
  | rest =>
    obtain ⟨partitions, pool, hexecutor⟩ := hstart.executor
    exact Executor.conserves_of hexecutor
  | move run hp ih =>
    have hm := run.reachable hstart
    rw [ledgerOf_snoc]
    rcases hp.moves hm with hmoves | ⟨hclears, hevents, -⟩
    · rw [Executor.entries_of_moves hmoves]
      exact ih.step hmoves (hp.phase_running hm)
    · rw [hevents]
      exact ih.cleared hclears (hp.phase_running hm)

/-- The queue of a partition is what waits. -/
theorem Run.queue_eq (hstart : start.Fresh settings) (run : Run settings start trace m) (q : Nat) :
    (m.world.executor.partition q).queue = waiting q trace := by
  rw [← (run.conserves hstart).filter_submitted q, waiting,
    tasksOf_ledgerOf (by simp : Movement.submitted ≠ .handedBack),
    tasksOf_ledgerOf (by simp : Movement.started ≠ .handedBack)]
  simp only [mem_withdrawn_iff]

end Ledger

end SharedCache
