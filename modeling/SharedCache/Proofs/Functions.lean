import SharedCache.Proofs.Bookkeeping

/-!
# Mapping functions

Which mapping functions have been called in the course of a run, which of them have ended, and what
the statistics say about them.  A function that has been called runs until it hands its end to its
computation, and that end is counted there: a value or nothing as a success, an error as a failure.
A panic leaves through the same frame but is not counted at all, so the counters add up to the
number of calls only in runs without one.
-/

namespace SharedCache

variable {K V Q R : Type}

/-- How a mapping function can end, as far as the statistics tell. -/
def Signal.succeeds : Signal V → Bool
  | .done (.complaint _) | .raised _ => false
  | .done _ => true

/-- Whether a mapping function has returned an error. -/
def Signal.complains : Signal V → Bool
  | .done (.complaint _) => true
  | _ => false

/-- Whether a mapping function has panicked. -/
def Signal.panics : Signal V → Bool
  | .raised _ => true
  | .done _ => false

/-- The fault of the computation whose mapping function runs above the frame. -/
def Frame.function? : Frame K V Q R → Option Nat
  | .computing c => some c.fault
  | _ => none

/-- The mapping functions that are running, by the faults of their computations. -/
def Machine.functions (m : Machine K V Q R) : List Nat :=
  m.threads.toList.flatMap fun t => t.stack.filterMap Frame.function?

/-- The mapping functions that a passage calls. -/
def Passage.functions (p : Passage K V Q R) : List Nat :=
  (mappings p.events).map fun call => call.2.1

/-- The mapping function that ends in a passage, and how it ends. -/
def Passage.functionEnd? (p : Passage K V Q R) : Option (Nat × Signal V) :=
  match p.thread? with
  | some ⟨.settle signal, .computing c :: _, _⟩ => some (c.fault, signal)
  | _ => none

/-- The mapping functions that were called in the course of a run. -/
def functionsCalled (trace : List (Passage K V Q R)) : List Nat := trace.flatMap Passage.functions

/-- The mapping functions that have ended in the course of a run, and how. -/
def functionsEnded (trace : List (Passage K V Q R)) : List (Nat × Signal V) :=
  trace.filterMap Passage.functionEnd?

/-! ## Running functions -/

/-- The mapping function that runs in a computation. -/
def Ongoing.function? : Ongoing K V Q R → Option Nat
  | .computes c .running => some c.fault
  | _ => none

section Ongoing

theorem Stage.functions_ongoing (stage : Stage K V Q R) :
    stage.ongoing.filterMap Ongoing.function? = [] := by
  cases stage <;> rfl

theorem Activity.functions_ongoing (a : Activity K V Q R) :
    a.ongoing.filterMap Ongoing.function? = [] := by
  induction a with
  | enter _ inside ih => exact ih
  | keep stage => exact stage.functions_ongoing
  | code script => rfl
  | settle signal => rfl
  | dispatch stage => rfl

theorem Frame.functions_ongoing (frame : Frame K V Q R) :
    frame.ongoing.filterMap Ongoing.function? = frame.function?.toList := by
  cases frame with
  | next a => exact a.functions_ongoing
  | _ => rfl

theorem functions_stackOngoing (stack : List (Frame K V Q R)) :
    (stackOngoing stack).filterMap Ongoing.function? = stack.filterMap Frame.function? := by
  induction stack with
  | nil => rfl
  | cons frame stack ih =>
    rw [stackOngoing_cons, List.filterMap_append, ih, frame.functions_ongoing,
      List.filterMap_cons]
    cases frame.function? <;> rfl

/-- The functions that are running are found among what is going on. -/
theorem Machine.functions_eq (m : Machine K V Q R) :
    m.functions = m.ongoing.filterMap Ongoing.function? := by
  rw [Machine.functions, Machine.ongoing, List.filterMap_flatMap]
  refine List.flatMap_congr fun t _ => ?_
  rw [Thread.ongoing, List.filterMap_append, Activity.functions_ongoing, functions_stackOngoing]
  rfl

end Ongoing

variable [DecidableEq K] [DecidableEq V] {settings : Settings K V Q R}

/-! ## One passage -/

section Passages

variable {p : Passage K V Q R} {s : Store K V} {stage : Stage K V Q R} {turn : StoreTurn K V Q R}

omit [DecidableEq K] [DecidableEq V] in
theorem Turn.functions_ongoing (turn : StoreTurn K V Q R) :
    turn.ongoing.filterMap Ongoing.function? = turn.frames.filterMap Frame.function? := by
  rw [Turn.ongoing, List.filterMap_append, Activity.functions_ongoing, functions_stackOngoing]
  rfl

/-- A section runs the very functions that it calls. -/
theorem Stage.Deed.functions (hdeed : stage.Deed settings s turn)
    (hquiet : (∀ c, stage ≠ .own c) → mappings turn.events = []) :
    turn.ongoing.filterMap Ongoing.function? =
      (mappings turn.events).map fun call => call.2.1 := by
  have hnone : (∀ c, stage ≠ .own c) → turn.ongoing.filterMap Ongoing.function? = [] →
      turn.ongoing.filterMap Ongoing.function? =
        (mappings turn.events).map fun call => call.2.1 := by
    intro hstage hrests
    rw [hrests, hquiet hstage]
    rfl
  have hkeeps : (∀ c, stage ≠ .own c) → turn.frames = [] →
      turn.ongoing.filterMap Ongoing.function? =
        (mappings turn.events).map fun call => call.2.1 := by
    intro hstage hframes
    exact hnone hstage (by rw [turn.functions_ongoing, hframes]; rfl)
  have hidle : (∀ c, stage ≠ .own c) → turn.ongoing = [] →
      turn.ongoing.filterMap Ongoing.function? =
        (mappings turn.events).map fun call => call.2.1 := by
    intro hstage hidle
    exact hnone hstage (by rw [hidle]; rfl)
  cases hdeed with
  | visits hvisit =>
    refine hnone (by simp) ?_
    cases hvisit with
    | keeps _ _ hstill => rw [hstill.ongoing]; rfl
    | waits _ _ _ _ hframes => rw [turn.functions_ongoing, hframes]; rfl
    | writes _ _ _ _ _ _ _ hongoing => rw [hongoing]; rfl
    | removes _ _ _ _ hongoing => rw [hongoing]; rfl
    | begins _ _ _ _ _ _ _ hongoing => rw [hongoing]; rfl
  | keeps hongoing hstill =>
    refine hidle ?_ hstill.ongoing
    rintro c rfl
    cases hongoing
  | looks _ hframes => exact hkeeps (by simp) hframes
  | resumes _ _ _ hframes => exact hkeeps (by simp) hframes
  | shares _ _ hstill => exact hidle (by simp) hstill.ongoing
  | givesUp _ _ hstill => exact hidle (by simp) hstill.ongoing
  | expels hstage _ _ _ hongoing =>
    refine hidle ?_ hongoing
    rintro c rfl
    rcases hstage with hstage | ⟨_, _, hstage⟩ <;> cases hstage
  | sweeps _ _ hongoing => exact hidle (by simp) hongoing
  | calls _ _ hframes hmappings =>
    rw [turn.functions_ongoing, hframes, hmappings]
    rfl
  | unwinds hcause _ _ hframes =>
    have hmappings : mappings turn.events = [] := by
      rcases hcause with ⟨-, hmappings⟩ | ⟨value, rfl⟩
      · exact hmappings
      · exact hquiet (by simp)
    rw [turn.functions_ongoing, hframes, hmappings]
    rfl
  | composes _ _ _ _ hframes => exact hkeeps (by simp) hframes
  | ends hstage _ _ hongoing =>
    refine hidle ?_ hongoing
    rintro c rfl
    cases hstage

/-- A passage that is no turn of a computation to call its function calls none. -/
theorem Passage.Lawful.functions_eq_nil (hp : p.Lawful settings)
    (hstage : ∀ c, p.stage? ≠ some (.own c)) : p.functions = [] := by
  cases hp.course with
  | outside _ _ hevents =>
    rw [Passage.functions, hevents]
    rfl
  | step hmover ht hstride _ hevents =>
    rw [Passage.functions, hevents, hstride.mappings_eq_nil fun c hactivity =>
      hstage c (Passage.stage?_of_keep hmover ht hactivity)]
    rfl

omit [DecidableEq K] [DecidableEq V] in
theorem Passage.functionEnd?_eq_some {fault : Nat} {signal : Signal V} :
    p.functionEnd? = some (fault, signal) ↔ ∃ t c rest, p.thread? = some t ∧
      t.activity = .settle signal ∧ t.stack = .computing c :: rest ∧ c.fault = fault := by
  rw [Passage.functionEnd?]
  constructor
  · intro hending
    split at hending
    · obtain ⟨rfl, rfl⟩ := Prod.mk.inj (Option.some.inj hending)
      exact ⟨_, _, _, ‹_›, rfl, rfl, rfl⟩
    · cases hending
  · rintro ⟨⟨activity, stack, binding⟩, c, rest, hthread, rfl, rfl, rfl⟩
    rw [hthread]

omit [DecidableEq K] [DecidableEq V] in
theorem Passage.functionEnd?_eq_none (hnone : ∀ t, p.thread? = some t → ∀ signal c rest,
    t.activity = .settle signal → t.stack ≠ .computing c :: rest) : p.functionEnd? = none := by
  refine Option.eq_none_iff_forall_ne_some.mpr ?_
  rintro ⟨fault, signal⟩ hending
  obtain ⟨t, c, rest, hthread, hactivity, hstack, -⟩ := Passage.functionEnd?_eq_some.mp hending
  exact hnone t hthread signal c rest hactivity hstack

omit [DecidableEq K] [DecidableEq V] in
theorem Passage.functionEnd?_eq_none_of_thread {t : Thread K V Q R} (ht : p.thread? = some t)
    (hnone : ∀ signal c rest, t.activity = .settle signal → t.stack ≠ .computing c :: rest) :
    p.functionEnd? = none :=
  Passage.functionEnd?_eq_none fun _ ht' => Option.some.inj (ht.symm.trans ht') ▸ hnone

/-- Functions that are called begin to run, and functions that end do not run any more. -/
theorem Passage.Lawful.count_functions (hp : p.Lawful settings) (fault : Nat) :
    p.functions.count fault + p.before.functions.count fault =
      (p.functionEnd?.toList.map Prod.fst).count fault + p.after.functions.count fault := by
  obtain ⟨front, old, new, back, hbefore, hafter, hturnover⟩ := hp.turnover
  rw [Machine.functions_eq, Machine.functions_eq, hbefore, hafter]
  simp only [List.filterMap_append, List.count_append]
  have hquiet : ∀ t, p.thread? = some t → (∀ stage, t.activity ≠ .keep stage) →
      p.functions = [] := by
    intro t hthread hactivity
    refine hp.functions_eq_nil fun c hstage => ?_
    obtain ⟨i, t', hmover, ht', hown⟩ := Passage.keep_of_stage? hstage
    obtain rfl := Option.some.inj (hthread.symm.trans (Passage.thread?_eq hmover ht'))
    exact hactivity _ hown
  cases hturnover with
  | rests hrests =>
    have hfunctions : p.functions = [] := by
      cases hthread : p.thread? with
      | none =>
        refine hp.functions_eq_nil fun c hstage => ?_
        obtain ⟨i, t', hmover, ht', -⟩ := Passage.keep_of_stage? hstage
        cases hthread.symm.trans (Passage.thread?_eq hmover ht')
      | some t => exact hquiet t hthread (hrests t hthread).1
    have hending : p.functionEnd? = none :=
      Passage.functionEnd?_eq_none fun t hthread => (hrests t hthread).2.2
    simp [hfunctions, hending]
  | @calls t operation code hthread hactivity =>
    have hending := Passage.functionEnd?_eq_none_of_thread hthread (by simp [hactivity])
    have hseeks :
        [Ongoing.seeks (operation.stored settings)].filterMap Ongoing.function? = [] := rfl
    simp [hquiet t hthread (by simp [hactivity]), hending, hseeks]
  | @drops t panic a rest hthread hactivity hstack =>
    have hending := Passage.functionEnd?_eq_none_of_thread hthread (by simp [hstack])
    simp [hquiet t hthread (by simp [hactivity]), hending, a.functions_ongoing]
  | @moves t signal c rest hthread hactivity hstack =>
    have hending := Passage.functionEnd?_eq_some.mpr ⟨t, c, rest, hthread, hactivity, hstack, rfl⟩
    have hmoved : [Ongoing.computes c (c.progress signal)].filterMap Ongoing.function? = [] := by
      obtain ⟨-, -, stage, -, hstage⟩ := p.before.world.store.mapped_spec c signal
      rw [← hstage, stage.functions_ongoing]
    have hran : [Ongoing.computes c .running].filterMap Ongoing.function? = [c.fault] := rfl
    rw [hquiet t hthread (by simp [hactivity]), hending, hmoved, hran]
    simp only [List.count_nil, Option.toList_some, List.map_cons, List.map_nil]
    omega
  | @acts stage turn hsection hdeed =>
    obtain ⟨i, t, hmover, ht, hactivity⟩ := Passage.keep_of_stage? hsection.stage
    have hending :=
      Passage.functionEnd?_eq_none_of_thread (Passage.thread?_eq hmover ht) (by simp [hactivity])
    have hcalled := hdeed.functions fun hstage => by
      have hnone := hp.functions_eq_nil fun c hown =>
        hstage c (Option.some.inj (hsection.stage.symm.trans hown))
      rw [← hsection.events]
      exact List.map_eq_nil_iff.mp hnone
    rw [hending, hcalled, stage.functions_ongoing, Passage.functions, hsection.events]
    simp only [List.count_nil, Option.toList_none, List.map_nil]
    omega

omit [DecidableEq K] [DecidableEq V] in
theorem Stage.computes_record (stage : Stage K V Q R) (statistics : Statistics) :
    (stage.record statistics).computeSuccesses = statistics.computeSuccesses ∧
      (stage.record statistics).computeFailures = statistics.computeFailures := by
  cases stage with
  | own c =>
    rw [Stage.record]
    split <;> exact ⟨rfl, rfl⟩
  | report key h cause => cases cause <;> exact ⟨rfl, rfl⟩
  | _ => exact ⟨rfl, rfl⟩

omit [DecidableEq K] [DecidableEq V] in
theorem Signal.computes_record (signal : Signal V) (statistics : Statistics) :
    (signal.record statistics).computeSuccesses =
        statistics.computeSuccesses + signal.succeeds.toNat ∧
      (signal.record statistics).computeFailures =
        statistics.computeFailures + signal.complains.toNat := by
  cases signal with
  | raised p => exact ⟨rfl, rfl⟩
  | done answer => cases answer <;> exact ⟨rfl, rfl⟩

/-- The end of a function is counted as a success or as a failure, unless it is a panic, and nothing
else is counted as either. -/
theorem Passage.Lawful.computes_eq (hp : p.Lawful settings) :
    p.after.world.store.statistics.computeSuccesses =
        p.before.world.store.statistics.computeSuccesses +
          p.functionEnd?.toList.countP (fun ended => ended.2.succeeds) ∧
      p.after.world.store.statistics.computeFailures =
        p.before.world.store.statistics.computeFailures +
          p.functionEnd?.toList.countP (fun ended => ended.2.complains) := by
  rw [hp.statistics_eq, Passage.record, Passage.functionEnd?]
  rcases p.thread? with _ | ⟨activity, stack, binding⟩
  · exact ⟨rfl, rfl⟩
  cases activity with
  | keep stage => exact stage.computes_record _
  | settle signal =>
    rcases stack with _ | ⟨frame, rest⟩
    · exact ⟨rfl, rfl⟩
    cases frame with
    | computing c =>
      obtain ⟨hsuccesses, hfailures⟩ := signal.computes_record p.before.world.store.statistics
      simp only [hsuccesses, hfailures, Option.toList_some, List.countP_singleton]
      cases signal.succeeds <;> cases signal.complains <;> exact ⟨rfl, rfl⟩
    | _ => exact ⟨rfl, rfl⟩
  | _ => exact ⟨rfl, rfl⟩

end Passages

/-! ## Runs -/

/-- What the statistics tell about the mapping functions of a run. -/
structure CountsFunctions (trace : List (Passage K V Q R)) (m : Machine K V Q R) : Prop where
  /-- The functions that were called have ended or are running. -/
  called : (functionsCalled trace).Perm ((functionsEnded trace).map Prod.fst ++ m.functions)
  /-- A function that has returned a value or nothing is one success. -/
  successes : m.world.store.statistics.computeSuccesses =
    (functionsEnded trace).countP fun ended => ended.2.succeeds
  /-- A function that has returned an error is one failure. -/
  failures : m.world.store.statistics.computeFailures =
    (functionsEnded trace).countP fun ended => ended.2.complains
  /-- While no function is running, the counters add up to the functions that were called and have
  not panicked. -/
  balance : m.functions = [] →
    m.world.store.statistics.computeSuccesses + m.world.store.statistics.computeFailures +
        (functionsEnded trace).countP (fun ended => ended.2.panics) =
      (functionsCalled trace).length
  /-- They add up to all of the calls just when no function has panicked. -/
  exact_iff : m.functions = [] →
    (m.world.store.statistics.computeSuccesses + m.world.store.statistics.computeFailures =
        (functionsCalled trace).length ↔
      ∀ ended ∈ functionsEnded trace, ended.2.panics = false)

section Runs

variable {start m : Machine K V Q R} {trace : List (Passage K V Q R)}

omit [DecidableEq K] [DecidableEq V] in
/-- A function that has ended has succeeded, complained or panicked. -/
theorem countP_ends (ends : List (Nat × Signal V)) :
    ends.countP (fun ended => ended.2.succeeds) + ends.countP (fun ended => ended.2.complains) +
      ends.countP (fun ended => ended.2.panics) = ends.length := by
  induction ends with
  | nil => rfl
  | cons ended ends ih =>
    obtain ⟨fault, signal⟩ := ended
    have hone : (if signal.succeeds then 1 else 0) + (if signal.complains then 1 else 0) +
        (if signal.panics then 1 else 0) = 1 := by
      cases signal with
      | raised p => rfl
      | done answer => cases answer <;> rfl
    simp only [List.countP_cons, List.length_cons]
    omega

/-- Every mapping function that has ended is counted, whatever became of its result, except those
that have panicked. -/
theorem Run.countsFunctions (hstart : start.Fresh settings) (run : Run settings start trace m) :
    CountsFunctions trace m := by
  obtain ⟨hperm, hsuccesses, hfailures⟩ :
      (functionsCalled trace).Perm ((functionsEnded trace).map Prod.fst ++ m.functions) ∧
        m.world.store.statistics.computeSuccesses =
          (functionsEnded trace).countP (fun ended => ended.2.succeeds) ∧
        m.world.store.statistics.computeFailures =
          (functionsEnded trace).countP (fun ended => ended.2.complains) := by
    induction run with
    | rest =>
      obtain ⟨h, hstore⟩ := Store.of_eq_ok hstart.store
      have hnone : start.functions = [] := by simp [Machine.functions, hstart.threads]
      rw [hnone, hstore]
      exact ⟨.nil, rfl, rfl⟩
    | @move trace p _ hp ih =>
      obtain ⟨hperm, hsuccesses, hfailures⟩ := ih
      obtain ⟨hsucceeds, hfails⟩ := hp.computes_eq
      have hcalled : functionsCalled (trace ++ [p]) = functionsCalled trace ++ p.functions := by
        simp [functionsCalled]
      have hended : functionsEnded (trace ++ [p]) =
          functionsEnded trace ++ p.functionEnd?.toList := by
        rw [functionsEnded, List.filterMap_append]
        cases hending : p.functionEnd? <;> simp [hending, functionsEnded]
      rw [hcalled, hended, List.countP_append, List.countP_append]
      refine ⟨List.perm_iff_count.mpr fun fault => ?_, by omega, by omega⟩
      have hbefore := hperm.count_eq fault
      have hpassage := hp.count_functions fault
      simp only [List.map_append, List.count_append] at hbefore ⊢
      omega
  have hbalance : m.functions = [] →
      m.world.store.statistics.computeSuccesses + m.world.store.statistics.computeFailures +
        (functionsEnded trace).countP (fun ended => ended.2.panics) =
          (functionsCalled trace).length := by
    intro hnone
    rw [hperm.length_eq, hnone, List.append_nil, List.length_map, hsuccesses, hfailures,
      countP_ends]
  refine ⟨hperm, hsuccesses, hfailures, hbalance, fun hnone => ?_⟩
  have hpanics : (functionsEnded trace).countP (fun ended => ended.2.panics) = 0 ↔
      ∀ ended ∈ functionsEnded trace, ended.2.panics = false := by
    simp [List.countP_eq_zero]
  rw [← hpanics, ← hbalance hnone]
  omega

end Runs

/-- Computes three keys, with functions that give a value, return an error and panic. -/
def threeFunctions : List (Move Nat Nat Unit Unit) :=
  .spawn (.call (.computeIfAbsent 1 fun _ => .finish (.value (some 10))) fun _ =>
    .call (.compute 2 fun _ _ => .finish (.complaint "no")) fun _ =>
      .call (.computeIfAbsent 3 fun _ => .raise .silent) .finish) ::
    List.replicate 27 (.step 0 .none)

/-- Three functions were called, but the statistics know of two only. -/
theorem panic_uncounted : ∃ (start m : Machine Nat Nat Unit Unit)
    (trace : List (Passage Nat Nat Unit Unit)),
    start.Fresh plainSettings ∧ Run plainSettings start trace m ∧ CountsFunctions trace m ∧
      m.functions = [] ∧ functionsCalled trace = [0, 1, 2] ∧
      m.world.store.statistics.computeSuccesses = 1 ∧
      m.world.store.statistics.computeFailures = 1 := by
  have hfacts : (Machine.replay plainSettings threeFunctions).map (fun run =>
      (run.2.functions, functionsCalled run.1, run.2.world.store.statistics.computeSuccesses,
        run.2.world.store.statistics.computeFailures)) = some ([], [0, 1, 2], 1, 1) := by decide
  obtain ⟨⟨trace, m⟩, hreplay, hall⟩ := Option.map_eq_some_iff.mp hfacts
  obtain ⟨hnone, hrest⟩ := Prod.mk.inj hall
  obtain ⟨hcalled, hrest⟩ := Prod.mk.inj hrest
  obtain ⟨hsuccesses, hfailures⟩ := Prod.mk.inj hrest
  obtain ⟨start, hstart, run⟩ := Machine.run_of_replay hreplay
  exact ⟨start, m, trace, hstart, run, Run.countsFunctions hstart run, hnone, hcalled, hsuccesses,
    hfailures⟩

end SharedCache
