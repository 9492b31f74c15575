import SharedCache.Proofs.Endings
import SharedCache.Proofs.Invocations

/-!
# Patience

How long a call waits, and what it leaves behind when it gives up.  A call waits for one computation
after another.  Of all the ways in which they end only the panics use up its patience, and after so
many of them it fails; the wait itself fails only for a thread that is interrupted while the
computation is pending.  A call that fails in one of these ways has changed nothing.
-/

namespace SharedCache

variable {K V Q R : Type}

/-! ## Where a resolution comes from -/

/-- The passage ends the computation of the fault with this resolution.  It tells the waiting calls
to try again just when its own call ends with a panic, and that the previous value is back just when
there was one and its function has returned an error. -/
def Passage.Causes (p : Passage K V Q R) (fault : Nat) (resolution : Resolution V) : Prop :=
  ∃ i t stage e, p.IsEnding i t stage e ∧ e.computation.fault = fault ∧
    e.resolution = resolution ∧ (resolution = .retry ↔ ∃ panic, e.out = .raised panic) ∧
    (resolution = .restored ↔ e.computation.previous ≠ none ∧
      ∃ text, e.out = .done (.failed (.computation ⟨fault, text⟩)))

/-- How often the stage says that the call has waited for a computation that panicked. -/
def Stage.retries? : Stage K V Q R → Option Nat
  | .round _ retries | .visit _ retries _ | .await _ retries _ => some retries
  | _ => none

theorem Stage.ending?_of_leaving {stage : Stage K V Q R} {c : Computation K V Q R}
    {left : Option (Holder V)} {resolution : Resolution V} {signal : Signal V}
    (hongoing : stage.ongoing = [.computes c (.leaving left resolution signal)]) :
    ∃ e, stage.ending? = some e ∧ e.computation = c ∧ e.resolution = resolution := by
  cases stage with
  | install | vacate | restore =>
    obtain ⟨rfl, hprogress⟩ := Ongoing.computes.inj (List.singleton_inj.mp hongoing)
    obtain ⟨rfl, rfl, rfl⟩ := Progress.leaving.inj hprogress
    exact ⟨_, rfl, rfl, rfl⟩
  | own | compose =>
    obtain ⟨-, hprogress⟩ := Ongoing.computes.inj (List.singleton_inj.mp hongoing)
    cases hprogress
  | round | visit | await => cases List.singleton_inj.mp hongoing
  | _ => cases hongoing

theorem Store.resolution?_of_begins {s s' : Store K V} {fault : Nat} {resolution : Resolution V}
    (hfaults : s'.faults = s.faults.push none)
    (hresolved : s'.resolution? fault = some resolution) :
    s.resolution? fault = some resolution := by
  rw [resolution?, hfaults, Array.getElem?_push] at hresolved
  split at hresolved
  · cases hresolved
  · exact hresolved

theorem Store.resolution?_of_ends {s s' : Store K V} {fault other : Nat}
    {resolution left : Resolution V} (hfaults : s'.faults = (s.resolve other left).faults)
    (hresolved : s'.resolution? fault = some resolution) :
    s.resolution? fault = some resolution ∨ other = fault ∧ left = resolution := by
  rw [resolution?, hfaults, resolve] at hresolved
  split at hresolved
  · exact .inl hresolved
  · by_cases hsame : other = fault
    · subst hsame
      rw [Array.getElem?_setIfInBounds_self] at hresolved
      split at hresolved
      · exact .inr ⟨rfl, Option.some.inj hresolved⟩
      · cases hresolved
    · rw [Array.getElem?_setIfInBounds_ne hsame] at hresolved
      exact .inl hresolved

/-- A computation that has ended as it concludes is a cause of its resolution. -/
theorem Ending.causes {settings : Settings K V Q R} {e : Ending K V Q R} {i : Nat}
    {trace : List (Passage K V Q R)}
    (hconcludes : (∃ signal, e.Concludes settings signal) ∨ e.IsUncalled settings i trace) :
    (e.resolution = .retry ↔ ∃ panic, e.out = .raised panic) ∧
      (e.resolution = .restored ↔ e.computation.previous ≠ none ∧
        ∃ text, e.out = .done (.failed (.computation ⟨e.computation.fault, text⟩))) := by
  rcases hconcludes with ⟨signal, hconcludes⟩ | huncalled
  · cases hconcludes with
    | gives => simp
    | nothing => simp
    | fails hprevious => simp [hprevious]
    | restores hprevious => simp [hprevious]
    | panics => simp
    | crashes => simp
  · obtain ⟨panic, he⟩ := huncalled.ending
    rw [he]
    simp

section Resolutions

variable [DecidableEq K] [DecidableEq V] {settings : Settings K V Q R} {start m : Machine K V Q R}
  {trace : List (Passage K V Q R)} {p : Passage K V Q R} {fault : Nat} {resolution : Resolution V}

/-- A fault is resolved by the last section of its computation and by nothing else. -/
theorem Passage.Lawful.resolved_cases (hp : p.Lawful settings)
    (hresolved : p.after.world.store.resolution? fault = some resolution) :
    p.before.world.store.resolution? fault = some resolution ∨
      ∃ i t stage e, p.IsEnding i t stage e ∧ e.computation.fault = fault ∧
        e.resolution = resolution := by
  have hsame : p.after.world.store.faults = p.before.world.store.faults →
      p.before.world.store.resolution? fault = some resolution := by
    intro hfaults
    rwa [Store.resolution?, hfaults] at hresolved
  obtain ⟨_, _, _, _, -, -, hturnover⟩ := hp.turnover
  cases hturnover with
  | rests _ hspares => exact .inl (hsame hspares.faults)
  | calls _ _ hspares => exact .inl (hsame hspares.faults)
  | drops _ _ _ hspares => exact .inl (hsame hspares.faults)
  | moves _ _ _ hspares => exact .inl (hsame hspares.faults)
  | @acts stage turn hsection hdeed =>
    rw [hsection.store] at hsame hresolved
    cases hdeed with
    | visits hvisit =>
      left
      cases hvisit with
      | keeps _ _ hstill => exact hsame hstill.faults
      | waits _ _ hspares => exact hsame hspares.faults
      | writes _ _ _ _ _ _ hfaults => exact hsame hfaults
      | removes _ _ _ hfaults => exact hsame hfaults
      | begins _ _ _ _ _ _ hfaults => exact Store.resolution?_of_begins hfaults hresolved
    | keeps _ hstill => exact .inl (hsame hstill.faults)
    | looks _ _ hspares => exact .inl (hsame hspares.faults)
    | resumes _ _ _ _ hspares => exact .inl (hsame hspares.faults)
    | shares _ _ hstill => exact .inl (hsame hstill.faults)
    | givesUp _ _ hstill => exact .inl (hsame hstill.faults)
    | expels _ _ _ hfaults => exact .inl (hsame hfaults)
    | sweeps _ hfaults => exact .inl (hsame hfaults)
    | calls _ _ _ _ hspares => exact .inl (hsame hspares.faults)
    | unwinds _ _ _ _ hspares => exact .inl (hsame hspares.faults)
    | composes _ _ _ _ _ hspares => exact .inl (hsame hspares.faults)
    | ends hongoing _ hfaults =>
      refine (Store.resolution?_of_ends hfaults hresolved).imp_right ?_
      rintro ⟨rfl, rfl⟩
      obtain ⟨e, hending, rfl, rfl⟩ := Stage.ending?_of_leaving hongoing
      obtain ⟨i, t, hmover, ht, hactivity⟩ := Passage.keep_of_stage? hsection.stage
      exact ⟨i, t, stage, e, ⟨hmover, ht, hactivity, hending⟩, rfl, rfl⟩

/-- Every resolution was left by a computation that has ended. -/
theorem Run.exists_causes (hstart : start.Fresh settings) (run : Run settings start trace m)
    (hresolved : m.world.store.resolution? fault = some resolution) :
    ∃ q ∈ trace, q.Causes fault resolution := by
  induction run with
  | rest =>
    obtain ⟨h, hstore⟩ := Store.of_eq_ok hstart.store
    rw [hstore] at hresolved
    cases hresolved
  | @move trace p run hp ih =>
    rcases hp.resolved_cases hresolved with hbefore | ⟨i, t, stage, e, hending, rfl, rfl⟩
    · obtain ⟨q, hq, hcauses⟩ := ih hbefore
      exact ⟨q, List.mem_append_left _ hq, hcauses⟩
    · have hconcluded := run.concluded hstart hending.thread hending.activity hending.ending
      have hcauses := Ending.causes (hconcluded.imp_left fun ⟨signal, _, hends⟩ => ⟨signal, hends⟩)
      exact ⟨p, by simp, ⟨i, t, stage, e, hending, rfl, rfl, hcauses⟩⟩

end Resolutions

/-! ## Calls that give up -/

variable [DecidableEq K] [DecidableEq V] {settings : Settings K V Q R}
  {origin start m : Machine K V Q R} {opening trace : List (Passage K V Q R)}
  {call : Invocation K V Q R}

/-- A call that fails because it was interrupted, or because too many computations have panicked,
has left no trace, and it was interrupted only at a fault that was pending. -/
theorem Run.leavesNoTrace {error : StoreError}
    (herror : error = .interrupted ∨ ∃ attempts, error = .abandoned attempts)
    (run : Run settings start trace m) (hspans : call.Spans start trace)
    (hover : call.IsOver m (.done (.failed error))) :
    call.Traceless trace ∧ (error = .interrupted → call.WasInterrupted trace) := by
  cases (Invocation.at_of_run run hspans).ends hover with
  | isInterrupted hinterrupted htraceless => exact ⟨htraceless, fun _ => hinterrupted⟩
  | givesUp htraceless => exact ⟨htraceless, by simp⟩
  | accounts haccounts =>
    obtain ⟨hends, -⟩ := haccounts
    rcases herror with rfl | ⟨attempts, rfl⟩
    · cases hends
    · cases hends

/-- A reader in the scope of an interrupter, of a key that another thread is computing. -/
def patientRead : Invocation Nat Nat Unit Unit :=
  ⟨1, [.calling .finish, .scoped none, .calling .finish], .get 1⟩

/-- One thread computes the key, in vain at first; another one is about to read it. -/
def patientOpening : List (Move Nat Nat Unit Unit) :=
  .spawn (.guard (.call (.computeIfAbsent 1 fun _ => .raise .silent) .finish) fun _ =>
    .call (.computeIfAbsent 1 fun _ => .finish (.value (some 10))) .finish) ::
    stepsOf 0 5 ++ .spawn (.scope 7 (.call patientRead.operation .finish) .finish) :: stepsOf 1 3

/-- The reader waits for the first computation, and is woken up by its end although it is to be
interrupted.  The second computation is still pending when the reader looks at it. -/
def patientMoves : List (Move Nat Nat Unit Unit) :=
  stepsOf 1 2 ++ stepsOf 0 8 ++ stepsOf 1 4

/-- The reader is interrupted in its second wait, and nothing can be seen of it. -/
theorem interrupted_untraced : ∃ (start m : Machine Nat Nat Unit Unit)
    (trace : List (Passage Nat Nat Unit Unit)),
    start.Reachable plainSettings ∧ Run plainSettings start trace m ∧
      patientRead.Spans start trace ∧ patientRead.IsOver m (.done (.failed .interrupted)) ∧
      patientRead.observes trace = [.retry] ∧ patientRead.Traceless trace ∧
      patientRead.WasInterrupted trace := by
  have hfacts : ((Machine.replay plainSettings patientOpening).bind fun opening =>
      let start := { opening.2 with world := opening.2.world.trip (.named 7) }
      (start.follow plainSettings patientMoves).map fun run =>
        (start.threads[1]?, run.2.threads[1]?, run.1.all patientRead.outlasts,
          patientRead.observes run.1)) =
      some (some ⟨.keep (.round patientRead.operation 0), patientRead.base, some (.named 7)⟩,
        some ⟨.settle (.done (.failed .interrupted)), patientRead.base, some (.named 7)⟩, true,
        [.retry]) := rfl
  obtain ⟨⟨opening, reached⟩, hopening, hrun⟩ := Option.bind_eq_some_iff.mp hfacts
  obtain ⟨⟨trace, m⟩, hfollow, hall⟩ := Option.map_eq_some_iff.mp hrun
  obtain ⟨hbegins, hrest⟩ := Prod.mk.inj hall
  obtain ⟨hended, hrest⟩ := Prod.mk.inj hrest
  obtain ⟨houtlasts, hobserves⟩ := Prod.mk.inj hrest
  obtain ⟨fresh, hfresh, before⟩ := Machine.run_of_replay hopening
  have htrip : Passage.Lawful plainSettings
      ⟨reached, none, [], { reached with world := reached.world.trip (.named 7) }⟩ :=
    ⟨.trip _, rfl⟩
  have hstart := (before.move htrip).reachable hfresh
  have run := Machine.run_of_follow hfollow
  have hspans := Invocation.spans_of_outlasts hbegins houtlasts
  obtain ⟨htraceless, hinterrupted⟩ := Run.leavesNoTrace (.inl rfl) run hspans ⟨_, hended⟩
  exact ⟨_, m, trace, hstart, run, hspans, ⟨_, hended⟩, hobserves, htraceless, hinterrupted rfl⟩

/-- What the patience of a call is measured by: `opening` has been passed through before the call
began, and `trace` from there on. -/
structure Invocation.CountsAbandoned (call : Invocation K V Q R)
    (opening trace : List (Passage K V Q R)) (m : Machine K V Q R) : Prop where
  bounded : (call.observes trace).count .retry ≤ maxAbandoned
  /-- The call fails just when it has gone on with so many panics, and says how many. -/
  givesUp_iff : ∀ attempts, call.IsOver m (.done (.failed (.abandoned attempts))) ↔
    attempts = maxAbandoned ∧ (call.observes trace).count .retry = maxAbandoned
  /-- As long as the call looks at its key or waits, its counter tells the panics and nothing
  else. -/
  counter : ∀ t stage retries, m.threads[call.thread]? = some t → t.stack = call.base →
    t.activity = .keep stage → stage.retries? = some retries →
      retries = (call.observes trace).count .retry
  /-- What the call goes on with was left by a computation that has ended so. -/
  causes : ∀ front p back retries fault resolution, trace = front ++ p :: back →
    p.stage? = some (.await call.operation retries fault) →
    p.before.world.store.resolution? fault = some resolution →
      ∃ q ∈ opening ++ front, q.Causes fault resolution

/-- Only computations that panic use up the patience of a call. -/
theorem Run.countsAbandoned (horigin : origin.Fresh settings)
    (hopening : Run settings origin opening start) (run : Run settings start trace m)
    (hspans : call.Spans start trace) : call.CountsAbandoned opening trace m := by
  have hat := Invocation.at_of_run run hspans
  constructor
  case bounded =>
    cases hat with
    | seeks _ _ _ hcount hlt => omega
    | isInterrupted _ _ _ hlt => omega
    | givesUp _ _ hcount => omega
    | goesOn _ _ _ _ hlt => omega
  case givesUp_iff =>
    intro attempts
    constructor
    · intro hover
      cases hat.ends hover with
      | givesUp _ hcount => exact ⟨rfl, hcount⟩
      | accounts haccounts => cases haccounts.1
    · rintro ⟨rfl, hfull⟩
      cases hat with
      | seeks _ _ _ hcount hlt => omega
      | isInterrupted _ _ _ hlt => omega
      | givesUp ht => exact ⟨_, ht⟩
      | goesOn _ _ _ _ hlt => omega
  case counter =>
    intro t stage retries hfound hbase hactivity hretries
    cases hat with
    | seeks ht hseeks _ hcount =>
      obtain rfl := Option.some.inj (ht.symm.trans hfound)
      obtain rfl := Activity.keep.inj hactivity
      cases hseeks with
      | reads => exact (Option.some.inj hretries).symm.trans hcount.symm
      | visits => exact (Option.some.inj hretries).symm.trans hcount.symm
      | awaits => exact (Option.some.inj hretries).symm.trans hcount.symm
    | isInterrupted ht =>
      obtain rfl := Option.some.inj (ht.symm.trans hfound)
      cases hactivity
    | givesUp ht =>
      obtain rfl := Option.some.inj (ht.symm.trans hfound)
      cases hactivity
    | @goesOn t' above tally ht hstack houtlook =>
      obtain rfl := Option.some.inj (ht.symm.trans hfound)
      have hforetells := houtlook.foretells (by simpa [hbase] using hstack)
      rw [hactivity] at hforetells
      cases stage with
      | round | visit | await => exact hforetells.elim
      | _ => cases hretries
  case causes =>
    rintro front p back retries fault resolution rfl - hresolved
    obtain ⟨hfront, -, -⟩ := run.split rfl
    exact (hopening.append hfront).exists_causes horigin hresolved

/-- A replacement of a value that another thread recomputes twice, in vain. -/
def patientReplacement : Invocation Nat Nat Unit Unit := ⟨1, [.calling .finish], .replace 1 77⟩

/-- One thread recomputes a value: the first function complains, and the second one panics.  Another
thread is about to replace the value. -/
def recomputingOpening : List (Move Nat Nat Unit Unit) :=
  .spawn (.call (.put 1 10) fun _ =>
    .call (.compute 1 fun _ _ => .finish (.complaint "no")) fun _ =>
    .call (.compute 1 fun _ _ => .raise .silent) .finish) ::
    stepsOf 0 10 ++ .spawn (.call patientReplacement.operation .finish) :: stepsOf 1 1

/-- The second thread waits for both computations. -/
def recomputingMoves : List (Move Nat Nat Unit Unit) :=
  stepsOf 1 2 ++ stepsOf 0 8 ++ stepsOf 1 3 ++ stepsOf 0 3 ++ stepsOf 1 8

/-- The replacement observes a complaint and a panic after which the value is back.  Only the panic
counts, and the replacement is successful. -/
theorem panic_counts_alone : ∃ (origin start m : Machine Nat Nat Unit Unit)
    (opening trace : List (Passage Nat Nat Unit Unit)) (answer : Answer Nat),
    origin.Fresh plainSettings ∧ Run plainSettings origin opening start ∧
      Run plainSettings start trace m ∧ patientReplacement.Spans start trace ∧
      patientReplacement.IsOver m (.done answer) ∧
      patientReplacement.observes trace = [.restored, .retry] ∧
      patientReplacement.CountsAbandoned opening trace m := by
  have hfacts : ((Machine.replay plainSettings recomputingOpening).bind fun opening =>
      (opening.2.follow plainSettings recomputingMoves).map fun run =>
        (opening.2.threads[1]?, run.2.threads[1]?, run.1.all patientReplacement.outlasts,
          patientReplacement.observes run.1)) =
      some (some ⟨.keep (.round patientReplacement.operation 0), patientReplacement.base, none⟩,
        some ⟨.settle (.done (.value (some 10))), patientReplacement.base, none⟩, true,
        [.restored, .retry]) := rfl
  obtain ⟨⟨opening, start⟩, hopening, hrun⟩ := Option.bind_eq_some_iff.mp hfacts
  obtain ⟨⟨trace, m⟩, hfollow, hall⟩ := Option.map_eq_some_iff.mp hrun
  obtain ⟨hbegins, hrest⟩ := Prod.mk.inj hall
  obtain ⟨hended, hrest⟩ := Prod.mk.inj hrest
  obtain ⟨houtlasts, hobserves⟩ := Prod.mk.inj hrest
  obtain ⟨origin, horigin, before⟩ := Machine.run_of_replay hopening
  have run := Machine.run_of_follow hfollow
  have hspans := Invocation.spans_of_outlasts hbegins houtlasts
  exact ⟨origin, start, m, opening, trace, _, horigin, before, run, hspans, ⟨_, hended⟩,
    hobserves, Run.countsAbandoned horigin before run hspans⟩

end SharedCache
