import SharedCache.Proofs.Failing

/-!
# Bookkeeping

What the statistics of a store count, and where.  A hit is counted by the section that refreshes a
holder, a miss by the one that answers nothing and by the one that calls the mapping function of a
request, a removal by its report, and the end of a mapping function where the function returns.
Nothing else touches the statistics, so they can be read off the passages of a run.
-/

namespace SharedCache

variable {K V Q R : Type}

/-- What a section counts. -/
def Stage.record : Stage K V Q R → Statistics → Statistics
  | .refresh .. => Statistics.recordHit
  | .missed => Statistics.recordMiss
  | .own c => if c.isRequest then Statistics.recordMiss else id
  | .report _ h cause => fun statistics => statistics.recordRemoval h.weight cause
  | _ => id

/-- What the end of a mapping function counts.  A panic passes by without a trace. -/
def Signal.record : Signal V → Statistics → Statistics
  | .done (.complaint _) => Statistics.recordFailed
  | .done _ => Statistics.recordComputed
  | .raised _ => id

/-- The requests that found a value and are counted by a step with this activity. -/
def Activity.hits : Activity K V Q R → Nat
  | .keep (.refresh ..) => 1
  | _ => 0

/-- The requests that found no value and are counted by a step with this activity. -/
def Activity.misses : Activity K V Q R → Nat
  | .keep .missed => 1
  | .keep (.own c) => c.isRequest.toNat
  | _ => 0

/-- What a passage counts. -/
def Passage.record (p : Passage K V Q R) : Statistics → Statistics :=
  match p.thread? with
  | some ⟨.keep stage, _, _⟩ => stage.record
  | some ⟨.settle signal, .computing _ :: _, _⟩ => signal.record
  | _ => id

namespace Store

variable {s : Store K V}

theorem statistics_asked (s : Store K V) (c : Computation K V Q R) :
    (s.asked c).statistics = (Stage.own c).record s.statistics := by
  rw [asked, Stage.record]
  split <;> rfl

theorem statistics_mapped (s : Store K V) (c : Computation K V Q R) (signal : Signal V) :
    (s.mapped c signal).state.statistics = signal.record s.statistics := by
  cases signal with
  | raised p => rfl
  | done answer =>
    cases answer with
    | complaint text =>
      rw [mapped]
      cases c.previous <;> rfl
    | value v => cases v <;> rfl
    | _ => rfl

theorem statistics_listened (s : Store K V) (signal : Signal V) :
    (s.listened signal : StoreTurn K V Q R).state.statistics = s.statistics := by
  cases signal <;> rfl

end Store

variable [DecidableEq K] [DecidableEq V] {settings : Settings K V Q R}

/-- A look at a slot counts nothing. -/
theorem Operation.Finds.statistics_eq {s : Store K V} {operation : Operation K V Q R}
    {retries : Nat} {now : Instant} {turn : StoreTurn K V Q R}
    (hfinds : operation.Finds settings s retries now turn) :
    turn.state.statistics = s.statistics := by
  cases hfinds with
  | beginsStale _ _ _ hs => rcases hs with rfl | rfl <;> rfl
  | _ => rfl

/-- The statistics after a section. -/
theorem Stage.statistics_turn {s : Store K V} {stage : Stage K V Q R} {now : Instant}
    {interrupted : Bool} {draws : List K} {turn : StoreTurn K V Q R}
    (hturn : stage.turn settings s now interrupted draws = some turn) :
    turn.state.statistics = stage.record s.statistics := by
  cases Stage.sections hturn with
  | visits => exact (s.finds _).statistics_eq
  | @resumes operation retries _ resolution =>
    rw [(s.resume_outcome operation retries resolution).1]
    rfl
  | maps | unwinds => exact s.statistics_asked _
  | installs | replaces | installsNothing | vacates | removes | vacatesNothing | restores |
      restoresEmpty | restoresNothing => exact Store.statistics_resolve _ _ _
  | _ => rfl

section Passages

variable {p : Passage K V Q R} {i : Nat} {t : Thread K V Q R}

omit [DecidableEq K] [DecidableEq V] in
theorem Passage.record_of_keep (ht : p.thread? = some t) {stage : Stage K V Q R}
    (hactivity : t.activity = .keep stage) : p.record = stage.record := by
  obtain ⟨activity, stack, binding⟩ := t
  obtain rfl : activity = .keep stage := hactivity
  rw [Passage.record, ht]

omit [DecidableEq K] [DecidableEq V] in
theorem Passage.record_of_mapped (ht : p.thread? = some t) {signal : Signal V}
    {c : Computation K V Q R} {rest : List (Frame K V Q R)}
    (hactivity : t.activity = .settle signal) (hstack : t.stack = .computing c :: rest) :
    p.record = signal.record := by
  obtain ⟨activity, stack, binding⟩ := t
  obtain rfl : activity = .settle signal := hactivity
  obtain rfl : stack = .computing c :: rest := hstack
  rw [Passage.record, ht]

omit [DecidableEq K] [DecidableEq V] in
theorem Passage.record_of_apart
    (hstage : ∀ t, p.thread? = some t → ∀ stage, t.activity ≠ .keep stage)
    (hmapped : ∀ t, p.thread? = some t → ∀ signal c rest, t.activity = .settle signal →
      t.stack ≠ .computing c :: rest) : p.record = id := by
  rw [Passage.record]
  split
  · exact absurd rfl (hstage _ ‹_› _)
  · exact absurd rfl (hmapped _ ‹_› _ _ _ rfl)
  · rfl

/-- The statistics after a passage. -/
theorem Passage.Lawful.statistics_eq (hp : p.Lawful settings) :
    p.after.world.store.statistics = p.record p.before.world.store.statistics := by
  cases hp.course with
  | outside hmover houtside =>
    have hthread : p.thread? = none := by simp [Passage.thread?, hmover]
    rw [Passage.record, hthread, houtside.store_eq]
    rfl
  | @step i t s hmover ht hstride hafter =>
    have hthread := Passage.thread?_eq hmover ht
    have hworld : p.after.world = s.world := by rw [hafter]
    have hrests : (∀ stage, t.activity ≠ .keep stage) →
        (∀ signal c rest, t.activity = .settle signal → t.stack ≠ .computing c :: rest) →
        s.world.store.statistics = p.before.world.store.statistics →
        p.after.world.store.statistics = p.record p.before.world.store.statistics := by
      intro hstage hmapped hsame
      have hrecord : p.record = id := by
        refine Passage.record_of_apart (fun t' ht' => ?_) fun t' ht' => ?_
        · rwa [← Option.some.inj (hthread.symm.trans ht')]
        · rwa [← Option.some.inj (hthread.symm.trans ht')]
      rw [hrecord, hworld, hsame]
      rfl
    cases hstride with
    | works hplain hsettled _ hstore =>
      exact hrests (fun _ => hplain.ne_keep _) (fun signal _ _ hsettle =>
        absurd hsettle (hsettled signal)) (by rw [hstore])
    | calls hactivity => exact hrests (by simp [hactivity]) (by simp [hactivity]) rfl
    | enters hactivity => exact hrests (by simp [hactivity]) (by simp [hactivity]) rfl
    | returns hactivity hstack hplain _ hstore =>
      refine hrests (by simp [hactivity]) (fun _ c _ _ hcomputing => ?_) (by rw [hstore])
      rw [hstack] at hcomputing
      rw [(List.cons.inj hcomputing).1] at hplain
      exact hplain
    | proceeds hactivity hstack => exact hrests (by simp [hactivity]) (by simp [hstack]) rfl
    | unwinds hactivity hstack => exact hrests (by simp [hactivity]) (by simp [hstack]) rfl
    | mapped hactivity hstack =>
      rw [Passage.record_of_mapped hthread hactivity hstack, hworld]
      exact Store.statistics_mapped _ _ _
    | listened hactivity hstack =>
      exact hrests (by simp [hactivity]) (by simp [hstack]) (Store.statistics_listened _ _)
    | keeps hactivity hturn =>
      rw [Passage.record_of_keep hthread hactivity, hworld]
      exact Stage.statistics_turn hturn

/-! ## Requests -/

omit [DecidableEq K] [DecidableEq V] in
theorem Stage.requests_record (stage : Stage K V Q R) (statistics : Statistics) :
    (stage.record statistics).hits = statistics.hits + (Activity.keep stage).hits ∧
      (stage.record statistics).misses = statistics.misses + (Activity.keep stage).misses := by
  cases stage with
  | own c =>
    rw [Stage.record, Activity.misses]
    cases c.isRequest <;> exact ⟨rfl, rfl⟩
  | report key h cause => cases cause <;> exact ⟨rfl, rfl⟩
  | _ => exact ⟨rfl, rfl⟩

/-- The requests that a step of a thread counts. -/
theorem Passage.Lawful.requests_eq (hp : p.Lawful settings) (ht : p.thread? = some t) :
    p.after.world.store.statistics.hits =
        p.before.world.store.statistics.hits + t.activity.hits ∧
      p.after.world.store.statistics.misses =
        p.before.world.store.statistics.misses + t.activity.misses := by
  rw [hp.statistics_eq, Passage.record, ht]
  obtain ⟨activity, stack, binding⟩ := t
  cases activity with
  | keep stage => exact stage.requests_record _
  | settle signal =>
    rcases stack with _ | ⟨frame, rest⟩
    · exact ⟨rfl, rfl⟩
    cases frame with
    | computing c =>
      cases signal with
      | raised p => exact ⟨rfl, rfl⟩
      | done answer => cases answer <;> exact ⟨rfl, rfl⟩
    | _ => exact ⟨rfl, rfl⟩
  | _ => exact ⟨rfl, rfl⟩

end Passages

end SharedCache
