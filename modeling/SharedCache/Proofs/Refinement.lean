import SharedCache.Proofs.Accounting
import SharedCache.Proofs.Advance

/-!
# Refinement of the reference

A store without a bound is, to a thread that has it for itself, the reference map.  Whatever the
thread does with it and however the clock moves between its operations, the reference takes every
passage of the run: it shows the same values to the mapping functions and gives the same answers,
and between two operations the same records are visible in both.
-/

namespace SharedCache

variable {K V Q R : Type} [DecidableEq K] [DecidableEq V] {settings : Settings K V Q R}
  {m : Machine K V Q R} {p : Passage K V Q R} {thread : Nat}

/-! ## Standing still -/

omit [DecidableEq K] [DecidableEq V] in
/-- A detour that is plain throughout leads to something plain. -/
theorem Detour.exists_isPlain {P : Nat → Activity K V Q R → Prop} {n : Nat} {a : Activity K V Q R}
    {above : List (Frame K V Q R)} (hdetour : Detour P n a above) (ha : a.IsPlain)
    (habove : ∀ frame ∈ above, frame.IsPlain) : ∃ n' b, P n' b ∧ b.IsPlain := by
  induction hdetour with
  | arrives hb => exact ⟨_, _, hb, ha⟩
  | passes _ ih =>
    exact ih (habove _ List.mem_cons_self) fun frame hframe =>
      habove frame (List.mem_cons_of_mem _ hframe)
  | listens => exact (habove .listening (by simp)).elim
  | _ => exact ha.elim

/-- While nothing of the operation is under way but its return, the clock may move. -/
theorem InStep.later {s : Store K V} {now later : Instant} {course : Course K V Q R} {n : Nat}
    {a : Activity K V Q R} {above : List (Frame K V Q R)}
    (hinstep : InStep settings s now course n a above) (ha : a.IsPlain)
    (habove : ∀ frame ∈ above, frame.IsPlain) (hle : now ≤ later) :
    InStep settings s later course n a above := by
  cases hinstep with
  | @yields ref answer _ _ _ hrepresents hdetour =>
    refine .yields (hrepresents.mono hle) (hdetour.imp fun n b hyields => ?_)
    cases hyields with
    | settles => exact .settles
    | misses hanswer => exact .misses hanswer
    | handsOut hcopy hanswer => exact .handsOut hcopy hanswer
    | @expels key h hnone hanswer =>
      have hlater : ref.visible later key = none := by
        calc ref.visible later key = (ref.visible now).visible later key :=
              congrFun (Reference.visible_visible hle).symm key
          _ = none := by rw [Reference.visible, hnone]; rfl
      exact .expels hlater hanswer
    | removed hlive hcopy hanswer => exact .removed hlive hcopy hanswer
    | expired hstale hanswer => exact .expired hstale hanswer
  | asks _ _ hdetour =>
    obtain ⟨n', b, ⟨-, rfl⟩, hplain⟩ := hdetour.exists_isPlain ha habove
    exact hplain.elim
  | runs => exact (habove _ (List.mem_append_right _ List.mem_cons_self)).elim
  | _ => exact ha.elim

/-- An operation that has ended has the outcome that is decided. -/
theorem InStep.ended {s : Store K V} {now : Instant} {course : Course K V Q R} {n : Nat}
    {signal : Signal V} (hinstep : InStep settings s now course n (.settle signal) []) :
    ∃ ref answer, course = .decided ref answer ∧ signal = .done answer ∧ s.Represents ref now := by
  generalize hsettled : (Activity.settle signal : Activity K V Q R) = a at hinstep
  generalize hnil : ([] : List (Frame K V Q R)) = above at hinstep
  cases hinstep with
  | @yields ref answer _ _ _ hrepresents hdetour =>
    have hyields := hdetour.of_nil hnil.symm
    rw [← hsettled] at hyields
    cases hyields with
    | settles => exact ⟨ref, answer, rfl, rfl, hrepresents⟩
  | asks _ _ hdetour =>
    obtain ⟨-, howns⟩ := hdetour.of_nil hnil.symm
    rw [howns] at hsettled
    cases hsettled
  | runs => simp at hnil
  | _ => cases hsettled

/-! ## Passages -/

omit [DecidableEq K] [DecidableEq V] in
theorem Passage.ownSteps_eq {t : Thread K V Q R} (hmover : p.mover = some thread)
    (ht : p.before.threads[thread]? = some t) :
    p.ownSteps thread = if t.isCalledBack then 0 else 1 := by
  cases hcalled : t.isCalledBack <;> simp [ownSteps, thread?, hmover, ht, hcalled]

omit [DecidableEq K] [DecidableEq V] in
/-- A step that neither calls the mapping function, nor receives what it gave, nor ends the
operation. -/
theorem Passage.isAside_of_own {t t' : Thread K V Q R} {above above' base : List (Frame K V Q R)}
    (ht : p.before.threads[thread]? = some t) (hstack : t.stack = above ++ base)
    (ht' : p.after.threads[thread]? = some t') (hstack' : t'.stack = above' ++ base)
    (hquiet : mappings p.events = [])
    (hwaits : ∀ c signal, above = [.computing c] → t.activity ≠ .settle signal)
    (hwithin : ¬ (above' = [] ∧ ∃ signal, t'.activity = .settle signal)) :
    p.IsAside thread base := by
  constructor
  · exact hquiet
  · rintro given ⟨-, c, binding, hreturns⟩
    obtain rfl := Option.some.inj (ht.symm.trans hreturns)
    have habove : [.computing c] ++ base = above ++ base := hstack
    exact hwaits c _ (List.append_cancel_right habove).symm rfl
  · rintro signal ⟨-, binding, hends⟩
    obtain rfl := Option.some.inj (ht'.symm.trans hends)
    exact hwithin ⟨List.self_eq_append_left.mp hstack', signal, rfl⟩

/-- How a machine stands to the reference: between two operations it represents the reference, and
in the middle of an operation the thread is in step with the course of it. -/
inductive Reference.State.Fits (settings : Settings K V Q R) (thread : Nat) (m : Machine K V Q R) :
    State K V Q R → Prop where
  | rests {ref : Reference K V} :
      (∀ t, m.threads[thread]? = some t → t.IsPlain) →
      m.world.store.Represents ref m.world.clock.now → Fits settings thread m (.idle ref)
  | operates {t : Thread K V Q R} {above base : List (Frame K V Q R)} {n steps : Nat}
      {course : Course K V Q R} :
      m.threads[thread]? = some t → t.stack = above ++ base →
      base ≠ [] → (∀ frame ∈ base, frame.IsPlain) →
      ¬ (above = [] ∧ ∃ signal, t.activity = .settle signal) →
      InStep settings m.world.store m.world.clock.now course n t.activity above →
      steps + n ≤ settings.blueprint.segments + 14 →
      Fits settings thread m (.busy base steps course)

namespace Reference.State.Fits

variable {state : State K V Q R}

/-- The reference takes notice of nothing that happens outside the thread. -/
theorem outside (hfits : state.Fits settings thread p.before) (hp : p.Lawful settings)
    (hmover : p.mover = none)
    (hcalm : ∀ t, p.before.threads[thread]? = some t → t.IsPlain) :
    state.Moves settings thread p state ∧ state.Fits settings thread p.after := by
  have hlawful := hp
  rw [Passage.Lawful, hmover] at hlawful
  obtain ⟨houtside, hevents⟩ := hlawful
  have hstore := houtside.store_eq
  have hnow := houtside.now_le_now
  cases hfits with
  | rests hplain hrepresents =>
    refine ⟨.idles fun operation base hcalls => ?_, .rests (fun t ht => ?_) ?_⟩
    · rw [Passage.Calls, hmover] at hcalls
      cases hcalls.1
    · rcases houtside.threads_eq thread with hsame | ⟨script, -, hspawned⟩
      · exact hplain t (hsame ▸ ht)
      · obtain rfl := Option.some.inj (hspawned.symm.trans ht)
        exact ⟨trivial, by simp [Thread.running]⟩
    · rw [hstore]
      exact hrepresents.mono hnow
  | @operates t above base n steps course ht hstack hbase hplain hwithin hinstep hsteps =>
    have haside : p.IsAside thread base := by
      constructor
      · rw [hevents]
        rfl
      · intro given hreturns
        cases hmover.symm.trans hreturns.1
      · intro signal hends
        cases hmover.symm.trans hends.1
    have hnone : p.ownSteps thread = 0 := by simp [Passage.ownSteps, hmover]
    have hmoves : (State.busy base steps course).Moves settings thread p
        (.busy base (steps + p.ownSteps thread) course) := .works haside
    rw [hnone] at hmoves
    obtain ⟨hactivity, hframes⟩ := hcalm t ht
    refine ⟨hmoves, .operates (hp.thread_eq (by simp [hmover]) ht) hstack hbase hplain hwithin ?_
      hsteps⟩
    rw [hstore]
    exact hinstep.later hactivity
      (fun frame hframe => hframes frame (hstack ▸ List.mem_append_left _ hframe)) hnow

/-- Between two operations the thread is about something else, or calls the next one. -/
theorem idle_step {ref : Reference K V} {t : Thread K V Q R} {chance : Chance K R}
    {step : Step K V Q R} (hplain : t.IsPlain)
    (hrepresents : p.before.world.store.Represents ref p.before.world.clock.now)
    (hsteady : settings.Steady) (hmover : p.mover = some thread)
    (ht : p.before.threads[thread]? = some t)
    (hstep : t.step settings chance p.before.world = some step)
    (hworld : p.after.world = step.world) (ht' : p.after.threads[thread]? = some step.thread) :
    ∃ next : State K V Q R, (State.idle ref).Moves settings thread p next ∧
      next.Fits settings thread p.after := by
  obtain ⟨activity, stack, binding⟩ := t
  have hclock := Thread.clock_of_step hstep
  by_cases hcall : ∃ operation next, activity = .code (.call operation next)
  · obtain ⟨operation, next, rfl⟩ := hcall
    obtain rfl := Option.some.inj hstep
    obtain ⟨course, hbegin⟩ := hsteady.begin ref p.before.world.clock.now operation
    have hbase : ∀ frame ∈ Frame.calling next :: stack, frame.IsPlain := by
      intro frame hframe
      rcases List.mem_cons.mp hframe with rfl | hold
      · trivial
      · exact hplain.2 frame hold
    have hstack : [.calling next] ++ stack = [] ++ .calling next :: stack := rfl
    have hbegins : InStep settings p.after.world.store p.after.world.clock.now course
        (settings.blueprint.segments + 14) (.keep (.round (operation.stored settings) 0)) [] := by
      rw [hworld]
      exact .begins hrepresents hbegin
    exact ⟨.busy (.calling next :: stack) 0 course,
      .calls ⟨hmover, next, stack, binding, ht, rfl⟩ hbegin,
      .operates ht' hstack (by simp) hbase (by simp [Step.apart, Thread.goOn]) hbegins
        (Nat.le_of_eq (Nat.zero_add _))⟩
  · have hflat : ∀ operation next, activity ≠ .code (.call operation next) :=
      fun operation next hcalls => hcall ⟨operation, next, hcalls⟩
    rcases (Thread.stride hstep).of_plain hplain.1 (List.append_nil stack).symm hplain.2 hflat with
      ⟨rfl, signal, hsettled⟩ | ⟨hstore, hactivity, inside, hinside, hstack⟩
    · obtain rfl : activity = .settle signal := hsettled
      cases hstep
    · refine ⟨.idle ref, .idles fun operation base hcalls => ?_, .rests (fun t' hsame => ?_) ?_⟩
      · obtain ⟨-, next, _, _, hcalling, -⟩ := hcalls
        cases ht.symm.trans hcalling
        exact hflat operation next rfl
      · obtain rfl := Option.some.inj (ht'.symm.trans hsame)
        refine ⟨hactivity, fun frame hframe => hinside frame ?_⟩
        rwa [hstack, List.append_nil] at hframe
      · rw [hworld, hstore, hclock]
        exact hrepresents

/-- Every step of an operation is one that the reference takes. -/
theorem busy_step {t : Thread K V Q R} {above base : List (Frame K V Q R)} {n steps : Nat}
    {course : Course K V Q R} {step : Step K V Q R}
    (hadvance : InStep.Advance settings p.before.world.clock.now t above base n step course)
    (hstack : t.stack = above ++ base) (hbase : base ≠ [])
    (hplain : ∀ frame ∈ base, frame.IsPlain) (hsteps : steps + n ≤ settings.blueprint.segments + 14)
    (hmover : p.mover = some thread) (ht : p.before.threads[thread]? = some t)
    (hclock : step.world.clock = p.before.world.clock) (hworld : p.after.world = step.world)
    (ht' : p.after.threads[thread]? = some step.thread) (hevents : p.events = step.events) :
    ∃ next : State K V Q R, (State.busy base steps course).Moves settings thread p next ∧
      next.Fits settings thread p.after := by
  obtain ⟨world, ⟨activity, stack, binding⟩, events⟩ := step
  cases hadvance with
  | @works course n' above' hquiet hwaits hstack' hinstep hn' =>
    rw [← hworld, ← hclock, ← hworld] at hinstep
    by_cases hover : above' = [] ∧ ∃ signal, activity = .settle signal
    · obtain ⟨rfl, signal, rfl⟩ := hover
      obtain rfl : stack = base := hstack'
      obtain ⟨ref, answer, rfl, rfl, hrepresents⟩ := hinstep.ended
      refine ⟨.idle ref, .ends ⟨hmover, binding, ht'⟩, .rests (fun t hsame => ?_) hrepresents⟩
      obtain rfl := Option.some.inj (ht'.symm.trans hsame)
      exact ⟨trivial, hplain⟩
    · have haside : p.IsAside thread base :=
        Passage.isAside_of_own ht hstack ht' hstack' (hevents ▸ hquiet) hwaits hover
      have hown : p.ownSteps thread + n' ≤ n := by
        rw [Passage.ownSteps_eq hmover ht]
        rcases hn' with hnearer | ⟨hstill, hcalled⟩
        · split <;> omega
        · rw [if_pos hcalled]
          omega
      exact ⟨.busy base (steps + p.ownSteps thread) course, .works haside,
        .operates ht' hstack' hbase hplain hover hinstep (by omega)⟩
  | @maps ref c shown hmaps hactivity hstack' hwithholds hn =>
    rw [← hworld] at hwithholds
    obtain rfl : activity = .code (c.code c.key shown) := hactivity
    obtain rfl : stack = .computing c :: base := hstack'
    have hruns : InStep settings p.after.world.store p.after.world.clock.now
        (.mapping ref p.before.world.clock.now c.key c.fault) 8 (.code (c.code c.key shown))
        ([] ++ [.computing c]) := by
      rw [hworld, hclock]
      exact .runs (hworld ▸ hwithholds) trivial (by simp)
    exact ⟨.busy base (steps + 1) (.mapping ref _ c.key c.fault),
      .maps ⟨hmover, hevents ▸ hmaps, c, binding, ht'⟩,
      .operates ht' rfl hbase hplain (by simp) hruns (by omega)⟩
  | @returns ref c given course n' stage hactivity habove hconclude hnext hstack' hinstep hn' =>
    rw [← hworld, ← hclock, ← hworld] at hinstep
    obtain rfl : activity = .keep stage := hnext
    obtain rfl : stack = base := hstack'
    have hreturns : p.Returns thread stack given := by
      refine ⟨hmover, c, t.binding, ?_⟩
      rw [ht, ← hactivity]
      have hcomputing : .computing c :: stack = t.stack := by rw [hstack, habove]; rfl
      rw [hcomputing]
    exact ⟨.busy stack (steps + 1) course, .returns hreturns hconclude,
      .operates ht' (List.nil_append stack).symm hbase hplain (by simp) hinstep (by omega)⟩

/-- The reference takes every passage. -/
theorem move (hfits : state.Fits settings thread p.before) (hp : p.Lawful settings)
    (hm : p.before.Reachable settings) (hsteady : settings.Steady)
    (hcapacity : settings.blueprint.capacity = none) (hsequential : p.IsSequential thread) :
    ∃ next : State K V Q R, state.Moves settings thread p next ∧
      next.Fits settings thread p.after := by
  cases hmover : p.mover with
  | none => exact ⟨state, hfits.outside hp hmover (hsequential.calm hmover)⟩
  | some i =>
    obtain rfl := hsequential.single i hmover
    have hmoves := hp
    rw [Passage.Lawful, hmover] at hmoves
    obtain ⟨chance, hmove⟩ := hmoves
    obtain ⟨t, step, ht, hstep, hafter, hevents⟩ := Machine.step_eq_some hmove
    have hworld : p.after.world = step.world := by rw [hafter]
    have ht' : p.after.threads[i]? = some step.thread := by
      have hsize := (Array.getElem?_eq_some_iff.mp ht).1
      simp [hafter, hsize]
    cases hfits with
    | rests hplain hrepresents =>
      exact idle_step (hplain t ht) hrepresents hsteady hmover ht hstep hworld ht'
    | @operates t' above base n steps course hsame hstack hbase hplain hwithin hinstep hsteps =>
      obtain rfl := Option.some.inj (ht.symm.trans hsame)
      have hflat : ∀ operation next, t.activity = .code (.call operation next) → t.IsPlain :=
        fun operation next => hsequential.flat t operation next ht
      have hsmooth : ∀ c panic, above = [.computing c] → t.activity ≠ .settle (.raised panic) := by
        rintro c panic rfl
        exact hsequential.smooth hmover t c base panic ht hstack
      have hadvance := hinstep.advance hstack hwithin hflat hsmooth hsteady hcapacity
        hm.accounted.map.valid hm.size_segments hstep
      exact busy_step hadvance hstack hbase hplain hsteps hmover ht (Thread.clock_of_step hstep)
        hworld ht' hevents

end Reference.State.Fits

/-! ## Runs -/

/-- What is to be seen of a machine that has come so far with the reference.  Between two operations
the same records are visible in both.  An operation ends after so many steps of its own at most, and
it can always go on unless code that it has called back runs. -/
def Reference.State.Shows (settings : Settings K V Q R) (thread : Nat) (m : Machine K V Q R) :
    State K V Q R → Prop
  | .idle ref =>
    (records m.world.store.deadlines m.world.store.map.get?).visible m.world.clock.now =
      ref.visible m.world.clock.now
  | .busy _ steps _ => steps ≤ settings.blueprint.segments + 14 ∧
    ∃ t, m.threads[thread]? = some t ∧
      (t.isCalledBack = true ∨ ∀ chance, (m.step settings chance thread).isSome)

theorem Reference.State.Fits.shows {state : State K V Q R} (hfits : state.Fits settings thread m) :
    state.Shows settings thread m := by
  cases hfits with
  | rests hplain hrepresents => exact hrepresents.visible
  | @operates t above base n steps course ht hstack hbase hplain hwithin hinstep hsteps =>
    refine ⟨by omega, t, ht, ?_⟩
    rcases hinstep.calledBack_or_able (w := m.world) hstack hbase with hcalled | hable
    · exact .inl hcalled
    · refine .inr fun chance => ?_
      obtain ⟨step, hstep⟩ := Option.isSome_iff_exists.mp (hable chance)
      exact Machine.isSome_step ht hstep

theorem Run.exists_fits {start : Machine K V Q R} {trace : List (Passage K V Q R)}
    (hstart : start.Fresh settings) (run : Run settings start trace m) (hsteady : settings.Steady)
    (hcapacity : settings.blueprint.capacity = none)
    (hsequential : ∀ p ∈ trace, p.IsSequential thread) :
    ∃ state, Reference.State.Accepts settings thread trace state ∧
      state.Fits settings thread m := by
  induction run with
  | rest =>
    refine ⟨_, .rest, .rests (fun t ht => ?_) ?_⟩
    · simp [hstart.threads] at ht
    · exact Store.represents_of_empty hstart.get?_eq_none
  | @move trace p hrun hp ih =>
    obtain ⟨state, haccepts, hfits⟩ := ih fun q hq => hsequential q (List.mem_append_left _ hq)
    obtain ⟨next, hmoves, hnext⟩ := hfits.move hp (hrun.reachable hstart) hsteady hcapacity
      (hsequential p (by simp))
    exact ⟨next, haccepts.move hmoves, hnext⟩

/-- A store without a bound refines the reference: in every run of one thread whose operations are
not nested, the reference takes all passages in exactly one way. -/
theorem Run.refinesReference {start : Machine K V Q R} {trace : List (Passage K V Q R)}
    (hstart : start.Fresh settings) (run : Run settings start trace m) (hsteady : settings.Steady)
    (hcapacity : settings.blueprint.capacity = none)
    (hsequential : ∀ p ∈ trace, p.IsSequential thread) :
    ∃! state, Reference.State.Accepts settings thread trace state ∧
      state.Shows settings thread m := by
  obtain ⟨state, haccepts, hfits⟩ := run.exists_fits hstart hsteady hcapacity hsequential
  exact ⟨state, ⟨haccepts, hfits.shows⟩, fun other hother => hother.1.unique haccepts⟩

/-- A value lives for so many nanoseconds, and for good once it has been read. -/
def briefSettings : Settings Nat Nat Unit Unit :=
  { plainSettings with
    expiry := some ⟨fun _ value _ => .ok (some (.ofNanos value)), fun _ _ _ _ _ => .ok none,
      fun _ _ _ left => .ok left⟩ }

/-- Puts a value that expires at once, computes another one and gets it. -/
def briefMoves : List (Move Nat Nat Unit Unit) :=
  .spawn (.call (.put 1 0) fun _ =>
    .call (.compute 1 fun _ shown => .finish (.value (some (shown.elim 20 fun _ => 0)))) fun _ =>
      .call (.get 1) .finish) :: List.replicate 27 (.step 0 .none)

/-- Whether the passage fits a run of the first thread. -/
def Passage.goesAlone (p : Passage Nat Nat Unit Unit) : Bool :=
  (p.mover = some 0 || p.mover = none && p.before.threads.isEmpty) &&
    p.before.threads[0]?.all fun t => match t.activity, t.stack with
      | .code (.call _ _), stack => stack.isEmpty
      | .settle (.raised _), .computing _ :: _ => false
      | _, _ => true

theorem Passage.isSequential_of_goesAlone {p : Passage Nat Nat Unit Unit}
    (halone : p.goesAlone = true) : p.IsSequential 0 := by
  obtain ⟨hmover, hthread⟩ := Bool.and_eq_true_iff.mp halone
  have hwhere : p.mover = some 0 ∨ p.mover = none ∧ p.before.threads = #[] := by
    simpa using hmover
  constructor
  · intro i hi
    rcases hwhere with hown | ⟨hnone, -⟩
    · exact Option.some.inj (hi.symm.trans hown)
    · cases hnone.symm.trans hi
  · intro hnone t ht
    rcases hwhere with hown | ⟨-, hempty⟩
    · cases hown.symm.trans hnone
    · simp [hempty] at ht
  · intro t operation next ht hcall
    have hempty : t.stack = [] := by simpa [ht, hcall] using hthread
    exact ⟨by rw [hcall]; trivial, by simp [hempty]⟩
  · intro _ t c base panic ht hstack hraised
    simp [ht, hstack, hraised] at hthread

/-- The value that has expired is not shown to the mapping function, and the other one is got. -/
theorem brief_refines : ∃ (start m : Machine Nat Nat Unit Unit)
    (trace : List (Passage Nat Nat Unit Unit)),
    start.Fresh briefSettings ∧ Run briefSettings start trace m ∧ briefSettings.Steady ∧
      briefSettings.blueprint.capacity = none ∧ (∀ p ∈ trace, p.IsSequential 0) ∧
      m.threads.toList.map Thread.result? = [some (.done (.value (some 20)))] ∧
      ∃! state, Reference.State.Accepts briefSettings 0 trace state ∧
        state.Shows briefSettings 0 m := by
  have hsteady : briefSettings.Steady := by
    constructor <;> simp [briefSettings, plainSettings, Settings.plain]
  have hfacts : (Machine.replay briefSettings briefMoves).map (fun run =>
      (run.1.all Passage.goesAlone, run.2.threads.toList.map Thread.result?)) =
        some (true, [some (.done (.value (some 20)))]) := by
    decide +kernel
  obtain ⟨⟨trace, m⟩, hreplay, hpair⟩ := Option.map_eq_some_iff.mp hfacts
  obtain ⟨halone, hresult⟩ := Prod.mk.inj hpair
  obtain ⟨start, hstart, run⟩ := Machine.run_of_replay hreplay
  have hsequential : ∀ p ∈ trace, p.IsSequential 0 := fun p hp =>
    Passage.isSequential_of_goesAlone (List.all_eq_true.mp halone p hp)
  exact ⟨start, m, trace, hstart, run, hsteady, rfl, hsequential, hresult,
    Run.refinesReference hstart run hsteady rfl hsequential⟩

end SharedCache
