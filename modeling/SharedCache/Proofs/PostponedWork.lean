import SharedCache.Proofs.Detours

/-!
# Postponed work

What an operation may still have to see to before it goes on as it has put off: the report of a
removal, an enforcement of the capacity, or both.  An errand never touches the frames below, however
long a listener runs in the course of it.  It ends with an answer, unless a collaborator panics: the
veto in an enforcement, or the copying of a value for the listener.
-/

namespace SharedCache

variable {K V Q R : Type}

/-- A collaborator panics like this that a call may meet after it has settled what it answers: the
veto in the enforcement of the capacity, or the copying of a removed value for the listener. -/
def Settings.Interferes (settings : Settings K V Q R) (p : Panic) : Prop :=
  settings.VetoRaises p ∨ ∃ value, settings.copyOut value = .error p

/-- A collaborator panics like this that an errand may meet. -/
def Settings.Hinders (settings : Settings K V Q R) (enforces : Prop) (p : Panic) : Prop :=
  enforces ∧ settings.VetoRaises p ∨ ∃ value, settings.copyOut value = .error p

/-- What an errand has put off after a report: an enforcement, if there is one to see to. -/
def EnforcesNext (enforces : Prop) (later : List (Frame K V Q R)) : Prop :=
  later = [] ∨ enforces ∧ later = [.next (.keep (.enforce 0))]

/-- What an errand may have on a thread: its activity, and the frames above what is put off until it
is over. -/
inductive Errand (settings : Settings K V Q R) (enforces : Prop) :
    Activity K V Q R → List (Frame K V Q R) → Prop where
  | enforces {stage : Stage K V Q R} :
      enforces → stage.IsEnforcing → Errand settings enforces (.keep stage) []
  | reports {key : K} {h : Holder V} {cause : RemovalCause} {later : List (Frame K V Q R)} :
      EnforcesNext enforces later → Errand settings enforces (.keep (.report key h cause)) later
  | settles {signal : Signal V} {later : List (Frame K V Q R)} :
      EnforcesNext enforces later → (∀ p, signal = .raised p → settings.Hinders enforces p) →
      Errand settings enforces (.settle signal) later
  | listens {a : Activity K V Q R} {inside later : List (Frame K V Q R)} :
      EnforcesNext enforces later → Errand settings enforces a (inside ++ .listening :: later)

section Errand

variable {settings : Settings K V Q R} {enforces : Prop} {s : Store K V}

theorem Errand.of_aftermath {a : Activity K V Q R} {above : List (Frame K V Q R)}
    (henforces : enforces) (ha : Aftermath settings a above) :
    Errand settings enforces a above := by
  cases ha with
  | enforces hstage => exact .enforces henforces hstage
  | enforced => exact .settles (.inl rfl) (by simp)
  | panics hveto =>
    exact .settles (.inl rfl) fun _ hp => .inl ⟨henforces, Signal.raised.inj hp ▸ hveto⟩
  | reports => exact .reports (.inr ⟨henforces, rfl⟩)
  | reported => exact .settles (.inr ⟨henforces, rfl⟩) (by simp)
  | listens => exact .listens (.inr ⟨henforces, rfl⟩)

/-- A report is over at once, or goes on with the listener. -/
theorem Store.errand_report (settings : Settings K V Q R) (s : Store K V) (key : K) (h : Holder V)
    (cause : RemovalCause) {later : List (Frame K V Q R)} (hlater : EnforcesNext enforces later) :
    Errand settings enforces (s.report settings key h cause).next
      ((s.report settings key h cause).frames ++ later) := by
  rcases s.report_cases settings key h cause with
    ⟨⟨signal, hnext, hpanic⟩, hframes⟩ | ⟨⟨script, hnext⟩, hframes⟩
  · rw [hnext, hframes]
    exact .settles hlater fun p hp => .inr ⟨h.value, (hpanic p hp).2⟩
  · rw [hnext, hframes]
    have hlistens : Errand settings enforces (.code script) ([] ++ .listening :: later) :=
      .listens hlater
    exact hlistens

variable [DecidableEq K] [DecidableEq V] {chance : Chance K R} {w : World K V Q R}
  {t : Thread K V Q R} {step : Step K V Q R} {above base : List (Frame K V Q R)}
  {frame : Frame K V Q R}

/-- What was put off is done, or given up after a panic. -/
theorem Thread.next_of_step {signal : Signal V} {a : Activity K V Q R}
    (hactivity : t.activity = .settle signal) (hstack : t.stack = .next a :: base)
    (hstep : t.step settings chance w = some step) :
    step = ⟨w, ⟨match signal with
      | .done _ => a
      | .raised p => .settle (.raised p), base, t.binding⟩, []⟩ := by
  obtain ⟨activity, stack, binding⟩ := t
  obtain rfl : activity = .settle signal := hactivity
  obtain rfl : stack = .next a :: base := hstack
  obtain rfl := Thread.receive_of_step rfl rfl hstep
  cases signal <;> rfl

/-- An errand goes on, or hands its end to what was put off. -/
theorem Errand.step_cases (ht : Errand settings enforces t.activity above)
    (hstack : t.stack = above ++ frame :: base) (hstep : t.step settings chance w = some step) :
    above = [] ∧ (∃ signal, t.activity = .settle signal ∧
        ∀ p, signal = .raised p → settings.Hinders enforces p) ∨
      ∃ above', step.thread.stack = above' ++ frame :: base ∧
        Errand settings enforces step.thread.activity above' := by
  obtain ⟨activity, stack, binding⟩ := t
  obtain rfl : stack = above ++ frame :: base := hstack
  cases ht with
  | enforces henforces hstage =>
    obtain ⟨turn, hturn, rfl⟩ := Thread.turn_of_step rfl hstep
    refine .inr ⟨turn.frames, ?_, .of_aftermath henforces (hstage.aftermath hturn)⟩
    simp [Step.ofStore, Thread.goOn]
  | @reports key h cause later hlater =>
    obtain ⟨turn, hturn, rfl⟩ := Thread.turn_of_step rfl hstep
    obtain rfl := Option.some.inj hturn
    refine .inr ⟨_, ?_, w.store.errand_report settings key h cause hlater⟩
    simp [Step.ofStore, Thread.goOn]
  | @settles signal later hlater hpanic =>
    rcases hlater with rfl | ⟨henforces, rfl⟩
    · exact .inl ⟨rfl, signal, rfl, hpanic⟩
    · obtain rfl := Thread.receive_of_step rfl rfl hstep
      cases signal with
      | done answer => exact .inr ⟨[], rfl, .enforces henforces trivial⟩
      | raised p => exact .inr ⟨[], rfl, .settles (.inl rfl) hpanic⟩
  | @listens _ inside later hlater =>
    have hbelow : inside ++ .listening :: later ++ frame :: base =
        inside ++ .listening :: (later ++ frame :: base) := by simp
    rcases (Thread.stride hstep).below hbelow with ⟨rfl, signal, hactivity⟩ | ⟨inside', hinside'⟩
    · obtain rfl := Thread.receive_of_step hactivity rfl hstep
      refine .inr ⟨later, ?_⟩
      cases signal with
      | done answer => exact ⟨rfl, .settles hlater (by simp)⟩
      | raised p => exact ⟨rfl, .settles hlater (by simp)⟩
    · exact .inr ⟨inside' ++ .listening :: later, by simp [hinside'], .listens hlater⟩

omit [DecidableEq K] [DecidableEq V] in
/-- The steps of a call in an errand are sections of an enforcement, reports, and ends that a frame
takes that waits for no mapping function. -/
theorem Errand.attended {a : Activity K V Q R} (ht : Errand settings enforces t.activity above)
    (hstack : t.stack = above ++ .next a :: base) (hattends : t.attends base.length = true) :
    (∃ stage, t.activity = .keep stage ∧
        (stage.IsEnforcing ∨ ∃ key h cause, stage = .report key h cause)) ∨
      ∃ signal frame rest, t.activity = .settle signal ∧ t.stack = frame :: rest ∧
        ∀ c, frame ≠ .computing c := by
  obtain ⟨activity, stack, binding⟩ := t
  obtain rfl : stack = above ++ .next a :: base := hstack
  cases ht with
  | enforces _ hstage => exact .inl ⟨_, rfl, .inl hstage⟩
  | reports => exact .inl ⟨_, rfl, .inr ⟨_, _, _, rfl⟩⟩
  | settles hlater =>
    rcases hlater with rfl | ⟨-, rfl⟩
    · exact .inr ⟨_, _, _, rfl, rfl, by simp⟩
    · exact .inr ⟨_, _, _, rfl, rfl, by simp⟩
  | @listens _ inside later =>
    by_cases hover : inside = [] ∧ ∃ signal, activity = .settle signal
    · obtain ⟨rfl, signal, rfl⟩ := hover
      exact .inr ⟨_, _, _, rfl, rfl, by simp⟩
    · have hstack : inside ++ .listening :: later ++ .next a :: base =
          (inside ++ .listening :: (later ++ [.next a])) ++ base := by simp
      rw [Thread.not_attends_of_runs hstack rfl hover] at hattends
      cases hattends

end Errand

/-! ## What is put off until an errand is over -/

/-- What a call has on its thread that has put off an activity: an errand, or the question why an
overwritten holder is gone, which leads to one. -/
inductive Postponed (settings : Settings K V Q R) (enforces : Prop) (later : Activity K V Q R) :
    Activity K V Q R → List (Frame K V Q R) → Prop where
  | judges {key : K} {h : Holder V} {now : Instant} :
      enforces → Postponed settings enforces later (.keep (.judge key h now))
        [.next (.keep (.enforce 0)), .next later]
  | sees {a : Activity K V Q R} {above : List (Frame K V Q R)} :
      Errand settings enforces a above →
      Postponed settings enforces later a (above ++ [.next later])

section Postponed

variable {settings : Settings K V Q R} {enforces : Prop} {later : Activity K V Q R}
  {t : Thread K V Q R} {above base : List (Frame K V Q R)}

theorem Postponed.ne_nil {a : Activity K V Q R} (ha : Postponed settings enforces later a above) :
    above ≠ [] := by
  cases ha <;> simp

/-- The steps of a call that has put something off are those of an errand, or ask why a holder is
gone. -/
theorem Postponed.attended (ht : Postponed settings enforces later t.activity above)
    (hstack : t.stack = above ++ base) (hattends : t.attends base.length = true) :
    (∃ stage, t.activity = .keep stage ∧ (stage.IsEnforcing ∨
        (∃ key h cause, stage = .report key h cause) ∨ ∃ key h now, stage = .judge key h now)) ∨
      ∃ signal frame rest, t.activity = .settle signal ∧ t.stack = frame :: rest ∧
        ∀ c, frame ≠ .computing c := by
  generalize hactivity : t.activity = a at ht
  cases ht with
  | judges => exact .inl ⟨_, rfl, .inr (.inr ⟨_, _, _, rfl⟩)⟩
  | sees herrand =>
    subst hactivity
    rw [List.append_assoc, List.singleton_append] at hstack
    rcases herrand.attended hstack hattends with ⟨stage, hstage, hwhich⟩ | hsettles
    · exact .inl ⟨stage, hstage, hwhich.imp_right .inl⟩
    · exact .inr hsettles

variable [DecidableEq K] [DecidableEq V] {chance : Chance K R} {w : World K V Q R}
  {step : Step K V Q R}

/-- What was put off stays put off, or is done, or given up after the panic of a collaborator. -/
theorem Postponed.step_cases (ht : Postponed settings enforces later t.activity above)
    (hstack : t.stack = above ++ base) (hstep : t.step settings chance w = some step) :
    (∃ above', step.thread.stack = above' ++ base ∧
        Postponed settings enforces later step.thread.activity above') ∨
      step.thread.stack = base ∧ (step.thread.activity = later ∨
        ∃ p, step.thread.activity = .settle (.raised p) ∧ settings.Hinders enforces p) := by
  generalize hactivity : t.activity = a at ht
  cases ht with
  | @judges key h now henforces =>
    obtain ⟨turn, hturn, rfl⟩ := Thread.turn_of_step hactivity hstep
    obtain rfl := Option.some.inj hturn
    have hreports : Errand settings enforces (w.store.judge key h now : StoreTurn K V Q R).next
        [.next (.keep (.enforce 0))] := .reports (.inr ⟨henforces, rfl⟩)
    exact .inl ⟨_, hstack, .sees hreports⟩
  | @sees _ above herrand =>
    subst hactivity
    rw [List.append_assoc, List.singleton_append] at hstack
    rcases herrand.step_cases hstack hstep with
      ⟨rfl, signal, hactivity, hpanic⟩ | ⟨above', hstack', herrand'⟩
    · obtain rfl := Thread.next_of_step hactivity hstack hstep
      cases signal with
      | done answer => exact .inr ⟨rfl, .inl rfl⟩
      | raised p => exact .inr ⟨rfl, .inr ⟨p, rfl, hpanic p rfl⟩⟩
    · exact .inl ⟨above' ++ [.next later], by simp [hstack'], .sees herrand'⟩

end Postponed

end SharedCache
