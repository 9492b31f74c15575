import SharedCache.Proofs.Promises

/-!
# Aftermath

What lies between a section that has settled an answer and the answer itself.  A thread never
touches the frames below its activity until the activity has ended.  An enforcement of the capacity
that runs above an answer comes to an end without a panic, whatever listeners it calls, unless the
veto panics.
-/

namespace SharedCache

variable {K V Q R : Type}

/-! ## The frames below -/

section Below

variable [DecidableEq K] [DecidableEq V] {settings : Settings K V Q R} {chance : Chance K R}
  {w : World K V Q R} {t : Thread K V Q R} {s : Step K V Q R} {frame : Frame K V Q R}
  {above base : List (Frame K V Q R)}

/-- A frame and all frames below it stay where they are until the activity above has ended. -/
theorem Thread.Stride.below (hstride : t.Stride settings w s)
    (hstack : t.stack = above ++ frame :: base) :
    above = [] ∧ (∃ signal, t.activity = .settle signal) ∨
      ∃ above', s.thread.stack = above' ++ frame :: base := by
  have hpopped : ∀ signal top rest, t.activity = .settle signal → t.stack = top :: rest →
      above = [] ∧ (∃ signal, t.activity = .settle signal) ∨
        ∃ above', rest = above' ++ frame :: base := by
    intro signal top rest hactivity htop
    cases above with
    | nil => exact .inl ⟨rfl, signal, hactivity⟩
    | cons first above' =>
      rw [hstack, List.cons_append] at htop
      exact .inr ⟨above', (List.cons.inj htop).2.symm⟩
  cases hstride with
  | @works _ _ frames => exact .inr ⟨frames ++ above, by simp [hstack]⟩
  | @calls _ code => exact .inr ⟨.calling code :: above, by simp [hstack]⟩
  | enters => exact .inr ⟨.scoped t.binding :: above, by simp [hstack]⟩
  | returns hactivity htop => exact hpopped _ _ _ hactivity htop
  | proceeds hactivity htop => exact hpopped _ _ _ hactivity htop
  | unwinds hactivity htop => exact hpopped _ _ _ hactivity htop
  | @mapped signal c rest hactivity htop =>
    obtain ⟨-, hframes, -⟩ := w.store.mapped_spec c signal
    have hafter : (Step.ofStore w t.popped (w.store.mapped c signal)).thread.stack = rest := by
      simp [Step.ofStore, Thread.goOn, Thread.popped, hframes, htop]
    rw [hafter]
    exact hpopped _ _ _ hactivity htop
  | @listened signal rest hactivity htop =>
    obtain ⟨-, hframes⟩ := w.store.listened_spec (Q := Q) (R := R) signal
    have hafter : (Step.ofStore w t.popped
        (w.store.listened signal : StoreTurn K V Q R)).thread.stack = rest := by
      simp [Step.ofStore, Thread.goOn, Thread.popped, hframes, htop]
    rw [hafter]
    exact hpopped _ _ _ hactivity htop
  | @keeps _ _ turn =>
    exact .inr ⟨turn.frames ++ above, by simp [Step.ofStore, Thread.goOn, hstack]⟩

theorem Thread.turn_of_step {stage : Stage K V Q R} (hactivity : t.activity = .keep stage)
    (hstep : t.step settings chance w = some s) : ∃ turn,
      stage.turn settings w.store w.clock.now (w.interrupts t.binding) chance.draws = some turn ∧
        s = .ofStore w t turn := by
  rw [Thread.step, hactivity] at hstep
  obtain ⟨turn, hturn, rfl⟩ := Option.map_eq_some_iff.mp hstep
  exact ⟨turn, hturn, rfl⟩

theorem Thread.receive_of_step {signal : Signal V} (hactivity : t.activity = .settle signal)
    (hstack : t.stack = frame :: base) (hstep : t.step settings chance w = some s) :
    s = frame.receive w t.popped signal := by
  simp only [Thread.step, hactivity, hstack] at hstep
  exact (Option.some.inj hstep).symm

end Below

/-! ## Panics of the veto -/

/-- The veto panics like this about some entry. -/
def Settings.VetoRaises (settings : Settings K V Q R) (p : Panic) : Prop :=
  ∃ veto key value, settings.veto = some veto ∧ veto key value = .error p

/-- The veto panics about some entry. -/
def Settings.VetoPanics (settings : Settings K V Q R) : Prop :=
  ∃ veto key value p, settings.veto = some veto ∧ veto key value = .error p

theorem Settings.VetoRaises.vetoPanics {settings : Settings K V Q R} {p : Panic}
    (hveto : settings.VetoRaises p) : settings.VetoPanics := by
  obtain ⟨veto, key, value, hsome, hraises⟩ := hveto
  exact ⟨veto, key, value, p, hsome, hraises⟩

theorem Consultation.error_bind {α β : Type} {c : Consultation K V α}
    {next : α → Consultation K V β} {p : Panic} (hresult : (c >>= next).result = .error p) :
    c.result = .error p ∨ ∃ a, (next a).result = .error p := by
  change (c.andThen next).result = .error p at hresult
  rw [andThen] at hresult
  cases hc : c.result with
  | error q => exact .inl (by simpa [hc] using hresult)
  | ok a => exact .inr ⟨a, by simpa [hc] using hresult⟩

namespace Settings

variable {settings : Settings K V Q R} {p : Panic}

theorem vetoRaises_of_spares {entry : K × Holder V}
    (hresult : (settings.spares entry).result = .error p) : settings.VetoRaises p := by
  rw [spares] at hresult
  split at hresult
  · cases hresult
  · rename_i veto hveto
    exact ⟨veto, entry.1, entry.2.value, hveto, hresult⟩

theorem vetoRaises_of_firstUnspared {sample : List (K × Holder V)}
    (hresult : (settings.firstUnspared sample).result = .error p) : settings.VetoRaises p := by
  induction sample with
  | nil => cases hresult
  | cons entry rest ih =>
    rw [firstUnspared] at hresult
    rcases Consultation.error_bind hresult with hspares | ⟨spared, hrest⟩
    · exact vetoRaises_of_spares hspares
    · cases spared with
      | true => exact ih hrest
      | false => cases hrest

theorem vetoRaises_of_smallestUnspared {rank : K → V → K → V → Ordering}
    {best : Option (K × Holder V)} {sample : List (K × Holder V)}
    (hresult : (settings.smallestUnspared rank best sample).result = .error p) :
    settings.VetoRaises p := by
  induction sample generalizing best with
  | nil => cases hresult
  | cons entry rest ih =>
    unfold smallestUnspared at hresult
    rcases Consultation.error_bind hresult with hspares | ⟨spared, hrest⟩
    · exact vetoRaises_of_spares hspares
    · cases spared with
      | true => exact ih hrest
      | false =>
        cases best with
        | none => exact ih hrest
        | some b =>
          rcases Consultation.error_bind hrest with hsmaller | ⟨least, hleast⟩
          · cases hsmaller
          · exact ih hleast

end Settings

/-- Picking a victim panics only where the veto does. -/
theorem Store.vetoRaises_of_victim {settings : Settings K V Q R} {s : Store K V} {now : Instant}
    {sample : List (K × Holder V)} {p : Panic}
    (hresult : (s.victim settings now sample).result = .error p) : settings.VetoRaises p := by
  rw [Store.victim] at hresult
  split at hresult
  · cases hresult
  · cases hpriority : settings.priority with
    | none =>
      rw [hpriority] at hresult
      rcases Consultation.error_bind hresult with hchoice | ⟨choice, hchosen⟩
      · exact Settings.vetoRaises_of_firstUnspared hchoice
      · cases hchosen
    | some rank =>
      rw [hpriority] at hresult
      rcases Consultation.error_bind hresult with hchoice | ⟨choice, hchosen⟩
      · exact Settings.vetoRaises_of_smallestUnspared hchoice
      · cases hchosen

/-! ## Enforcing the capacity above an answer -/

/-- A stage is part of an enforcement, and keeps nothing waiting below. -/
def Stage.IsEnforcing : Stage K V Q R → Prop
  | .enforce _ | .draw .. | .pick .. | .evict .. => True
  | _ => False

/-- What an enforcement may have on a thread: its activity, and the frames above whatever waits for
its end.  Only a listener may put anything else there. -/
inductive Aftermath (settings : Settings K V Q R) :
    Activity K V Q R → List (Frame K V Q R) → Prop where
  | enforces {stage : Stage K V Q R} : stage.IsEnforcing → Aftermath settings (.keep stage) []
  | enforced {answer : Answer V} : Aftermath settings (.settle (.done answer)) []
  | panics {p : Panic} : settings.VetoRaises p → Aftermath settings (.settle (.raised p)) []
  | reports {key : K} {h : Holder V} {cause : RemovalCause} :
      Aftermath settings (.keep (.report key h cause)) [.next (.keep (.enforce 0))]
  | reported {answer : Answer V} :
      Aftermath settings (.settle (.done answer)) [.next (.keep (.enforce 0))]
  | listens {a : Activity K V Q R} {above : List (Frame K V Q R)} :
      Aftermath settings a (above ++ [.listening, .next (.keep (.enforce 0))])

section Aftermath

variable [DecidableEq K] [DecidableEq V] {settings : Settings K V Q R} {chance : Chance K R}
  {w : World K V Q R} {t : Thread K V Q R} {step : Step K V Q R} {s : Store K V}

omit [DecidableEq V] in
/-- An enforcement goes on as one. -/
theorem Store.aftermath_evict {failed : Nat} {key : K} {h : Holder V} {cause : RemovalCause} :
    Aftermath settings (s.evict failed key h cause : StoreTurn K V Q R).next
      (s.evict failed key h cause : StoreTurn K V Q R).frames := by
  rw [evict]
  split
  · exact .reports
  · exact .enforces trivial

theorem Stage.IsEnforcing.aftermath {stage : Stage K V Q R} {now : Instant} {interrupted : Bool}
    {draws : List K} {turn : StoreTurn K V Q R} (hstage : stage.IsEnforcing)
    (hturn : stage.turn settings s now interrupted draws = some turn) :
    Aftermath settings turn.next turn.frames := by
  cases stage with
  | enforce failed =>
    obtain rfl := Option.some.inj hturn
    rw [Store.enforce]
    split
    · exact .enforced
    · split
      · exact .enforced
      · split
        · exact .enforced
        · exact .enforces trivial
  | draw failed sample left =>
    obtain rfl := Option.some.inj hturn
    rw [Store.draw]
    split
    · exact .enforces trivial
    · exact .enforces trivial
  | pick failed sample =>
    obtain rfl := Option.some.inj hturn
    rw [Store.pick, Turn.consulting]
    split
    · rename_i choice _
      cases choice with
      | none => exact .enforces trivial
      | some victim => exact .enforces trivial
    · exact .panics (Store.vetoRaises_of_victim ‹_›)
  | evict failed key h cause =>
    obtain rfl := Option.some.inj hturn
    exact Store.aftermath_evict
  | _ => exact hstage.elim

omit [DecidableEq K] [DecidableEq V] in
/-- A report above an enforcement ends with an answer, or calls the listener. -/
theorem Store.aftermath_report (hcopy : ∀ value, ∃ copy, settings.copyOut value = .ok copy)
    (key : K) (h : Holder V) (cause : RemovalCause) :
    Aftermath settings (s.report settings key h cause).next
      ((s.report settings key h cause).frames ++ [.next (.keep (.enforce 0))]) := by
  rw [Store.report]
  cases settings.listener with
  | none => exact .reported
  | some listener =>
    dsimp only
    split
    · obtain ⟨copy, hcopied⟩ := hcopy h.value
      have hgiven : (settings.giveOut h.value).result = .ok copy := hcopied
      rw [Turn.consulting_of_ok hgiven]
      change Aftermath settings _ ([] ++ [.listening, .next (.keep (.enforce 0))])
      exact .listens
    · exact .reported

/-- A step of an enforcement leaves the frames below alone.  At its end it hands them an answer, or
the panic of the veto. -/
theorem Aftermath.step_cases {above base : List (Frame K V Q R)} {frame : Frame K V Q R}
    (hcopy : ∀ value, ∃ copy, settings.copyOut value = .ok copy)
    (hstep : t.step settings chance w = some step) (hstack : t.stack = above ++ frame :: base)
    (ht : Aftermath settings t.activity above) :
    above = [] ∧ (∃ signal, t.activity = .settle signal ∧
        ∀ p, signal = .raised p → settings.VetoRaises p) ∨
      ∃ above', step.thread.stack = above' ++ frame :: base ∧
        Aftermath settings step.thread.activity above' := by
  obtain ⟨activity, stack, binding⟩ := t
  obtain rfl : stack = above ++ frame :: base := hstack
  cases ht with
  | enforces hstage =>
    obtain ⟨turn, hturn, rfl⟩ := Thread.turn_of_step rfl hstep
    refine .inr ⟨turn.frames, ?_, hstage.aftermath hturn⟩
    simp [Step.ofStore, Thread.goOn]
  | enforced => exact .inl ⟨rfl, _, rfl, by simp⟩
  | panics hveto => exact .inl ⟨rfl, _, rfl, fun _ hp => Signal.raised.inj hp ▸ hveto⟩
  | reports =>
    obtain ⟨turn, hturn, rfl⟩ := Thread.turn_of_step rfl hstep
    obtain rfl := Option.some.inj hturn
    refine .inr ⟨_, ?_, Store.aftermath_report hcopy _ _ _⟩
    simp [Step.ofStore, Thread.goOn]
  | reported =>
    obtain rfl := Thread.receive_of_step rfl rfl hstep
    exact .inr ⟨[], rfl, .enforces trivial⟩
  | @listens _ above =>
    have hstack : above ++ [.listening, .next (.keep (.enforce 0))] ++ frame :: base =
        above ++ .listening :: .next (.keep (.enforce 0)) :: frame :: base := by simp
    rcases (Thread.stride hstep).below hstack with ⟨rfl, signal, hactivity⟩ | ⟨above', habove'⟩
    · obtain rfl := Thread.receive_of_step hactivity rfl hstep
      refine .inr ⟨[.next (.keep (.enforce 0))], ?_⟩
      cases signal with
      | done answer => exact ⟨rfl, .reported⟩
      | raised p => exact ⟨rfl, .reported⟩
    · refine .inr ⟨above' ++ [.listening, .next (.keep (.enforce 0))], ?_, .listens⟩
      simp [habove']

end Aftermath

end SharedCache
