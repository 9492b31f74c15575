import SharedCache.Proofs.Calls
import SharedCache.Proofs.Turnover

/-!
# Promises

What a thread is certain to come to by moving.  A promise is kept after a certain number of moves of
one thread, however many moves the others make in between, and nothing keeps the thread from moving
before.  Whoever waits for a computation whose fault is resolved has such a promise: what is
answered depends on the resolution alone, whatever has become of the slot meanwhile.
-/

namespace SharedCache

variable {K V Q R : Type}

/-- The moves of one thread among some passages. -/
def movesOf (i : Nat) (trace : List (Passage K V Q R)) : List (Passage K V Q R) :=
  trace.filter fun p => p.mover = some i

theorem movesOf_append_own {i : Nat} (trace : List (Passage K V Q R)) {p : Passage K V Q R}
    (hmover : p.mover = some i) : movesOf i (trace ++ [p]) = movesOf i trace ++ [p] := by
  simp [movesOf, hmover]

theorem movesOf_append_other {i : Nat} (trace : List (Passage K V Q R)) {p : Passage K V Q R}
    (hmover : p.mover ≠ some i) : movesOf i (trace ++ [p]) = movesOf i trace := by
  simp [movesOf, hmover]

theorem Turn.consulting_of_ok {σ α : Type} {c : Consultation K V α} {a : α}
    {failed : Panic → Turn σ K V Q R} {next : α → Turn σ K V Q R} (hc : c.result = .ok a) :
    Turn.consulting c failed next = (next a).after c.events := by
  rw [Turn.consulting, hc]

variable [DecidableEq K] [DecidableEq V]

/-! ## The thread that moves -/

namespace Passage.Lawful

variable {settings : Settings K V Q R} {p : Passage K V Q R} {i : Nat} {t : Thread K V Q R}

/-- A thread stays as it is while it does not move. -/
theorem thread_eq (hp : p.Lawful settings) (hmover : p.mover ≠ some i)
    (ht : p.before.threads[i]? = some t) : p.after.threads[i]? = some t := by
  cases hp.course with
  | outside hnone houtside hevents =>
    rcases houtside.threads_eq i with hsame | ⟨script, hbefore, -⟩
    · rw [hsame, ht]
    · rw [ht] at hbefore
      cases hbefore
  | @step j other s hj hother hstride hafter hevents =>
    have hne : j ≠ i := by
      rintro rfl
      exact hmover hj
    rw [hafter, Array.getElem?_setIfInBounds_ne hne, ht]

/-- A move of a thread is a step of it. -/
theorem own_step (hp : p.Lawful settings) (hmover : p.mover = some i)
    (ht : p.before.threads[i]? = some t) : ∃ chance s,
      t.step settings chance p.before.world = some s ∧ p.after.world = s.world ∧
        p.after.threads[i]? = some s.thread ∧ p.events = s.events := by
  rw [Passage.Lawful, hmover] at hp
  obtain ⟨chance, hstep⟩ := hp
  obtain ⟨t', s, ht', hs, hafter, hevents⟩ := Machine.step_eq_some hstep
  obtain rfl := Option.some.inj (ht.symm.trans ht')
  have hsize := (Array.getElem?_eq_some_iff.mp ht).1
  refine ⟨chance, s, hs, ?_, ?_, hevents⟩
  · rw [hafter]
  · simp [hafter, hsize]

/-- A thread that moves in a section of a store operation takes the turn of that section. -/
theorem own_turn (hp : p.Lawful settings) (hmover : p.mover = some i)
    (ht : p.before.threads[i]? = some t) {stage : Stage K V Q R}
    (hactivity : t.activity = .keep stage) :
    ∃ draws turn, stage.turn settings p.before.world.store p.before.world.clock.now
        (p.before.world.interrupts t.binding) draws = some turn ∧
      p.after.world.store = turn.state ∧
      p.after.threads[i]? = some ⟨turn.next, turn.frames ++ t.stack, t.binding⟩ ∧
      p.events = turn.events := by
  obtain ⟨chance, s, hstep, hworld, hthread, hevents⟩ := hp.own_step hmover ht
  obtain ⟨turn, draws, hturn, rfl⟩ := (Thread.stride hstep).turn_of_keep hactivity
  exact ⟨draws, turn, hturn, by rw [hworld]; rfl, hthread, hevents⟩

end Passage.Lawful

theorem Machine.isSome_step {settings : Settings K V Q R} {m : Machine K V Q R} {i : Nat}
    {t : Thread K V Q R} {chance : Chance K R} {s : Step K V Q R} (ht : m.threads[i]? = some t)
    (hstep : t.step settings chance m.world = some s) : (m.step settings chance i).isSome := by
  simp [Machine.step, ht, hstep]

theorem Thread.step_of_turn {settings : Settings K V Q R} {chance : Chance K R}
    {w : World K V Q R} {t : Thread K V Q R} {stage : Stage K V Q R} {turn : StoreTurn K V Q R}
    (hactivity : t.activity = .keep stage)
    (hturn : stage.turn settings w.store w.clock.now (w.interrupts t.binding) chance.draws =
      some turn) : t.step settings chance w = some (.ofStore w t turn) := by
  rw [Thread.step, hactivity]
  exact congrArg (Option.map (Step.ofStore w t)) hturn

/-! ## Promises -/

/-- After so many moves of a thread a goal is reached, whatever the others do meanwhile, and until
then nothing keeps the thread from moving. -/
def Machine.Promises (settings : Settings K V Q R) (m : Machine K V Q R) (i n : Nat)
    (goal : List (Passage K V Q R) → Machine K V Q R → Prop) : Prop :=
  ∀ trace m', Run settings m trace m' →
    ((movesOf i trace).length = n → goal (movesOf i trace) m') ∧
    ((movesOf i trace).length < n → ∀ chance, (m'.step settings chance i).isSome)

/-- A promise rests on something that the others leave alone, that every move of the thread brings
nearer to its end, and that lets the thread move before. -/
theorem Machine.promises_of_countdown {settings : Settings K V Q R} {m : Machine K V Q R}
    {i n : Nat} {goal : List (Passage K V Q R) → Machine K V Q R → Prop}
    {P : Nat → List (Passage K V Q R) → Machine K V Q R → Prop} (hstart : P n [] m)
    (hother : ∀ left moves (p : Passage K V Q R), p.Lawful settings → p.mover ≠ some i →
      P left moves p.before → P left moves p.after)
    (hown : ∀ left moves (p : Passage K V Q R), p.Lawful settings → p.mover = some i →
      P (left + 1) moves p.before → P left (moves ++ [p]) p.after)
    (hable : ∀ left moves m', P (left + 1) moves m' →
      ∀ chance, (m'.step settings chance i).isSome)
    (hgoal : ∀ moves m', P 0 moves m' → goal moves m') : m.Promises settings i n goal := by
  have hcount : ∀ trace m', Run settings m trace m' → ∀ left,
      (movesOf i trace).length + left = n → P left (movesOf i trace) m' := by
    intro trace m' run
    induction run with
    | rest =>
      intro left hleft
      obtain rfl : left = n := by simpa [movesOf] using hleft
      exact hstart
    | @move trace p hrun hp ih =>
      intro left hleft
      by_cases hmover : p.mover = some i
      · rw [movesOf_append_own trace hmover] at hleft ⊢
        rw [List.length_append, List.length_singleton] at hleft
        exact hown left _ p hp hmover (ih (left + 1) (by omega))
      · rw [movesOf_append_other trace hmover] at hleft ⊢
        exact hother left _ p hp hmover (ih left hleft)
  intro trace m' run
  constructor
  · intro hlength
    exact hgoal _ _ (hcount trace m' run 0 hlength)
  · intro hlength
    obtain ⟨left, hleft⟩ := Nat.exists_eq_add_of_lt hlength
    exact hable left _ m' (hcount trace m' run (left + 1) (by omega))

/-! ## Waiting -/

/-- What an operation answers that has waited for a computation, by what the call answers to which
the computation belongs. -/
def Operation.receives : Operation K V Q R → Answer V → Answer V
  | .get _, .failed _ => .value none
  | _, answer => answer

/-- An activity is so many moves of its thread away from an answer. -/
inductive Store.Nears (settings : Settings K V Q R) (s : Store K V) :
    Nat → Answer V → Activity K V Q R → Prop where
  | settles {answer : Answer V} : Nears settings s 0 answer (.settle (.done answer))
  | handsOut {h : Holder V} {copy : V} :
      settings.copyOut h.value = .ok copy →
      Nears settings s 1 (.value (some copy)) (.keep (.handOut h false))
  | refreshes {h : Holder V} {deadline : Option (Option Instant)} {copy : V} :
      settings.copyOut h.value = .ok copy →
      Nears settings s 2 (.value (some copy)) (.keep (.refresh h deadline false))
  | consults {key : K} {h : Holder V} {now : Instant} {copy : V} :
      settings.copyOut h.value = .ok copy →
      Nears settings s 3 (.value (some copy)) (.keep (.consult key h now false))
  | receives {key : K} {h : Holder V} {copy : V} :
      settings.copyOut h.value = .ok copy →
      Nears settings s 4 (.value (some copy)) (.keep (.receive key h))
  | misses : Nears settings s 1 (.value none) (.keep .missed)
  /-- A wait is over once the fault is resolved. -/
  | resumes {n retries fault : Nat} {answer : Answer V} {operation : Operation K V Q R}
      {resolution : Resolution V} {next : Activity K V Q R} :
      s.resolution? fault = some resolution →
      (∀ s' : Store K V, s'.resume operation retries resolution = .goTo s' next) →
      Nears settings s n answer next →
      Nears settings s (n + 1) answer (.keep (.await operation retries fault))

section Waiting

variable {settings : Settings K V Q R} {s s' : Store K V} {n : Nat} {answer : Answer V}
  {a : Activity K V Q R}

omit [DecidableEq K] [DecidableEq V] in
theorem Store.Nears.mono (hnears : s.Nears settings n answer a)
    (hresolved : ∀ fault resolution, s.resolution? fault = some resolution →
      s'.resolution? fault = some resolution) : s'.Nears settings n answer a := by
  induction hnears with
  | settles => exact .settles
  | handsOut hcopy => exact .handsOut hcopy
  | refreshes hcopy => exact .refreshes hcopy
  | consults hcopy => exact .consults hcopy
  | receives hcopy => exact .receives hcopy
  | misses => exact .misses
  | resumes hresolution hnext _ ih => exact .resumes (hresolved _ _ hresolution) hnext ih

/-- One section brings the activity nearer to its answer, and nothing else. -/
theorem Store.Nears.turn (hsteady : settings.Steady) (hnears : s.Nears settings (n + 1) answer a)
    (now : Instant) (interrupted : Bool) (draws : List K) :
    ∃ stage turn, a = .keep stage ∧ stage.turn settings s now interrupted draws = some turn ∧
      turn.frames = [] ∧ turn.state.faults = s.faults ∧ mappings turn.events = [] ∧
      turn.state.Nears settings n answer turn.next := by
  cases hnears with
  | @handsOut h copy hcopy =>
    have hgiven : (settings.giveOut h.value).result = .ok copy := hcopy
    have hturn : (s.handOut settings h false : StoreTurn K V Q R) = _ :=
      Turn.consulting_of_ok hgiven
    exact ⟨_, _, rfl, congrArg some hturn, rfl, rfl, rfl, .settles⟩
  | @refreshes h deadline copy hcopy =>
    cases deadline with
    | none => exact ⟨_, _, rfl, rfl, rfl, rfl, rfl, .handsOut hcopy⟩
    | some d => exact ⟨_, _, rfl, rfl, rfl, rfl, rfl, .handsOut hcopy⟩
  | @consults key h now' copy hcopy =>
    obtain ⟨deadline, hdeadline⟩ :=
      hsteady.deadlineOfRead key h.value now' (s.timeLeft h now') h.writtenAt
    have hturn : (s.consult settings key h now' false : StoreTurn K V Q R) = _ :=
      Turn.consulting_of_ok hdeadline
    refine ⟨_, _, rfl, congrArg some hturn, rfl, rfl, ?_, .refreshes hcopy⟩
    have hstage : (Stage.consult key h now' false).turn settings s now interrupted draws = some _ :=
      congrArg some hturn
    exact Stage.mappings_eq_nil hstage (by simp)
  | receives hcopy => exact ⟨_, _, rfl, rfl, rfl, rfl, rfl, .consults hcopy⟩
  | misses => exact ⟨_, _, rfl, rfl, rfl, rfl, rfl, .settles⟩
  | @resumes _ retries fault _ operation resolution next hresolution hnext hnears =>
    have hturn : (Stage.await operation retries fault).turn settings s now interrupted draws =
        some (.goTo s next) := by
      simp only [Stage.turn, hresolution]
      rw [hnext s]
    exact ⟨_, _, rfl, hturn, rfl, rfl, rfl, hnears⟩

/-- A thread on its way to an answer gives it, and calls no mapping function on the way. -/
theorem Store.Nears.promises (hsteady : settings.Steady) {m : Machine K V Q R} {i : Nat}
    {t : Thread K V Q R} (ht : m.threads[i]? = some t)
    (hnears : m.world.store.Nears settings n answer t.activity) :
    m.Promises settings i n fun moves m' =>
      m'.threads[i]? = some ⟨.settle (.done answer), t.stack, t.binding⟩ ∧
        ∀ q ∈ moves, mappings q.events = [] := by
  apply Machine.promises_of_countdown (P := fun left moves m' =>
    (∃ a, m'.threads[i]? = some ⟨a, t.stack, t.binding⟩ ∧
      m'.world.store.Nears settings left answer a) ∧ ∀ q ∈ moves, mappings q.events = [])
  · exact ⟨⟨t.activity, ht, hnears⟩, by simp⟩
  · rintro left moves p hp hmover ⟨⟨a, ha, hnears⟩, hquiet⟩
    refine ⟨⟨a, hp.thread_eq hmover ha, hnears.mono ?_⟩, hquiet⟩
    intro fault resolution hresolved
    exact hp.resolution? hresolved
  · rintro left moves p hp hmover ⟨⟨a, ha, hnears⟩, hquiet⟩
    obtain ⟨chance, step, hstep, hworld, hthread, hevents⟩ := hp.own_step hmover ha
    obtain ⟨stage, turn, rfl, hturn, hframes, -, hsilent, hnearer⟩ :=
      hnears.turn hsteady p.before.world.clock.now (p.before.world.interrupts t.binding)
        chance.draws
    have hturned := Thread.step_of_turn (t := ⟨.keep stage, t.stack, t.binding⟩) rfl hturn
    obtain rfl := Option.some.inj (hturned.symm.trans hstep)
    constructor
    · refine ⟨turn.next, ?_, ?_⟩
      · rw [hthread]
        simp [Step.ofStore, Thread.goOn, hframes]
      · rw [hworld]
        exact hnearer
    · intro q hq
      rcases List.mem_append.mp hq with hold | hnew
      · exact hquiet q hold
      · rw [List.mem_singleton.mp hnew, hevents]
        exact hsilent
  · rintro left moves m' ⟨⟨a, ha, hnears⟩, -⟩ chance
    obtain ⟨stage, turn, rfl, hturn, -⟩ :=
      hnears.turn hsteady m'.world.clock.now (m'.world.interrupts t.binding) chance.draws
    exact Machine.isSome_step ha
      (Thread.step_of_turn (t := ⟨.keep stage, t.stack, t.binding⟩) rfl hturn)
  · rintro moves m' ⟨⟨a, ha, hnears⟩, hquiet⟩
    cases hnears
    exact ⟨ha, hquiet⟩

/-- A thread that waits for a computation moves only when the fault is resolved or the thread is
interrupted. -/
theorem Passage.Lawful.interrupted_of_await {p : Passage K V Q R} (hp : p.Lawful settings)
    {i retries fault : Nat} {operation : Operation K V Q R} {t : Thread K V Q R}
    (hmover : p.mover = some i) (ht : p.before.threads[i]? = some t)
    (hactivity : t.activity = .keep (.await operation retries fault))
    (hpending : p.before.world.store.resolution? fault = none) :
    p.before.world.interrupts t.binding = true ∧
      p.after.threads[i]? =
        some ⟨.settle (.done (.failed .interrupted)), t.stack, t.binding⟩ := by
  obtain ⟨chance, step, hstep, -, hthread, -⟩ := hp.own_step hmover ht
  simp only [Thread.step, hactivity, Stage.turn, hpending] at hstep
  split at hstep
  · rename_i hinterrupted
    obtain rfl := Option.some.inj hstep
    exact ⟨hinterrupted, hthread⟩
  · cases hstep

end Waiting

end SharedCache
