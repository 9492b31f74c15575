import SharedCache.Proofs.Failing

/-!
# Where a call stands that may fail

From its beginning on a call stands in one of a few places: it seeks, it computes, it is spent, it
is being undone, or it has failed and is over.  Each place says what is in the slot of the key, what
the call has spared on its way, and whether it has failed.
-/

namespace SharedCache

variable {K V Q R : Type}

namespace Call

variable (call : Call K V Q R)

/-- The call looks at its key or waits. -/
inductive Seeks : Stage K V Q R → Prop where
  | round (retries : Nat) : Seeks (.round call.operation retries)
  | visit (retries : Nat) (now : Instant) : Seeks (.visit call.operation retries now)
  | await (retries fault : Nat) : Seeks (.await call.operation retries fault)

/-- The call computes: it is about to call the mapping function, or the function runs, or a value
that the function gave is about to be prepared. -/
inductive Computes (c : Computation K V Q R) (t : Thread K V Q R) : Prop where
  | owns : t.activity = .keep (.own c) → t.stack = call.base → Computes c t
  | runs {above : List (Frame K V Q R)} :
      t.stack = above ++ .computing c :: call.base → Computes c t
  | composes {value : V} :
      t.activity = .keep (.compose c value) → t.stack = call.base → Computes c t

/-- The call does not fail in the course of a run. -/
def Unfailed (settings : Settings K V Q R) (trace : List (Passage K V Q R)) : Prop :=
  ∀ p ∈ trace, ∀ signal, ¬ call.Fails settings p signal

/-- Where the call fails, it is going to end like this. -/
def FailsOnly (settings : Settings K V Q R) (trace : List (Passage K V Q R))
    (signal : Signal V) : Prop :=
  ∀ p ∈ trace, ∀ signal', call.Fails settings p signal' → signal' = signal

variable [DecidableEq K]

/-- The passage changes no other key and no deadline, and reports nothing. -/
structure Spares (p : Passage K V Q R) : Prop where
  map : p.before.world.store.map.ChangesAt call.key p.after.world.store.map
  deadlines : p.after.world.store.deadlines = p.before.world.store.deadlines
  silent : p.IsSilent

/-- The passage puts this fault into the slot of the key. -/
def Installs (p : Passage K V Q R) (fault : Nat) : Prop :=
  p.after.slot? call.key = some (.fault fault) ∧ p.before.slot? call.key ≠ some (.fault fault)

/-- The call has spared everything else, and has put only these faults into the slot. -/
structure Clean (owns : Nat → Prop) (trace : List (Passage K V Q R)) : Prop where
  spares : ∀ p ∈ trace, call.isOwn p = true → call.Spares p
  installs : ∀ p ∈ trace, call.isOwn p = true → ∀ fault, call.Installs p fault → owns fault

/-- The fault of a computation is in the slot of the key, and the computation knows what was there
at the start. -/
structure Parks (start m : Machine K V Q R) (c : Computation K V Q R) : Prop where
  key : c.key = call.key
  before : start.slot? call.key = c.previous.map Slot.holder
  slot : m.slot? call.key = some (.fault c.fault)

/-- Where the call stands after a run, as long as nobody else writes its key. -/
inductive At (settings : Settings K V Q R) (start : Machine K V Q R)
    (trace : List (Passage K V Q R)) (m : Machine K V Q R) : Prop where
  | seeks {t : Thread K V Q R} {stage : Stage K V Q R} :
      m.threads[call.thread]? = some t → t.stack = call.base → t.activity = .keep stage →
      call.Seeks stage → m.slot? call.key = start.slot? call.key →
      call.Clean (fun _ => False) trace → call.Unfailed settings trace → At settings start trace m
  | computes {t : Thread K V Q R} {c : Computation K V Q R} :
      m.threads[call.thread]? = some t → call.Computes c t → call.Parks start m c →
      call.Clean (fun fault => fault = c.fault) trace → call.Unfailed settings trace →
      At settings start trace m
  /-- The call will not fail any more. -/
  | spends {t : Thread K V Q R} {above : List (Frame K V Q R)} :
      m.threads[call.thread]? = some t → t.stack = above ++ call.base → Spent t.activity above →
      call.Unfailed settings trace → At settings start trace m
  /-- The call has failed with its fault in the slot. -/
  | undoes {t : Thread K V Q R} {stage : Stage K V Q R} {c : Computation K V Q R}
      {resolution : Resolution V} {signal : Signal V} :
      m.threads[call.thread]? = some t → t.stack = call.base → t.activity = .keep stage →
      c.Undoes resolution signal stage → resolution.IsFailure signal → call.Parks start m c →
      call.Clean (fun fault => fault = c.fault) trace → call.FailsOnly settings trace signal →
      At settings start trace m
  /-- The call has failed and is over. -/
  | ends {t : Thread K V Q R} {signal : Signal V} {owns : Nat → Prop} :
      m.threads[call.thread]? = some t → t.stack = call.base → t.activity = .settle signal →
      m.slot? call.key = start.slot? call.key → call.Clean owns trace →
      (∀ fault, owns fault → ∃ resolution, m.world.store.resolution? fault = some resolution ∧
        resolution.IsFailure signal) →
      call.FailsOnly settings trace signal → At settings start trace m

/-- The call runs undisturbed: no one else, nor anything that its mapping function does, changes
the slot of its key, it finds no expired entry at the reading of the clock that it goes by, and it
has not ended before. -/
structure Undisturbed (trace : List (Passage K V Q R)) : Prop where
  calm : ∀ p ∈ trace, call.isOwn p = false → p.after.slot? call.key = p.before.slot? call.key
  fresh : ∀ p ∈ trace, call.isOwn p = true → ∀ retries now h,
    p.stage? = some (.visit call.operation retries now) →
      p.before.slot? call.key = some (.holder h) → p.before.world.store.expired h now = false
  within : ∀ p ∈ trace, p.mover = some call.thread → ∀ t, p.before.threads[call.thread]? = some t →
    t.stack = call.base → ∀ signal, t.activity ≠ .settle signal

/-! ## Facts about the steps of a call -/

section Facts

variable {call} {settings : Settings K V Q R} {trace : List (Passage K V Q R)}
  {p : Passage K V Q R} {t : Thread K V Q R} {owns owns' : Nat → Prop} {signal : Signal V}

omit [DecidableEq K] in
theorem isOwn_of_base (hmover : p.mover = some call.thread)
    (ht : p.before.threads[call.thread]? = some t) (hstack : t.stack = call.base) :
    call.isOwn p = true :=
  isOwn_of_stack hmover ht (show t.stack = [] ++ call.base from hstack) (by simp)

omit [DecidableEq K] in
theorem isOwn_of_mapped (hmover : p.mover = some call.thread)
    (ht : p.before.threads[call.thread]? = some t) {c : Computation K V Q R}
    (hactivity : t.activity = .settle signal) (hstack : t.stack = .computing c :: call.base) :
    call.isOwn p = true :=
  isOwn_of_settle hmover ht (show t.stack = [.computing c] ++ call.base from hstack) hactivity
    (by simp)

theorem Clean.imp (hclean : call.Clean owns trace) (himp : ∀ fault, owns fault → owns' fault) :
    call.Clean owns' trace :=
  ⟨hclean.spares, fun p hp hown fault hinstalls =>
    himp fault (hclean.installs p hp hown fault hinstalls)⟩

theorem Clean.snoc (hclean : call.Clean owns trace) (hspares : call.isOwn p = true → call.Spares p)
    (hinstalls : call.isOwn p = true → ∀ fault, call.Installs p fault → owns fault) :
    call.Clean owns (trace ++ [p]) := by
  constructor
  · exact List.forall_mem_append.mpr ⟨hclean.spares, List.forall_mem_singleton.mpr hspares⟩
  · exact List.forall_mem_append.mpr ⟨hclean.installs, List.forall_mem_singleton.mpr hinstalls⟩

theorem Clean.snoc_other (hclean : call.Clean owns trace) (hother : call.isOwn p = false) :
    call.Clean owns (trace ++ [p]) :=
  hclean.snoc (by simp [hother]) (by simp [hother])

/-- A step that leaves the slot as it is installs nothing. -/
theorem not_installs_of_slot (hslot : p.after.slot? call.key = p.before.slot? call.key)
    (fault : Nat) : ¬ call.Installs p fault := by
  rintro ⟨hafter, hbefore⟩
  exact hbefore (hslot ▸ hafter)

omit [DecidableEq K] in
theorem Unfailed.snoc (hunfailed : call.Unfailed settings trace)
    (hnot : ∀ signal, ¬ call.Fails settings p signal) :
    call.Unfailed settings (trace ++ [p]) := by
  rw [Unfailed, List.forall_mem_append, List.forall_mem_singleton]
  exact ⟨hunfailed, hnot⟩

omit [DecidableEq K] in
theorem Unfailed.failsOnly (hunfailed : call.Unfailed settings trace)
    (honly : ∀ signal', call.Fails settings p signal' → signal' = signal) :
    call.FailsOnly settings (trace ++ [p]) signal := by
  rw [FailsOnly, List.forall_mem_append, List.forall_mem_singleton]
  constructor
  · intro q hold signal' hfails
    exact absurd hfails (hunfailed q hold signal')
  · exact honly

omit [DecidableEq K] in
theorem FailsOnly.snoc (honly : call.FailsOnly settings trace signal)
    (hnot : ∀ signal', ¬ call.Fails settings p signal') :
    call.FailsOnly settings (trace ++ [p]) signal := by
  rw [FailsOnly, List.forall_mem_append, List.forall_mem_singleton]
  constructor
  · exact honly
  · intro signal' hfails
    exact absurd hfails (hnot signal')

omit [DecidableEq K] in
theorem Fails.strikes (hfails : call.Fails settings p signal)
    (ht : p.before.threads[call.thread]? = some t) : call.Strikes settings p t signal := by
  obtain ⟨-, t', ht', hstrikes⟩ := hfails
  rw [Option.some.inj (ht.symm.trans ht')]
  exact hstrikes

omit [DecidableEq K] in
/-- A call fails only in its own steps. -/
theorem not_fails_of_other (hother : call.isOwn p = false) (signal : Signal V) :
    ¬ call.Fails settings p signal := by
  rintro ⟨hmover, t, ht, hstrikes⟩
  have hown : call.isOwn p = true := by
    cases hstrikes with
    | visits _ hstack => exact isOwn_of_base hmover ht hstack
    | composes _ hstack => exact isOwn_of_base hmover ht hstack
    | complains hactivity hstack => exact isOwn_of_mapped hmover ht hactivity hstack
    | panics hactivity hstack => exact isOwn_of_mapped hmover ht hactivity hstack
  rw [hown] at hother
  cases hother

omit [DecidableEq K] in
/-- A section in which a call fails prepares a value. -/
theorem Strikes.of_keep (hstrikes : call.Strikes settings p t signal) {stage : Stage K V Q R}
    (hactivity : t.activity = .keep stage) :
    (∃ retries now panic, stage = .visit call.operation retries now ∧ signal = .raised panic ∧
      p.next? = some (.settle (.raised panic))) ∨
    ∃ c value panic, stage = .compose c value ∧ signal = .raised panic ∧
      (settings.draft c.key value p.before.world.clock.now (c.previous.map fun h =>
        p.before.world.store.timeLeft h p.before.world.clock.now)).result = .error panic := by
  cases hstrikes with
  | visits hvisit _ hnext =>
    exact .inl ⟨_, _, _, Activity.keep.inj (hactivity.symm.trans hvisit), rfl, hnext⟩
  | complains hsettled => cases hactivity.symm.trans hsettled
  | panics hsettled => cases hactivity.symm.trans hsettled
  | composes hcompose _ hdraft =>
    exact .inr ⟨_, _, _, Activity.keep.inj (hactivity.symm.trans hcompose), rfl, hdraft⟩

omit [DecidableEq K] in
theorem not_fails_of_keep (ht : p.before.threads[call.thread]? = some t) {stage : Stage K V Q R}
    (hactivity : t.activity = .keep stage)
    (hvisit : ∀ retries now panic, stage = .visit call.operation retries now →
      p.next? ≠ some (.settle (.raised panic)))
    (hcompose : ∀ c value, stage ≠ .compose c value) (signal : Signal V) :
    ¬ call.Fails settings p signal := by
  intro hfails
  rcases (hfails.strikes ht).of_keep hactivity with
    ⟨retries, now, panic, hstage, -, hnext⟩ | ⟨c, value, panic, hstage, -⟩
  · exact hvisit retries now panic hstage hnext
  · exact hcompose c value hstage

end Facts

end Call

end SharedCache
