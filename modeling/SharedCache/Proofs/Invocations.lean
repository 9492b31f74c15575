import Mathlib.Algebra.Ring.Int.Defs
import SharedCache.Proofs.Outlook

/-!
# Invocations

A call of the store from its beginning to its end, whatever the other threads do meanwhile.  First
it seeks: it looks at its key and waits, in as many rounds as it takes, and leaves no trace outside
its own thread.  It ends there only by giving up.  Otherwise a look or a resolution sends it on for
good, and from then on every step of it accounts for the requests that it counts.
-/

namespace SharedCache

variable {K V Q R : Type}

/-- A call in progress: its thread, the frames that wait for its end, and its operation. -/
structure Invocation (K V Q R : Type) where
  thread : Nat
  base : List (Frame K V Q R)
  operation : Operation K V Q R

/-- The resolution that a wait goes on with. -/
def Passage.observed? (p : Passage K V Q R) : Option (Resolution V) :=
  match p.stage? with
  | some (.await _ _ fault) => p.before.world.store.resolution? fault
  | _ => none

/-- The passage moves one thread and changes nothing else: neither the store nor anything else that
is shared, nor another thread, nor the frames that wait on the thread itself.  Nothing is called. -/
structure Passage.IsTraceless (p : Passage K V Q R) (i : Nat) : Prop where
  world : p.after.world = p.before.world
  others : ∀ j, j ≠ i → p.after.threads[j]? = p.before.threads[j]?
  own : ∃ t a, p.before.threads[i]? = some t ∧ p.after.threads[i]? = some { t with activity := a }
  silent : p.events = []

namespace Invocation

variable (call : Invocation K V Q R)

/-- The passage is a step of the call itself, and not of anything that the call has called back. -/
def isOwn (p : Passage K V Q R) : Bool :=
  p.mover = some call.thread && p.thread?.any (Thread.attends call.base.length)

/-- The run begins with the call and goes on at most to its end. -/
structure Spans (start : Machine K V Q R) (trace : List (Passage K V Q R)) : Prop where
  begins : ∃ binding, start.threads[call.thread]? =
    some ⟨.keep (.round call.operation 0), call.base, binding⟩
  within : ∀ p ∈ trace, p.mover = some call.thread → ∀ t, p.before.threads[call.thread]? = some t →
    t.stack = call.base → ∀ signal, t.activity ≠ .settle signal

/-- The call is over and has ended like this. -/
def IsOver (m : Machine K V Q R) (signal : Signal V) : Prop :=
  ∃ binding, m.threads[call.thread]? = some ⟨.settle signal, call.base, binding⟩

/-- How much the steps of the call itself have added to a counter of the statistics. -/
def adds (counter : Statistics → Nat) (trace : List (Passage K V Q R)) : Int :=
  ((trace.filter call.isOwn).map fun p => (counter p.after.world.store.statistics : Int) -
    counter p.before.world.store.statistics).sum

/-- Whether the call has called its mapping function. -/
def asks (trace : List (Passage K V Q R)) : Bool :=
  (trace.filter call.isOwn).any fun p => !(mappings p.events).isEmpty

/-- The resolutions that the waits of the call have gone on with, in this order. -/
def observes (trace : List (Passage K V Q R)) : List (Resolution V) :=
  (trace.filter call.isOwn).filterMap Passage.observed?

/-- The call has counted as much, and has called its mapping function if the tally says so. -/
structure Tallies (trace : List (Passage K V Q R)) (tally : Tally) : Prop where
  hits : call.adds Statistics.hits trace = tally.hits
  misses : call.adds Statistics.misses trace = tally.misses
  asked : call.asks trace = tally.asked

/-- No move of the thread has left a trace. -/
def Traceless (trace : List (Passage K V Q R)) : Prop :=
  ∀ p ∈ trace, p.mover = some call.thread → p.IsTraceless call.thread

section Growing

variable {call} {trace : List (Passage K V Q R)} {p : Passage K V Q R} {t : Thread K V Q R}
  {tally : Tally}

theorem isOwn_eq (hmover : p.mover = some call.thread)
    (ht : p.before.threads[call.thread]? = some t) :
    call.isOwn p = t.attends call.base.length := by
  simp [isOwn, hmover, Passage.thread?_eq hmover ht]

theorem isOwn_of_stack (hmover : p.mover = some call.thread)
    (ht : p.before.threads[call.thread]? = some t) (hstack : t.stack = call.base) :
    call.isOwn p = true := by
  rw [isOwn_eq hmover ht]
  exact Thread.attends_of_stack (show t.stack = [] ++ call.base from hstack) (by simp)

theorem not_isOwn_of_mover (hmover : p.mover ≠ some call.thread) : call.isOwn p = false := by
  simp [isOwn, hmover]

theorem filter_snoc_own (trace : List (Passage K V Q R)) (hown : call.isOwn p = true) :
    (trace ++ [p]).filter call.isOwn = trace.filter call.isOwn ++ [p] := by
  simp [hown]

theorem filter_snoc_other (trace : List (Passage K V Q R)) (hother : call.isOwn p = false) :
    (trace ++ [p]).filter call.isOwn = trace.filter call.isOwn := by
  simp [hother]

theorem observes_snoc_own (trace : List (Passage K V Q R)) (hown : call.isOwn p = true) :
    call.observes (trace ++ [p]) = call.observes trace ++ p.observed?.toList := by
  rw [observes, filter_snoc_own trace hown, List.filterMap_append, observes]
  cases hobserved : p.observed? <;> simp [hobserved]

theorem observes_snoc_other (trace : List (Passage K V Q R)) (hother : call.isOwn p = false) :
    call.observes (trace ++ [p]) = call.observes trace := by
  rw [observes, filter_snoc_other trace hother, observes]

theorem Tallies.snoc_other (htallies : call.Tallies trace tally) (hother : call.isOwn p = false) :
    call.Tallies (trace ++ [p]) tally := by
  obtain ⟨hhits, hmisses, hasked⟩ := htallies
  constructor
  case hits => rw [adds, filter_snoc_other trace hother, ← hhits, adds]
  case misses => rw [adds, filter_snoc_other trace hother, ← hmisses, adds]
  case asked => rw [asks, filter_snoc_other trace hother, ← hasked, asks]

variable [DecidableEq K] [DecidableEq V] {settings : Settings K V Q R}

theorem Tallies.snoc_own (htallies : call.Tallies trace tally) (hp : p.Lawful settings)
    (hmover : p.mover = some call.thread) (ht : p.before.threads[call.thread]? = some t)
    (hown : call.isOwn p = true) :
    call.Tallies (trace ++ [p]) (tally.next t.activity p.events) := by
  obtain ⟨hhits, hmisses, hasked⟩ := htallies
  obtain ⟨hhit, hmiss⟩ := hp.requests_eq (Passage.thread?_eq hmover ht)
  constructor
  case hits =>
    rw [adds, filter_snoc_own trace hown, List.map_append, List.sum_append, ← adds, hhits]
    simp [Tally.next, hhit]
  case misses =>
    rw [adds, filter_snoc_own trace hown, List.map_append, List.sum_append, ← adds, hmisses]
    simp [Tally.next, hmiss]
  case asked =>
    rw [asks, filter_snoc_own trace hown, List.any_append, ← asks, hasked]
    simp [Tally.next]

end Growing

end Invocation

/-! ## Where a call stands -/

namespace Invocation

variable [DecidableEq K] (call : Invocation K V Q R)

/-- The call has looked at its key and found this fault. -/
def Met (trace : List (Passage K V Q R)) (fault : Nat) : Prop :=
  ∃ p ∈ trace, call.isOwn p = true ∧ ∃ key retries now, call.operation.key? = some key ∧
    p.stage? = some (.visit call.operation retries now) ∧
    p.before.slot? key = some (.fault fault)

/-- The call has tested a fault that it had met, and the fault was not resolved, while the
interrupter of the innermost scope of its thread was tripped. -/
def WasInterrupted (trace : List (Passage K V Q R)) : Prop :=
  ∃ front p back t retries fault interrupter, trace = front ++ p :: back ∧ call.isOwn p = true ∧
    p.thread? = some t ∧ t.activity = .keep (.await call.operation retries fault) ∧
    call.Met front fault ∧ p.before.world.store.resolution? fault = none ∧
    t.scopes.head? = some interrupter ∧ p.before.world.isTripped interrupter = true

/-- The call looks at its key or waits for a fault that it has met. -/
inductive Seeks (trace : List (Passage K V Q R)) (retries : Nat) : Stage K V Q R → Prop where
  | reads : Seeks trace retries (.round call.operation retries)
  | visits (now : Instant) : Seeks trace retries (.visit call.operation retries now)
  | awaits {fault : Nat} :
      call.Met trace fault → Seeks trace retries (.await call.operation retries fault)

variable [DecidableEq V]

/-- Where the call stands after a run. -/
inductive At (settings : Settings K V Q R) (trace : List (Passage K V Q R))
    (m : Machine K V Q R) : Prop where
  | seeks {stage : Stage K V Q R} {binding : Option Interrupter} {retries : Nat} :
      m.threads[call.thread]? = some ⟨.keep stage, call.base, binding⟩ →
      call.Seeks trace retries stage → call.Traceless trace →
      (call.observes trace).count .retry = retries → retries < maxAbandoned → At settings trace m
  | isInterrupted {binding : Option Interrupter} :
      m.threads[call.thread]? =
        some ⟨.settle (.done (.failed .interrupted)), call.base, binding⟩ →
      call.WasInterrupted trace → call.Traceless trace →
      (call.observes trace).count .retry < maxAbandoned → At settings trace m
  | givesUp {binding : Option Interrupter} :
      m.threads[call.thread]? =
        some ⟨.settle (.done (.failed (.abandoned maxAbandoned))), call.base, binding⟩ →
      call.Traceless trace → (call.observes trace).count .retry = maxAbandoned →
      At settings trace m
  /-- The call neither looks at its key again nor waits. -/
  | goesOn {t : Thread K V Q R} {above : List (Frame K V Q R)} {tally : Tally} :
      m.threads[call.thread]? = some t → t.stack = above ++ call.base →
      Outlook settings call.operation tally t.activity above → call.Tallies trace tally →
      (call.observes trace).count .retry < maxAbandoned → At settings trace m

/-- How a run ends that takes a call to its end. -/
inductive Ends (settings : Settings K V Q R) (trace : List (Passage K V Q R)) :
    Signal V → Prop where
  | isInterrupted : call.WasInterrupted trace → call.Traceless trace →
      (call.observes trace).count .retry < maxAbandoned →
      Ends settings trace (.done (.failed .interrupted))
  | givesUp : call.Traceless trace → (call.observes trace).count .retry = maxAbandoned →
      Ends settings trace (.done (.failed (.abandoned maxAbandoned)))
  | accounts {tally : Tally} {signal : Signal V} :
      call.operation.AccountsFor settings tally signal → call.Tallies trace tally →
      (call.observes trace).count .retry < maxAbandoned → Ends settings trace signal

end Invocation

/-! ## Steps of a call -/

section Steps

variable [DecidableEq K] [DecidableEq V] {settings : Settings K V Q R} {p : Passage K V Q R}
  {i : Nat} {t : Thread K V Q R} {stage : Stage K V Q R}

/-- A section of a thread takes its turn, and leaves no trace if it does nothing but go on. -/
theorem Passage.Lawful.own_section (hp : p.Lawful settings) (hmover : p.mover = some i)
    (ht : p.before.threads[i]? = some t) (hactivity : t.activity = .keep stage) :
    ∃ draws turn, stage.turn settings p.before.world.store p.before.world.clock.now
        (p.before.world.interrupts t.binding) draws = some turn ∧
      p.after.threads[i]? = some ⟨turn.next, turn.frames ++ t.stack, t.binding⟩ ∧
      p.events = turn.events ∧
      ∀ a, turn = .goTo p.before.world.store a → p.IsTraceless i := by
  rw [Passage.Lawful, hmover] at hp
  obtain ⟨chance, hstep⟩ := hp
  obtain ⟨t', step, ht', hstep, hafter, hevents⟩ := Machine.step_eq_some hstep
  obtain rfl := Option.some.inj (ht.symm.trans ht')
  obtain ⟨turn, hturn, rfl⟩ := Thread.turn_of_step hactivity hstep
  have hsize := (Array.getElem?_eq_some_iff.mp ht).1
  have hthread : p.after.threads[i]? = some ⟨turn.next, turn.frames ++ t.stack, t.binding⟩ := by
    simp [hafter, hsize, Step.ofStore, Thread.goOn]
  refine ⟨chance.draws, turn, hturn, hthread, hevents, ?_⟩
  rintro a rfl
  constructor
  case world => rw [hafter]; rfl
  case others =>
    intro j hj
    rw [hafter, Array.getElem?_setIfInBounds_ne hj.symm]
  case own => exact ⟨t, a, ht, hthread⟩
  case silent => exact hevents

omit [DecidableEq K] [DecidableEq V] in
/-- A thread that is interrupted has the interrupter in its innermost scope. -/
theorem World.isTripped_of_interrupts {w : World K V Q R}
    (hinterrupted : w.interrupts t.binding = true) :
    ∃ interrupter, t.scopes.head? = some interrupter ∧ w.isTripped interrupter = true := by
  obtain ⟨activity, stack, binding⟩ := t
  obtain ⟨interrupter, rfl, htripped⟩ := (Option.any_eq_true _ _).mp hinterrupted
  exact ⟨interrupter, rfl, htripped⟩

end Steps

namespace Invocation

variable [DecidableEq K] [DecidableEq V] {call : Invocation K V Q R} {settings : Settings K V Q R}
  {start m : Machine K V Q R} {trace : List (Passage K V Q R)} {p : Passage K V Q R}
  {t : Thread K V Q R}

omit [DecidableEq V] in
theorem Met.snoc {fault : Nat} (hmet : call.Met trace fault) : call.Met (trace ++ [p]) fault := by
  obtain ⟨q, hq, hfound⟩ := hmet
  exact ⟨q, List.mem_append_left _ hq, hfound⟩

omit [DecidableEq V] in
theorem Seeks.snoc {retries : Nat} {stage : Stage K V Q R}
    (hseeks : call.Seeks trace retries stage) : call.Seeks (trace ++ [p]) retries stage := by
  cases hseeks with
  | reads => exact .reads
  | visits now => exact .visits now
  | awaits hmet => exact .awaits hmet.snoc

omit [DecidableEq V] in
theorem WasInterrupted.snoc (hinterrupted : call.WasInterrupted trace) :
    call.WasInterrupted (trace ++ [p]) := by
  obtain ⟨front, q, back, t, retries, fault, interrupter, htrace, hfound⟩ := hinterrupted
  exact ⟨front, q, back ++ [p], t, retries, fault, interrupter, by simp [htrace], hfound⟩

omit [DecidableEq K] [DecidableEq V] in
theorem Traceless.snoc (htraceless : call.Traceless trace)
    (hp : p.mover = some call.thread → p.IsTraceless call.thread) :
    call.Traceless (trace ++ [p]) :=
  List.forall_mem_append.mpr ⟨htraceless, List.forall_mem_singleton.mpr hp⟩

omit [DecidableEq K] [DecidableEq V] in
/-- A call that leaves no trace counts nothing and calls no mapping function. -/
theorem Traceless.tallies (htraceless : call.Traceless trace) : call.Tallies trace .zero := by
  have hown : ∀ p ∈ trace.filter call.isOwn, p.IsTraceless call.thread := by
    intro p hp
    obtain ⟨hmem, hown⟩ := List.mem_filter.mp hp
    exact htraceless p hmem (by simp [isOwn] at hown; exact hown.1)
  have hadds : ∀ counter, call.adds counter trace = 0 := by
    intro counter
    refine List.sum_eq_zero fun change hchange => ?_
    obtain ⟨p, hp, rfl⟩ := List.mem_map.mp hchange
    rw [(hown p hp).world, Int.sub_self]
  refine ⟨hadds _, hadds _, List.any_eq_false.mpr fun p hp => ?_⟩
  simp [(hown p hp).silent, mappings]

/-- The other threads leave the call where it stands. -/
theorem At.of_other (hat : call.At settings trace p.before) (hp : p.Lawful settings)
    (hmover : p.mover ≠ some call.thread) : call.At settings (trace ++ [p]) p.after := by
  have hother := not_isOwn_of_mover hmover
  have hobserves := observes_snoc_other trace hother
  cases hat with
  | seeks ht hseeks htraceless hcount hlt =>
    exact .seeks (hp.thread_eq hmover ht) hseeks.snoc (htraceless.snoc (absurd · hmover))
      (by rw [hobserves, hcount]) hlt
  | isInterrupted ht hinterrupted htraceless hlt =>
    exact .isInterrupted (hp.thread_eq hmover ht) hinterrupted.snoc
      (htraceless.snoc (absurd · hmover)) (by rwa [hobserves])
  | givesUp ht htraceless hcount =>
    exact .givesUp (hp.thread_eq hmover ht) (htraceless.snoc (absurd · hmover))
      (by rw [hobserves, hcount])
  | goesOn ht hstack houtlook htallies hlt =>
    exact .goesOn (hp.thread_eq hmover ht) hstack houtlook (htallies.snoc_other hother)
      (by rwa [hobserves])

omit [DecidableEq K] [DecidableEq V] in
theorem observed?_of_keep (hmover : p.mover = some call.thread)
    (ht : p.before.threads[call.thread]? = some t)
    (hactivity : ∀ operation retries fault, t.activity ≠ .keep (.await operation retries fault)) :
    p.observed? = none := by
  rw [Passage.observed?]
  split
  · rename_i operation retries fault hstage
    obtain ⟨i, t', hmover', ht', hkeep⟩ := Passage.keep_of_stage? hstage
    obtain rfl := Option.some.inj (hmover.symm.trans hmover')
    obtain rfl := Option.some.inj (ht.symm.trans ht')
    exact absurd hkeep (hactivity _ _ _)
  · rfl

omit [DecidableEq K] in
/-- A step of the call that is no wait goes by no resolution. -/
theorem count_observes (hmover : p.mover = some call.thread)
    (ht : p.before.threads[call.thread]? = some t)
    (hactivity : t.attends call.base.length = true →
      ∀ operation retries fault, t.activity ≠ .keep (.await operation retries fault)) :
    (call.observes (trace ++ [p])).count .retry = (call.observes trace).count .retry := by
  cases hown : call.isOwn p with
  | false => rw [observes_snoc_other trace hown]
  | true =>
    rw [observes_snoc_own trace hown, observed?_of_keep hmover ht (hactivity ?_)]
    · simp
    · rwa [← isOwn_eq hmover ht]

/-- The call looks at its key. -/
theorem At.of_visits (hp : p.Lawful settings) (hmover : p.mover = some call.thread)
    {retries : Nat} {now : Instant} {binding : Option Interrupter}
    (ht : p.before.threads[call.thread]? =
      some ⟨.keep (.visit call.operation retries now), call.base, binding⟩)
    (htraceless : call.Traceless trace) (hcount : (call.observes trace).count .retry = retries)
    (hlt : retries < maxAbandoned) : call.At settings (trace ++ [p]) p.after := by
  have hown := isOwn_of_stack hmover ht rfl
  have hobserves : (call.observes (trace ++ [p])).count .retry = retries := by
    rw [count_observes hmover ht (by simp), hcount]
  obtain ⟨draws, turn, hturn, hthread, hevents, hgoes⟩ := hp.own_section hmover ht rfl
  have hvisit := Option.some.inj hturn
  have hsees : p.before.world.store.Sees settings call.operation retries
      (p.before.world.store.visit settings retries now call.operation) :=
    (Store.finds call.operation).sees
  rw [hvisit] at hsees
  cases hsees with
  | @waits key fault hkey hslot hgoTo =>
    obtain rfl := hgoTo
    refine .seeks hthread (.awaits ⟨p, by simp, hown, key, retries, now, hkey, ?_, hslot⟩)
      (htraceless.snoc fun _ => hgoes _ rfl) hobserves hlt
    exact Passage.stage?_of_keep hmover ht rfl
  | leaves houtlook =>
    have htallies := htraceless.tallies.snoc_own hp hmover ht hown
    have hquiet : mappings p.events = [] := hevents ▸ Stage.mappings_eq_nil hturn (by simp)
    rw [Tally.next_eq_self _ rfl rfl hquiet] at htallies
    exact .goesOn hthread rfl houtlook htallies (hobserves ▸ hlt)

/-- The call waits no longer. -/
theorem At.of_awaits (hp : p.Lawful settings) (hmover : p.mover = some call.thread)
    {retries fault : Nat} {binding : Option Interrupter}
    (ht : p.before.threads[call.thread]? =
      some ⟨.keep (.await call.operation retries fault), call.base, binding⟩)
    (hmet : call.Met trace fault) (htraceless : call.Traceless trace)
    (hcount : (call.observes trace).count .retry = retries) (hlt : retries < maxAbandoned) :
    call.At settings (trace ++ [p]) p.after := by
  have hown := isOwn_of_stack hmover ht rfl
  have hstage := Passage.stage?_of_keep hmover ht rfl
  have hobserved : p.observed? = p.before.world.store.resolution? fault := by
    rw [Passage.observed?, hstage]
  have hobserves := observes_snoc_own trace hown
  obtain ⟨draws, turn, hturn, hthread, hevents, hgoes⟩ := hp.own_section hmover ht rfl
  cases hresolution : p.before.world.store.resolution? fault with
  | none =>
    obtain ⟨hinterrupted, hended⟩ := hp.interrupted_of_await hmover ht rfl hresolution
    obtain ⟨interrupter, hscope, htripped⟩ := World.isTripped_of_interrupts hinterrupted
    have hturned : turn = .answer p.before.world.store (.failed .interrupted) := by
      simp only [Stage.turn, hresolution, hinterrupted] at hturn
      exact (Option.some.inj hturn).symm
    refine .isInterrupted hended ⟨trace, p, [], _, retries, fault, interrupter, rfl, hown,
      Passage.thread?_eq hmover ht, rfl, hmet, hresolution, hscope, htripped⟩
      (htraceless.snoc fun _ => hgoes _ hturned) ?_
    rw [hobserves, hobserved, hresolution]
    simpa [hcount] using hlt
  | some resolution =>
    have hturned : turn = p.before.world.store.resume call.operation retries resolution := by
      simp only [Stage.turn, hresolution] at hturn
      exact (Option.some.inj hturn).symm
    obtain ⟨a, hgoTo, hcases⟩ :=
      p.before.world.store.resume_cases settings call.operation retries resolution
    rw [hgoTo] at hturned
    have htraceless' := htraceless.snoc fun _ => hgoes a hturned
    obtain rfl := hturned
    rw [hobserved, hresolution] at hobserves
    have hcounts : (call.observes (trace ++ [p])).count .retry =
        retries + if resolution = .retry then 1 else 0 := by
      rw [hobserves, List.count_append, hcount]
      by_cases hretry : resolution = .retry
      · simp [hretry]
      · simp [hretry]
    rcases hcases with ⟨rfl, hpatient, rfl⟩ | ⟨rfl, hout, rfl⟩ | ⟨hother, rfl | houtlook⟩
    · exact .seeks hthread .reads htraceless' hcounts hpatient
    · have hlast : retries + 1 = maxAbandoned := by omega
      rw [hlast] at hthread
      rw [if_pos rfl, hlast] at hcounts
      exact .givesUp hthread htraceless' hcounts
    · rw [if_neg hother] at hcounts
      exact .seeks hthread .reads htraceless' hcounts hlt
    · rw [if_neg hother] at hcounts
      exact .goesOn hthread rfl (.arrives houtlook) htraceless'.tallies (by omega)

/-- A step of its thread takes the call on its way. -/
theorem At.of_own (hat : call.At settings trace p.before) (hp : p.Lawful settings)
    (hmover : p.mover = some call.thread)
    (hwithin : ∀ t, p.before.threads[call.thread]? = some t → t.stack = call.base →
      ∀ signal, t.activity ≠ .settle signal) : call.At settings (trace ++ [p]) p.after := by
  cases hat with
  | seeks ht hseeks htraceless hcount hlt =>
    cases hseeks with
    | reads =>
      obtain ⟨draws, turn, hturn, hthread, -, hgoes⟩ := hp.own_section hmover ht rfl
      obtain rfl := Option.some.inj hturn
      exact .seeks hthread (.visits _) (htraceless.snoc fun _ => hgoes _ rfl)
        (by rw [count_observes hmover ht (by simp), hcount]) hlt
    | visits now => exact .of_visits hp hmover ht htraceless hcount hlt
    | awaits hmet => exact .of_awaits hp hmover ht hmet htraceless hcount hlt
  | isInterrupted ht => exact absurd rfl (hwithin _ ht rfl _)
  | givesUp ht => exact absurd rfl (hwithin _ ht rfl _)
  | goesOn ht hstack houtlook htallies hlt =>
    obtain ⟨chance, step, hstep, -, hthread, hevents⟩ := hp.own_step hmover ht
    rcases houtlook.step_cases hstack hstep with ⟨rfl, signal, hover⟩ | ⟨above', hstack', houtlook'⟩
    · exact absurd hover (hwithin _ ht hstack signal)
    · refine .goesOn hthread hstack' houtlook' ?_ ?_
      · split
        · rw [← hevents]
          exact htallies.snoc_own hp hmover ht (by rwa [isOwn_eq hmover ht])
        · exact htallies.snoc_other (by rw [isOwn_eq hmover ht]; exact Bool.eq_false_iff.mpr ‹_›)
      · rwa [count_observes hmover ht (houtlook.ne_await hstack)]

/-- Every run from the beginning of a call leaves it somewhere. -/
theorem at_of_run (run : Run settings start trace m) (hspans : call.Spans start trace) :
    call.At settings trace m := by
  obtain ⟨⟨binding, hbegins⟩, hwithin⟩ := hspans
  induction run with
  | rest => exact .seeks hbegins .reads (by simp [Traceless]) rfl (by decide)
  | @move trace p _ hp ih =>
    have hat := ih fun q hq => hwithin q (List.mem_append_left _ hq)
    by_cases hmover : p.mover = some call.thread
    · exact hat.of_own hp hmover (hwithin p (by simp) hmover)
    · exact hat.of_other hp hmover

/-- A call that is over stands at one of its ends. -/
theorem At.ends {signal : Signal V} (hat : call.At settings trace m)
    (hover : call.IsOver m signal) : call.Ends settings trace signal := by
  obtain ⟨binding, hended⟩ := hover
  have hsame : ∀ {t : Thread K V Q R}, m.threads[call.thread]? = some t →
      t = ⟨.settle signal, call.base, binding⟩ := fun ht =>
    Option.some.inj (ht.symm.trans hended)
  cases hat with
  | seeks ht => cases hsame ht
  | isInterrupted ht hinterrupted htraceless hlt =>
    cases hsame ht
    exact .isInterrupted hinterrupted htraceless hlt
  | givesUp ht htraceless hcount =>
    cases hsame ht
    exact .givesUp htraceless hcount
  | @goesOn t above tally ht hstack houtlook htallies hlt =>
    obtain rfl := hsame ht
    exact .accounts (houtlook.foretells (by simpa using hstack)) htallies hlt

end Invocation

/-! ## Calls in prescribed runs -/

/-- So many steps of one thread. -/
def stepsOf (i n : Nat) : List (Move K V Q R) := List.replicate n (.step i .none)

/-- Whether the passage is no move that a call makes after its end. -/
def Invocation.outlasts (call : Invocation K V Q R) (p : Passage K V Q R) : Bool :=
  p.mover ≠ some call.thread || p.thread?.all fun t =>
    match t.activity with
    | .settle _ => t.stack.length ≠ call.base.length
    | _ => true

theorem Invocation.spans_of_outlasts {call : Invocation K V Q R} {start : Machine K V Q R}
    {trace : List (Passage K V Q R)} {binding : Option Interrupter}
    (hbegins : start.threads[call.thread]? =
      some ⟨.keep (.round call.operation 0), call.base, binding⟩)
    (houtlasts : trace.all call.outlasts = true) : call.Spans start trace := by
  refine ⟨⟨binding, hbegins⟩, fun p hp hmover t ht hstack signal hactivity => ?_⟩
  have hlasts := List.all_eq_true.mp houtlasts p hp
  simp [outlasts, hmover, Passage.thread?_eq hmover ht, hactivity, hstack] at hlasts

end SharedCache
