import SharedCache.Proofs.Accounting
import SharedCache.Proofs.SingleKey

/-!
# Registers

A key as those see it who use it one after another.  A register has a content, is busy with at most
one computation, and knows what the computations that have ended have told those who waited for
them.  Every act about the key is one step of the register, and each step has its conditions: what
an operation decides depends on the content alone, what it shares on the end of the very computation
that it waited for, and what a computation leaves on what its function gave.
-/

namespace SharedCache

variable {K V Q R : Type}

/-- How far the computation that a register is busy with has come. -/
inductive Headway (V : Type) where
  | begun
  | running
  | returned (signal : Signal V)
  /-- A collaborator has panicked. -/
  | unwinding (panic : Panic)
  /-- This value is going to be stored, and this copy of it told. -/
  | composed (stored told : V)

/-- How a computation with this fault ends that has found this content and has come so far: what it
leaves, what it tells those who wait for it, and how its call ends. -/
def Headway.closes (content : Option V) (fault : Nat) :
    Headway V → Option (Option V × Verdict V × Signal V)
  | .composed stored told => some (some stored, .gave stored, .done (.value (some told)))
  | .unwinding panic | .returned (.raised panic) => some (content, .abandoned, .raised panic)
  | .returned (.done (.complaint text)) =>
    some (content, if content.isSome then .restored else .failed ⟨fault, text⟩,
      .done (.failed (.computation ⟨fault, text⟩)))
  | .returned (.done answer) =>
    if answer.value?.isNone then some (none, .nothing, .done (.value none)) else none
  | _ => none

/-- A key as those see it who use it one after another. -/
structure Register (K V Q R : Type) where
  /-- The value that the last update has left. -/
  content : Option V
  /-- The fault of the computation in progress, and how far it has come. -/
  busy : Option (Nat × Headway V)
  /-- What each of the computations that have ended has told, the latest one first. -/
  settled : List (Nat × Verdict V)
  /-- The operations that were called and have not done anything yet, each with the fault that it
  waits for, if it waits. -/
  undecided : List (Operation K V Q R × Option Nat)

namespace Register

variable [DecidableEq V]

/-- How a register takes an act.  An operation that was called decides while no computation is in
progress, and goes by the content; or it waits for the one in progress, and goes by the end of that
one.  A computation is the only one while it is in progress, its function is shown the content, and
the content is changed by its end. -/
inductive Step (settings : Settings K V Q R) (key : K) :
    Register K V Q R → Act K V Q R → Register K V Q R → Prop where
  | called {content : Option V} {busy : Option (Nat × Headway V)} {settled : List (Nat × Verdict V)}
      {front back : List (Operation K V Q R × Option Nat)} {operation : Operation K V Q R} :
      Step settings key ⟨content, busy, settled, front ++ back⟩ (.called operation)
        ⟨content, busy, settled, front ++ (operation, none) :: back⟩
  /-- An operation waits for the computation in progress. -/
  | waited {content : Option V} {fault : Nat} {headway : Headway V}
      {settled : List (Nat × Verdict V)} {front back : List (Operation K V Q R × Option Nat)}
      {operation : Operation K V Q R} :
      Step settings key
        ⟨content, some (fault, headway), settled, front ++ (operation, none) :: back⟩
        (.waited operation fault)
        ⟨content, some (fault, headway), settled, front ++ (operation, some fault) :: back⟩
  /-- The computation that it waited for has told nothing that the operation could go by. -/
  | again {content : Option V} {busy : Option (Nat × Headway V)} {settled : List (Nat × Verdict V)}
      {front back : List (Operation K V Q R × Option Nat)} {operation : Operation K V Q R}
      {fault : Nat} {verdict : Verdict V} :
      (fault, verdict) ∈ settled → operation.heeds verdict = none →
      Step settings key ⟨content, busy, settled, front ++ (operation, some fault) :: back⟩
        (.again operation fault) ⟨content, busy, settled, front ++ (operation, none) :: back⟩
  /-- It has told what the operation goes by. -/
  | shared {content : Option V} {busy : Option (Nat × Headway V)} {settled : List (Nat × Verdict V)}
      {front back : List (Operation K V Q R × Option Nat)} {operation : Operation K V Q R}
      {fault : Nat} {verdict : Verdict V} {reply : Reply V} :
      (fault, verdict) ∈ settled → operation.heeds verdict = some reply →
      Step settings key ⟨content, busy, settled, front ++ (operation, some fault) :: back⟩
        (.shared operation fault reply) ⟨content, busy, settled, front ++ back⟩
  /-- An operation gives up while the computation that it waits for is in progress. -/
  | interrupted {content : Option V} {fault : Nat} {headway : Headway V}
      {settled : List (Nat × Verdict V)} {front back : List (Operation K V Q R × Option Nat)}
      {operation : Operation K V Q R} :
      Step settings key
        ⟨content, some (fault, headway), settled, front ++ (operation, some fault) :: back⟩
        (.gaveUp operation fault .interrupted)
        ⟨content, some (fault, headway), settled, front ++ back⟩
  /-- An operation gives up as the computation that it waited for has panicked, like so many
  before. -/
  | abandoned {content : Option V} {busy : Option (Nat × Headway V)}
      {settled : List (Nat × Verdict V)} {front back : List (Operation K V Q R × Option Nat)}
      {operation : Operation K V Q R} {fault n : Nat} :
      (fault, .abandoned) ∈ settled → maxAbandoned ≤ n →
      Step settings key ⟨content, busy, settled, front ++ (operation, some fault) :: back⟩
        (.gaveUp operation fault (.abandoned n)) ⟨content, busy, settled, front ++ back⟩
  /-- An operation that is not meant to write where it finds the content tells what it has found. -/
  | keeps {content : Option V} {settled : List (Nat × Verdict V)}
      {front back : List (Operation K V Q R × Option Nat)} {operation : Operation K V Q R} :
      operation.gives content = none → operation.computes content = false →
      Step settings key ⟨content, none, settled, front ++ (operation, none) :: back⟩
        (.decided operation content (operation.tells content))
        ⟨content, none, settled, front ++ back⟩
  /-- An operation writes a copy of its value where it finds the content, and tells what it has
  found. -/
  | writes {content : Option V} {settled : List (Nat × Verdict V)}
      {front back : List (Operation K V Q R × Option Nat)} {operation : Operation K V Q R}
      {value copy : V} :
      operation.gives content = some value → settings.copyIn value = .ok copy →
      Step settings key ⟨content, none, settled, front ++ (operation, none) :: back⟩
        (.decided operation (some copy) (operation.tells content))
        ⟨some copy, none, settled, front ++ back⟩
  /-- An operation is meant to write where it finds the content, and a collaborator panics over the
  value. -/
  | crashed {content : Option V} {settled : List (Nat × Verdict V)}
      {front back : List (Operation K V Q R × Option Nat)} {operation : Operation K V Q R}
      {value : V} {panic : Panic} :
      operation.gives content = some value → settings.BalksAtWriting key value panic →
      Step settings key ⟨content, none, settled, front ++ (operation, none) :: back⟩
        (.crashed operation panic) ⟨content, none, settled, front ++ back⟩
  /-- An operation is meant to compute where it finds the content, and does so under a new fault. -/
  | began {content : Option V} {settled : List (Nat × Verdict V)}
      {front back : List (Operation K V Q R × Option Nat)} {operation : Operation K V Q R}
      {fault : Nat} :
      operation.computes content = true → (∀ verdict, (fault, verdict) ∉ settled) →
      Step settings key ⟨content, none, settled, front ++ (operation, none) :: back⟩
        (.began operation fault) ⟨content, some (fault, .begun), settled, front ++ back⟩
  /-- The function is shown a copy of the content. -/
  | mapped {content current : Option V} {settled : List (Nat × Verdict V)}
      {undecided : List (Operation K V Q R × Option Nat)} {fault : Nat} :
      settings.Shows content current →
      Step settings key ⟨content, some (fault, .begun), settled, undecided⟩ (.mapped fault current)
        ⟨content, some (fault, .running), settled, undecided⟩
  /-- The content cannot be copied for the function. -/
  | unshown {content : Option V} {settled : List (Nat × Verdict V)}
      {undecided : List (Operation K V Q R × Option Nat)} {fault : Nat} {panic : Panic} :
      settings.BalksAtShowing content panic →
      Step settings key ⟨content, some (fault, .begun), settled, undecided⟩ (.unwound fault panic)
        ⟨content, some (fault, .unwinding panic), settled, undecided⟩
  | returned {content : Option V} {settled : List (Nat × Verdict V)}
      {undecided : List (Operation K V Q R × Option Nat)} {fault : Nat} {signal : Signal V} :
      Step settings key ⟨content, some (fault, .running), settled, undecided⟩
        (.returned fault signal)
        ⟨content, some (fault, .returned signal), settled, undecided⟩
  /-- The value that the function gave is copied into the store and out again. -/
  | composed {content : Option V} {settled : List (Nat × Verdict V)}
      {undecided : List (Operation K V Q R × Option Nat)} {fault : Nat} {value stored told : V} :
      settings.copyIn value = .ok stored → settings.copyOut stored = .ok told →
      Step settings key
        ⟨content, some (fault, .returned (.done (.value (some value)))), settled, undecided⟩
        (.composed fault stored told)
        ⟨content, some (fault, .composed stored told), settled, undecided⟩
  /-- A collaborator panics over the value that the function gave. -/
  | uncomposed {content : Option V} {settled : List (Nat × Verdict V)}
      {undecided : List (Operation K V Q R × Option Nat)} {fault : Nat} {value : V}
      {panic : Panic} :
      settings.BalksAtComposing key value panic →
      Step settings key
        ⟨content, some (fault, .returned (.done (.value (some value)))), settled, undecided⟩
        (.unwound fault panic)
        ⟨content, some (fault, .unwinding panic), settled, undecided⟩
  | ended {content left : Option V} {settled : List (Nat × Verdict V)}
      {undecided : List (Operation K V Q R × Option Nat)} {fault : Nat} {headway : Headway V}
      {verdict : Verdict V} {signal : Signal V} :
      headway.closes content fault = some (left, verdict, signal) →
      Step settings key ⟨content, some (fault, headway), settled, undecided⟩
        (.ended fault left signal) ⟨left, none, (fault, verdict) :: settled, undecided⟩

/-- A register takes some acts one after another. -/
inductive Accepts (settings : Settings K V Q R) (key : K) (start : Register K V Q R) :
    List (Act K V Q R) → Register K V Q R → Prop where
  | rest : Accepts settings key start [] start
  | move {acts : List (Act K V Q R)} {act : Act K V Q R} {r r' : Register K V Q R} :
      Accepts settings key start acts r → r.Step settings key act r' →
      Accepts settings key start (acts ++ [act]) r'

end Register

/-! ## What a register shows of a machine -/

/-- The operation that something does not do yet, and the fault that it waits for. -/
def Ongoing.pending? : Ongoing K V Q R → Option (Operation K V Q R × Option Nat)
  | .computes .. => none
  | .awaits operation fault => some (operation, some fault)
  | .seeks operation => some (operation, none)

/-- How far a computation has come for each headway of a register. -/
def Headway.Fits (c : Computation K V Q R) (progress : Progress V) : Headway V → Prop
  | .begun => progress = .begun
  | .running => progress = .running
  | .returned signal => progress = c.progress signal
  | .unwinding panic => progress = .leaving c.previous .retry (.raised panic)
  | .composed stored told => ∃ h, h.value = stored ∧
      progress = .leaving (some h) (.ready h) (.done (.value (some told)))

variable [DecidableEq K]

namespace Machine

/-- The operations about a key that have not done anything yet. -/
def undecided (m : Machine K V Q R) (key : K) : List (Operation K V Q R × Option Nat) :=
  (m.concerning key).filterMap Ongoing.pending?

/-- No computation of a key is in progress, and no operation waits for one. -/
structure AtRest (key : K) (m : Machine K V Q R) : Prop where
  slot : ∀ fault, m.slot? key ≠ some (.fault fault)
  ongoing : ∀ o ∈ m.concerning key, ∃ operation, o = .seeks operation

/-- The register of a key at rest. -/
def register (m : Machine K V Q R) (key : K) : Register K V Q R :=
  ⟨m.content? key, none, [], m.undecided key⟩

end Machine

namespace Register

/-- The content of a register and what it is busy with, as a machine has it.  Without a computation
the content is in the slot.  With one the slot has its fault, and the content is the value that the
fault took the place of. -/
inductive Matches (key : K) (m : Machine K V Q R) :
    Option V → Option (Nat × Headway V) → Prop where
  | idle : (∀ fault, m.slot? key ≠ some (.fault fault)) → m.computing key = [] →
      Matches key m (m.content? key) none
  | busy {c : Computation K V Q R} {progress : Progress V} {headway : Headway V} :
      m.slot? key = some (.fault c.fault) → m.computing key = [(c, progress)] →
      headway.Fits c progress →
      Matches key m (c.previous.map Holder.value) (some (c.fault, headway))

/-- The computation with this fault is in progress, or the register knows how it has ended. -/
def Knows (r : Register K V Q R) (fault : Nat) : Prop :=
  (∃ headway, r.busy = some (fault, headway)) ∨ ∃ verdict, (fault, verdict) ∈ r.settled

/-- A register shows how things are with a key. -/
structure Describes (key : K) (m : Machine K V Q R) (r : Register K V Q R) : Prop where
  state : Matches key m r.content r.busy
  undecided : r.undecided = m.undecided key
  /-- Nobody waits for anything but the computations of the register. -/
  waiting : ∀ operation fault, .awaits operation fault ∈ m.concerning key → r.Knows fault
  /-- Computations that have ended have told what their faults are resolved to. -/
  settled : ∀ fault verdict, (fault, verdict) ∈ r.settled →
    ∃ resolution, m.world.store.resolution? fault = some resolution ∧
      resolution.verdict = verdict

end Register

/-! ## How computations end -/

section Ends

omit [DecidableEq K]

variable {c : Computation K V Q R} {signal : Signal V} {headway : Headway V}
  {left : Option (Holder V)} {resolution : Resolution V}

/-- After its function a computation has a value, or leaves its slot as the function demands. -/
theorem Computation.progress_cases (c : Computation K V Q R) (signal : Signal V) :
    (∃ value, signal = .done (.value (some value)) ∧ c.progress signal = .given value) ∨
      ∃ left resolution out, c.progress signal = .leaving left resolution out ∧
        (Headway.returned signal).closes (c.previous.map Holder.value) c.fault =
          some (left.map Holder.value, resolution.verdict, out) := by
  obtain ⟨key, fault, previous, isRequest, code⟩ := c
  cases signal with
  | raised p => exact .inr ⟨_, _, _, rfl, rfl⟩
  | done answer =>
    cases answer with
    | complaint text => cases previous <;> exact .inr ⟨_, _, _, rfl, rfl⟩
    | value v =>
      cases v with
      | none => exact .inr ⟨_, _, _, rfl, rfl⟩
      | some value => exact .inl ⟨value, rfl, rfl⟩
    | _ => exact .inr ⟨_, _, _, rfl, rfl⟩

theorem Headway.Fits.begun (hfits : headway.Fits c .begun) : headway = .begun := by
  cases headway with
  | begun => rfl
  | running | unwinding => cases hfits
  | returned signal =>
    rcases c.progress_cases signal with ⟨value, -, hgiven⟩ | ⟨left, resolution, out, hleaving, -⟩
    · cases hfits.trans hgiven
    · cases hfits.trans hleaving
  | composed =>
    obtain ⟨h, -, hleaving⟩ := hfits
    cases hleaving

theorem Headway.Fits.running (hfits : headway.Fits c .running) : headway = .running := by
  cases headway with
  | running => rfl
  | begun | unwinding => cases hfits
  | returned signal =>
    rcases c.progress_cases signal with ⟨value, -, hgiven⟩ | ⟨left, resolution, out, hleaving, -⟩
    · cases hfits.trans hgiven
    · cases hfits.trans hleaving
  | composed =>
    obtain ⟨h, -, hleaving⟩ := hfits
    cases hleaving

theorem Headway.Fits.given {value : V} (hfits : headway.Fits c (.given value)) :
    headway = .returned (.done (.value (some value))) := by
  cases headway with
  | begun | running | unwinding => cases hfits
  | returned signal =>
    rcases c.progress_cases signal with ⟨v, rfl, hgiven⟩ | ⟨left, resolution, out, hleaving, -⟩
    · rw [Progress.given.inj (hfits.trans hgiven)]
    · cases hfits.trans hleaving
  | composed =>
    obtain ⟨h, -, hleaving⟩ := hfits
    cases hleaving

/-- What a computation leaves, what its fault is resolved to and how its call ends go with how far
it has come. -/
theorem Headway.Fits.closes (hfits : headway.Fits c (.leaving left resolution signal)) :
    headway.closes (c.previous.map Holder.value) c.fault =
      some (left.map Holder.value, resolution.verdict, signal) := by
  cases headway with
  | begun | running => cases hfits
  | unwinding panic =>
    obtain ⟨rfl, rfl, rfl⟩ := Progress.leaving.inj hfits
    rfl
  | returned found =>
    rcases c.progress_cases found with
      ⟨value, -, hgiven⟩ | ⟨left', resolution', out, hleaving, hcloses⟩
    · cases hfits.trans hgiven
    · obtain ⟨rfl, rfl, rfl⟩ := Progress.leaving.inj (hfits.trans hleaving)
      exact hcloses
  | composed stored told =>
    obtain ⟨h, rfl, hleaving⟩ := hfits
    obtain ⟨rfl, rfl, rfl⟩ := Progress.leaving.inj hleaving
    rfl

end Ends

/-! ## Machines and their registers -/

namespace Register

variable {key : K} {r : Register K V Q R} {m m' : Machine K V Q R}
  {front back : List (Ongoing K V Q R)} {content : Option V} {busy : Option (Nat × Headway V)}

omit [DecidableEq K] in
/-- What a register knows that is idle, it knows from computations that have ended. -/
theorem Knows.of_idle {fault : Nat} (hknows : r.Knows fault) (hidle : r.busy = none) :
    ∃ verdict, (fault, verdict) ∈ r.settled := by
  rcases hknows with ⟨headway, hbusy⟩ | hsettled
  · rw [hidle] at hbusy
    cases hbusy
  · exact hsettled

omit [DecidableEq K] in
/-- A register that is busy knows of that computation and of those that have ended. -/
theorem Knows.of_busy {fault current : Nat} {headway : Headway V} (hknows : r.Knows fault)
    (hbusy : r.busy = some (current, headway)) :
    fault = current ∨ ∃ verdict, (fault, verdict) ∈ r.settled := by
  rcases hknows with ⟨found, hfound⟩ | hsettled
  · rw [hbusy] at hfound
    exact .inl (Prod.mk.inj (Option.some.inj hfound)).1.symm
  · exact .inr hsettled

/-- Where no computation of the key is in progress, no part of what is going on is one. -/
theorem parts_of_not_computing {old : List (Ongoing K V Q R)}
    (hongoing : m.concerning key = front ++ old ++ back) (hnone : m.computing key = []) :
    front.filterMap Ongoing.computation? = [] ∧ back.filterMap Ongoing.computation? = [] := by
  rw [Machine.computing, hongoing, List.filterMap_append, List.filterMap_append,
    List.append_eq_nil_iff, List.append_eq_nil_iff] at hnone
  exact ⟨hnone.1.1, hnone.2⟩

/-- Without a fault in the slot, the register is idle. -/
theorem Matches.of_free (hmatches : Matches key m content busy)
    (hfree : ∀ fault, m.slot? key ≠ some (.fault fault)) :
    content = m.content? key ∧ busy = none ∧ m.computing key = [] := by
  cases hmatches with
  | idle _ hnone => exact ⟨rfl, rfl, hnone⟩
  | busy hslot => exact absurd hslot (hfree _)

/-- A computation of the key is the one that the register is busy with. -/
theorem Matches.of_computes {c : Computation K V Q R} {progress : Progress V}
    (hmatches : Matches key m content busy)
    (hongoing : m.concerning key = front ++ [.computes c progress] ++ back) :
    front.filterMap Ongoing.computation? = [] ∧ back.filterMap Ongoing.computation? = [] ∧
      m.slot? key = some (.fault c.fault) ∧ content = c.previous.map Holder.value ∧
      ∃ headway : Headway V, busy = some (c.fault, headway) ∧ headway.Fits c progress := by
  have hcomputing : m.computing key = front.filterMap Ongoing.computation? ++
      (c, progress) :: back.filterMap Ongoing.computation? := by
    simp [Machine.computing, hongoing, Ongoing.computation?]
  cases hmatches with
  | idle _ hnone => simp [hnone] at hcomputing
  | @busy c' progress' headway hslot hone hfits =>
    rw [hone] at hcomputing
    cases hfront : front.filterMap Ongoing.computation? with
    | nil =>
      rw [hfront, List.nil_append] at hcomputing
      obtain ⟨hpair, hback⟩ := List.cons.inj hcomputing
      obtain ⟨rfl, rfl⟩ := Prod.mk.inj hpair
      exact ⟨rfl, hback.symm, hslot, rfl, headway, rfl, hfits⟩
    | cons first rest => simp [hfront] at hcomputing

/-- What leaves the slot and the computations alone leaves the state of the register alone. -/
theorem Matches.congr (hmatches : Matches key m content busy)
    (hslot : m'.slot? key = m.slot? key) (hcomputing : m'.computing key = m.computing key) :
    Matches key m' content busy := by
  cases hmatches with
  | idle hfree hnone =>
    have hcontent : m.content? key = m'.content? key := by
      rw [Machine.content?, Machine.content?, hslot]
    rw [hcontent]
    exact .idle (by rwa [hslot]) (hcomputing.trans hnone)
  | busy hfault hone hfits => exact .busy (hslot.trans hfault) (hcomputing.trans hone) hfits

/-- A fault in the slot is the one that the register is busy with. -/
theorem Matches.of_fault {fault : Nat} (hmatches : Matches key m content busy)
    (hslot : m.slot? key = some (.fault fault)) :
    ∃ headway : Headway V, busy = some (fault, headway) := by
  cases hmatches with
  | idle hfree => exact absurd hslot (hfree fault)
  | @busy c progress headway hfault =>
    rw [hfault] at hslot
    rw [Slot.fault.inj (Option.some.inj hslot)]
    exact ⟨headway, rfl⟩

/-- The fault that the register is busy with is unresolved. -/
theorem Matches.resolution? {fault : Nat} {headway : Headway V}
    (hmatches : Matches key m content busy) (hbusy : busy = some (fault, headway))
    (howned : Owned m.world.store m.ongoing) : m.world.store.resolution? fault = none := by
  cases hmatches with
  | idle => cases hbusy
  | @busy c progress headway' hfault hone =>
    have hmem : (c, progress) ∈ m.computing key := by simp [hone]
    obtain ⟨o, ho, hcomputation⟩ := List.mem_filterMap.mp hmem
    have hongoing := (List.mem_filter.mp ho).1
    cases o with
    | computes c' progress' =>
      obtain ⟨rfl, rfl⟩ := Prod.mk.inj (Option.some.inj hcomputation)
      have hpending := howned.pending _ (mem_faultsOf hongoing)
      rw [← (Prod.mk.inj (Option.some.inj hbusy)).1, Store.resolution?, hpending]
      rfl
    | awaits operation fault' => cases hcomputation
    | seeks operation => cases hcomputation

/-- The register knows the verdict of a fault that somebody waits for, once it is resolved. -/
theorem Describes.mem_settled {operation : Operation K V Q R} {fault : Nat}
    {resolution : Resolution V} (hr : r.Describes key m)
    (howned : Owned m.world.store m.ongoing)
    (hmem : .awaits operation fault ∈ m.concerning key)
    (hresolved : m.world.store.resolution? fault = some resolution) :
    (fault, resolution.verdict) ∈ r.settled := by
  rcases hr.waiting operation fault hmem with ⟨headway, hbusy⟩ | ⟨verdict, hverdict⟩
  · rw [hr.state.resolution? hbusy howned] at hresolved
    cases hresolved
  · obtain ⟨found, hfound, htold⟩ := hr.settled fault verdict hverdict
    obtain rfl := Option.some.inj (hresolved.symm.trans hfound)
    rw [htold]
    exact hverdict

/-- The register is busy with a fault that somebody waits for, as long as it is unresolved. -/
theorem Describes.busy_of_pending {operation : Operation K V Q R} {fault : Nat}
    (hr : r.Describes key m) (hmem : .awaits operation fault ∈ m.concerning key)
    (hpending : m.world.store.resolution? fault = none) :
    ∃ headway, r.busy = some (fault, headway) := by
  rcases hr.waiting operation fault hmem with hbusy | ⟨verdict, hverdict⟩
  · exact hbusy
  · obtain ⟨found, hfound, -⟩ := hr.settled fault verdict hverdict
    rw [hpending] at hfound
    cases hfound

end Register

end SharedCache
