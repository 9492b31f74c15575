import SharedCache.Proofs.Aftermath
import SharedCache.Proofs.Shelter

/-!
# Owners

A call of `computeIfAbsent` that finds no value owns the fault that it installs.  It calls its
function, resolves the fault by how the function ends, and answers accordingly.  This file follows
the thread of such a call from the section that installs the fault to the end of the call, whatever
the function and the listeners do on the same thread meanwhile.
-/

namespace SharedCache

variable {K V Q R : Type}

/-- A call of `computeIfAbsent` that owns a fault: its thread, the frames that wait for the call,
its key and its function. -/
structure Owner (K V Q R : Type) where
  thread : Nat
  base : List (Frame K V Q R)
  key : K
  mapping : K → Script K V Q R
  fault : Nat

/-- The computation of an owner.  It takes the place of nothing. -/
def Owner.computation (o : Owner K V Q R) : Computation K V Q R :=
  (Operation.computeIfAbsent o.key o.mapping).computation o.key o.fault none

@[simp]
theorem Owner.fault_computation (o : Owner K V Q R) : o.computation.fault = o.fault := rfl

/-- What a fault is resolved to and how the call of its owner ends, by how the function of the owner
has ended. -/
inductive Settings.Concludes (settings : Settings K V Q R) (fault : Nat) :
    Signal V → Resolution V → Signal V → Prop where
  | gives {value copy : V} {h : Holder V} :
      settings.copyIn value = .ok h.value → settings.copyOut h.value = .ok copy →
      Concludes settings fault (.done (.value (some value))) (.ready h)
        (.done (.value (some copy)))
  | nothing {answer : Answer V} :
      (∀ text, answer ≠ .complaint text) → answer.value? = none →
      Concludes settings fault (.done answer) .absent (.done (.value none))
  | fails {text : String} :
      Concludes settings fault (.done (.complaint text)) (.failed ⟨fault, text⟩)
        (.done (.failed (.computation ⟨fault, text⟩)))
  | panics {p : Panic} : Concludes settings fault (.raised p) .retry (.raised p)

/-- The holder that a resolution hands to those who have waited. -/
def Resolution.holder? : Resolution V → Option (Holder V)
  | .ready h => some h
  | _ => none

namespace Owner

variable (settings : Settings K V Q R) (o : Owner K V Q R)

/-- The thread is about to call the function, or reports an expired value before that. -/
inductive Begins (t : Thread K V Q R) : Prop where
  | calls : t.activity = .keep (.own o.computation) → t.stack = o.base → Begins t
  | defers {above : List (Frame K V Q R)} :
      t.stack = above ++ .next (.keep (.own o.computation)) :: o.base → Begins t

/-- The function runs. -/
def Runs (t : Thread K V Q R) : Prop :=
  ∃ above, t.stack = above ++ .computing o.computation :: o.base

/-- The function has ended like this, and so many sections are left before the fault is resolved. -/
inductive Ends (t : Thread K V Q R) : Signal V → Nat → Prop where
  | composes {value : V} :
      t.activity = .keep (.compose o.computation value) → t.stack = o.base →
      Ends t (.done (.value (some value))) 2
  | installs {value copy : V} {h : Holder V} :
      settings.copyIn value = .ok h.value → settings.copyOut h.value = .ok copy →
      t.activity = .keep (.install o.computation h copy) → t.stack = o.base →
      Ends t (.done (.value (some value))) 1
  | vacates {signal : Signal V} {resolution : Resolution V} {answer : Answer V} :
      settings.Concludes o.fault signal resolution (.done answer) → resolution.holder? = none →
      t.activity = .keep (.vacate o.computation resolution answer) → t.stack = o.base →
      Ends t signal 1
  | restores {p : Panic} :
      t.activity = .keep (.restore o.computation .retry (.raised p)) → t.stack = o.base →
      Ends t (.raised p) 1

/-- The call is over and ends like this, unless the veto has panicked in the enforcement of the
capacity. -/
inductive Settles (out : Signal V) (t : Thread K V Q R) : Prop where
  | answers : t.activity = .settle out → t.stack = o.base → Settles out t
  | panics {p : Panic} :
      settings.VetoPanics → t.activity = .settle (.raised p) → t.stack = o.base → Settles out t

/-- The fault is resolved, and the call will end like this. -/
inductive Finishes (out : Signal V) (t : Thread K V Q R) : Prop where
  | settles : o.Settles settings out t → Finishes out t
  | enforces {above : List (Frame K V Q R)} :
      t.stack = above ++ .next (.settle out) :: o.base →
      Aftermath settings t.activity above → Finishes out t

/-- The fault is resolved.  Where the slot still has the fault, it is left with what the resolution
hands out. -/
structure Resolves [DecidableEq K] (store : Store K V) (resolution : Resolution V)
    (store' : Store K V) : Prop where
  faults : store'.faults = (store.resolve o.fault resolution).faults
  map : store'.map = if store.pendingIn o.key o.fault then
    store.map.leave o.key resolution.holder? else store.map

variable [DecidableEq K] [DecidableEq V] {settings : Settings K V Q R} {o : Owner K V Q R}
  {chance : Chance K R} {w : World K V Q R} {t : Thread K V Q R} {s : Step K V Q R}
  {signal out : Signal V}

/-- The thread that is about to call the function calls it in its next step. -/
theorem step_own (hstep : t.step settings chance w = some s)
    (hactivity : t.activity = .keep (.own o.computation)) (hstack : t.stack = o.base) :
    s.thread = ⟨.code (o.mapping o.key), .computing o.computation :: o.base, t.binding⟩ ∧
      mappings s.events = [(o.key, o.fault, none)] := by
  obtain ⟨turn, hturn, rfl⟩ := Thread.turn_of_step hactivity hstep
  obtain rfl := Option.some.inj hturn
  obtain ⟨-, ⟨p, hpanic, -⟩ | ⟨current, hshows, hnext, hframes, hcall⟩⟩ :=
    Stage.own_spec settings w.store o.computation
  · obtain ⟨value, hfound, -⟩ := hpanic
    cases hfound
  · obtain rfl : current = none := hshows
    constructor
    · change Thread.mk _ _ _ = _
      rw [hnext, hframes, hstack]
      rfl
    · exact hcall

/-- The report of an expired value does not keep the function from being called. -/
theorem begins_of_deferred {above : List (Frame K V Q R)}
    (hstep : t.step settings chance w = some s) (hsheltered : t.IsSheltered)
    (hstack : t.stack = above ++ .next (.keep (.own o.computation)) :: o.base) :
    o.Begins s.thread := by
  rcases (Thread.stride hstep).below hstack with ⟨rfl, signal, hactivity⟩ | ⟨above', habove'⟩
  · obtain rfl := Thread.receive_of_step hactivity hstack hstep
    cases signal with
    | done answer =>
      refine .calls rfl ?_
      simp [Frame.receive, Step.apart, Thread.goOn, Thread.popped, hstack]
    | raised p =>
      rw [Thread.IsSheltered, hactivity, hstack] at hsheltered
      exact (hsheltered.1 trivial).elim
  · exact .defers habove'

omit [DecidableEq K] [DecidableEq V] in
/-- How the call goes on when the function has ended. -/
theorem ends_mapped (settings : Settings K V Q R) (store : Store K V) (signal : Signal V)
    {t : Thread K V Q R} (hactivity : t.activity = (store.mapped o.computation signal).next)
    (hstack : t.stack = o.base) : ∃ n, o.Ends settings t signal n := by
  cases signal with
  | raised p => exact ⟨1, .restores hactivity hstack⟩
  | done answer =>
    cases answer with
    | complaint text => exact ⟨1, .vacates .fails rfl hactivity hstack⟩
    | value v =>
      cases v with
      | none => exact ⟨1, .vacates (.nothing (by simp) rfl) rfl hactivity hstack⟩
      | some value => exact ⟨2, .composes hactivity hstack⟩
    | _ => exact ⟨1, .vacates (.nothing (by simp) rfl) rfl hactivity hstack⟩

/-- The function runs until it ends. -/
theorem Runs.step (hstep : t.step settings chance w = some s) (ht : o.Runs t) :
    o.Runs s.thread ∨ ∃ signal n, t.activity = .settle signal ∧
      t.stack = .computing o.computation :: o.base ∧ o.Ends settings s.thread signal n := by
  obtain ⟨above, hstack⟩ := ht
  rcases (Thread.stride hstep).below hstack with ⟨rfl, signal, hactivity⟩ | hruns
  · obtain rfl := Thread.receive_of_step hactivity hstack hstep
    obtain ⟨-, hframes, -⟩ := w.store.mapped_spec o.computation signal
    obtain ⟨n, hends⟩ := ends_mapped settings w.store signal
      (t := (Frame.receive w t.popped signal (.computing o.computation)).thread) rfl (by
        simp [Frame.receive, Step.ofStore, Thread.goOn, Thread.popped, hframes, hstack])
    exact .inr ⟨signal, n, hactivity, hstack, hends⟩
  · exact .inl hruns

/-- Nothing keeps the call from resolving its fault once the function has ended. -/
theorem Ends.isSome_turn {n : Nat} (ht : o.Ends settings t signal n) (store : Store K V)
    (now : Instant) (interrupted : Bool) (draws : List K) : ∃ stage, t.activity = .keep stage ∧
      (stage.turn settings store now interrupted draws).isSome := by
  cases ht with
  | composes hactivity => exact ⟨_, hactivity, rfl⟩
  | installs _ _ hactivity => exact ⟨_, hactivity, rfl⟩
  | vacates _ _ hactivity => exact ⟨_, hactivity, rfl⟩
  | restores hactivity => exact ⟨_, hactivity, rfl⟩

omit [DecidableEq K] [DecidableEq V] in
theorem ends_composed (hsteady : settings.Steady) (o : Owner K V Q R) (store : Store K V)
    (now : Instant) (value : V) :
    ∃ h copy, settings.copyIn value = .ok h.value ∧ settings.copyOut h.value = .ok copy ∧
      (store.compose settings o.computation value now).next =
        .keep (.install o.computation h copy) ∧
      (store.compose settings o.computation value now).frames = [] := by
  obtain ⟨d, hd⟩ := hsteady.draft o.computation.key value now
    (o.computation.previous.map fun h => store.timeLeft h now)
  obtain ⟨copy, hcopy⟩ := hsteady.copyOut d.value
  have hgiven : (settings.giveOut (store.newHolder d).2.value).result = .ok copy := hcopy
  refine ⟨(store.newHolder d).2, copy, (Settings.draft_eq_ok hd).1, hcopy, ?_, ?_⟩
  · rw [Store.compose, Turn.consulting_of_ok hd]
    dsimp only
    rw [Turn.consulting_of_ok hgiven]
    rfl
  · rw [Store.compose, Turn.consulting_of_ok hd]
    dsimp only
    rw [Turn.consulting_of_ok hgiven]
    rfl

omit [DecidableEq V] in
/-- The call puts the holder into the slot if its fault is still there, and enforces the capacity
then. -/
theorem install_computation (store : Store K V) (h : Holder V) (copy : V) :
    (store.install o.computation h copy : StoreTurn K V Q R) =
      if store.pendingIn o.key o.fault then
        ((store.fill o.key h).resolve o.fault (.ready h)).enforcing (.value (some copy))
      else
        .answer (store.resolve o.fault (.ready h)) (.value (some copy)) := rfl

omit [DecidableEq V] in
theorem vacate_computation (store : Store K V) (resolution : Resolution V) (answer : Answer V) :
    (store.vacate o.computation resolution answer : StoreTurn K V Q R) =
      if store.pendingIn o.key o.fault then
        .answer ((store.erase o.key).resolve o.fault resolution) answer
      else
        .answer (store.resolve o.fault resolution) answer := rfl

omit [DecidableEq V] in
theorem restore_computation (store : Store K V) (resolution : Resolution V) (signal : Signal V) :
    (store.restore o.computation resolution signal : StoreTurn K V Q R) =
      .goTo ((if store.pendingIn o.key o.fault then store.erase o.key else store).resolve o.fault
        resolution) (.settle signal) := rfl

omit [DecidableEq V] in
/-- The fault is resolved, and where the slot still has it, the slot is left with what the
resolution hands out. -/
theorem resolves_of_eq (store s : Store K V) {s' : Store K V} {resolution : Resolution V}
    (hfaults : s.faults = store.faults)
    (hmap : s.map = if store.pendingIn o.key o.fault then store.map.leave o.key resolution.holder?
      else store.map) (hs' : s' = s.resolve o.fault resolution) :
    o.Resolves store resolution s' := by
  rw [hs']
  constructor
  · exact Store.faults_resolve_congr store s hfaults o.fault resolution
  · rw [Store.map_resolve, hmap]

/-- A call whose function has ended resolves its fault and will end accordingly. -/
theorem Ends.step {n : Nat} (hsteady : settings.Steady)
    (hstep : t.step settings chance w = some s) (ht : o.Ends settings t signal n) :
    n = 2 ∧ o.Ends settings s.thread signal 1 ∨
      n = 1 ∧ ∃ resolution out, settings.Concludes o.fault signal resolution out ∧
        o.Resolves w.store resolution s.world.store ∧ o.Finishes settings out s.thread := by
  cases ht with
  | @composes value hactivity hstack =>
    obtain ⟨turn, hturn, rfl⟩ := Thread.turn_of_step hactivity hstep
    obtain rfl := Option.some.inj hturn
    obtain ⟨h, copy, hin, hout, hnext, hframes⟩ :=
      ends_composed hsteady o w.store w.clock.now value
    refine .inl ⟨rfl, .installs hin hout hnext ?_⟩
    simp [Step.ofStore, Thread.goOn, hframes, hstack]
  | @installs value copy h hin hout hactivity hstack =>
    obtain ⟨turn, hturn, rfl⟩ := Thread.turn_of_step hactivity hstep
    obtain rfl := Option.some.inj hturn
    refine .inr ⟨rfl, .ready h, .done (.value (some copy)), .gives hin hout, ?_⟩
    rw [install_computation]
    split
    · rename_i hpending
      have hmap : (w.store.fill o.key h).map = if w.store.pendingIn o.key o.fault then
          w.store.map.leave o.key (Resolution.ready h).holder? else w.store.map := by
        rw [if_pos hpending]
        rfl
      refine ⟨resolves_of_eq w.store (w.store.fill o.key h) rfl hmap rfl,
        .enforces (?_ : _ = [] ++ _) (.enforces trivial)⟩
      simp [Step.ofStore, Thread.goOn, Store.enforcing, hstack]
    · rename_i hpending
      exact ⟨resolves_of_eq w.store w.store rfl (if_neg hpending).symm rfl,
        .settles (.answers rfl hstack)⟩
  | @vacates _ resolution answer hconcludes hempty hactivity hstack =>
    obtain ⟨turn, hturn, rfl⟩ := Thread.turn_of_step hactivity hstep
    obtain rfl := Option.some.inj hturn
    refine .inr ⟨rfl, resolution, .done answer, hconcludes, ?_⟩
    rw [vacate_computation]
    split
    · rename_i hpending
      have hmap : (w.store.erase o.key).map = if w.store.pendingIn o.key o.fault then
          w.store.map.leave o.key resolution.holder? else w.store.map := by
        rw [if_pos hpending, hempty]
        rfl
      exact ⟨resolves_of_eq w.store (w.store.erase o.key) rfl hmap rfl,
        .settles (.answers rfl hstack)⟩
    · rename_i hpending
      exact ⟨resolves_of_eq w.store w.store rfl (if_neg hpending).symm rfl,
        .settles (.answers rfl hstack)⟩
  | @restores p hactivity hstack =>
    obtain ⟨turn, hturn, rfl⟩ := Thread.turn_of_step hactivity hstep
    obtain rfl := Option.some.inj hturn
    refine .inr ⟨rfl, .retry, .raised p, .panics, ?_⟩
    rw [restore_computation]
    refine ⟨resolves_of_eq w.store _ ?_ ?_ rfl, .settles (.answers rfl hstack)⟩
    · split
      · rfl
      · rfl
    · split
      · rfl
      · rfl

/-- A call that has resolved its fault ends as it is bound to. -/
theorem Finishes.step (hsteady : settings.Steady) (hstep : t.step settings chance w = some s)
    (ht : o.Finishes settings out t) :
    o.Finishes settings out s.thread ∨ o.Settles settings out t := by
  cases ht with
  | settles ht => exact .inr ht
  | enforces hstack haftermath =>
    rcases haftermath.step_cases hsteady.copyOut hstep hstack with
      ⟨rfl, signal, hactivity, hveto⟩ | ⟨above', habove', hafter⟩
    · obtain rfl := Thread.receive_of_step hactivity hstack hstep
      have hbase : t.popped.stack = o.base := by simp [Thread.popped, hstack]
      cases signal with
      | done answer => exact .inl (.settles (.answers rfl hbase))
      | raised p => exact .inl (.settles (.panics (hveto p rfl).vetoPanics rfl hbase))
    · exact .inl (.enforces habove' hafter)

end Owner

end SharedCache
