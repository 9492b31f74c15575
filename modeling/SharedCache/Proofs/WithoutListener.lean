import SharedCache.Proofs.Detours
import SharedCache.Proofs.Footsteps

/-!
# Stores without a listener

What the listener of a store has to do with the store: nothing, but for the report of a removal.
Every other section does the same whatever the listener is, and a thread that is not in the middle
of a call of the listener takes the same step in a store without one.  Where a report calls the
listener, the thread without it is already where the other one will be when the listener has ended.
-/

namespace SharedCache

variable {K V Q R : Type}

/-- The settings with another listener, or without one. -/
def Settings.withListener (settings : Settings K V Q R)
    (listener : Option (K → V → RemovalCause → Script K V Q R)) : Settings K V Q R :=
  { settings with listener := listener }

/-- The store with the switch of its listener in another position. -/
def Store.withListening (s : Store K V) (listening : Bool) : Store K V :=
  { s with listening := listening }

namespace Turn

variable {σ α : Type} (f : σ → σ)

/-- The turn with another state. -/
def onState (turn : Turn σ K V Q R) : Turn σ K V Q R := { turn with state := f turn.state }

theorem onState_consulting (c : Consultation K V α) (failed : Panic → Turn σ K V Q R)
    (next : α → Turn σ K V Q R) :
    (consulting c failed next).onState f =
      consulting c (fun p => (failed p).onState f) fun a => (next a).onState f := by
  rw [consulting, consulting]
  cases c.result <;> rfl

end Turn

/-! ## Sections -/

section Sections

variable {settings : Settings K V Q R} {s : Store K V} {listening : Bool}
  {listener : Option (K → V → RemovalCause → Script K V Q R)}

namespace Settings

theorem firstUnspared_withListener (sample : List (K × Holder V)) :
    (settings.withListener listener).firstUnspared sample = settings.firstUnspared sample := by
  induction sample with
  | nil => rfl
  | cons entry rest ih =>
    rw [firstUnspared, firstUnspared, ih]
    rfl

theorem smallestUnspared_withListener (rank : K → V → K → V → Ordering)
    (best : Option (K × Holder V)) (sample : List (K × Holder V)) :
    (settings.withListener listener).smallestUnspared rank best sample =
      settings.smallestUnspared rank best sample := by
  induction sample generalizing best with
  | nil => rfl
  | cons entry rest ih =>
    cases best <;> simp only [smallestUnspared, ih] <;> rfl

end Settings

namespace Store

theorem victim_withListening (now : Instant) (sample : List (K × Holder V)) :
    (s.withListening listening).victim (settings.withListener listener) now sample =
      s.victim settings now sample := by
  have hexpired : ∀ entry : K × Holder V,
      (s.withListening listening).expired entry.2 now = s.expired entry.2 now := fun _ => rfl
  rw [victim, victim]
  simp only [hexpired, Settings.firstUnspared_withListener, Settings.smallestUnspared_withListener]
  rfl

theorem resolve_withListening (fault : Nat) (resolution : Resolution V) :
    (s.withListening listening).resolve fault resolution =
      (s.resolve fault resolution).withListening listening := by
  have hresolution : (s.withListening listening).resolution? fault = s.resolution? fault := rfl
  rw [resolve, resolve, hresolution]
  cases s.resolution? fault <;> rfl

theorem resume_withListening (operation : Operation K V Q R) (retries : Nat)
    (resolution : Resolution V) :
    (s.withListening listening).resume operation retries resolution =
      (s.resume operation retries resolution).onState (·.withListening listening) := by
  cases resolution with
  | retry =>
    change (s.withListening listening).abandoned operation retries =
      (s.abandoned operation retries).onState _
    rw [abandoned, abandoned]
    split <;> rfl
  | restored => rfl
  | _ => cases operation <;> rfl

/-- The end of a mapping function has nothing to do with the listener. -/
theorem mapped_withListening (c : Computation K V Q R) (signal : Signal V) :
    (s.withListening listening).mapped c signal =
      (s.mapped c signal).onState (·.withListening listening) := by
  obtain ⟨key, fault, previous, isRequest, code⟩ := c
  cases signal with
  | raised p => rfl
  | done answer =>
    cases answer with
    | complaint text => cases previous <;> rfl
    | value v => cases v <;> rfl
    | _ => rfl

variable [DecidableEq K]

theorem look_withListening (key : K) (now : Instant) :
    (s.withListening listening).look key now = s.look key now := rfl

theorem holds_withListening (key : K) (h : Holder V) :
    (s.withListening listening).holds key h = s.holds key h := rfl

theorem pendingIn_withListening (key : K) (fault : Nat) :
    (s.withListening listening).pendingIn key fault = s.pendingIn key fault := rfl

theorem write_withListening {key : K} {value : V} {now : Instant} {previous : Option (Holder V)}
    {next next' : Store K V → StoreTurn K V Q R}
    (hnext : ∀ s', next' (s'.withListening listening) =
      (next s').onState (·.withListening listening)) :
    (s.withListening listening).write (settings.withListener listener) key value now previous
        next' =
      (s.write settings key value now previous next).onState (·.withListening listening) := by
  rw [write, write, Turn.onState_consulting]
  exact congrArg (Turn.consulting _ _)
    (funext fun d => hnext ((s.newHolder d).1.fill key (s.newHolder d).2))

theorem visitReplace_withListening (waiting : Operation K V Q R) (key : K) (value : V)
    (retries : Nat) (now : Instant) (accepts : V → Bool) (kept : Answer V)
    (replaced : Holder V → Activity K V Q R) :
    (s.withListening listening).visitReplace (settings.withListener listener) waiting key value
        retries now accepts kept replaced =
      (s.visitReplace settings waiting key value retries now accepts kept replaced).onState
        (·.withListening listening) := by
  rw [visitReplace, visitReplace, look_withListening]
  cases s.look key now with
  | live h =>
    dsimp only
    split
    · rw [write_withListening]
      intro s'
      rfl
    · rfl
  | _ => rfl

theorem visit_withListening [DecidableEq V] (operation : Operation K V Q R) (retries : Nat)
    (now : Instant) :
    (s.withListening listening).visit (settings.withListener listener) retries now operation =
      (s.visit settings retries now operation).onState (·.withListening listening) := by
  cases operation with
  | get key =>
    change (s.withListening listening).visitGet key retries now =
      (s.visitGet key retries now).onState _
    rw [visitGet, visitGet, look_withListening]
    cases s.look key now <;> rfl
  | contains key => rfl
  | put key value =>
    change (s.withListening listening).visitPut (settings.withListener listener) key value now =
      (s.visitPut settings key value now).onState _
    rw [visitPut, visitPut]
    refine write_withListening fun s' => ?_
    dsimp only [withListening]
    cases (s.map.get? key).bind Slot.holder? <;> rfl
  | putIfAbsent key value =>
    change (s.withListening listening).visitPutIfAbsent (settings.withListener listener) key value
      retries now = (s.visitPutIfAbsent settings key value retries now).onState _
    rw [visitPutIfAbsent, visitPutIfAbsent, look_withListening]
    cases s.look key now with
    | absent => exact write_withListening fun s' => rfl
    | stale h => exact write_withListening fun s' => rfl
    | _ => rfl
  | replace key value =>
    exact visitReplace_withListening (.replace key value) key value retries now (fun _ => true)
      (.value none) fun h => .keep (.handOut h false)
  | replaceIfEqual key expected value =>
    exact visitReplace_withListening (.replaceIfEqual key expected value) key value retries now
      (fun current => current = expected) (.flag false) fun _ => .settle (.done (.flag true))
  | remove key =>
    change (s.withListening listening).visitRemove key now = (s.visitRemove key now).onState _
    rw [visitRemove, visitRemove]
    dsimp only [withListening]
    rcases s.map.get? key with _ | ⟨h⟩ | f <;> rfl
  | removeIfEqual key expected =>
    change (s.withListening listening).visitRemoveIfEqual key expected now =
      (s.visitRemoveIfEqual key expected now).onState _
    rw [visitRemoveIfEqual, visitRemoveIfEqual, look_withListening]
    cases s.look key now with
    | live h =>
      dsimp only
      split <;> rfl
    | _ => rfl
  | clear => rfl
  | computeIfAbsent key mapping =>
    change (s.withListening listening).visitComputeIfAbsent key mapping retries now =
      (s.visitComputeIfAbsent key mapping retries now).onState _
    rw [visitComputeIfAbsent, visitComputeIfAbsent, look_withListening]
    cases s.look key now <;> rfl
  | compute key remapping =>
    change (s.withListening listening).visitCompute key remapping retries now =
      (s.visitCompute key remapping retries now).onState _
    rw [visitCompute, visitCompute, look_withListening]
    cases s.look key now <;> rfl
  | computeIfPresent key remapping =>
    change (s.withListening listening).visitComputeIfPresent key remapping retries now =
      (s.visitComputeIfPresent key remapping retries now).onState _
    rw [visitComputeIfPresent, visitComputeIfPresent, look_withListening]
    cases s.look key now <;> rfl

theorem install_withListening (c : Computation K V Q R) (h : Holder V) (value : V) :
    (s.withListening listening).install c h value =
      (s.install c h value).onState (·.withListening listening) := by
  have hfill : (s.withListening listening).fill c.key h =
    (s.fill c.key h).withListening listening := rfl
  rw [install, install, pendingIn_withListening, hfill, resolve_withListening,
    resolve_withListening]
  cases s.pendingIn c.key c.fault with
  | false => rfl
  | true => cases c.previous <;> rfl

theorem vacate_withListening (c : Computation K V Q R) (resolution : Resolution V)
    (answer : Answer V) :
    (s.withListening listening).vacate c resolution answer =
      (s.vacate c resolution answer).onState (·.withListening listening) := by
  have herase : (s.withListening listening).erase c.key =
    (s.erase c.key).withListening listening := rfl
  rw [vacate, vacate, pendingIn_withListening, herase, resolve_withListening,
    resolve_withListening]
  cases s.pendingIn c.key c.fault with
  | false => rfl
  | true => cases c.previous <;> rfl

theorem restore_withListening (c : Computation K V Q R) (resolution : Resolution V)
    (signal : Signal V) :
    (s.withListening listening).restore c resolution signal =
      (s.restore c resolution signal).onState (·.withListening listening) := by
  rw [restore, restore, pendingIn_withListening]
  have hgo : ∀ s' : Store K V,
      Turn.goTo ((s'.withListening listening).resolve c.fault resolution) (.settle signal) =
        (Turn.goTo (s'.resolve c.fault resolution) (.settle signal) : StoreTurn K V Q R).onState
          (·.withListening listening) := fun s' => by
    rw [resolve_withListening]
    rfl
  cases s.pendingIn c.key c.fault with
  | false => exact hgo s
  | true =>
    cases c.previous with
    | none => exact hgo (s.erase c.key)
    | some h => exact hgo (s.fill c.key h)

end Store

variable [DecidableEq K] [DecidableEq V]

/-- No section but the report of a removal has anything to do with the listener. -/
theorem Stage.turn_withListening {stage : Stage K V Q R} (now : Instant) (interrupted : Bool)
    (draws : List K) (hstage : ∀ key h cause, stage ≠ .report key h cause) :
    stage.turn (settings.withListener listener) (s.withListening listening) now interrupted draws =
      (stage.turn settings s now interrupted draws).map
        (Turn.onState (·.withListening listening)) := by
  cases stage with
  | round operation retries => rfl
  | visit operation retries time => exact congrArg some (Store.visit_withListening ..)
  | await operation retries fault =>
    have hresolution : (s.withListening listening).resolution? fault = s.resolution? fault := rfl
    rw [Stage.turn, Stage.turn, hresolution]
    cases s.resolution? fault with
    | none => cases interrupted <;> rfl
    | some resolution => exact congrArg some (Store.resume_withListening ..)
  | receive key h => rfl
  | consult key h time thenEnforce =>
    refine congrArg some ?_
    rw [Store.consult, Store.consult, Turn.onState_consulting]
    rfl
  | refresh h deadline thenEnforce => cases deadline <;> rfl
  | handOut h thenEnforce =>
    refine congrArg some ?_
    rw [Store.handOut, Store.handOut, Turn.onState_consulting]
    cases thenEnforce <;> rfl
  | missed => rfl
  | expel key h =>
    refine congrArg some ?_
    rw [Store.expel, Store.expel, Store.holds_withListening]
    cases s.holds key h <;> rfl
  | sweep segment =>
    refine congrArg some ?_
    rw [Store.sweep, Store.sweep, apply_ite (Turn.onState _)]
    rfl
  | judge key h time => rfl
  | dismiss key h time =>
    refine congrArg some ?_
    have hexpired : (s.withListening listening).expired h time = s.expired h time := rfl
    rw [Store.dismiss, Store.dismiss, hexpired]
    cases s.expired h time <;> rfl
  | report key h cause => exact absurd rfl (hstage key h cause)
  | own c =>
    obtain ⟨key, fault, previous, isRequest, code⟩ := c
    refine congrArg some ?_
    rw [Store.own, Store.own, Turn.onState_consulting]
    cases isRequest <;> rfl
  | compose c value =>
    refine congrArg some ?_
    rw [Store.compose, Store.compose, Turn.onState_consulting]
    refine congrArg (Turn.consulting _ _) (funext fun d => ?_)
    dsimp only [Store.newHolder]
    rw [Turn.onState_consulting]
    rfl
  | install c h value => exact congrArg some (Store.install_withListening ..)
  | vacate c resolution answer => exact congrArg some (Store.vacate_withListening ..)
  | restore c resolution signal => exact congrArg some (Store.restore_withListening ..)
  | enforce failed =>
    refine congrArg some ?_
    change (s.withListening listening).enforce settings failed = _
    rw [Store.enforce, Store.enforce]
    cases settings.blueprint.capacity with
    | none => rfl
    | some capacity =>
      dsimp only [Store.withListening]
      rw [apply_ite (Turn.onState _), apply_ite (Turn.onState _)]
      rfl
  | draw failed sample left =>
    refine congrArg some ?_
    rw [Store.draw, Store.draw, apply_ite (Turn.onState _)]
    rfl
  | pick failed sample =>
    refine congrArg some ?_
    rw [Store.pick, Store.pick, Turn.onState_consulting, Store.victim_withListening]
    refine congrArg (Turn.consulting _ _) (funext fun choice => ?_)
    cases choice <;> rfl
  | evict failed key h cause =>
    refine congrArg some ?_
    rw [Store.evict, Store.evict, Store.holds_withListening]
    cases s.holds key h <;> rfl

end Sections

/-- A report of a removal calls the listener if it is enabled, and is over at once if it is not. -/
theorem Store.report_eq {settings : Settings K V Q R} (s : Store K V) (key : K) {h : Holder V}
    (cause : RemovalCause) {value : V} (hcopy : settings.copyOut h.value = .ok value) :
    s.report settings key h cause =
        (Turn.answer (s.count fun statistics => statistics.recordRemoval h.weight cause)
          .unit).after [.reported h.id cause] ∨
      ∃ listener : K → V → RemovalCause → Script K V Q R, s.report settings key h cause =
        ((Turn.goTo (s.count fun statistics => statistics.recordRemoval h.weight cause)
          (.code (listener key value cause))).above .listening).after
            [.reported h.id cause, .copiedOut h.value, .listened key value cause] := by
  have hgiven : (settings.giveOut h.value).result = .ok value := hcopy
  rw [report]
  cases settings.listener with
  | none => exact .inl rfl
  | some listener =>
    dsimp only
    split
    · rw [Turn.consulting_of_ok hgiven]
      exact .inr ⟨listener, rfl⟩
    · exact .inl rfl

/-! ## Stores and worlds that agree -/

/-- Two stores that differ in nothing but the switch of their listener. -/
structure Store.Agrees (s s' : Store K V) : Prop where
  map : s'.map = s.map
  deadlines : s'.deadlines = s.deadlines
  faults : s'.faults = s.faults
  statistics : s'.statistics = s.statistics

/-- Two worlds that differ in nothing but the switch of their listener and what executors do. -/
structure World.Agrees (w w' : World K V Q R) : Prop where
  store : w.store.Agrees w'.store
  clock : w'.clock = w.clock
  tripped : ∀ n, w'.isTripped (.named n) = w.isTripped (.named n)

theorem Store.agrees_withListening (s : Store K V) (listening : Bool) :
    s.Agrees (s.withListening listening) := ⟨rfl, rfl, rfl, rfl⟩

theorem Store.Agrees.refl (s : Store K V) : s.Agrees s := ⟨rfl, rfl, rfl, rfl⟩

theorem Store.Agrees.eq {s s' : Store K V} (h : s.Agrees s') :
    s' = s.withListening s'.listening := by
  obtain ⟨map, deadlines, faults, listening, statistics⟩ := s'
  obtain ⟨rfl, rfl, rfl, rfl⟩ := h
  rfl

theorem World.isTripped_append (w : World K V Q R) (trips : List Interrupter) (i : Interrupter) :
    World.isTripped { w with tripped := trips ++ w.tripped } i =
      (trips.contains i || w.isTripped i) := List.contains_append

theorem World.Agrees.interrupts {w w' : World K V Q R} (hw : w.Agrees w')
    {binding : Option Interrupter} (hbinding : ∀ i ∈ binding, i.isOfTask = false) :
    w'.interrupts binding = w.interrupts binding := by
  cases binding with
  | none => rfl
  | some i =>
    cases i with
    | named n => exact hw.tripped n
    | ofTask task => cases hbinding _ rfl

/-! ## Threads without an executor -/

/-- An activity is domestic when no executor has a part in it. -/
def Activity.IsDomestic : Activity K V Q R → Prop
  | .enter i inside => i.isOfTask = false ∧ inside.IsDomestic
  | .dispatch _ => False
  | .code _ | .settle _ | .keep _ => True

/-- A frame is domestic when neither an executor nor the listener has a part in it. -/
def Frame.IsDomestic : Frame K V Q R → Prop
  | .scoped before => ∀ i ∈ before, i.isOfTask = false
  | .next activity => activity.IsDomestic
  | .tasking _ | .listening => False
  | .calling _ | .guarded _ | .computing _ => True

/-- Neither an executor nor the listener has a part in what the thread does. -/
structure Thread.IsDomestic (t : Thread K V Q R) : Prop where
  activity : t.activity.IsDomestic
  stack : ∀ frame ∈ t.stack, frame.IsDomestic
  binding : ∀ i ∈ t.binding, i.isOfTask = false

theorem Activity.IsFresh.isDomestic {a : Activity K V Q R} (ha : a.IsFresh) : a.IsDomestic := by
  cases a with
  | enter => exact ha.elim
  | dispatch => exact ha.elim
  | _ => trivial

theorem Frame.IsFresh.isDomestic {frame : Frame K V Q R} (hframe : frame.IsFresh)
    (hlistening : frame ≠ .listening) : frame.IsDomestic := by
  cases frame with
  | next a =>
    rcases hframe with hfresh | ⟨h, rfl⟩
    · exact Activity.IsFresh.isDomestic hfresh
    · trivial
  | listening => exact absurd rfl hlistening
  | computing c => trivial
  | _ => exact hframe.elim

namespace Thread.IsDomestic

variable {t : Thread K V Q R} {a : Activity K V Q R} {frames : List (Frame K V Q R)}

theorem goOn (ht : t.IsDomestic) (ha : a.IsDomestic)
    (hframes : ∀ frame ∈ frames, frame.IsDomestic) : (t.goOn a frames).IsDomestic := by
  refine ⟨ha, fun frame hframe => ?_, ht.binding⟩
  exact (List.mem_append.mp hframe).elim (hframes frame) (ht.stack frame)

theorem popped (ht : t.IsDomestic) : t.popped.IsDomestic :=
  ⟨ht.activity, fun frame hframe => ht.stack frame (List.mem_of_mem_tail hframe), ht.binding⟩

/-- A thread on which every store operation goes on as it should stays domestic. -/
theorem goOn_of_follows [DecidableEq K] {s : Store K V} {now : Instant} {stage : Stage K V Q R}
    {turn : StoreTurn K V Q R} (ht : t.IsDomestic) (hfollows : turn.Follows s now stage)
    (hstage : ∀ key h cause, stage ≠ .report key h cause) :
    (t.goOn turn.next turn.frames).IsDomestic := by
  refine ht.goOn ?_ fun frame hframe => (hfollows.frames frame hframe).isDomestic ?_
  · rcases hfollows.next with hfresh | hleads
    · exact hfresh.isDomestic
    · obtain ⟨next, hnext⟩ := hleads.isKeep
      rw [hnext]
      trivial
  · rintro rfl
    obtain ⟨key, h, cause, rfl⟩ := hfollows.hears hframe
    exact hstage key h cause rfl

end Thread.IsDomestic

/-! ## Scopes -/

/-- The binding of a thread after a frame of it is gone. -/
def Frame.rebinds (binding : Option Interrupter) : Frame K V Q R → Option Interrupter
  | .scoped before => before
  | _ => binding

/-- The binding of a thread after some of its frames are gone, the innermost first. -/
def rebound (binding : Option Interrupter) (frames : List (Frame K V Q R)) : Option Interrupter :=
  frames.foldl Frame.rebinds binding

@[simp]
theorem rebound_append (binding : Option Interrupter) (frames frames' : List (Frame K V Q R)) :
    rebound binding (frames ++ frames') = rebound (rebound binding frames) frames' :=
  List.foldl_append

theorem rebound_of_isScoped {frames : List (Frame K V Q R)} (binding : Option Interrupter)
    (hframes : ∀ frame ∈ frames, frame.isScoped = false) : rebound binding frames = binding := by
  induction frames with
  | nil => rfl
  | cons frame frames ih =>
    have hframe : frame.rebinds binding = binding := by
      cases frame with
      | «scoped» before => cases hframes _ List.mem_cons_self
      | _ => rfl
    rw [rebound, List.foldl_cons, hframe]
    exact ih fun other hother => hframes other (List.mem_cons_of_mem _ hother)

/-- A step above some frames leaves the binding as it is that the thread has when it is back there,
and trips the interrupters of tasks only. -/
structure Step.KeepsScope (w : World K V Q R) (below : List (Frame K V Q R))
    (binding : Option Interrupter) (step : Step K V Q R) : Prop where
  rebound : ∃ inside, step.thread.stack = inside ++ below ∧
    rebound step.thread.binding inside = binding
  tripped : ∀ n, step.world.isTripped (.named n) = w.isTripped (.named n)

section Code

variable {w : World K V Q R} {t : Thread K V Q R} {inside below : List (Frame K V Q R)}

theorem Step.keepsScope_apart (hstack : t.stack = inside ++ below) {a : Activity K V Q R}
    {frames : List (Frame K V Q R)} (hframes : ∀ frame ∈ frames, frame.isScoped = false) :
    (Step.apart w t a frames).KeepsScope w below (rebound t.binding inside) := by
  refine ⟨⟨frames ++ inside, ?_, ?_⟩, fun n => rfl⟩
  · simp [Step.apart, Thread.goOn, hstack]
  · rw [rebound_append, rebound_of_isScoped _ hframes]
    rfl

theorem Step.keepsScope_ofExecutor (hstack : t.stack = inside ++ below)
    {turn : ExecutorTurn K V Q R} (hturn : turn.IsPlain) :
    (Step.ofExecutor w t turn).KeepsScope w below (rebound t.binding inside) := by
  refine ⟨⟨turn.frames ++ inside, ?_, ?_⟩, fun n => ?_⟩
  · simp [Step.ofExecutor, Thread.goOn, hstack]
  · rw [rebound_append, rebound_of_isScoped _ fun frame hframe => (hturn.frames frame hframe).2]
    rfl
  · have htrips : turn.trips.contains (.named n) = false := by
      refine Bool.eq_false_iff.mpr fun hmem => ?_
      cases hturn.trips _ (List.contains_iff_mem.mp hmem)
    exact (World.isTripped_append w turn.trips (.named n)).trans (by rw [htrips, Bool.false_or])

theorem Script.keepsScope {settings : Settings K V Q R} {reply : Option R}
    {script : Script K V Q R} {step : Step K V Q R} (hstack : t.stack = inside ++ below)
    (hstep : script.step settings reply w t = some step) :
    step.KeepsScope w below (rebound t.binding inside) := by
  cases script with
  | order command next =>
    obtain rfl := Option.some.inj hstep
    refine Step.keepsScope_apart hstack fun frame hframe => ?_
    rcases List.mem_append.mp hframe with hnext | hcalling
    · obtain ⟨stage, -, rfl⟩ := Option.map_eq_some_iff.mp (Option.mem_toList.mp hnext)
      rfl
    · rw [List.mem_singleton.mp hcalling]
      rfl
  | ask question next =>
    obtain ⟨r, -, rfl⟩ := Option.map_eq_some_iff.mp hstep
    exact Step.keepsScope_apart hstack (by simp)
  | _ =>
    obtain rfl := Option.some.inj hstep
    exact Step.keepsScope_apart hstack (by simp [Frame.isScoped])

variable [DecidableEq K] [DecidableEq V] {settings : Settings K V Q R} {chance : Chance K R}
  {step : Step K V Q R}

/-- Plain code leaves the scopes alone that it was begun in. -/
theorem Thread.keepsScope (hstep : t.step settings chance w = some step)
    (hactivity : t.activity.IsPlain) (hstack : t.stack = inside ++ below)
    (hinside : ∀ frame ∈ inside, frame.IsPlain)
    (hruns : ¬ (inside = [] ∧ ∃ signal, t.activity = .settle signal)) :
    step.KeepsScope w below (rebound t.binding inside) := by
  obtain ⟨activity, stack, binding⟩ := t
  obtain rfl : stack = inside ++ below := hstack
  cases activity with
  | code script => exact Script.keepsScope rfl hstep
  | enter i inner =>
    obtain rfl := Option.some.inj hstep
    exact ⟨⟨.scoped binding :: inside, rfl, rfl⟩, fun n => rfl⟩
  | keep stage => exact hactivity.elim
  | dispatch stage =>
    obtain ⟨turn, hturn, rfl⟩ := Option.map_eq_some_iff.mp hstep
    exact Step.keepsScope_ofExecutor rfl (Dispatch.isPlain_turn hturn)
  | settle signal =>
    cases inside with
    | nil => exact absurd ⟨rfl, signal, rfl⟩ hruns
    | cons frame inside =>
      obtain rfl := Option.some.inj hstep
      have hpopped : (Thread.popped ⟨.settle signal, frame :: inside ++ below, binding⟩).stack =
        inside ++ below := rfl
      cases frame with
      | calling next => cases signal <;> exact Step.keepsScope_apart hpopped (by simp)
      | guarded next => exact Step.keepsScope_apart hpopped (by simp)
      | «scoped» before => exact ⟨⟨inside, rfl, rfl⟩, fun n => rfl⟩
      | next a => cases signal <;> exact Step.keepsScope_apart hpopped (by simp)
      | computing c => exact (hinside _ List.mem_cons_self).elim
      | listening => exact (hinside _ List.mem_cons_self).elim
      | tasking task =>
        exact Step.keepsScope_ofExecutor hpopped (w.executor.isPlain_delivered task signal)

end Code

/-! ## Steps -/

/-- Where a thread is in a store without the listener: at the same place or, while the listener
runs, where the thread will be when the listener has ended. -/
inductive Thread.Mutes (t : Thread K V Q R) : Thread K V Q R → Prop where
  | same : t.IsDomestic → Mutes t t
  | hears {inside below : List (Frame K V Q R)} :
      t.activity.IsPlain → (∀ frame ∈ inside, frame.IsPlain) →
      t.stack = inside ++ .listening :: below →
      Thread.IsDomestic ⟨.settle (.done .unit), below, rebound t.binding inside⟩ →
      Mutes t ⟨.settle (.done .unit), below, rebound t.binding inside⟩

/-- The events of a step that an activity takes, without those of a call of the listener. -/
def Activity.muted : Activity K V Q R → List (Event K V) → List (Event K V)
  | .keep (.report _ h cause), _ => [.reported h.id cause]
  | _, events => events

/-- A step of an activity, and what it is without the listener. -/
structure Step.Mutes (a : Activity K V Q R) (step step' : Step K V Q R) : Prop where
  world : step.world.Agrees step'.world
  thread : step.thread.Mutes step'.thread
  events : step'.events = a.muted step.events

section Steps

variable {w w' : World K V Q R} {t : Thread K V Q R}

theorem Activity.muted_eq {a : Activity K V Q R} (events : List (Event K V))
    (ha : ∀ key h cause, a ≠ .keep (.report key h cause)) : a.muted events = events := by
  cases a with
  | keep stage =>
    cases stage with
    | report key h cause => exact absurd rfl (ha key h cause)
    | _ => rfl
  | _ => rfl

theorem Step.mutes_apart (hw : w.Agrees w') (ht : t.IsDomestic) {a b : Activity K V Q R}
    {frames : List (Frame K V Q R)} (ha : ∀ key h cause, a ≠ .keep (.report key h cause))
    (hb : b.IsDomestic) (hframes : ∀ frame ∈ frames, frame.IsDomestic) :
    Step.Mutes a (.apart w t b frames) (.apart w' t b frames) :=
  ⟨hw, .same (ht.goOn hb hframes), (Activity.muted_eq _ ha).symm⟩

theorem World.Agrees.ofStore (hw : w.Agrees w') {turn turn' : StoreTurn K V Q R}
    (hstate : turn.state.Agrees turn'.state) (htrips : turn'.trips = turn.trips) :
    (Step.ofStore w t turn).world.Agrees (Step.ofStore w' t turn').world := by
  refine ⟨hstate, hw.clock, fun n => ?_⟩
  change (turn'.trips ++ w'.tripped).contains _ = (turn.trips ++ w.tripped).contains _
  rw [List.contains_append, List.contains_append, htrips]
  exact congrArg (_ || ·) (hw.tripped n)

theorem Step.mutes_ofStore (hw : w.Agrees w') {a : Activity K V Q R} {turn : StoreTurn K V Q R}
    (listening : Bool) (ht : (t.goOn turn.next turn.frames).IsDomestic)
    (ha : ∀ key h cause, a ≠ .keep (.report key h cause)) :
    Step.Mutes a (.ofStore w t turn)
      (.ofStore w' t (turn.onState (·.withListening listening))) :=
  ⟨hw.ofStore (Store.agrees_withListening _ _) rfl, .same ht, (Activity.muted_eq _ ha).symm⟩

/-- A report that calls the listener is over at once without it. -/
theorem Step.mutes_report (hw : w.Agrees w') (ht : t.IsDomestic) {settings : Settings K V Q R}
    {key : K} {h : Holder V} {cause : RemovalCause} {value : V}
    (hcopy : settings.copyOut h.value = .ok value) :
    Step.Mutes (.keep (.report key h cause))
      (.ofStore w t (w.store.report settings key h cause))
      (.ofStore w' t (w'.store.report (settings.withListener none) key h cause)) := by
  have hcounted : (w.store.count fun statistics => statistics.recordRemoval h.weight cause).Agrees
      (w'.store.count fun statistics => statistics.recordRemoval h.weight cause) := by
    rw [hw.store.eq]
    exact Store.agrees_withListening _ _
  have hover : (t.goOn (.settle (.done .unit)) []).IsDomestic := ht.goOn trivial (by simp)
  rcases w.store.report_eq key cause hcopy with hreport | ⟨listener, hreport⟩
  · rw [hreport]
    exact ⟨hw.ofStore hcounted rfl, .same hover, rfl⟩
  · rw [hreport]
    refine ⟨hw.ofStore hcounted rfl, ?_, rfl⟩
    have hnone : ∀ frame ∈ ([] : List (Frame K V Q R)), frame.IsPlain := by simp
    exact Thread.Mutes.hears (Activity.isPlain_code _) hnone rfl hover

variable [DecidableEq K] [DecidableEq V] {settings : Settings K V Q R} {chance : Chance K R}

omit [DecidableEq K] [DecidableEq V] in
theorem Script.step_mutes (hw : w.Agrees w') (ht : t.IsDomestic) {script : Script K V Q R}
    (horders : ∀ command next, script ≠ .order command next) (reply : Option R) :
    Option.Rel (Step.Mutes (.code script)) (script.step settings reply w t)
      (script.step (settings.withListener none) reply w' t) := by
  have happart : ∀ (b : Activity K V Q R) (frames : List (Frame K V Q R)), b.IsDomestic →
      (∀ frame ∈ frames, frame.IsDomestic) →
        Step.Mutes (.code script) (.apart w t b frames) (.apart w' t b frames) :=
    fun b frames => Step.mutes_apart hw ht (by simp)
  cases script with
  | finish answer => exact .some (happart _ _ trivial (by simp))
  | raise panic => exact .some (happart _ _ trivial (by simp))
  | call operation next =>
    have hstored : operation.stored (settings.withListener none) = operation.stored settings := by
      cases operation <;> rfl
    rw [Script.step, Script.step, hstored]
    exact .some (happart _ _ trivial (by simp [Frame.IsDomestic]))
  | order command next => exact absurd rfl (horders command next)
  | scope interrupter body next =>
    exact .some (happart _ _ ⟨rfl, trivial⟩ (by simp [Frame.IsDomestic]))
  | guard body next => exact .some (happart _ _ trivial (by simp [Frame.IsDomestic]))
  | ask question next =>
    cases reply with
    | none => exact .none
    | some r => exact .some (happart _ _ trivial (by simp))

omit [DecidableEq K] [DecidableEq V] in
theorem Frame.receive_mutes (hw : w.Agrees w') (ht : t.IsDomestic) {frame : Frame K V Q R}
    (hframe : frame.IsDomestic) (signal : Signal V) :
    Step.Mutes (.settle signal) (frame.receive w t signal) (frame.receive w' t signal) := by
  have happart : ∀ b : Activity K V Q R, b.IsDomestic →
      Step.Mutes (.settle signal) (.apart w t b []) (.apart w' t b []) :=
    fun b hb => Step.mutes_apart hw ht (by simp) hb (by simp)
  cases frame with
  | calling next => cases signal <;> exact happart _ trivial
  | guarded next => exact happart _ trivial
  | «scoped» before =>
    have hbefore : Thread.IsDomestic { t with binding := before } := ⟨ht.activity, ht.stack, hframe⟩
    exact Step.mutes_apart hw hbefore (by simp) trivial (by simp)
  | next a =>
    cases signal with
    | done answer => exact happart a hframe
    | raised p => exact happart _ trivial
  | computing c =>
    have hmapped : w'.store.mapped c signal =
        (w.store.mapped c signal).onState (·.withListening w'.store.listening) := by
      rw [hw.store.eq]
      exact Store.mapped_withListening c signal
    rw [Frame.receive, Frame.receive, hmapped]
    obtain ⟨-, hframes, stage, hnext, -⟩ := w.store.mapped_spec c signal
    refine Step.mutes_ofStore hw _ (ht.goOn ?_ ?_) (by simp)
    · rw [hnext]
      trivial
    · simp [hframes]
  | listening => exact hframe.elim
  | tasking task => exact hframe.elim

/-- A thread that no executor and no listener has a part in takes the same step without the
listener, or none in either store. -/
theorem Thread.step_mutes (hw : w.Agrees w') (ht : t.IsDomestic)
    (horders : ∀ command next, t.activity ≠ .code (.order command next))
    (hcopy : ∀ value, ∃ copy, settings.copyOut value = .ok copy) :
    Option.Rel (Step.Mutes t.activity) (t.step settings chance w)
      (t.step (settings.withListener none) chance w') := by
  obtain ⟨activity, stack, binding⟩ := t
  cases activity with
  | code script =>
    exact Script.step_mutes hw ht (fun command next => by simpa using horders command next) _
  | enter i inside =>
    obtain ⟨hi, hinside⟩ := ht.activity
    have hbound : Thread.IsDomestic ⟨.enter i inside, stack, some i⟩ :=
      ⟨ht.activity, ht.stack, by simpa using hi⟩
    have hframe : ∀ frame ∈ [(Frame.scoped binding : Frame K V Q R)], frame.IsDomestic := by
      simpa [Frame.IsDomestic] using ht.binding
    exact .some (Step.mutes_apart hw hbound (by simp) hinside hframe)
  | settle signal =>
    cases stack with
    | nil => exact .none
    | cons frame rest =>
      exact .some (Frame.receive_mutes hw ht.popped (ht.stack frame List.mem_cons_self) signal)
  | keep stage =>
    by_cases hreport : ∃ key h cause, stage = .report key h cause
    · obtain ⟨key, h, cause, rfl⟩ := hreport
      obtain ⟨copy, hvalue⟩ := hcopy h.value
      exact .some (Step.mutes_report hw ht hvalue)
    · have hstage : ∀ key h cause, stage ≠ .report key h cause :=
        fun key h cause heq => hreport ⟨key, h, cause, heq⟩
      have hturn : stage.turn (settings.withListener none) w'.store w'.clock.now
          (w'.interrupts binding) chance.draws =
          (stage.turn settings w.store w.clock.now (w.interrupts binding) chance.draws).map
            (Turn.onState (·.withListening w'.store.listening)) := by
        rw [hw.interrupts ht.binding, hw.clock, hw.store.eq]
        exact Stage.turn_withListening _ _ _ hstage
      rw [Thread.step, Thread.step]
      dsimp only
      rw [hturn]
      cases hsome : stage.turn settings w.store w.clock.now (w.interrupts binding) chance.draws with
      | none => exact .none
      | some turn =>
        exact .some (Step.mutes_ofStore hw _ (ht.goOn_of_follows (Stage.follows hsome) hstage)
          (by simpa using hstage))
  | dispatch stage => exact ht.activity.elim

/-- A step within a call of the listener leads nowhere that can be seen without the listener. -/
theorem Thread.step_hears {step : Step K V Q R} {inside below : List (Frame K V Q R)}
    (hw : w.Agrees w') (hactivity : t.activity.IsPlain) (hinside : ∀ frame ∈ inside, frame.IsPlain)
    (hstack : t.stack = inside ++ .listening :: below)
    (ht : Thread.IsDomestic ⟨.settle (.done .unit), below, rebound t.binding inside⟩)
    (hcalls : ∀ operation next, t.activity ≠ .code (.call operation next))
    (hstep : t.step settings chance w = some step) :
    step.world.Agrees w' ∧
      step.thread.Mutes ⟨.settle (.done .unit), below, rebound t.binding inside⟩ := by
  have hclock : w'.clock = step.world.clock := by rw [Thread.clock_of_step hstep, hw.clock]
  by_cases hover : inside = [] ∧ ∃ signal, t.activity = .settle signal
  · obtain ⟨rfl, signal, hsettled⟩ := hover
    obtain rfl := Thread.receive_of_step hsettled hstack hstep
    have hpopped : t.popped = ⟨.settle signal, below, t.binding⟩ := by
      rw [Thread.popped, hsettled, hstack]
      rfl
    rw [hpopped]
    cases signal with
    | done answer => exact ⟨⟨hw.store, hclock, hw.tripped⟩, .same ht⟩
    | raised panic =>
      have hdisabled : ({ w.store with listening := false } : Store K V).Agrees w'.store :=
        ⟨hw.store.map, hw.store.deadlines, hw.store.faults, hw.store.statistics⟩
      exact ⟨⟨hdisabled, hclock, hw.tripped⟩, .same ht⟩
  · rcases (Thread.stride hstep).of_plain hactivity hstack hinside hcalls with
      hended | ⟨hstore, hactivity', inside', hinside', hstack'⟩
    · exact absurd hended hover
    obtain ⟨⟨inside'', hstack'', hbinding⟩, htripped⟩ :=
      Thread.keepsScope hstep hactivity hstack hinside hover
    obtain rfl := List.append_cancel_right (hstack'.symm.trans hstack'')
    refine ⟨⟨hstore ▸ hw.store, hclock, fun n => (hw.tripped n).trans (htripped n).symm⟩, ?_⟩
    rw [← hbinding] at ht ⊢
    exact .hears hactivity' hinside' hstack' ht

end Steps

end SharedCache
