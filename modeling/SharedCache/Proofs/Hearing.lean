import Mathlib.Data.List.Forall2
import Mathlib.Data.List.TakeWhile
import SharedCache.Proofs.Removals
import SharedCache.Proofs.ReportedSlots
import SharedCache.Proofs.WithoutListener

/-!
# Hearing

What difference a listener makes to a run of one thread.  The run without it takes the same steps
but for those within the calls of the listener, and it finds the same store in each of them.  The
listener hears of every removal in turn, up to the first call of it that panics.
-/

namespace SharedCache

variable {K V Q R : Type}

/-! ## Calls of the listener -/

/-- Whether a frame waits for the listener. -/
def Frame.isListening : Frame K V Q R → Bool
  | .listening => true
  | _ => false

namespace Thread

variable (t : Thread K V Q R)

/-- Whether the thread is in the middle of a call of the listener. -/
def isListening : Bool := t.stack.any Frame.isListening

/-- Whether the listener ends with a panic in the next step. -/
def panics : Bool :=
  match t.activity, t.stack with
  | .settle (.raised _), .listening :: _ => true
  | _, _ => false

/-- Whether the listener calls no operation of the store, and nothing but the listener has anything
to do with an executor, in the next step. -/
def isDiscreet : Bool :=
  match t.activity with
  | .code (.call ..) => !t.isListening
  | .code (.order ..) => t.isListening
  | _ => true

end Thread

/-- What the listener is called with in an event, if it is. -/
def Event.heard? : Event K V → Option (K × V × RemovalCause)
  | .listened key value cause => some (key, value, cause)
  | _ => none

namespace Passage

variable (p : Passage K V Q R)

/-- Whether the passage is a step within a call of the listener. -/
def isListeners : Bool := p.thread?.any Thread.isListening

/-- Whether the listener ends with a panic in the passage. -/
def panics : Bool := p.thread?.any Thread.panics

/-- Whether the listener calls no operation of the store in the passage, and nothing but the
listener has anything to do with an executor. -/
def isDiscreet : Bool := p.thread?.all Thread.isDiscreet

/-- The calls of the listener in the passage. -/
def heard : List (K × V × RemovalCause) := p.events.filterMap Event.heard?

/-- What a script is handed for a call in the passage. -/
def returned? : Option (Signal V) :=
  match p.thread? with
  | some ⟨.settle signal, .calling _ :: _, _⟩ => some signal
  | _ => none

/-- The events of the passage without those of a call of the listener. -/
def muted : List (Event K V) := p.thread?.elim p.events fun t => t.activity.muted p.events

end Passage

/-- The removal that is reported in a passage, with a copy of the value. -/
def Passage.removal? (copy : V → V) (p : Passage K V Q R) : Option (K × V × RemovalCause) :=
  match p.stage? with
  | some (.report key h cause) => some (key, copy h.value, cause)
  | _ => none

theorem Thread.panics_iff {t : Thread K V Q R} :
    t.panics = true ↔
      ∃ p rest, t.activity = .settle (.raised p) ∧ t.stack = .listening :: rest := by
  rw [panics]
  constructor
  · intro hpanics
    split at hpanics
    · exact ⟨_, _, ‹_›, ‹_›⟩
    · cases hpanics
  · rintro ⟨p, rest, hactivity, hstack⟩
    rw [hactivity, hstack]

theorem Thread.isListening_iff {t : Thread K V Q R} :
    t.isListening = true ↔ .listening ∈ t.stack := by
  rw [isListening, List.any_eq_true]
  constructor
  · rintro ⟨frame, hframe, hlistening⟩
    cases frame with
    | listening => exact hframe
    | _ => cases hlistening
  · exact fun hmem => ⟨_, hmem, rfl⟩

theorem Thread.panics_of_activity {t : Thread K V Q R}
    (hactivity : ∀ p, t.activity ≠ .settle (.raised p)) : t.panics = false := by
  refine Bool.eq_false_iff.mpr fun hpanics => ?_
  obtain ⟨p, -, hsettled, -⟩ := panics_iff.mp hpanics
  exact hactivity p hsettled

theorem Thread.panics_of_stack {t : Thread K V Q R} {frame : Frame K V Q R}
    {rest : List (Frame K V Q R)} (hstack : t.stack = frame :: rest)
    (hframe : frame ≠ .listening) : t.panics = false := by
  refine Bool.eq_false_iff.mpr fun hpanics => ?_
  obtain ⟨-, _, -, hlistening⟩ := panics_iff.mp hpanics
  exact hframe (List.cons.inj (hstack.symm.trans hlistening)).1

section Switch

variable [DecidableEq K] [DecidableEq V] {settings : Settings K V Q R}

omit [DecidableEq K] [DecidableEq V] in
theorem Store.listening_report (s : Store K V) (key : K) (h : Holder V) (cause : RemovalCause) :
    (s.report settings key h cause).state.listening = s.listening := by
  rw [Store.report, Turn.state_after]
  split
  · rfl
  · split
    · exact Turn.consulting_induction
        (P := fun turn : StoreTurn K V Q R => turn.state.listening = s.listening)
        (fun _ _ hturn => hturn) (fun _ _ => rfl) (fun _ _ => rfl)
    · rfl

/-- No section turns the switch of the listener. -/
theorem Stage.listening_turn {s : Store K V} {stage : Stage K V Q R} {now : Instant}
    {interrupted : Bool} {draws : List K} {turn : StoreTurn K V Q R}
    (hturn : stage.turn settings s now interrupted draws = some turn) :
    turn.state.listening = s.listening := by
  by_cases hreport : ∃ key h cause, stage = .report key h cause
  · obtain ⟨key, h, cause, rfl⟩ := hreport
    obtain rfl := Option.some.inj hturn
    exact s.listening_report key h cause
  · -- The section does the same where the switch is set to what it is already.
    have hsame : stage.turn (settings.withListener settings.listener)
        (s.withListening s.listening) now interrupted draws =
        (stage.turn settings s now interrupted draws).map
          (Turn.onState (·.withListening s.listening)) :=
      Stage.turn_withListening _ _ _ fun key h cause heq => hreport ⟨key, h, cause, heq⟩
    have hset : stage.turn settings s now interrupted draws =
        (stage.turn settings s now interrupted draws).map
          (Turn.onState (·.withListening s.listening)) := hsame
    rw [hturn] at hset
    exact congrArg (fun turn => turn.state.listening) (Option.some.inj hset)

/-- The listener is turned off where it panics, and nowhere else. -/
theorem Thread.Stride.listening {w : World K V Q R} {t : Thread K V Q R} {step : Step K V Q R}
    (hstride : t.Stride settings w step) :
    step.world.store.listening = (w.store.listening && !t.panics) := by
  have hsame : step.world.store.listening = w.store.listening → t.panics = false →
      step.world.store.listening = (w.store.listening && !t.panics) := by
    intro hkept hpanics
    rw [hkept, hpanics, Bool.not_false, Bool.and_true]
  cases hstride with
  | works _ hno _ hstore =>
    exact hsame (congrArg _ hstore) (panics_of_activity fun p => hno (.raised p))
  | calls hactivity => exact hsame rfl (panics_of_activity (by simp [hactivity]))
  | enters hactivity => exact hsame rfl (panics_of_activity (by simp [hactivity]))
  | returns _ hstack hframe _ hstore =>
    refine hsame (congrArg _ hstore) (panics_of_stack hstack ?_)
    rintro rfl
    exact hframe.elim
  | proceeds _ hstack => exact hsame rfl (panics_of_stack hstack (by simp))
  | unwinds _ hstack => exact hsame rfl (panics_of_stack hstack (by simp))
  | @mapped signal c rest _ hstack =>
    have hset : (w.store.withListening w.store.listening).mapped c signal =
        (w.store.mapped c signal).onState (·.withListening w.store.listening) :=
      Store.mapped_withListening c signal
    exact hsame (congrArg (fun turn => turn.state.listening) hset)
      (panics_of_stack hstack (by simp))
  | @listened signal rest hactivity hstack =>
    cases signal with
    | done answer => exact hsame rfl (panics_of_activity (by simp [hactivity]))
    | raised p =>
      rw [panics_iff.mpr ⟨p, rest, hactivity, hstack⟩, Bool.not_true, Bool.and_false]
      rfl
  | keeps hactivity hturn =>
    exact hsame (Stage.listening_turn hturn) (panics_of_activity (by simp [hactivity]))

end Switch

section Heard

variable [DecidableEq K] [DecidableEq V] {settings : Settings K V Q R} {copy : V → V}
  {start m : Machine K V Q R} {trace : List (Passage K V Q R)} {p : Passage K V Q R}

omit [DecidableEq K] [DecidableEq V] in
/-- No removal is reported where the listener panics. -/
theorem Passage.removal?_of_panics (copy : V → V) (hpanics : p.panics = true) :
    p.removal? copy = none := by
  obtain ⟨t, ht, hthread⟩ := (Option.any_eq_true _ _).mp hpanics
  obtain ⟨signal, rest, hactivity, -⟩ := Thread.panics_iff.mp hthread
  obtain ⟨i, hmover, hbefore⟩ := Option.bind_eq_some_iff.mp ht
  rw [Passage.removal?, Passage.stage?_of_apart hmover hbefore (by simp [hactivity])]

/-- The listener is turned off in the passage in which it panics. -/
theorem Passage.Lawful.listening (hp : p.Lawful settings) :
    p.after.world.store.listening = (p.before.world.store.listening && !p.panics) := by
  cases hp.course with
  | outside hnone houtside =>
    have hquiet : p.panics = false := by simp [Passage.panics, Passage.thread?, hnone]
    rw [houtside.store_eq, hquiet, Bool.not_false, Bool.and_true]
  | step hmover ht hstride hafter =>
    rw [Passage.panics, Passage.thread?_eq hmover ht, Option.any_some, ← hstride.listening, hafter]

/-- While it is enabled, the listener is called for each removal that is reported, and for nothing
else. -/
theorem Passage.Lawful.heard (hp : p.Lawful settings) (hlistener : settings.listener.isSome = true)
    (hcopy : ∀ value, settings.copyOut value = .ok (copy value)) :
    p.heard = if p.before.world.store.listening then (p.removal? copy).toList else [] := by
  have hmarked : p.heard = (marked p.events).filterMap Event.heard? := by
    rw [Passage.heard, marked, List.filterMap_filter]
    refine List.filterMap_congr fun event _ => ?_
    cases event <;> rfl
  by_cases hreport : ∃ key h cause, p.stage? = some (.report key h cause)
  · obtain ⟨key, h, cause, hstage⟩ := hreport
    obtain ⟨value, hvalue, hevents⟩ :=
      (hp.countsRemoval (fun value => ⟨copy value, hcopy value⟩) hstage).events
    obtain rfl := Except.ok.inj ((hcopy h.value).symm.trans hvalue)
    rw [hmarked, hevents, hlistener, Bool.true_and, Passage.removal?, hstage]
    split <;> rfl
  · have hnone : p.removal? copy = none := by
      rw [Passage.removal?]
      split
      · exact absurd ⟨_, _, _, ‹_›⟩ hreport
      · rfl
    have hsilent : p.heard = [] := by
      refine List.filterMap_eq_nil_iff.mpr fun event hevent => ?_
      cases event with
      | listened key value cause =>
        obtain ⟨h, hstage⟩ := hp.reports_of_listened hevent
        exact absurd ⟨key, h, cause, hstage⟩ hreport
      | _ => rfl
    rw [hsilent, hnone, Option.toList_none, ite_self]

/-- The listener hears of the removals in the order in which they are reported, until it panics. -/
theorem Run.heard (run : Run settings start trace m) (hstart : start.world.store.listening = true)
    (hlistener : settings.listener.isSome = true)
    (hcopy : ∀ value, settings.copyOut value = .ok (copy value)) :
    trace.flatMap Passage.heard =
        (trace.takeWhile fun p => !p.panics).filterMap (Passage.removal? copy) ∧
      (m.world.store.listening = true ↔ ∀ p ∈ trace, (!p.panics) = true) := by
  induction run with
  | rest => exact ⟨rfl, by simp [hstart]⟩
  | @move trace p _ hp ih =>
    obtain ⟨hheard, hlistening⟩ := ih
    have hnext := hp.heard hlistener hcopy
    constructor
    · rw [List.flatMap_append, List.flatMap_singleton, hheard, hnext]
      by_cases hquiet : ∀ q ∈ trace, (!q.panics) = true
      · rw [if_pos (hlistening.mpr hquiet), List.takeWhile_append_of_pos hquiet,
          List.filterMap_append, List.takeWhile_eq_self_iff.mpr hquiet]
        refine congrArg _ ?_
        cases hpanics : p.panics with
        | true =>
          rw [Passage.removal?_of_panics copy hpanics,
            List.takeWhile_cons_of_neg (by simp [hpanics])]
          rfl
        | false =>
          rw [List.takeWhile_cons_of_pos (by simp [hpanics]), List.takeWhile_nil]
          cases hremoval : p.removal? copy <;> simp [hremoval]
      · have hshort : (trace.takeWhile fun p => !p.panics).length ≠ trace.length := by
          intro hlength
          have hself := (List.takeWhile_prefix _).eq_of_length hlength
          exact hquiet (List.takeWhile_eq_self_iff.mp hself)
        rw [if_neg fun hyes => hquiet (hlistening.mp hyes), List.append_nil, List.takeWhile_append,
          if_neg hshort]
    · rw [hp.listening, Bool.and_eq_true, hlistening]
      simp [or_imp, forall_and]

/-- A thread comes to a call of the listener by a report that calls it. -/
theorem Thread.Stride.hears {w : World K V Q R} {t : Thread K V Q R} {step : Step K V Q R}
    (hstride : t.Stride settings w step)
    (hcopy : ∀ value, settings.copyOut value = .ok (copy value)) (ht : .listening ∉ t.stack)
    (hstep : .listening ∈ step.thread.stack) :
    ∃ key value cause, .listened key value cause ∈ step.events := by
  have hrest : ∀ {frame : Frame K V Q R} {rest : List (Frame K V Q R)}, t.stack = frame :: rest →
      .listening ∉ rest := by
    intro frame rest hstack hmem
    exact ht (hstack ▸ List.mem_cons_of_mem frame hmem)
  cases hstride with
  | works _ _ _ _ _ hframes =>
    rcases List.mem_append.mp hstep with hnew | hold
    · exact (hframes _ hnew).elim
    · exact absurd hold ht
  | calls =>
    rcases List.mem_cons.mp hstep with hnew | hold
    · cases hnew
    · exact absurd hold ht
  | enters =>
    rcases List.mem_cons.mp hstep with hnew | hold
    · cases hnew
    · exact absurd hold ht
  | returns _ hstack => exact absurd hstep (hrest hstack)
  | proceeds _ hstack => exact absurd hstep (hrest hstack)
  | unwinds _ hstack => exact absurd hstep (hrest hstack)
  | @mapped signal c rest _ hstack =>
    obtain ⟨-, hframes, -⟩ := w.store.mapped_spec c signal
    rw [Step.ofStore, Thread.goOn, hframes, Thread.popped, hstack] at hstep
    exact absurd hstep (hrest hstack)
  | @listened signal rest _ hstack => exact absurd (hstack ▸ List.mem_cons_self) ht
  | keeps hactivity hturn =>
    rcases List.mem_append.mp hstep with hnew | hold
    · obtain ⟨key, h, cause, rfl⟩ := (Stage.follows hturn).hears hnew
      obtain rfl := Option.some.inj hturn
      rcases w.store.report_eq key cause (hcopy h.value) with hreport | ⟨listener, hreport⟩
      · rw [hreport] at hnew
        cases hnew
      · refine ⟨key, copy h.value, cause, ?_⟩
        rw [Step.ofStore, hreport]
        simp
    · exact absurd hold ht

/-- A thread in the middle of a call of the listener has come there by a report, and has done
nothing since but what the listener does. -/
theorem Run.called (run : Run settings start trace m)
    (hcopy : ∀ value, settings.copyOut value = .ok (copy value)) {i : Nat}
    (hstart : ∀ t, start.threads[i]? = some t → .listening ∉ t.stack) {t : Thread K V Q R}
    (ht : m.threads[i]? = some t) (hlistening : .listening ∈ t.stack) :
    ∃ before call since, trace = before ++ call :: since ∧ call.heard ≠ [] ∧
      ∀ q ∈ since, q.mover = some i → q.isListeners = true := by
  induction run generalizing t with
  | rest => exact absurd hlistening (hstart t ht)
  | @move trace p _ hp ih =>
    rcases hp.thread_cases ht with ⟨hother, hbefore⟩ | ⟨script, rfl⟩ |
      ⟨hmover, t', -, ht', -⟩
    · obtain ⟨before, call, since, rfl, hcall, hsince⟩ := ih hbefore hlistening
      refine ⟨before, call, since ++ [p], by simp, hcall, fun q hq hi => ?_⟩
      rcases List.mem_append.mp hq with hold | hnew
      · exact hsince q hold hi
      · exact absurd (List.mem_singleton.mp hnew ▸ hi) hother
    · cases hlistening
    · by_cases hwithin : .listening ∈ t'.stack
      · obtain ⟨before, call, since, rfl, hcall, hsince⟩ := ih ht' hwithin
        refine ⟨before, call, since ++ [p], by simp, hcall, fun q hq hi => ?_⟩
        rcases List.mem_append.mp hq with hold | hnew
        · exact hsince q hold hi
        · rw [List.mem_singleton.mp hnew, Passage.isListeners, Passage.thread?_eq hmover ht']
          exact Thread.isListening_iff.mpr hwithin
      · refine ⟨trace, p, [], rfl, ?_, by simp⟩
        obtain ⟨chance, s, hs, -, hthread, hevents⟩ := hp.own_step hmover ht'
        obtain rfl := Option.some.inj (hthread.symm.trans ht)
        obtain ⟨key, value, cause, hevent⟩ := (Thread.stride hs).hears hcopy hwithin hlistening
        exact List.ne_nil_of_mem (List.mem_filterMap.mpr ⟨_, hevents ▸ hevent, rfl⟩)

end Heard

/-! ## Runs without the listener -/

/-- What a schedule prescribes without the steps within the calls of the listener. -/
def unheard : List (Move K V Q R) → List (Passage K V Q R) → List (Move K V Q R)
  | move :: moves, p :: trace =>
    if p.isListeners then unheard moves trace else move :: unheard moves trace
  | _, _ => []

/-- What a machine with one thread is without the listener. -/
structure Machine.Mutes (m m' : Machine K V Q R) : Prop where
  world : m.world.Agrees m'.world
  threads : ∃ t u, m.threads = #[t] ∧ m'.threads = #[u] ∧ t.Mutes u

/-- What a passage is without the listener: the same thread is at the same place, finds the same
store and leaves the same store behind. -/
structure Passage.Mutes (p q : Passage K V Q R) : Prop where
  mover : q.mover = p.mover
  thread : q.thread? = p.thread?
  before : p.before.world.store.Agrees q.before.world.store
  after : p.after.world.store.Agrees q.after.world.store
  clock : q.after.world.clock = p.after.world.clock
  events : q.events = p.muted

theorem Thread.IsDomestic.isListening_eq {t : Thread K V Q R} (ht : t.IsDomestic) :
    t.isListening = false :=
  Bool.eq_false_iff.mpr fun hlistening => ht.stack _ (isListening_iff.mp hlistening)

/-- A thread is where it would be without the listener, unless the listener runs. -/
theorem Thread.Mutes.eq_of_isListening {t u : Thread K V Q R} (hmutes : t.Mutes u)
    (hlistening : t.isListening = false) : u = t ∧ t.IsDomestic := by
  cases hmutes with
  | same ht => exact ⟨rfl, ht⟩
  | hears _ _ hstack =>
    refine absurd (isListening_iff.mpr ?_) (Bool.eq_false_iff.mp hlistening)
    simp [hstack]

/-- While the listener runs, the thread is in no section of the store. -/
theorem Thread.Mutes.isPlain_of_isListening {t u : Thread K V Q R} (hmutes : t.Mutes u)
    (hlistening : t.isListening = true) : t.activity.IsPlain := by
  cases hmutes with
  | same ht => cases ht.isListening_eq.symm.trans hlistening
  | hears hactivity => exact hactivity

theorem Machine.Mutes.thread {m m' : Machine K V Q R} (hm : m.Mutes m') {i : Nat}
    {t : Thread K V Q R} (ht : m.threads[i]? = some t) :
    i = 0 ∧ m.threads = #[t] ∧ ∃ u, m'.threads = #[u] ∧ t.Mutes u := by
  obtain ⟨t', u, hthreads, hthreads', htu⟩ := hm.threads
  have hlt := (Array.getElem?_eq_some_iff.mp ht).1
  rw [hthreads] at hlt ht
  obtain rfl := Nat.lt_one_iff.mp hlt
  obtain rfl := Option.some.inj ht
  exact ⟨rfl, hthreads, u, hthreads', htu⟩

section Runs

variable [DecidableEq K] [DecidableEq V] {settings : Settings K V Q R} {m m' last : Machine K V Q R}
  {p : Passage K V Q R} {move : Move K V Q R} {moves : List (Move K V Q R)}
  {trace : List (Passage K V Q R)}

/-- A step of the only thread is one that it takes without the listener too, or one within a call of
the listener, in which nothing happens otherwise. -/
theorem Machine.Mutes.step (hm : m.Mutes m') {i : Nat} {chance : Chance K R}
    {after : Machine K V Q R} {events : List (Event K V)}
    (hstep : m.step settings chance i = some (after, events))
    (hdiscreet : (Passage.mk m (some i) events after).isDiscreet = true)
    (hcopy : ∀ value, ∃ copy, settings.copyOut value = .ok copy) :
    (Passage.mk m (some i) events after).isListeners = true ∧ after.Mutes m' ∨
      (Passage.mk m (some i) events after).isListeners = false ∧ ∃ after' events',
        m'.step (settings.withListener none) chance i = some (after', events') ∧
          Passage.Mutes ⟨m, some i, events, after⟩ ⟨m', some i, events', after'⟩ ∧
            after.Mutes after' := by
  obtain ⟨t, s, ht, hs, rfl, rfl⟩ := Machine.step_eq_some hstep
  obtain ⟨rfl, hthreads, u, hthreads', htu⟩ := hm.thread ht
  have hset : ∀ (v v' : Thread K V Q R), #[v].setIfInBounds 0 v' = #[v'] := fun _ _ => rfl
  have hthread : ∀ after events,
      (Passage.mk m (some 0) events after).thread? = some t := fun after events =>
    Passage.thread?_eq rfl ht
  rw [Passage.isDiscreet, hthread, Option.all_some, Thread.isDiscreet] at hdiscreet
  rw [Passage.isListeners, hthread, Option.any_some]
  cases htu with
  | same hdomestic =>
    have hown := hdomestic.isListening_eq
    have horders : ∀ command next, t.activity ≠ .code (.order command next) := by
      intro command next hactivity
      rw [hactivity, hown] at hdiscreet
      cases hdiscreet
    have hrel : Option.Rel (Step.Mutes t.activity) (t.step settings chance m.world)
        (t.step (settings.withListener none) chance m'.world) :=
      Thread.step_mutes hm.world hdomestic horders hcopy
    rw [hs] at hrel
    cases hs' : t.step (settings.withListener none) chance m'.world with
    | none =>
      rw [hs'] at hrel
      cases hrel
    | some s' =>
      rw [hs'] at hrel
      obtain ⟨hmutes⟩ := hrel
      have ht' : m'.threads[0]? = some t := by rw [hthreads']; rfl
      refine .inr ⟨hown, ⟨s'.world, #[s'.thread]⟩, s'.events, ?_, ?_, ?_⟩
      · rw [Machine.step, ht', Option.bind_eq_bind, Option.bind_some, hs', hthreads']
        rfl
      · refine ⟨rfl, ?_, hm.world.store, hmutes.world.store, hmutes.world.clock, ?_⟩
        · rw [hthread, Passage.thread?_eq rfl ht']
        · rw [Passage.muted, hthread]
          exact hmutes.events
      · refine ⟨hmutes.world, _, _, ?_, rfl, hmutes.thread⟩
        rw [hthreads, hset]
  | hears hactivity hinside hstack hdomestic =>
    have hlistening : t.isListening = true := Thread.isListening_iff.mpr (by simp [hstack])
    have hcalls : ∀ operation next, t.activity ≠ .code (.call operation next) := by
      intro operation next hcall
      rw [hcall, hlistening] at hdiscreet
      cases hdiscreet
    obtain ⟨hworld, hmutes⟩ :=
      Thread.step_hears hm.world hactivity hinside hstack hdomestic hcalls hs
    refine .inl ⟨hlistening, hworld, _, _, ?_, hthreads', hmutes⟩
    rw [hthreads, hset]

theorem Machine.Mutes.passage? (hm : m.Mutes m') (hp : m.passage? settings move = some p)
    (hmove : ∀ script, move ≠ .spawn script) (hdiscreet : p.isDiscreet = true)
    (hcopy : ∀ value, ∃ copy, settings.copyOut value = .ok copy) :
    p.isListeners = true ∧ p.after.Mutes m' ∨
      p.isListeners = false ∧ ∃ q, m'.passage? (settings.withListener none) move = some q ∧
        p.Mutes q ∧ p.after.Mutes q.after := by
  cases move with
  | spawn script => exact absurd rfl (hmove script)
  | advance d =>
    obtain ⟨w, hadvance, rfl⟩ := Option.map_eq_some_iff.mp hp
    obtain ⟨clock, hclock, rfl⟩ := Option.map_eq_some_iff.mp hadvance
    let after : Machine K V Q R := { m' with world := { m'.world with clock := clock } }
    refine .inr ⟨rfl, ⟨m', none, [], after⟩, ?_, ?_, ?_⟩
    · rw [Machine.passage?, World.advance?, hm.world.clock, hclock]
      rfl
    · exact ⟨rfl, rfl, hm.world.store, hm.world.store, rfl, rfl⟩
    · exact ⟨⟨hm.world.store, rfl, hm.world.tripped⟩, hm.threads⟩
  | step i chance =>
    obtain ⟨⟨after, events⟩, hstep, rfl⟩ := Option.map_eq_some_iff.mp hp
    rcases hm.step hstep hdiscreet hcopy with
      hlistens | ⟨hown, after', events', hstep', hmutes, hafter⟩
    · exact .inl hlistens
    · refine .inr ⟨hown, _, ?_, hmutes, hafter⟩
      rw [Machine.passage?, hstep']
      rfl

/-- Without the listener the thread takes the same steps but for those of the listener. -/
theorem Machine.Mutes.follow (hm : m.Mutes m')
    (hfollow : m.follow settings moves = some (trace, last))
    (hmoves : ∀ script, .spawn script ∉ moves) (hdiscreet : ∀ p ∈ trace, p.isDiscreet = true)
    (hcopy : ∀ value, ∃ copy, settings.copyOut value = .ok copy) : ∃ trace' last',
      m'.follow (settings.withListener none) (unheard moves trace) = some (trace', last') ∧
        List.Forall₂ Passage.Mutes (trace.filter fun p => !p.isListeners) trace' ∧
          last.Mutes last' ∧ ∀ p ∈ trace, ∃ m', p.before.Mutes m' := by
  induction moves generalizing m m' trace with
  | nil =>
    obtain ⟨rfl, rfl⟩ := Prod.mk.inj (Option.some.inj hfollow)
    exact ⟨[], m', rfl, .nil, hm, by simp⟩
  | cons move moves ih =>
    rw [Machine.follow] at hfollow
    split at hfollow
    · cases hfollow
    rename_i p hp
    obtain ⟨⟨rest, final⟩, hrest, hpair⟩ := Option.map_eq_some_iff.mp hfollow
    obtain ⟨rfl, rfl⟩ := Prod.mk.inj hpair
    obtain ⟨hbefore, -⟩ := Machine.lawful_of_passage? hp
    have hmove : ∀ script, move ≠ .spawn script := fun script heq =>
      hmoves script (heq ▸ List.mem_cons_self)
    have hlater : ∀ script, .spawn script ∉ moves := fun script hmem =>
      hmoves script (List.mem_cons_of_mem _ hmem)
    have hquiet : ∀ q ∈ rest, q.isDiscreet = true := fun q hq =>
      hdiscreet q (List.mem_cons_of_mem _ hq)
    rcases hm.passage? hp hmove (hdiscreet p List.mem_cons_self) hcopy with
      ⟨hlistens, hafter⟩ | ⟨hown, q, hq, hpq, hafter⟩
    · obtain ⟨trace', last', hfollow', hmutes, hlast, hall⟩ := ih hafter hrest hlater hquiet
      refine ⟨trace', last', ?_, ?_, hlast, ?_⟩
      · rw [unheard, if_pos hlistens]
        exact hfollow'
      · rw [List.filter_cons_of_neg (by simp [hlistens])]
        exact hmutes
      · exact List.forall_mem_cons.mpr ⟨⟨m', hbefore ▸ hm⟩, hall⟩
    · obtain ⟨trace', last', hfollow', hmutes, hlast, hall⟩ := ih hafter hrest hlater hquiet
      refine ⟨q :: trace', last', ?_, ?_, hlast, ?_⟩
      · rw [unheard, hown, if_neg (by simp), Machine.follow, hq]
        exact Option.map_eq_some_iff.mpr ⟨_, hfollow', rfl⟩
      · rw [List.filter_cons_of_pos (by simp [hown])]
        exact .cons hpq hmutes
      · exact List.forall_mem_cons.mpr ⟨⟨m', hbefore ▸ hm⟩, hall⟩

/-- What a run of one thread with a listener has in common with the run without it, and what the
listener hears. -/
structure GoesUnheard (settings : Settings K V Q R) (copy : V → V)
    (trace trace' : List (Passage K V Q R)) (m m' : Machine K V Q R) : Prop where
  /-- Apart from the steps of the listener the runs are the same step by step: the thread is at the
  same place, and the store has the same entries, deadlines and statistics. -/
  steps : List.Forall₂ Passage.Mutes (trace.filter fun p => !p.isListeners) trace'
  store : m.world.store.Agrees m'.world.store
  /-- The calls of the program return the same. -/
  returned : (trace.filter fun p => !p.isListeners).filterMap Passage.returned? =
    trace'.filterMap Passage.returned?
  /-- Unless the listener runs, the thread is at the same place at the end, and it can move on with
  the listener just when it can do so without. -/
  thread : ∀ t, m.threads[0]? = some t → t.isListening = false → m'.threads[0]? = some t ∧
    (t.isDiscreet = true → ∀ chance, (m.step settings chance 0).isSome =
      (m'.step (settings.withListener none) chance 0).isSome)
  /-- The listener hears of each removal in turn until it panics. -/
  heard : trace.flatMap Passage.heard =
    (trace.takeWhile fun p => !p.panics).filterMap (Passage.removal? copy)
  /-- The call that panics first is the last one, and no removal is reported while it goes on. -/
  last : ∀ front p back, trace = front ++ p :: back → (∀ q ∈ front, q.panics = false) →
    p.panics = true → ∃ before call since, front = before ++ call :: since ∧ call.heard ≠ [] ∧
      trace.flatMap Passage.heard = (before ++ [call]).filterMap (Passage.removal? copy) ∧
        ∀ q ∈ since, q.mover = none ∨ q.isListeners = true
  /-- However the listener ends, the operation goes on below it with an answer. -/
  absorbs : ∀ p ∈ trace, ∀ signal rest binding,
    p.thread? = some ⟨.settle signal, .listening :: rest, binding⟩ →
      p.after.threads[0]? = some ⟨.settle (.done .unit), rest, binding⟩

/-- Nobody moves but the only thread. -/
theorem Run.mover_eq {start : Machine K V Q R} (run : Run settings start trace m)
    (hbefore : ∀ p ∈ trace, ∃ m', p.before.Mutes m') :
    ∀ p ∈ trace, p.mover = none ∨ p.mover = some 0 := by
  intro p hp
  have hlawful := run.lawful hp
  cases hmover : p.mover with
  | none => exact .inl rfl
  | some i =>
    rw [Passage.Lawful, hmover] at hlawful
    obtain ⟨chance, hstep⟩ := hlawful
    obtain ⟨t, -, ht, -⟩ := Machine.step_eq_some hstep
    obtain ⟨_, hmutes⟩ := hbefore p hp
    rw [(hmutes.thread ht).1]
    exact .inr rfl

omit [DecidableEq K] [DecidableEq V] in
theorem Passage.returned?_congr {q : Passage K V Q R} (hthread : q.thread? = p.thread?) :
    q.returned? = p.returned? := by
  rw [returned?, returned?, hthread]

omit [DecidableEq K] [DecidableEq V] in
theorem returned_eq {trace' : List (Passage K V Q R)}
    (hmutes : List.Forall₂ Passage.Mutes trace trace') :
    trace.filterMap Passage.returned? = trace'.filterMap Passage.returned? := by
  induction hmutes with
  | nil => rfl
  | cons hpq _ ih =>
    rw [List.filterMap_cons, List.filterMap_cons, ih, Passage.returned?_congr hpq.thread]

omit [DecidableEq K] [DecidableEq V] in
/-- No removal is reported where nobody moves or the listener runs. -/
theorem Machine.Mutes.removal?_eq_none (hm : p.before.Mutes m') (copy : V → V)
    (hp : p.mover = none ∨ p.isListeners = true) : p.removal? copy = none := by
  have hstage : p.stage? = none := by
    rcases hp with hnone | hlistens
    · rw [Passage.stage?, Passage.thread?, hnone, Option.bind_none]
    · obtain ⟨t, hthread, hlistening⟩ := (Option.any_eq_true _ _).mp hlistens
      obtain ⟨i, hmover, ht⟩ := Option.bind_eq_some_iff.mp hthread
      obtain ⟨-, -, u, -, htu⟩ := hm.thread ht
      exact Passage.stage?_of_apart hmover ht
        (htu.isPlain_of_isListening hlistening).ne_keep
  rw [Passage.removal?, hstage]

theorem Machine.isSome_step_eq {t : Thread K V Q R} {chance : Chance K R} {i : Nat}
    (ht : m.threads[i]? = some t) :
    (m.step settings chance i).isSome = (t.step settings chance m.world).isSome := by
  rw [Machine.step, ht]
  cases hstep : t.step settings chance m.world <;> simp [hstep]

/-- The thread can move on with the listener just when it can do so without. -/
theorem Machine.Mutes.isSome_step (hm : m.Mutes m') {t : Thread K V Q R}
    (ht : m.threads[0]? = some t) (hlistening : t.isListening = false)
    (hcopy : ∀ value, ∃ copy, settings.copyOut value = .ok copy) :
    m'.threads[0]? = some t ∧ (t.isDiscreet = true → ∀ chance,
      (m.step settings chance 0).isSome =
        (m'.step (settings.withListener none) chance 0).isSome) := by
  obtain ⟨-, -, u, hthreads', htu⟩ := hm.thread ht
  obtain ⟨rfl, hdomestic⟩ := htu.eq_of_isListening hlistening
  have ht' : m'.threads[0]? = some u := by rw [hthreads']; rfl
  refine ⟨ht', fun hdiscreet chance => ?_⟩
  have horders : ∀ command next, u.activity ≠ .code (.order command next) := by
    intro command next hactivity
    rw [Thread.isDiscreet, hactivity, hlistening] at hdiscreet
    cases hdiscreet
  have hrel : Option.Rel (Step.Mutes u.activity) (u.step settings chance m.world)
      (u.step (settings.withListener none) chance m'.world) :=
    Thread.step_mutes hm.world hdomestic horders hcopy
  rw [Machine.isSome_step_eq ht, Machine.isSome_step_eq ht']
  generalize u.step settings chance m.world = step,
    u.step (settings.withListener none) chance m'.world = step' at hrel ⊢
  cases hrel <;> rfl

/-- However the listener ends, the operation goes on below it with an answer. -/
theorem Passage.Lawful.absorbs (hp : p.Lawful settings) {i : Nat} {signal : Signal V}
    {rest : List (Frame K V Q R)} {binding : Option Interrupter} (hmover : p.mover = some i)
    (ht : p.before.threads[i]? = some ⟨.settle signal, .listening :: rest, binding⟩) :
    p.after.threads[i]? = some ⟨.settle (.done .unit), rest, binding⟩ := by
  obtain ⟨chance, s, hs, -, hafter, -⟩ := hp.own_step hmover ht
  obtain rfl := Thread.receive_of_step rfl rfl hs
  rw [hafter]
  cases signal <;> rfl

/-- The listener has been called for the removals up to the one that it panics about, and no other
one is reported before it panics. -/
theorem Run.last_heard {copy : V → V} {start : Machine K V Q R}
    {front back : List (Passage K V Q R)} (run : Run settings start trace m)
    (hcopy : ∀ value, settings.copyOut value = .ok (copy value))
    (hstart : ∀ (i : Nat) t, start.threads[i]? = some t → .listening ∉ t.stack)
    (hheard : trace.flatMap Passage.heard =
      (trace.takeWhile fun p => !p.panics).filterMap (Passage.removal? copy))
    (hbefore : ∀ p ∈ trace, ∃ m', p.before.Mutes m') (htrace : trace = front ++ p :: back)
    (hfront : ∀ q ∈ front, q.panics = false) (hpanics : p.panics = true) :
    ∃ before call since, front = before ++ call :: since ∧ call.heard ≠ [] ∧
      trace.flatMap Passage.heard = (before ++ [call]).filterMap (Passage.removal? copy) ∧
        ∀ q ∈ since, q.mover = none ∨ q.isListeners = true := by
  obtain ⟨hrun, -, -⟩ := run.split htrace
  obtain ⟨t, hthread, hthrows⟩ := (Option.any_eq_true _ _).mp hpanics
  obtain ⟨i, -, ht⟩ := Option.bind_eq_some_iff.mp hthread
  obtain ⟨-, rest, -, hstack⟩ := Thread.panics_iff.mp hthrows
  obtain ⟨_, hp⟩ := hbefore p (by simp [htrace])
  obtain ⟨rfl, -⟩ := hp.thread ht
  obtain ⟨before, call, since, rfl, hcall, hsince⟩ :=
    hrun.called hcopy (hstart 0) ht (hstack ▸ List.mem_cons_self)
  have hwithin : ∀ q ∈ since, q.mover = none ∨ q.isListeners = true := fun q hq =>
    (run.mover_eq hbefore q (by simp [htrace, hq])).imp_right (hsince q hq)
  have hnothing : since.filterMap (Passage.removal? copy) = [] := by
    refine List.filterMap_eq_nil_iff.mpr fun q hq => ?_
    obtain ⟨_, hq'⟩ := hbefore q (by simp [htrace, hq])
    exact hq'.removal?_eq_none copy (hwithin q hq)
  have hquiet : ∀ q ∈ before ++ call :: since, (!q.panics) = true := fun q hq => by
    rw [hfront q hq, Bool.not_false]
  refine ⟨before, call, since, rfl, hcall, ?_, hwithin⟩
  rw [hheard, htrace, List.takeWhile_append_of_pos hquiet,
    List.takeWhile_cons_of_neg (by simp [hpanics]), List.append_nil, List.append_cons,
    List.filterMap_append, hnothing, List.append_nil]

/-- The listener never has an influence on the store.  A program that runs in a store with a
listener runs in the same way without it. -/
theorem Machine.follow_withoutListener {copy : V → V} {start : Machine K V Q R}
    {program : Script K V Q R} (hstart : start.Fresh settings)
    (hlistener : settings.listener.isSome = true)
    (hcopy : ∀ value, settings.copyOut value = .ok (copy value))
    (hmoves : ∀ script, .spawn script ∉ moves)
    (hfollow : (start.spawn (.running program)).follow settings moves = some (trace, m))
    (hdiscreet : ∀ p ∈ trace, p.isDiscreet = true) :
    start.Fresh (settings.withListener none) ∧ ∃ trace' m',
      (start.spawn (.running program)).follow (settings.withListener none) (unheard moves trace) =
        some (trace', m') ∧ GoesUnheard settings copy trace trace' m m' := by
  have htotal : ∀ value, ∃ copy, settings.copyOut value = .ok copy :=
    fun value => ⟨copy value, hcopy value⟩
  have hthreads : (start.spawn (.running program)).threads = #[.running program] := by
    rw [Machine.spawn, hstart.threads]
    rfl
  have hrunning : (Thread.running program : Thread K V Q R).IsDomestic :=
    ⟨trivial, by simp [Thread.running], by simp [Thread.running]⟩
  have hmutes : (start.spawn (.running program)).Mutes (start.spawn (.running program)) :=
    ⟨⟨.refl _, rfl, fun n => rfl⟩, _, _, hthreads, hthreads, .same hrunning⟩
  have hlistening : (start.spawn (.running program)).world.store.listening = true := by
    have hstore := hstart.store
    rw [Store.of] at hstore
    split at hstore
    · exact Except.ok.inj hstore ▸ rfl
    · cases hstore
  have hnew : ∀ (i : Nat) t, (start.spawn (.running program)).threads[i]? = some t →
      .listening ∉ t.stack := by
    intro i t ht
    obtain ⟨-, hsole, -⟩ := hmutes.thread ht
    obtain rfl : t = .running program := by simpa using hsole.symm.trans hthreads
    simp [Thread.running]
  obtain ⟨trace', m', hfollow', hsteps, hlast, hbefore⟩ :=
    hmutes.follow hfollow hmoves hdiscreet htotal
  have run := Machine.run_of_follow hfollow
  obtain ⟨hheard, -⟩ := run.heard hlistening hlistener hcopy
  refine ⟨⟨hstart.store, hstart.executor, hstart.tripped, hstart.threads⟩, trace', m', hfollow', ?_⟩
  constructor
  case steps => exact hsteps
  case store => exact hlast.world.store
  case returned => exact returned_eq hsteps
  case thread => exact fun t ht hquiet => hlast.isSome_step ht hquiet htotal
  case heard => exact hheard
  case last =>
    exact fun front p back => run.last_heard hcopy hnew hheard hbefore
  case absorbs =>
    intro p hp signal rest binding hthread
    obtain ⟨i, hmover, ht⟩ := Option.bind_eq_some_iff.mp hthread
    obtain ⟨_, hp'⟩ := hbefore p hp
    obtain ⟨rfl, -⟩ := hp'.thread ht
    exact (run.lawful hp).absorbs hmover ht

end Runs

/-! ## A listener that panics -/

/-- A store whose listener panics. -/
def panickingSettings : Settings Nat Nat Unit Unit :=
  { plainSettings with listener := some fun _ _ _ => .raise (.text "no") }

/-- A key is overwritten twice and then read. -/
def overwritingProgram : Script Nat Nat Unit Unit :=
  .call (.put 1 5) fun _ => .call (.put 1 6) fun _ => .call (.put 1 7) fun _ =>
    .call (.get 1) .finish

/-- The listener hears of the first of the two removals only, and the key is read. -/
theorem panic_goesUnheard : ∃ (start m m' : Machine Nat Nat Unit Unit)
    (moves : List (Move Nat Nat Unit Unit)) (trace trace' : List (Passage Nat Nat Unit Unit)),
    start.Fresh panickingSettings ∧
      (start.spawn (.running overwritingProgram)).follow panickingSettings moves =
        some (trace, m) ∧
      (start.spawn (.running overwritingProgram)).follow (panickingSettings.withListener none)
        (unheard moves trace) = some (trace', m') ∧
      GoesUnheard panickingSettings id trace trace' m m' ∧
      trace.flatMap Passage.heard = [(1, 5, .replaced)] ∧
      trace.filterMap (Passage.removal? id) = [(1, 5, .replaced), (1, 6, .replaced)] ∧
      m.threads[0]?.bind Thread.result? = some (.done (.value (some 7))) := by
  let moves : List (Move Nat Nat Unit Unit) := List.replicate 34 (.step 0 .none)
  have hfacts : (Machine.fresh? panickingSettings 1 .deferred).bind (fun start =>
      ((start.spawn (.running overwritingProgram)).follow panickingSettings moves).map fun run =>
        (run.1.all Passage.isDiscreet, decide (run.1.flatMap Passage.heard = [(1, 5, .replaced)]),
          decide (run.1.filterMap (Passage.removal? id) = [(1, 5, .replaced), (1, 6, .replaced)]),
          run.2.threads[0]?.bind Thread.result?)) =
      some (true, true, true, some (.done (.value (some 7)))) := by
    decide +kernel
  obtain ⟨start, hstart, hrun⟩ := Option.bind_eq_some_iff.mp hfacts
  obtain ⟨⟨trace, m⟩, hfollow, hfound⟩ := Option.map_eq_some_iff.mp hrun
  obtain ⟨hdiscreet, hfound⟩ := Prod.mk.inj hfound
  obtain ⟨hheard, hfound⟩ := Prod.mk.inj hfound
  obtain ⟨hremovals, hresult⟩ := Prod.mk.inj hfound
  have hfresh := Machine.fresh_of_fresh? hstart
  have hmoves : ∀ script, .spawn script ∉ moves := by simp [moves]
  obtain ⟨-, trace', m', hfollow', hunheard⟩ := Machine.follow_withoutListener hfresh rfl
    (fun _ => rfl) hmoves hfollow (List.all_eq_true.mp hdiscreet)
  exact ⟨start, m, m', moves, trace, trace', hfresh, hfollow, hfollow', hunheard,
    of_decide_eq_true hheard, of_decide_eq_true hremovals, hresult⟩

end SharedCache
