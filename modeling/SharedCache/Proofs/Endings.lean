import SharedCache.Proofs.Detours
import SharedCache.Proofs.PostponedWork
import SharedCache.Proofs.ReportedSlots

/-!
# Endings

How a computation ends.  Its last section is chosen when its function has ended: it installs a new
holder, vacates the slot, or restores what the slot had.  Whatever became of the slot meanwhile, the
section resolves the fault and lets the call end as the function did; only whether the slot still
has the fault itself decides whether anything else changes.  A slot that has lost the fault never
gets it back, so what was written there in the course of the computation stays.
-/

namespace SharedCache

variable {K V Q R : Type}

/-! ## The last section of a computation -/

/-- The end of a computation: what it leaves in a slot that still has its fault, what the fault is
resolved to, and how its call ends. -/
structure Ending (K V Q R : Type) where
  computation : Computation K V Q R
  left : Option (Holder V)
  resolution : Resolution V
  out : Signal V

/-- The end of a computation that a section is. -/
def Stage.ending? : Stage K V Q R → Option (Ending K V Q R)
  | .install c h value => some ⟨c, some h, .ready h, .done (.value (some value))⟩
  | .vacate c resolution answer => some ⟨c, none, resolution, .done answer⟩
  | .restore c resolution signal => some ⟨c, c.previous, resolution, signal⟩
  | _ => none

/-- How a computation may end by what its function has given.  Nothing of that depends on the
slot. -/
inductive Ending.Concludes (settings : Settings K V Q R) : Ending K V Q R → Signal V → Prop where
  | gives {c : Computation K V Q R} {value copy : V} {h : Holder V} :
      settings.copyIn value = .ok h.value → settings.copyOut h.value = .ok copy →
      Concludes settings ⟨c, some h, .ready h, .done (.value (some copy))⟩
        (.done (.value (some value)))
  | nothing {c : Computation K V Q R} {answer : Answer V} :
      (∀ text, answer ≠ .complaint text) → answer.value? = none →
      Concludes settings ⟨c, none, .absent, .done (.value none)⟩ (.done answer)
  | fails {c : Computation K V Q R} {text : String} :
      c.previous = none →
      Concludes settings ⟨c, none, .failed ⟨c.fault, text⟩,
        .done (.failed (.computation ⟨c.fault, text⟩))⟩ (.done (.complaint text))
  | restores {c : Computation K V Q R} {text : String} :
      c.previous ≠ none →
      Concludes settings ⟨c, c.previous, .restored,
        .done (.failed (.computation ⟨c.fault, text⟩))⟩ (.done (.complaint text))
  | panics {c : Computation K V Q R} {p : Panic} :
      Concludes settings ⟨c, c.previous, .retry, .raised p⟩ (.raised p)
  /-- A collaborator panics before the value has a holder. -/
  | crashes {c : Computation K V Q R} {value : V} {p : Panic} :
      ¬ settings.Steady →
      Concludes settings ⟨c, c.previous, .retry, .raised p⟩ (.done (.value (some value)))

theorem Stage.ongoing_of_ending {stage : Stage K V Q R} {e : Ending K V Q R}
    (hends : stage.ending? = some e) :
    stage.ongoing = [.computes e.computation (.leaving e.left e.resolution e.out)] := by
  cases stage with
  | install | vacate | restore =>
    obtain rfl := Option.some.inj hends
    rfl
  | _ => cases hends

/-- The end of the function settles how the computation ends, unless it gave a value. -/
theorem Store.concludes_of_mapped (settings : Settings K V Q R) {s : Store K V}
    {c : Computation K V Q R} {signal : Signal V} {stage : Stage K V Q R} {e : Ending K V Q R}
    (hnext : (s.mapped c signal).next = .keep stage) (hends : stage.ending? = some e) :
    e.computation = c ∧ e.Concludes settings signal := by
  cases signal with
  | raised p =>
    obtain rfl := Activity.keep.inj hnext
    obtain rfl := Option.some.inj hends
    exact ⟨rfl, .panics⟩
  | done answer =>
    have hnothing : (∀ text, answer ≠ .complaint text) → answer.value? = none →
        stage = .vacate c .absent (.value none) → e.computation = c ∧
          e.Concludes settings (.done answer) := by
      rintro hcomplaint hnone rfl
      obtain rfl := Option.some.inj hends
      exact ⟨rfl, .nothing hcomplaint hnone⟩
    cases answer with
    | complaint text =>
      obtain ⟨key, fault, previous, isRequest, code⟩ := c
      cases previous with
      | none =>
        obtain rfl := Activity.keep.inj hnext
        obtain rfl := Option.some.inj hends
        exact ⟨rfl, .fails rfl⟩
      | some h =>
        obtain rfl := Activity.keep.inj hnext
        obtain rfl := Option.some.inj hends
        exact ⟨rfl, .restores (by simp)⟩
    | value v =>
      cases v with
      | none => exact hnothing (by simp) rfl (Activity.keep.inj hnext).symm
      | some value =>
        obtain rfl := Activity.keep.inj hnext
        cases hends
    | _ => exact hnothing (by simp) rfl (Activity.keep.inj hnext).symm

/-- Only a value is made a holder of. -/
theorem Store.given_of_mapped {s : Store K V} {c c' : Computation K V Q R} {signal : Signal V}
    {value : V} (hnext : (s.mapped c signal).next = .keep (.compose c' value)) :
    c' = c ∧ signal = .done (.value (some value)) := by
  cases signal with
  | raised p => cases hnext
  | done answer =>
    cases answer with
    | complaint text =>
      obtain ⟨key, fault, previous, isRequest, code⟩ := c
      cases previous <;> cases hnext
    | value v =>
      cases v with
      | none => cases hnext
      | some given =>
        obtain ⟨rfl, rfl⟩ := Stage.compose.inj (Activity.keep.inj hnext)
        exact ⟨rfl, rfl⟩
    | _ => cases hnext

/-- When its function has ended, a computation has no holder yet. -/
theorem Store.not_ready_of_mapped (settings : Settings K V Q R) {s : Store K V}
    {c : Computation K V Q R} {signal : Signal V} {stage : Stage K V Q R} {e : Ending K V Q R}
    (hnext : (s.mapped c signal).next = .keep stage) (hends : stage.ending? = some e)
    (h : Holder V) : e.resolution ≠ .ready h := by
  obtain ⟨-, hconcludes⟩ := concludes_of_mapped settings hnext hends
  cases hconcludes with
  | gives =>
    obtain rfl := Activity.keep.inj hnext
    cases hends
  | _ => simp

/-! ## How a computation comes to its last section -/

section Course

variable [DecidableEq K] [DecidableEq V] {settings : Settings K V Q R} {s : Store K V}
  {w : World K V Q R} {t : Thread K V Q R} {step : Step K V Q R} {stage next : Stage K V Q R}
  {turn : StoreTurn K V Q R} {c : Computation K V Q R} {progress : Progress V}

/-- Where a section goes on with a computation that has begun before, it is about to call the
function or has a value for a holder. -/
theorem Stage.Deed.computes (hdeed : stage.Deed settings s turn) (hnext : turn.next = .keep next)
    (hongoing : next.ongoing = [.computes c progress]) (hprogress : progress ≠ .begun) :
    turn.frames = [] ∧
      ((∃ p, (stage = .own c ∨ ∃ value, stage = .compose c value) ∧ ¬ settings.Steady ∧
          next = .restore c .retry (.raised p)) ∨
        ∃ value copy h, stage = .compose c value ∧ settings.copyIn value = .ok h.value ∧
          settings.copyOut h.value = .ok copy ∧ next = .install c h copy) := by
  have hmem : Ongoing.computes c progress ∈ turn.ongoing := by
    rw [Turn.ongoing, hnext]
    exact List.mem_append_left _ (by simp [hongoing])
  have hnever : turn.ongoing = [] → False := fun hnone => by
    rw [hnone] at hmem
    cases hmem
  have hother : ∀ {other : Stage K V Q R}, turn.next = .keep other →
      (∀ o ∈ other.ongoing, o ≠ .computes c progress) → False := fun hkeep hapart => by
    obtain rfl := Activity.keep.inj (hnext.symm.trans hkeep)
    exact hapart _ (hongoing ▸ List.mem_cons_self) rfl
  cases hdeed with
  | visits hvisit =>
    cases hvisit with
    | keeps _ _ hstill => exact (hnever hstill.ongoing).elim
    | waits _ _ _ hkeep => exact (hother hkeep (by simp [Stage.ongoing])).elim
    | writes _ _ _ _ _ _ _ hnone => exact (hnever hnone).elim
    | removes _ _ _ _ hnone => exact (hnever hnone).elim
    | begins _ _ _ _ _ _ _ hone =>
      rw [hone] at hmem
      obtain ⟨-, rfl⟩ := Ongoing.computes.inj (List.mem_singleton.mp hmem)
      exact absurd rfl hprogress
  | keeps _ hstill => exact (hnever hstill.ongoing).elim
  | looks hkeep => exact (hother hkeep (by simp [Stage.ongoing])).elim
  | resumes _ _ hkeep => exact (hother hkeep (by simp [Stage.ongoing])).elim
  | shares _ _ hstill => exact (hnever hstill.ongoing).elim
  | givesUp _ _ hstill => exact (hnever hstill.ongoing).elim
  | expels _ _ _ _ hnone => exact (hnever hnone).elim
  | sweeps _ _ hnone => exact (hnever hnone).elim
  | calls _ hcode => cases hnext.symm.trans hcode
  | @unwinds _ c' p _ hcause hpanic hkeep hframes =>
    obtain rfl := Activity.keep.inj (hnext.symm.trans hkeep)
    obtain ⟨rfl, -⟩ := Ongoing.computes.inj (List.singleton_inj.mp hongoing)
    exact ⟨hframes, .inl ⟨p, hcause.imp_left And.left, hpanic.not_steady, rfl⟩⟩
  | @composes c' value copy h _ hin _ hout hkeep hframes =>
    obtain rfl := Activity.keep.inj (hnext.symm.trans hkeep)
    obtain ⟨rfl, -⟩ := Ongoing.computes.inj (List.singleton_inj.mp hongoing)
    exact ⟨hframes, .inr ⟨value, copy, h, rfl, hin, hout, rfl⟩⟩
  | ends _ _ _ hnone => exact (hnever hnone).elim

/-- A thread goes on with a computation that has begun before in two ways only: its function has
ended, or another section of it has. -/
theorem Thread.Stride.computes (hstride : t.Stride settings w step) (hflat : t.activity.IsFlat)
    (hbegun : ∀ o ∈ stackDeferred t.stack, ∃ c, o = .computes c .begun)
    (hnext : step.thread.activity = .keep next)
    (hongoing : next.ongoing = [.computes c progress]) (hprogress : progress ≠ .begun) :
    (∃ signal, t.activity = .settle signal ∧ t.stack = .computing c :: step.thread.stack ∧
        (w.store.mapped c signal).next = .keep next) ∨
      ∃ stage turn, t.activity = .keep stage ∧ step = .ofStore w t turn ∧
        stage.Deed settings w.store turn ∧ turn.next = .keep next := by
  cases hstride with
  | works _ _ _ _ ha => exact absurd hnext (ha.ne_keep _)
  | calls =>
    obtain rfl := Activity.keep.inj hnext
    cases hongoing
  | enters hactivity =>
    rw [hactivity] at hflat
    exact absurd hnext (Activity.IsPlain.ne_keep hflat _)
  | returns _ _ _ _ _ ha => exact absurd hnext (ha.ne_keep _)
  | @proceeds answer a rest _ hstack =>
    obtain rfl : a = .keep next := hnext
    obtain ⟨c', hc'⟩ := hbegun (.computes c progress) (by
      rw [hstack, stackDeferred_cons]
      exact List.mem_append_left _ (by simp [Frame.deferred, hongoing]))
    exact absurd (Ongoing.computes.inj hc').2 hprogress
  | unwinds => cases hnext
  | @mapped signal c' rest hactivity hstack =>
    obtain ⟨-, hframes, stage, hstage, hstaged⟩ := w.store.mapped_spec c' signal
    obtain rfl := Activity.keep.inj (hstage.symm.trans hnext)
    rw [hstaged] at hongoing
    obtain ⟨rfl, -⟩ := Ongoing.computes.inj (List.singleton_inj.mp hongoing)
    refine .inl ⟨signal, hactivity, ?_, hstage⟩
    simp [Step.ofStore, Thread.goOn, Thread.popped, hframes, hstack]
  | @listened signal => cases signal <;> cases hnext
  | keeps hactivity hturn => exact .inr ⟨_, _, hactivity, rfl, Stage.deed hturn, hnext⟩

end Course

/-- In the course of the trace the function of the computation has ended like this on the thread,
above these frames. -/
def Computation.Returned (c : Computation K V Q R) (i : Nat) (base : List (Frame K V Q R))
    (signal : Signal V) (trace : List (Passage K V Q R)) : Prop :=
  ∃ q ∈ trace, q.mover = some i ∧ ∃ t, q.before.threads[i]? = some t ∧
    t.activity = .settle signal ∧ t.stack = .computing c :: base

/-- The function of the computation was not called, because a collaborator panicked before. -/
structure Ending.IsUncalled (settings : Settings K V Q R) (e : Ending K V Q R) (i : Nat)
    (trace : List (Passage K V Q R)) : Prop where
  crashes : ¬ settings.Steady
  own : ∃ q ∈ trace, q.mover = some i ∧ q.stage? = some (.own e.computation)
  ending : ∃ p, e = ⟨e.computation, e.computation.previous, .retry, .raised p⟩

section Runs

variable [DecidableEq K] [DecidableEq V] {settings : Settings K V Q R} {start m : Machine K V Q R}
  {trace : List (Passage K V Q R)} {i : Nat} {t : Thread K V Q R}

theorem Machine.Reachable.begun (hm : m.Reachable settings) (ht : m.threads[i]? = some t) :
    ∀ o ∈ stackDeferred t.stack, ∃ c, o = .computes c .begun := by
  intro o ho
  apply hm.deferred
  exact List.mem_flatMap.mpr ⟨t, by simpa using Array.mem_of_getElem? ht, ho⟩

/-- The last step of a thread that goes on with a computation which has begun before. -/
theorem Run.computes (hstart : start.Fresh settings) (run : Run settings start trace m)
    (ht : m.threads[i]? = some t) {next : Stage K V Q R} (hnext : t.activity = .keep next)
    {c : Computation K V Q R} {progress : Progress V}
    (hongoing : next.ongoing = [.computes c progress]) (hprogress : progress ≠ .begun) :
    ∃ front q back t', IsLastStep trace i front q back ∧ q.before.threads[i]? = some t' ∧
      ((∃ signal, t'.activity = .settle signal ∧ t'.stack = .computing c :: t.stack ∧
          (q.before.world.store.mapped c signal).next = .keep next) ∨
        ∃ stage, t'.activity = .keep stage ∧ t'.stack = t.stack ∧
          ((∃ p, (stage = .own c ∨ ∃ value, stage = .compose c value) ∧ ¬ settings.Steady ∧
              next = .restore c .retry (.raised p)) ∨
            ∃ value copy h, stage = .compose c value ∧ settings.copyIn value = .ok h.value ∧
              settings.copyOut h.value = .ok copy ∧ next = .install c h copy)) := by
  rcases run.last_step hstart ht with ⟨script, rfl⟩ | ⟨front, q, back, hlast, hafter⟩
  · cases hnext
  obtain ⟨hfront, hq, -⟩ := run.split hlast.trace
  have hreachable := hfront.reachable hstart
  rcases hq.thread_cases hafter with ⟨hother, -⟩ | ⟨script, rfl⟩ | ⟨-, t', s, ht', hstride, -, rfl⟩
  · exact absurd hlast.mover hother
  · cases hnext
  refine ⟨front, q, back, t', hlast, ht', ?_⟩
  rcases hstride.computes (hreachable.isParted ht').flat (hreachable.begun ht') hnext hongoing
      hprogress with hreturned | ⟨stage, turn, hactivity, rfl, hdeed, hkeep⟩
  · exact .inl hreturned
  · obtain ⟨hframes, hstage⟩ := hdeed.computes hkeep hongoing hprogress
    exact .inr ⟨stage, hactivity, by simp [Step.ofStore, Thread.goOn, hframes], hstage⟩

/-- A value becomes a holder after the function has given it. -/
theorem Run.returned_of_compose (hstart : start.Fresh settings) (run : Run settings start trace m)
    (ht : m.threads[i]? = some t) {c : Computation K V Q R} {value : V}
    (hactivity : t.activity = .keep (.compose c value)) :
    c.Returned i t.stack (.done (.value (some value))) trace := by
  obtain ⟨front, q, back, t', hlast, ht', hstep⟩ :=
    run.computes hstart ht hactivity rfl (by simp)
  rcases hstep with ⟨signal, hsettled, hstack, hmapped⟩ | ⟨stage, -, -, hstage⟩
  · obtain ⟨-, rfl⟩ := Store.given_of_mapped hmapped
    exact ⟨q, by simp [hlast.trace], hlast.mover, t', ht', hsettled, hstack⟩
  · rcases hstage with ⟨p, -, -, hrestore⟩ | ⟨_, _, _, -, -, -, hinstall⟩
    · cases hrestore
    · cases hinstall

/-- A computation ends as its function has, or because the function could not be called. -/
theorem Run.concluded (hstart : start.Fresh settings) (run : Run settings start trace m)
    (ht : m.threads[i]? = some t) {stage : Stage K V Q R} {e : Ending K V Q R}
    (hactivity : t.activity = .keep stage) (hends : stage.ending? = some e) :
    (∃ signal, e.computation.Returned i t.stack signal trace ∧ e.Concludes settings signal) ∨
      e.IsUncalled settings i trace := by
  obtain ⟨front, q, back, t', hlast, ht', hstep⟩ :=
    run.computes hstart ht hactivity (Stage.ongoing_of_ending hends) (by simp)
  have hq : q ∈ trace := by simp [hlast.trace]
  have hcomposed : ∀ {c value}, t'.activity = .keep (.compose c value) → t'.stack = t.stack →
      c.Returned i t.stack (.done (.value (some value))) trace := by
    intro c value hcompose hstack
    obtain ⟨hfront, -, -⟩ := run.split hlast.trace
    obtain ⟨q', hq', hreturned⟩ := hfront.returned_of_compose hstart ht' hcompose
    rw [hstack] at hreturned
    exact ⟨q', by simp [hlast.trace, hq'], hreturned⟩
  rcases hstep with ⟨signal, hsettled, hstack, hmapped⟩ | ⟨stage', hstage', hstack, hcause⟩
  · obtain ⟨-, hconcludes⟩ := Store.concludes_of_mapped settings hmapped hends
    exact .inl ⟨signal, ⟨q, hq, hlast.mover, t', ht', hsettled, hstack⟩, hconcludes⟩
  · rcases hcause with ⟨p, hcause, hpanic, rfl⟩ | ⟨value, copy, h, rfl, hin, hout, rfl⟩
    · have he := (Option.some.inj hends).symm
      rcases hcause with rfl | ⟨value, rfl⟩
      · exact .inr ⟨hpanic, ⟨q, hq, hlast.mover, Passage.stage?_of_keep hlast.mover ht' hstage'⟩,
          p, he⟩
      · refine .inl ⟨_, hcomposed hstage' hstack, ?_⟩
        rw [he]
        exact .crashes hpanic
    · have he := (Option.some.inj hends).symm
      refine .inl ⟨_, hcomposed hstage' hstack, ?_⟩
      rw [he]
      exact .gives hin hout

/-- A computation that ends with a holder installs it. -/
theorem Run.installs (hstart : start.Fresh settings) (run : Run settings start trace m)
    (ht : m.threads[i]? = some t) {stage : Stage K V Q R} {e : Ending K V Q R}
    (hactivity : t.activity = .keep stage) (hends : stage.ending? = some e) {h : Holder V}
    (hready : e.resolution = .ready h) : ∃ c value, stage = .install c h value := by
  obtain ⟨_, _, _, _, -, -, hstep⟩ :=
    run.computes hstart ht hactivity (Stage.ongoing_of_ending hends) (by simp)
  rcases hstep with ⟨signal, -, -, hmapped⟩ | ⟨_, -, -, hcause⟩
  · exact absurd hready (Store.not_ready_of_mapped settings hmapped hends h)
  · rcases hcause with ⟨_, -, -, rfl⟩ | ⟨_, copy, h', -, -, -, rfl⟩
    · have hretry := congrArg Ending.resolution (Option.some.inj hends)
      cases hretry.trans hready
    · have hinstalled := congrArg Ending.resolution (Option.some.inj hends)
      obtain rfl := Resolution.ready.inj (hinstalled.trans hready)
      exact ⟨_, copy, rfl⟩

end Runs

/-! ## From the last section to the end of the call -/

/-- What may be put off between a report and the end of a call. -/
def EnforcesLater (later : List (Frame K V Q R)) : Prop :=
  later = [] ∨ later = [.next (.keep (.enforce 0))]

/-- What a call may have on its thread after the fault is resolved: its activity, and the frames
above the script that has called it.  It ends like this, unless a collaborator panics. -/
inductive Concluding (settings : Settings K V Q R) (out : Signal V) :
    Activity K V Q R → List (Frame K V Q R) → Prop where
  | settles : Concluding settings out (.settle out) []
  | panics {p : Panic} : settings.Interferes p → Concluding settings out (.settle (.raised p)) []
  | enforces {stage : Stage K V Q R} :
      stage.IsEnforcing → Concluding settings out (.keep stage) [.next (.settle out)]
  | reports {key : K} {h : Holder V} {cause : RemovalCause} {later : List (Frame K V Q R)} :
      EnforcesLater later →
      Concluding settings out (.keep (.report key h cause)) (later ++ [.next (.settle out)])
  | reported {signal : Signal V} {later : List (Frame K V Q R)} :
      EnforcesLater later → (∀ p, signal = .raised p → settings.Interferes p) →
      Concluding settings out (.settle signal) (later ++ [.next (.settle out)])
  | listens {a : Activity K V Q R} {inside later : List (Frame K V Q R)} :
      EnforcesLater later →
      Concluding settings out a (inside ++ .listening :: (later ++ [.next (.settle out)]))

/-- The call has ended like this, or with the panic of a collaborator. -/
def Signal.IsConclusion (signal : Signal V) (settings : Settings K V Q R) (out : Signal V) : Prop :=
  signal = out ∨ ∃ p, settings.Interferes p ∧ signal = .raised p

section Concluding

variable [DecidableEq K] [DecidableEq V] {settings : Settings K V Q R} {s : Store K V}
  {w : World K V Q R} {t : Thread K V Q R} {step : Step K V Q R} {chance : Chance K R}
  {out : Signal V} {above base : List (Frame K V Q R)}

omit [DecidableEq K] [DecidableEq V] in
theorem enforcesLater_iff {later : List (Frame K V Q R)} :
    EnforcesLater later ↔ EnforcesNext True later := by
  rw [EnforcesLater, EnforcesNext, true_and]

omit [DecidableEq K] [DecidableEq V] in
/-- An errand leads to the end of the call that is put off. -/
theorem Errand.concluding {a : Activity K V Q R} (ha : Errand settings True a above) :
    Concluding settings out a (above ++ [.next (.settle out)]) := by
  cases ha with
  | enforces _ hstage => exact .enforces hstage
  | reports hlater => exact .reports (enforcesLater_iff.mpr hlater)
  | settles hlater hpanic =>
    exact .reported (enforcesLater_iff.mpr hlater) fun p hp => (hpanic p hp).imp_left And.right
  | listens hlater =>
    rw [List.append_assoc]
    exact .listens (enforcesLater_iff.mpr hlater)

omit [DecidableEq K] [DecidableEq V] in
/-- Whatever lies before the end of a call is an errand. -/
theorem Concluding.cases {a : Activity K V Q R} (ha : Concluding settings out a above) :
    above = [] ∧ (∃ signal, a = .settle signal ∧ signal.IsConclusion settings out) ∨
      ∃ errand, above = errand ++ [.next (.settle out)] ∧ Errand settings True a errand := by
  cases ha with
  | settles => exact .inl ⟨rfl, out, rfl, .inl rfl⟩
  | @panics p hinterferes => exact .inl ⟨rfl, _, rfl, .inr ⟨p, hinterferes, rfl⟩⟩
  | enforces hstage => exact .inr ⟨[], rfl, .enforces trivial hstage⟩
  | reports hlater => exact .inr ⟨_, rfl, .reports (enforcesLater_iff.mp hlater)⟩
  | reported hlater hpanic =>
    exact .inr ⟨_, rfl, .settles (enforcesLater_iff.mp hlater) fun p hp =>
      (hpanic p hp).imp_left (And.intro trivial)⟩
  | listens hlater =>
    exact .inr ⟨_, by rw [List.append_assoc]; rfl, .listens (enforcesLater_iff.mp hlater)⟩

/-- A call goes on to its end. -/
theorem Concluding.step_cases (ht : Concluding settings out t.activity above)
    (hstack : t.stack = above ++ base) (hstep : t.step settings chance w = some step) :
    above = [] ∧ (∃ signal, t.activity = .settle signal ∧ signal.IsConclusion settings out) ∨
      ∃ above', step.thread.stack = above' ++ base ∧
        Concluding settings out step.thread.activity above' := by
  rcases ht.cases with hover | ⟨errand, rfl, herrand⟩
  · exact .inl hover
  rw [List.append_assoc, List.singleton_append] at hstack
  right
  rcases herrand.step_cases hstack hstep with ⟨rfl, signal, hactivity, hpanic⟩ |
    ⟨errand', hstack', herrand'⟩
  · obtain rfl := Thread.next_of_step hactivity hstack hstep
    refine ⟨[], rfl, ?_⟩
    cases signal with
    | done answer => exact .settles
    | raised p => exact .panics ((hpanic p rfl).imp_left And.right)
  · exact ⟨errand' ++ [.next (.settle out)], by simp [hstack'], herrand'.concluding⟩

/-- Nothing keeps the thread from moving on to the end of the call, but the code of a listener. -/
theorem Concluding.isSome_step (ht : Concluding settings out t.activity above)
    (hstack : t.stack = above ++ base) (habove : above ≠ []) (hlistening : .listening ∉ above)
    (chance : Chance K R) : (t.step settings chance w).isSome := by
  obtain ⟨activity, stack, binding⟩ := t
  obtain rfl : stack = above ++ base := hstack
  cases ht with
  | settles => exact absurd rfl habove
  | panics => exact absurd rfl habove
  | @enforces stage hstage =>
    refine Thread.isSome_step_of_keep rfl ?_ chance
    rintro operation retries fault rfl
    exact hstage
  | reports => exact Thread.isSome_step_of_keep rfl (by simp) chance
  | @reported signal later hlater =>
    rcases hlater with rfl | rfl
    · exact Thread.isSome_step_of_settle rfl rfl chance
    · exact Thread.isSome_step_of_settle rfl rfl chance
  | listens => exact absurd (by simp) hlistening

/-! ## What the last section does -/

variable {stage : Stage K V Q R} {e : Ending K V Q R} {now : Instant} {interrupted : Bool}
  {draws : List K}

/-- Where the slot has lost the fault, the section resolves the fault and ends the call. -/
theorem Stage.turn_of_overtaken (hends : stage.ending? = some e)
    (hlost : s.pendingIn e.computation.key e.computation.fault = false) :
    stage.turn settings s now interrupted draws =
      some (.goTo (s.resolve e.computation.fault e.resolution) (.settle e.out)) := by
  cases stage with
  | install c h value =>
    obtain rfl := Option.some.inj hends
    simp only [Stage.turn, Store.install, hlost]
    rfl
  | vacate c resolution answer =>
    obtain rfl := Option.some.inj hends
    simp only [Stage.turn, Store.vacate, hlost]
    rfl
  | restore c resolution signal =>
    obtain rfl := Option.some.inj hends
    simp only [Stage.turn, Store.restore, hlost]
    rfl
  | _ => cases hends

/-- Where the slot has the fault, it is left as the computation demands, and the call goes on to its
end. -/
theorem Stage.turn_of_held (hends : stage.ending? = some e)
    (hheld : s.pendingIn e.computation.key e.computation.fault = true) :
    ∃ turn, stage.turn settings s now interrupted draws = some turn ∧ turn.events = [] ∧
      turn.state.map = s.map.leave e.computation.key e.left ∧
      turn.state.faults = (s.resolve e.computation.fault e.resolution).faults ∧
      Concluding settings e.out turn.next turn.frames := by
  cases stage with
  | install c h value =>
    obtain rfl := Option.some.inj hends
    have hfaults := Store.faults_resolve_congr s (s.fill c.key h) rfl c.fault (.ready h)
    refine ⟨_, rfl, ?_⟩
    simp only [Store.install, hheld, if_true]
    cases c.previous with
    | none => exact ⟨rfl, Store.map_resolve _ _, hfaults, .enforces trivial⟩
    | some previous => exact ⟨rfl, Store.map_resolve _ _, hfaults, .reports (.inr rfl)⟩
  | vacate c resolution answer =>
    obtain rfl := Option.some.inj hends
    have hfaults := Store.faults_resolve_congr s (s.erase c.key) rfl c.fault resolution
    refine ⟨_, rfl, ?_⟩
    simp only [Store.vacate, hheld, if_true]
    cases c.previous with
    | none => exact ⟨rfl, Store.map_resolve _ _, hfaults, .settles⟩
    | some previous => exact ⟨rfl, Store.map_resolve _ _, hfaults, .reports (.inl rfl)⟩
  | restore c resolution signal =>
    obtain rfl := Option.some.inj hends
    refine ⟨_, rfl, rfl, ?_, ?_, .settles⟩
    · simp only [Store.restore, hheld, if_true, Turn.state_goTo, Store.map_resolve]
      cases c.previous <;> rfl
    · simp only [Store.restore, hheld, if_true, Turn.state_goTo]
      cases c.previous with
      | none => exact Store.faults_resolve_congr s (s.erase c.key) rfl _ _
      | some previous => exact Store.faults_resolve_congr s (s.fill c.key previous) rfl _ _
  | _ => cases hends

/-- Whatever is in the slot, the section resolves the fault in the same way and lets the call go on
to the same end. -/
theorem Stage.turn_of_ending (hends : stage.ending? = some e)
    (hpending : s.faults[e.computation.fault]? = some none) :
    ∃ turn, stage.turn settings s now interrupted draws = some turn ∧ turn.events = [] ∧
      turn.state.resolution? e.computation.fault = some e.resolution ∧
      Concluding settings e.out turn.next turn.frames := by
  cases hslot : s.pendingIn e.computation.key e.computation.fault with
  | true =>
    obtain ⟨turn, hturn, hevents, -, hfaults, hconcluding⟩ := turn_of_held hends hslot
    exact ⟨turn, hturn, hevents, Store.resolution?_resolve hpending hfaults, hconcluding⟩
  | false =>
    exact ⟨_, turn_of_overtaken hends hslot, rfl, Store.resolution?_resolve hpending rfl, .settles⟩

end Concluding

/-! ## Endings in a run -/

/-- The passage is the last section of a computation on this thread. -/
structure Passage.IsEnding (p : Passage K V Q R) (i : Nat) (t : Thread K V Q R)
    (stage : Stage K V Q R) (e : Ending K V Q R) : Prop where
  mover : p.mover = some i
  thread : p.before.threads[i]? = some t
  activity : t.activity = .keep stage
  ending : stage.ending? = some e

variable [DecidableEq K] [DecidableEq V]

/-- What the last section of a computation does to the slots and to its fault. -/
structure Passage.Closes (settings : Settings K V Q R) (p : Passage K V Q R) (i : Nat)
    (t : Thread K V Q R) (stage : Stage K V Q R) (e : Ending K V Q R) : Prop where
  /-- The slot changes just when it has the very fault of the computation. -/
  changes_iff : p.after.slot? e.computation.key ≠ p.before.slot? e.computation.key ↔
    p.before.slot? e.computation.key = some (.fault e.computation.fault)
  left : p.before.slot? e.computation.key = some (.fault e.computation.fault) →
    p.after.slot? e.computation.key = e.left.map .holder
  others : ∀ key, key ≠ e.computation.key → p.after.slot? key = p.before.slot? key
  /-- Otherwise nothing changes but the fault, and the call is over: nothing is reported and no
  capacity enforced. -/
  overtaken : p.before.slot? e.computation.key ≠ some (.fault e.computation.fault) →
    p.after.world.store = p.before.world.store.resolve e.computation.fault e.resolution ∧
      p.after.threads[i]? = some ⟨.settle e.out, t.stack, t.binding⟩
  silent : p.events = []
  resolves : p.before.world.store.resolution? e.computation.fault = none ∧
    p.after.world.store.resolution? e.computation.fault = some e.resolution
  goesOn : ∃ a above, p.after.threads[i]? = some ⟨a, above ++ t.stack, t.binding⟩ ∧
    Concluding settings e.out a above
  /-- In any other store where the fault is pending, whatever is in the slot, the section would
  resolve it in the same way and let the call go on to the same end. -/
  alike : ∀ (s : Store K V) (now : Instant) (interrupted : Bool) (draws : List K),
    s.faults[e.computation.fault]? = some none → ∃ turn,
      stage.turn settings s now interrupted draws = some turn ∧
        turn.state.resolution? e.computation.fault = some e.resolution ∧
        Concluding settings e.out turn.next turn.frames

section Endings

variable {settings : Settings K V Q R} {start m : Machine K V Q R}
  {trace : List (Passage K V Q R)} {p : Passage K V Q R} {i : Nat} {t : Thread K V Q R}
  {stage : Stage K V Q R} {e : Ending K V Q R}

omit [DecidableEq K] [DecidableEq V] in
theorem Passage.IsEnding.mem_faults (hends : p.IsEnding i t stage e) :
    e.computation.fault ∈ faultsOf t.ongoing := by
  simp [Thread.ongoing, hends.activity, Stage.ongoing_of_ending hends.ending]

theorem Passage.Lawful.closes (hp : p.Lawful settings) (hm : p.before.Reachable settings)
    (hends : p.IsEnding i t stage e) : p.Closes settings i t stage e := by
  have hpending := hm.pending hends.thread hends.mem_faults
  have hvalid := hm.accounted.map.valid
  obtain ⟨draws, turn, hturn, hstore, hthread, hevents⟩ :=
    hp.own_turn hends.mover hends.thread hends.activity
  obtain ⟨turn', hturn', hsilent, hresolution, hconcluding⟩ :=
    Stage.turn_of_ending hends.ending hpending
  obtain rfl := Option.some.inj (hturn'.symm.trans hturn)
  have hslot : ∀ key, p.after.slot? key = turn'.state.map.get? key := fun key => by
    rw [Machine.slot?, hstore]
  -- What the section does where it finds the fault, and where it does not.
  have hheld : p.before.slot? e.computation.key = some (.fault e.computation.fault) →
      turn'.state.map = p.before.world.store.map.leave e.computation.key e.left := by
    intro hfault
    obtain ⟨held, hheld, -, hmap, -⟩ :=
      Stage.turn_of_held hends.ending (Store.pendingIn_iff.mpr hfault)
    rw [← Option.some.inj (hheld.symm.trans hturn), hmap]
  have hlost : p.before.slot? e.computation.key ≠ some (.fault e.computation.fault) →
      turn' = .goTo (p.before.world.store.resolve e.computation.fault e.resolution)
        (.settle e.out) := by
    intro hnot
    have hpendingIn := Bool.eq_false_iff.mpr fun hyes => hnot (Store.pendingIn_iff.mp hyes)
    exact Option.some.inj (hturn.symm.trans (Stage.turn_of_overtaken hends.ending hpendingIn))
  have hsame : p.before.slot? e.computation.key ≠ some (.fault e.computation.fault) →
      ∀ key, p.after.slot? key = p.before.slot? key := fun hnot key => by
    rw [hslot, hlost hnot, Turn.state_goTo, Store.map_resolve, Machine.slot?]
  have hleft : p.before.slot? e.computation.key = some (.fault e.computation.fault) → ∀ key,
      p.after.slot? key =
        if key = e.computation.key then e.left.map .holder else p.before.slot? key :=
    fun hfault key => by
    rw [hslot, hheld hfault, hvalid.get?_leave, Machine.slot?]
  constructor
  case changes_iff =>
    constructor
    · intro hchanged
      by_contra hnot
      exact hchanged (hsame hnot _)
    · intro hfault hunchanged
      rw [hleft hfault, if_pos rfl, hfault] at hunchanged
      cases hcase : e.left <;> simp [hcase] at hunchanged
  case left =>
    intro hfault
    rw [hleft hfault, if_pos rfl]
  case others =>
    intro key hkey
    by_cases hfault : p.before.slot? e.computation.key = some (.fault e.computation.fault)
    · rw [hleft hfault, if_neg hkey]
    · exact hsame hfault key
  case overtaken =>
    intro hnot
    rw [hlost hnot] at hstore hthread
    exact ⟨hstore, hthread⟩
  case silent => rw [hevents, hsilent]
  case resolves =>
    refine ⟨?_, by rw [hstore, hresolution]⟩
    rw [Store.resolution?, hpending]
    rfl
  case goesOn => exact ⟨_, _, hthread, hconcluding⟩
  case alike =>
    intro s now interrupted draws hs
    obtain ⟨other, hother, -, hresolved, hgoesOn⟩ := Stage.turn_of_ending hends.ending hs
    exact ⟨other, hother, hresolved, hgoesOn⟩

/-- A call whose fault is resolved goes on to its end, whatever the others do meanwhile. -/
theorem Run.concludes (run : Run settings start trace m) {out : Signal V}
    {base above : List (Frame K V Q R)} (ht : start.threads[i]? = some t)
    (hstack : t.stack = above ++ base) (hconcluding : Concluding settings out t.activity above) :
    (∃ q ∈ trace, q.mover = some i ∧ ∃ t' signal, q.before.threads[i]? = some t' ∧
        t'.activity = .settle signal ∧ t'.stack = base ∧ signal.IsConclusion settings out) ∨
      ∃ t' above', m.threads[i]? = some t' ∧ t'.stack = above' ++ base ∧
        Concluding settings out t'.activity above' := by
  induction run with
  | rest => exact .inr ⟨t, above, ht, hstack, hconcluding⟩
  | @move trace p _ hp ih =>
    rcases ih with ⟨q, hq, hover⟩ | ⟨t', above', ht', hstack', hconcluding'⟩
    · exact .inl ⟨q, List.mem_append_left _ hq, hover⟩
    · by_cases hmover : p.mover = some i
      · obtain ⟨chance, step, hstep, -, hthread, -⟩ := hp.own_step hmover ht'
        rcases hconcluding'.step_cases hstack' hstep with
          ⟨rfl, signal, hactivity, hsignal⟩ | ⟨above'', hstack'', hconcluding''⟩
        · exact .inl ⟨p, by simp, hmover, t', signal, ht', hactivity, hstack', hsignal⟩
        · exact .inr ⟨_, above'', hthread, hstack'', hconcluding''⟩
      · exact .inr ⟨t', above', hp.thread_eq hmover ht', hstack', hconcluding'⟩

end Endings

/-! ## A function that writes its own key -/

end SharedCache
