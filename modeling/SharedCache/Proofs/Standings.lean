import SharedCache.Proofs.Accounting
import SharedCache.Proofs.Acts
import SharedCache.Proofs.Owners

/-!
# Standings

Where the call of an owner stands at the end of a run: whether its function has been called, runs or
has ended, and how the fault has been resolved.  A trace tells all of that, and it tells that the
function is called once only, by the call itself.  `Owner.At` ties both to the thread of the owner,
and `Run.exists_at` says that every run leaves the call somewhere.
-/

namespace SharedCache

variable {K V Q R : Type}

/-! ## Calls in a trace -/

/-- The passage calls the function of the computation with this fault. -/
def Passage.calls (fault : Nat) (p : Passage K V Q R) : Bool :=
  (mappings p.events).any fun call => call.2.1 == fault

/-- The calls of the function of the computation with this fault. -/
def callsOf (fault : Nat) (trace : List (Passage K V Q R)) : List (Passage K V Q R) :=
  trace.filter (Passage.calls fault)

theorem callsOf_append_quiet {fault : Nat} (trace : List (Passage K V Q R)) {p : Passage K V Q R}
    (hquiet : p.calls fault = false) : callsOf fault (trace ++ [p]) = callsOf fault trace := by
  simp [callsOf, hquiet]

theorem callsOf_append_call {fault : Nat} (trace : List (Passage K V Q R)) {p : Passage K V Q R}
    (hcalls : p.calls fault = true) :
    callsOf fault (trace ++ [p]) = callsOf fault trace ++ [p] := by
  simp [callsOf, hcalls]

/-! ## Where the call of an owner stands -/

/-- How far the call of an owner has come. -/
inductive Standing (V : Type) where
  /-- The function has not been called. -/
  | begun
  | running
  /-- The function has ended like this. -/
  | ended (signal : Signal V)
  /-- The fault is resolved, and the call ends like this. -/
  | resolved (signal : Signal V) (resolution : Resolution V) (out : Signal V)

/-- The passage is the section in which the call of the owner installs its fault. -/
structure Passage.Installs [DecidableEq K] (p : Passage K V Q R) (o : Owner K V Q R) : Prop where
  mover : p.mover = some o.thread
  visits : ∃ retries now binding, p.before.threads[o.thread]? =
    some ⟨.keep (.visit (.computeIfAbsent o.key o.mapping) retries now), o.base, binding⟩
  free : p.before.slot? o.key ≠ some (.fault o.fault)
  slot : p.after.slot? o.key = some (.fault o.fault)

namespace Owner

section Traces

variable (settings : Settings K V Q R) (o : Owner K V Q R) (trace : List (Passage K V Q R))

/-- The function has been called once, by the call of the owner itself. -/
def CalledOnce : Prop :=
  ∃ q, callsOf o.fault trace = [q] ∧ q.mover = some o.thread ∧
    mappings q.events = [(o.key, o.fault, none)] ∧
    ∃ binding, q.after.threads[o.thread]? =
      some ⟨.code (o.mapping o.key), .computing o.computation :: o.base, binding⟩

/-- The function has ended like this. -/
def Returned (signal : Signal V) : Prop :=
  ∃ q ∈ trace, q.mover = some o.thread ∧ ∃ binding, q.before.threads[o.thread]? =
    some ⟨.settle signal, .computing o.computation :: o.base, binding⟩

/-- The call of the owner has ended, after the fault was resolved. -/
def IsOver (out : Signal V) : Prop :=
  ∃ q ∈ trace, q.mover = some o.thread ∧ q.before.world.store.resolution? o.fault ≠ none ∧
    ∃ t, q.before.threads[o.thread]? = some t ∧ o.Settles settings out t

variable {settings o trace} {p : Passage K V Q R} {signal out : Signal V}

theorem CalledOnce.snoc (hcalled : o.CalledOnce trace) (hquiet : p.calls o.fault = false) :
    o.CalledOnce (trace ++ [p]) := by
  obtain ⟨q, hone, hcall⟩ := hcalled
  exact ⟨q, (callsOf_append_quiet trace hquiet).trans hone, hcall⟩

theorem Returned.snoc (hreturned : o.Returned trace signal) : o.Returned (trace ++ [p]) signal := by
  obtain ⟨q, hq, hreturns⟩ := hreturned
  exact ⟨q, List.mem_append_left _ hq, hreturns⟩

theorem IsOver.snoc (hover : o.IsOver settings trace out) :
    o.IsOver settings (trace ++ [p]) out := by
  obtain ⟨q, hq, hends⟩ := hover
  exact ⟨q, List.mem_append_left _ hq, hends⟩

end Traces

section Faults

variable {settings : Settings K V Q R} {o : Owner K V Q R} {t : Thread K V Q R}
  {signal : Signal V}

theorem Begins.mem_faults (ht : o.Begins t) : o.fault ∈ faultsOf t.ongoing := by
  cases ht with
  | calls hactivity =>
    simp [Thread.ongoing, hactivity, Stage.ongoing]
  | defers hstack =>
    simp [Thread.ongoing, hstack, Stage.ongoing]

theorem Runs.mem_faults (ht : o.Runs t) : o.fault ∈ faultsOf (stackOngoing t.stack) := by
  obtain ⟨above, hstack⟩ := ht
  simp [hstack]

theorem Ends.mem_faults {n : Nat} (ht : o.Ends settings t signal n) :
    o.fault ∈ faultsOf t.ongoing := by
  have hstage : ∃ stage progress, t.activity = .keep stage ∧
      stage.ongoing = [.computes o.computation progress] := by
    cases ht with
    | composes hactivity => exact ⟨_, _, hactivity, rfl⟩
    | installs _ _ hactivity => exact ⟨_, _, hactivity, rfl⟩
    | vacates _ _ hactivity => exact ⟨_, _, hactivity, rfl⟩
    | restores hactivity => exact ⟨_, _, hactivity, rfl⟩
  obtain ⟨stage, progress, hactivity, hongoing⟩ := hstage
  simp [Thread.ongoing, hactivity, hongoing]

end Faults

variable [DecidableEq K]

/-- The passage resolves the fault of the owner.  Where the slot still has the fault, it is left
with what the resolution hands out. -/
structure ResolvedBy (o : Owner K V Q R) (resolution : Resolution V) (q : Passage K V Q R) :
    Prop where
  mover : q.mover = some o.thread
  before : q.before.world.store.resolution? o.fault = none
  after : q.after.world.store.resolution? o.fault = some resolution
  slot : q.before.slot? o.key = some (.fault o.fault) →
    q.after.slot? o.key = resolution.holder?.map Slot.holder
  spared : q.before.slot? o.key ≠ some (.fault o.fault) →
    q.after.slot? o.key = q.before.slot? o.key

/-- The function has been called and has ended, and the owner has resolved its fault
accordingly. -/
structure Resolved (settings : Settings K V Q R) (o : Owner K V Q R)
    (trace : List (Passage K V Q R)) (signal : Signal V) (resolution : Resolution V)
    (out : Signal V) : Prop where
  called : o.CalledOnce trace
  returned : o.Returned trace signal
  concludes : settings.Concludes o.fault signal resolution out
  resolves : ∃ q ∈ trace, o.ResolvedBy resolution q

/-- Where the call of the owner stands at the end of a run. -/
inductive At (settings : Settings K V Q R) (o : Owner K V Q R) (trace : List (Passage K V Q R))
    (m : Machine K V Q R) : Standing V → Prop where
  | begun {t : Thread K V Q R} :
      callsOf o.fault trace = [] → m.threads[o.thread]? = some t → o.Begins t →
      At settings o trace m .begun
  | running {t : Thread K V Q R} :
      o.CalledOnce trace → m.threads[o.thread]? = some t → o.Runs t →
      At settings o trace m .running
  | ended {t : Thread K V Q R} {signal : Signal V} {n : Nat} :
      o.CalledOnce trace → o.Returned trace signal → m.threads[o.thread]? = some t →
      o.Ends settings t signal n → At settings o trace m (.ended signal)
  | finishing {t : Thread K V Q R} {signal out : Signal V} {resolution : Resolution V} :
      o.Resolved settings trace signal resolution out →
      m.world.store.resolution? o.fault = some resolution → m.threads[o.thread]? = some t →
      o.Finishes settings out t → At settings o trace m (.resolved signal resolution out)
  | closed {signal out : Signal V} {resolution : Resolution V} :
      o.Resolved settings trace signal resolution out →
      m.world.store.resolution? o.fault = some resolution → o.IsOver settings trace out →
      At settings o trace m (.resolved signal resolution out)

theorem Resolved.snoc {settings : Settings K V Q R} {o : Owner K V Q R}
    {trace : List (Passage K V Q R)} {p : Passage K V Q R} {signal out : Signal V}
    {resolution : Resolution V} (hresolved : o.Resolved settings trace signal resolution out)
    (hquiet : p.calls o.fault = false) :
    o.Resolved settings (trace ++ [p]) signal resolution out := by
  obtain ⟨q, hq, hresolves⟩ := hresolved.resolves
  exact ⟨hresolved.called.snoc hquiet, hresolved.returned.snoc, hresolved.concludes, q,
    List.mem_append_left _ hq, hresolves⟩

end Owner

/-! ## Who calls a function -/

section Calls

variable [DecidableEq K] [DecidableEq V] {settings : Settings K V Q R} {p : Passage K V Q R}
  {i fault : Nat} {t : Thread K V Q R}

/-- A function is called by the thread that carries its computation, when it is about to do so. -/
theorem Passage.Lawful.caller (hp : p.Lawful settings) (hcalls : p.calls fault = true) :
    ∃ i t c, p.mover = some i ∧ p.before.threads[i]? = some t ∧
      t.activity = .keep (.own c) ∧ c.fault = fault := by
  obtain ⟨call, hcall, hfault⟩ := List.any_eq_true.mp hcalls
  cases hp.course with
  | outside _ _ hevents =>
    rw [hevents] at hcall
    cases hcall
  | @step i t s hmover ht hstride _ hevents =>
    rw [hevents] at hcall
    by_cases howns : ∃ c, t.activity = .keep (.own c)
    · obtain ⟨c, hactivity⟩ := howns
      refine ⟨i, t, c, hmover, ht, hactivity, ?_⟩
      obtain ⟨chance, s', hstep, -, -, hevents'⟩ := hp.own_step hmover ht
      obtain ⟨turn, hturn, rfl⟩ := Thread.turn_of_step hactivity hstep
      obtain rfl := Option.some.inj hturn
      rw [← hevents, hevents'] at hcall
      change call ∈ mappings (Store.own settings _ c).events at hcall
      obtain ⟨-, ⟨-, -, -, -, hnone⟩ | ⟨current, -, -, -, hone⟩⟩ :=
        Stage.own_spec settings p.before.world.store c
      · rw [hnone] at hcall
        cases hcall
      · rw [hone] at hcall
        rw [List.mem_singleton.mp hcall] at hfault
        simpa using hfault
    · rw [hstride.mappings_eq_nil (fun c hactivity => howns ⟨c, hactivity⟩)] at hcall
      cases hcall

/-- A function is not called again while its computation has left that stage. -/
theorem Passage.Lawful.not_calls (hp : p.Lawful settings) (hm : p.before.Reachable settings)
    (ht : p.before.threads[i]? = some t) (hfault : fault ∈ faultsOf t.ongoing)
    (hactivity : ∀ c, t.activity = .keep (.own c) → fault ∈ faultsOf (stackOngoing t.stack)) :
    p.calls fault = false := by
  by_contra hcalls
  obtain ⟨j, t', c, -, ht', howns, rfl⟩ := hp.caller (by simpa using hcalls)
  have howned : faultsOf t'.ongoing = c.fault :: faultsOf (stackOngoing t'.stack) := by
    simp [Thread.ongoing, howns, Stage.ongoing]
  obtain rfl := hm.thread_eq ht ht' hfault (by simp [howned])
  obtain rfl := Option.some.inj (ht.symm.trans ht')
  have hnodup := hm.nodup_faults ht
  rw [howned] at hnodup
  exact (List.nodup_cons.mp hnodup).1 (hactivity c howns)

/-- Nor after its fault has been resolved. -/
theorem Passage.Lawful.not_calls_of_resolved (hp : p.Lawful settings)
    (hm : p.before.Reachable settings) {resolution : Resolution V}
    (hresolved : p.before.world.store.resolution? fault = some resolution) :
    p.calls fault = false := by
  by_contra hcalls
  obtain ⟨j, t, c, -, ht, howns, rfl⟩ := hp.caller (by simpa using hcalls)
  have hfault : c.fault ∈ faultsOf t.ongoing := by
    simp [Thread.ongoing, howns, Stage.ongoing]
  have hpending := hm.pending ht hfault
  rw [Store.resolution?, hpending] at hresolved
  cases hresolved

end Calls

/-! ## The course of a call -/

section Course

variable [DecidableEq K] [DecidableEq V] {settings : Settings K V Q R} {o : Owner K V Q R}
  {trace : List (Passage K V Q R)} {p : Passage K V Q R} {standing : Standing V}

namespace Owner

omit [DecidableEq V] in
theorem Resolves.resolvedBy {resolution : Resolution V}
    (hresolves : o.Resolves p.before.world.store resolution p.after.world.store)
    (hmover : p.mover = some o.thread) (hvalid : p.before.world.store.map.Valid)
    (hpending : p.before.world.store.faults[o.fault]? = some none) :
    o.ResolvedBy resolution p := by
  have hfault : p.before.world.store.pendingIn o.key o.fault = true ↔
      p.before.slot? o.key = some (.fault o.fault) := Store.pendingIn_iff
  refine ⟨hmover, ?_, Store.resolution?_resolve hpending hresolves.faults, fun hhas => ?_,
    fun hnot => ?_⟩
  · rw [Store.resolution?, hpending]
    rfl
  · rw [Machine.slot?, hresolves.map, if_pos (hfault.mpr hhas), hvalid.get?_leave, if_pos rfl]
  · rw [Machine.slot?, hresolves.map, if_neg (mt hfault.mp hnot)]
    rfl

/-- The other threads leave the call of an owner where it stands. -/
theorem At.of_other (hat : o.At settings trace p.before standing) (hp : p.Lawful settings)
    (hm : p.before.Reachable settings) (hmover : p.mover ≠ some o.thread) :
    o.At settings (trace ++ [p]) p.after standing := by
  have hquiet : ∀ t, p.before.threads[o.thread]? = some t → o.fault ∈ faultsOf t.ongoing →
      p.calls o.fault = false := by
    intro t ht hfault
    by_contra hcalls
    obtain ⟨j, t', c, hj, ht', howns, hc⟩ := hp.caller (by simpa using hcalls)
    have hfault' : o.fault ∈ faultsOf t'.ongoing := by
      simp [Thread.ongoing, howns, Stage.ongoing, hc]
    rw [hm.thread_eq ht ht' hfault hfault'] at hmover
    exact hmover hj
  cases hat with
  | begun hnone ht hbegins =>
    refine .begun ?_ (hp.thread_eq hmover ht) hbegins
    rw [callsOf_append_quiet trace (hquiet _ ht hbegins.mem_faults), hnone]
  | @running t hcalled ht hruns =>
    have hfault : o.fault ∈ faultsOf t.ongoing := by
      rw [Thread.ongoing, faultsOf_append]
      exact List.mem_append_right _ hruns.mem_faults
    exact .running (hcalled.snoc (hquiet t ht hfault)) (hp.thread_eq hmover ht) hruns
  | ended hcalled hreturned ht hends =>
    exact .ended (hcalled.snoc (hquiet _ ht hends.mem_faults)) hreturned.snoc
      (hp.thread_eq hmover ht) hends
  | finishing hresolved hresolution ht hfinishes =>
    exact .finishing (hresolved.snoc (hp.not_calls_of_resolved hm hresolution))
      (hp.resolution? hresolution) (hp.thread_eq hmover ht) hfinishes
  | closed hresolved hresolution hover =>
    exact .closed (hresolved.snoc (hp.not_calls_of_resolved hm hresolution))
      (hp.resolution? hresolution) hover.snoc

/-- A move of the owner's thread brings its call on. -/
theorem At.of_own (hsteady : settings.Steady) (hat : o.At settings trace p.before standing)
    (hp : p.Lawful settings) (hm : p.before.Reachable settings)
    (hmover : p.mover = some o.thread) :
    ∃ standing', o.At settings (trace ++ [p]) p.after standing' := by
  cases hat with
  | @begun t hnone ht hbegins =>
    obtain ⟨chance, s, hstep, -, hthread, hevents⟩ := hp.own_step hmover ht
    cases hbegins with
    | calls hactivity hstack =>
      obtain ⟨hrunning, hcall⟩ := step_own hstep hactivity hstack
      have hcalls : p.calls o.fault = true := by
        simp [Passage.calls, hevents, hcall]
      have hone : callsOf o.fault (trace ++ [p]) = [p] := by
        rw [callsOf_append_call trace hcalls, hnone, List.nil_append]
      rw [hrunning] at hthread
      refine ⟨_, .running ⟨p, hone, hmover, ?_, t.binding, hthread⟩ hthread ⟨[], rfl⟩⟩
      rw [hevents, hcall]
    | defers hstack =>
      have hquiet : p.calls o.fault = false := by
        apply hp.not_calls hm ht (Begins.defers hstack).mem_faults
        intro c _
        simp [hstack, Stage.ongoing]
      have hsheltered := hm.isSheltered hsteady.copyOut _ t ht
      refine ⟨_, .begun ?_ hthread (begins_of_deferred hstep hsheltered hstack)⟩
      rw [callsOf_append_quiet trace hquiet, hnone]
  | @running t hcalled ht hruns =>
    obtain ⟨chance, s, hstep, -, hthread, -⟩ := hp.own_step hmover ht
    have hfault : o.fault ∈ faultsOf t.ongoing := by
      rw [Thread.ongoing, faultsOf_append]
      exact List.mem_append_right _ hruns.mem_faults
    have hquiet := hp.not_calls hm ht hfault fun _ _ => hruns.mem_faults
    rcases hruns.step hstep with
      hstill | ⟨signal, n, hactivity, hstack, hends⟩
    · exact ⟨_, .running (hcalled.snoc hquiet) hthread hstill⟩
    · have hreturned : o.Returned (trace ++ [p]) signal := by
        refine ⟨p, by simp, hmover, t.binding, ?_⟩
        rw [ht, ← hactivity, ← hstack]
      exact ⟨_, .ended (hcalled.snoc hquiet) hreturned hthread hends⟩
  | @ended t signal n hcalled hreturned ht hends =>
    obtain ⟨chance, s, hstep, hworld, hthread, -⟩ := hp.own_step hmover ht
    have hquiet : p.calls o.fault = false := by
      apply hp.not_calls hm ht hends.mem_faults
      intro c hactivity
      cases hends <;> simp_all
    rcases hends.step hsteady hstep with
      ⟨-, hends'⟩ | ⟨-, resolution, out, hconcludes, hresolves, hfinishes⟩
    · exact ⟨_, .ended (hcalled.snoc hquiet) hreturned.snoc hthread hends'⟩
    · have hpending := hm.pending ht hends.mem_faults
      rw [← hworld] at hresolves
      have hby := hresolves.resolvedBy hmover hm.accounted.map.valid hpending
      have hresolved : o.Resolved settings (trace ++ [p]) signal resolution out :=
        ⟨hcalled.snoc hquiet, hreturned.snoc, hconcludes, p, by simp, hby⟩
      exact ⟨_, .finishing hresolved hby.after hthread hfinishes⟩
  | @finishing t signal out resolution hresolved hresolution ht hfinishes =>
    obtain ⟨chance, s, hstep, -, hthread, -⟩ := hp.own_step hmover ht
    have hresolved' := hresolved.snoc (hp.not_calls_of_resolved hm hresolution)
    rcases hfinishes.step hsteady hstep with hstill | hsettles
    · exact ⟨_, .finishing hresolved' (hp.resolution? hresolution) hthread hstill⟩
    · have hover : o.IsOver settings (trace ++ [p]) out :=
        ⟨p, by simp, hmover, by simp [hresolution], t, ht, hsettles⟩
      exact ⟨_, .closed hresolved' (hp.resolution? hresolution) hover⟩
  | closed hresolved hresolution hover =>
    exact ⟨_, .closed (hresolved.snoc (hp.not_calls_of_resolved hm hresolution))
      (hp.resolution? hresolution) hover.snoc⟩

theorem At.step (hsteady : settings.Steady) (hat : o.At settings trace p.before standing)
    (hp : p.Lawful settings) (hm : p.before.Reachable settings) :
    ∃ standing', o.At settings (trace ++ [p]) p.after standing' := by
  by_cases hmover : p.mover = some o.thread
  · exact hat.of_own hsteady hp hm hmover
  · exact ⟨standing, hat.of_other hp hm hmover⟩

end Owner

/-- A visit that installs a fault takes a new one, and is about to call the function. -/
theorem Store.Visit.installs {store : Store K V} {now : Instant} {key : K}
    {mapping : K → Script K V Q R} {turn : StoreTurn K V Q R} {fault : Nat}
    (hvisit : store.Visit settings now (.computeIfAbsent key mapping) turn)
    (hvalid : store.map.Valid) (hfree : store.map.get? key ≠ some (.fault fault))
    (hslot : turn.state.map.get? key = some (.fault fault)) :
    fault = store.faults.size ∧ ∃ c, c =
      (Operation.computeIfAbsent key mapping).computation key fault none ∧
        (turn.next = .keep (.own c) ∧ turn.frames = [] ∨
          turn.frames = [.next (.keep (.own c))]) := by
  cases hvisit with
  | keeps _ _ hstill =>
    rw [hstill.map] at hslot
    exact absurd hslot hfree
  | waits _ _ hspares =>
    rw [hspares.map] at hslot
    exact absurd hslot hfree
  | writes _ _ hgives => cases hgives
  | removes hkey _ hmap =>
    obtain rfl := Option.some.inj hkey
    rw [hmap, hvalid.get?_erase, if_pos rfl] at hslot
    cases hslot
  | @begins c map hkey hcomputes _ hc hmap hstate _ _ hthread =>
    obtain rfl : key = c.key := Option.some.inj hkey
    have hvalid' : map.Valid := by
      rcases hmap with rfl | ⟨-, rfl⟩
      · exact hvalid
      · exact hvalid.erase c.key
    rw [hstate, hvalid'.get?_insert, if_pos rfl] at hslot
    obtain rfl : c.fault = fault := Slot.fault.inj (Option.some.inj hslot)
    have hnothing : (store.look c.key now).live? = none := by
      simpa [Operation.computes] using hcomputes
    rw [hnothing] at hc
    have hfault : c.fault = store.faults.size := congrArg Computation.fault hc
    refine ⟨hfault, c, ?_, hthread.imp id And.right⟩
    rw [hfault]
    exact hc

/-- A call that installs a fault begins with a new one. -/
theorem Passage.Installs.begins (hinstalls : p.Installs o) (hp : p.Lawful settings)
    (hvalid : p.before.world.store.map.Valid) :
    o.fault = p.before.world.store.faults.size ∧ p.calls o.fault = false ∧
      ∃ t, p.after.threads[o.thread]? = some t ∧ o.Begins t := by
  obtain ⟨retries, now, binding, ht⟩ := hinstalls.visits
  obtain ⟨chance, s, hstep, hworld, hthread, hevents⟩ := hp.own_step hinstalls.mover ht
  obtain ⟨turn, hturn, rfl⟩ := Thread.turn_of_step rfl hstep
  have hquiet : mappings turn.events = [] :=
    Stage.mappings_eq_nil hturn (by simp)
  obtain rfl := Option.some.inj hturn
  have hslot := hinstalls.slot
  rw [Machine.slot?, hworld] at hslot
  obtain ⟨hfault, c, rfl, hbegins⟩ :=
    (p.before.world.store.visit_spec (.computeIfAbsent o.key o.mapping)).installs hvalid
      hinstalls.free hslot
  refine ⟨hfault, ?_, _, hthread, ?_⟩
  · rw [Passage.calls, hevents]
    exact congrArg (fun calls => List.any calls _) hquiet
  · rcases hbegins with ⟨hnext, hframes⟩ | hframes
    · refine .calls hnext ?_
      simp [Step.ofStore, Thread.goOn, hframes]
    · refine .defers (?_ : _ = [] ++ _)
      simp [Step.ofStore, Thread.goOn, hframes, Owner.computation]

/-- The faults whose functions have been called are older than the next one. -/
theorem Run.calls_lt {start m : Machine K V Q R} (hstart : start.Fresh settings)
    (run : Run settings start trace m) :
    ∀ q ∈ trace, ∀ fault, q.calls fault = true → fault < m.world.store.faults.size := by
  induction run with
  | rest => simp
  | @move trace p hrun hp ih =>
    intro q hq fault hcalls
    have hgrows : p.before.world.store.faults.size ≤ p.after.world.store.faults.size := by
      obtain ⟨_, _, _, _, _, _, hturnover⟩ := hp.turnover
      exact hturnover.faultChange.size_le
    rcases List.mem_append.mp hq with hold | hnew
    · exact lt_of_lt_of_le (ih q hold fault hcalls) hgrows
    · obtain rfl := List.mem_singleton.mp hnew
      obtain ⟨i, t, c, -, ht, howns, rfl⟩ := hp.caller hcalls
      have hfault : c.fault ∈ faultsOf t.ongoing := by
        simp [Thread.ongoing, howns, Stage.ongoing]
      have hpending := (hrun.reachable hstart).pending ht hfault
      exact lt_of_lt_of_le (Array.getElem?_eq_some_iff.mp hpending).1 hgrows

/-- The call of an owner stands somewhere at any time after it has installed its fault. -/
theorem Run.exists_at {start m : Machine K V Q R} {front back : List (Passage K V Q R)}
    (hsteady : settings.Steady) (hstart : start.Fresh settings)
    (hfront : Run settings start front p.before) (hp : p.Lawful settings)
    (hback : Run settings p.after back m) (hinstalls : p.Installs o) :
    ∃ standing, o.At settings (front ++ p :: back) m standing := by
  have hbefore := hfront.reachable hstart
  have hafter := (hfront.move hp).reachable hstart
  induction hback with
  | rest =>
    obtain ⟨hfault, hquiet, t, ht, hbegins⟩ :=
      hinstalls.begins hp hbefore.accounted.map.valid
    have hnone : callsOf o.fault front = [] := by
      apply List.filter_eq_nil_iff.mpr
      intro q hq hcalls
      have hlt := hfront.calls_lt hstart q hq o.fault hcalls
      omega
    refine ⟨_, .begun ?_ ht hbegins⟩
    rw [callsOf_append_quiet front hquiet, hnone]
  | @move back q hrun hq ih =>
    obtain ⟨standing, hat⟩ := ih
    have htrace : front ++ p :: (back ++ [q]) = (front ++ p :: back) ++ [q] := by simp
    rw [htrace]
    exact hat.step hsteady hq (hrun.reachable_of_reachable hafter)

end Course

end SharedCache
