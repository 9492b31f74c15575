import SharedCache.Proofs.Invocations
import SharedCache.Proofs.Readings
import SharedCache.Proofs.ReportedSlots
import SharedCache.Proofs.WithheldHolders

/-!
# Orphans

What a panic leaves behind when it has left the call that it comes from.  A fault that the call has
put into a slot is resolved by then, and is in no slot any more, with one exception.  A call that
finds an expired value and computes another one puts its fault in the place of the value, puts the
computation off, and reports the expiration.  If the value cannot be copied for the listener then,
the panic gives the computation up and leaves the fault in the slot: nobody computes it any more,
and whoever comes upon it waits in vain.
-/

namespace SharedCache

variable {K V Q R : Type}

/-- In the passage a panic gives up a computation that was put off. -/
def Passage.Drops (p : Passage K V Q R) (c : Computation K V Q R) : Prop :=
  ∃ t panic a rest progress, p.thread? = some t ∧ t.activity = .settle (.raised panic) ∧
    t.stack = .next a :: rest ∧ .computes c progress ∈ a.ongoing

/-- In the passage a removal is reported to a listener that is still called, and the value cannot be
copied for it. -/
structure Passage.FailsToTell (settings : Settings K V Q R) (p : Passage K V Q R) (key : K)
    (h : Holder V) (cause : RemovalCause) (panic : Panic) : Prop where
  reports : p.stage? = some (.report key h cause)
  listens : settings.listener.isSome ∧ p.before.world.store.listening = true
  panics : settings.copyOut h.value = .error panic

section Slots

variable [DecidableEq K]

/-- The passage puts a fault into the slot of a key. -/
structure Passage.Plants (p : Passage K V Q R) (key : K) (fault : Nat) : Prop where
  free : p.before.slot? key ≠ some (.fault fault)
  slot : p.after.slot? key = some (.fault fault)

/-- In the passage `p` the call has found an expired value of the key and is about to compute
another one, and in the next step of its thread the copying of the expired value for the listener
has ended in a panic. -/
def Invocation.Abandons (call : Invocation K V Q R) (settings : Settings K V Q R)
    (p : Passage K V Q R) (back : List (Passage K V Q R)) (key : K) (panic : Panic) : Prop :=
  p.FindsExpired key ∧ ∃ h between q since, back = between ++ q :: since ∧
    (∀ r ∈ between, r.mover ≠ some call.thread) ∧ q.mover = some call.thread ∧
    q.FailsToTell settings key h .expired panic

variable [DecidableEq V]

/-- What has become of a fault that the call has put into the slot of the key in the passage `p`, by
the time the call is over. -/
structure Invocation.Disposes (call : Invocation K V Q R) (settings : Settings K V Q R)
    (p : Passage K V Q R) (back : List (Passage K V Q R)) (m : Machine K V Q R) (signal : Signal V)
    (key : K) (fault : Nat) : Prop where
  /-- The fault is not resolved just when the call has abandoned its computation. -/
  unresolved_iff : m.world.store.resolution? fault = none ↔
    ∃ panic, call.Abandons settings p back key panic
  /-- Nor is it in a slot unless the call has abandoned its computation. -/
  slots : ∀ other, m.slot? other = some (.fault fault) →
    other = key ∧ ∃ panic, call.Abandons settings p back key panic
  /-- A call that abandons a computation ends with the panic of the copying. -/
  ends : ∀ panic, call.Abandons settings p back key panic → signal = .raised panic
  /-- An abandoned fault stays in its slot unless somebody else writes the slot. -/
  stays : ∀ panic, call.Abandons settings p back key panic →
    (∀ q ∈ back, call.isOwn q = false → q.after.slot? key = q.before.slot? key) →
      m.slot? key = some (.fault fault)
  /-- Nobody will ever compute an abandoned fault, and nobody who waits for it goes on unless
  interrupted. -/
  blocks : ∀ panic, call.Abandons settings p back key panic → ∀ later m',
    Run settings m later m' → (∀ c progress, .computes c progress ∈ m'.ongoing → c.fault ≠ fault) ∧
      ∀ operation retries now draws,
        (Stage.await operation retries fault : Stage K V Q R).turn settings m'.world.store now
          false draws = none

/-- What becomes of the faults that a call has put into slots, and of the counters, by the time the
call is over. -/
structure Invocation.ClearsUp (call : Invocation K V Q R) (settings : Settings K V Q R)
    (trace : List (Passage K V Q R)) (m : Machine K V Q R) (signal : Signal V) : Prop where
  faults : ∀ {front back : List (Passage K V Q R)} {p : Passage K V Q R} {key : K} {fault : Nat},
    trace = front ++ p :: back → call.isOwn p = true → p.Plants key fault →
      call.Disposes settings p back m signal key fault
  entryCount : m.world.store.map.entryCount = m.world.store.map.entries.length
  weightedSize : m.world.store.map.weightedSize =
    (m.world.store.map.entries.map fun entry => entry.2.weight).sum

end Slots

/-! ## The end of a computation -/

section Computations

variable [DecidableEq K] [DecidableEq V] {settings : Settings K V Q R} {start m : Machine K V Q R}
  {trace : List (Passage K V Q R)} {p : Passage K V Q R} {c : Computation K V Q R}
  {progress : Progress V} {fault : Nat}

/-- A computation in progress goes on, or its fault is resolved, or a panic gives it up. -/
theorem Passage.Lawful.computation_goes (hp : p.Lawful settings) (hm : p.before.Reachable settings)
    (hmem : .computes c progress ∈ p.before.ongoing) :
    (∃ progress', .computes c progress' ∈ p.after.ongoing) ∨
      (∃ resolution, p.after.world.store.resolution? c.fault = some resolution) ∨ p.Drops c := by
  have hpending := hm.owned.pending c.fault (mem_faultsOf hmem)
  obtain ⟨front, old, new, back, hbefore, hafter, hturnover⟩ := hp.turnover
  have hstays : (∃ progress', .computes c progress' ∈ front ++ new ++ back) →
      (∃ progress', .computes c progress' ∈ p.after.ongoing) ∨
        (∃ resolution, p.after.world.store.resolution? c.fault = some resolution) ∨ p.Drops c :=
    fun hgoing => .inl (hafter ▸ hgoing)
  rw [hbefore, List.mem_append, List.mem_append] at hmem
  rcases hmem with (hfront | hold) | hback
  · exact hstays ⟨progress, by simp [hfront]⟩
  · cases hturnover with
    | rests => cases hold
    | calls => cases hold
    | drops hthread hactivity hstack =>
      exact .inr (.inr ⟨_, _, _, _, progress, hthread, hactivity, hstack, hold⟩)
    | moves =>
      obtain ⟨rfl, -⟩ := Ongoing.computes.inj (List.mem_singleton.mp hold)
      exact hstays
        ⟨_, List.mem_append_left _ (List.mem_append_right _ (List.mem_singleton.mpr rfl))⟩
    | acts hsection hdeed =>
      rcases hdeed.goesOn_or_resolves hold hpending with ⟨progress', hgoes⟩ | hresolved
      · exact hstays ⟨progress', by simp [hgoes]⟩
      · exact .inr (.inl (hsection.store ▸ hresolved))
  · exact hstays ⟨progress, by simp [hback]⟩

/-- A computation that is no longer in progress has resolved its fault, or a panic has given it
up. -/
theorem Run.computation_goes (hstart : start.Reachable settings)
    (run : Run settings start trace m) (hmem : .computes c progress ∈ start.ongoing) :
    (∃ progress', .computes c progress' ∈ m.ongoing) ∨
      (∃ resolution, m.world.store.resolution? c.fault = some resolution) ∨
      ∃ front p back, trace = front ++ p :: back ∧ p.Drops c := by
  induction run with
  | rest => exact .inl ⟨progress, hmem⟩
  | @move trace p run hp ih =>
    rcases ih with ⟨progress', hgoing⟩ | ⟨resolution, hresolved⟩ | ⟨front, q, back, rfl, hdrops⟩
    · rcases hp.computation_goes (run.reachable_of_reachable hstart) hgoing with
        hgoes | hresolved | hdrops
      · exact .inl hgoes
      · exact .inr (.inl hresolved)
      · exact .inr (.inr ⟨trace, p, [], rfl, hdrops⟩)
    · exact .inr (.inl ⟨resolution, hp.resolution? hresolved⟩)
    · exact .inr (.inr ⟨front, q, back ++ [p], by simp, hdrops⟩)

theorem Run.size_le (run : Run settings start trace m) :
    start.world.store.faults.size ≤ m.world.store.faults.size := by
  refine run.invariant (P := fun m => start.world.store.faults.size ≤ m.world.store.faults.size)
    (Nat.le_refl _) fun p hp hbefore => ?_
  obtain ⟨_, _, _, _, _, _, hturnover⟩ := hp.turnover
  exact Nat.le_trans hbefore hturnover.faultChange.size_le

/-- A computation that is not new was carried by the same thread all the time. -/
theorem Run.computation_of_thread (run : Run settings start trace m)
    (hlt : c.fault < start.world.store.faults.size) {i : Nat} {t : Thread K V Q R}
    (ht : m.threads[i]? = some t) (hmem : .computes c progress ∈ t.ongoing) :
    ∃ t' progress', start.threads[i]? = some t' ∧ .computes c progress' ∈ t'.ongoing := by
  induction run generalizing t progress with
  | rest => exact ⟨t, progress, ht, hmem⟩
  | @move trace p run hp ih =>
    rcases hp.computation_of_thread ht hmem with ⟨t', progress', ht', hold⟩ | ⟨-, hnew⟩
    · exact ih ht' hold
    · have hle := run.size_le
      omega

/-- The fault is not resolved, and nobody computes it. -/
structure Machine.Forgets (m : Machine K V Q R) (fault : Nat) : Prop where
  uncomputed : ∀ c progress, .computes c progress ∈ m.ongoing → c.fault ≠ fault
  begun : fault < m.world.store.faults.size
  unresolved : m.world.store.resolution? fault = none

/-- A fault that is forgotten stays so. -/
theorem Passage.Lawful.forgets (hp : p.Lawful settings) (hbefore : p.before.Forgets fault) :
    p.after.Forgets fault := by
  obtain ⟨hnone, hlt, hunresolved⟩ := hbefore
  obtain ⟨front, old, new, back, hold, -, hturnover⟩ := hp.turnover
  constructor
  case uncomputed =>
    intro c progress hmem
    rcases hp.computation_cases hmem with ⟨progress', hbefore⟩ | hnew
    · exact hnone c progress' hbefore
    · omega
  case begun => exact Nat.lt_of_lt_of_le hlt hturnover.faultChange.size_le
  case unresolved =>
    refine hturnover.faultChange.unresolved (fun hfault => ?_) hlt hunresolved
    obtain ⟨c, progress, hmem, hof⟩ := exists_of_mem_faultsOf hfault
    refine hnone c progress ?_ hof
    rw [hold]
    exact List.mem_append_left _ (List.mem_append_right _ hmem)

theorem Run.forgets (run : Run settings start trace m) (hstart : start.Forgets fault) :
    m.Forgets fault :=
  run.invariant (P := fun m => m.Forgets fault) hstart fun _ hp hbefore => hp.forgets hbefore

/-- When a panic gives a computation up, its fault is forgotten, and no slot changes. -/
theorem Passage.Drops.forgets (hdrops : p.Drops c) (hp : p.Lawful settings)
    (hm : p.before.Reachable settings) :
    p.after.Forgets c.fault ∧ p.after.world.store.map = p.before.world.store.map := by
  obtain ⟨t, panic, a, rest, progress, hthread, hactivity, hstack, hmem⟩ := hdrops
  obtain ⟨i, hmover, ht⟩ := Option.bind_eq_some_iff.mp hthread
  obtain ⟨chance, step, hstep, hworld, hafter, -⟩ := hp.own_step hmover ht
  obtain rfl := Thread.receive_of_step hactivity hstack hstep
  have hongoing : t.ongoing = a.ongoing ++ stackOngoing rest := by
    simp [Thread.ongoing, hactivity, hstack]
  have hcarried : c.fault ∈ faultsOf t.ongoing := by
    rw [hongoing, faultsOf_append]
    exact List.mem_append_left _ (mem_faultsOf hmem)
  have hpending := hm.pending ht hcarried
  have hlt := (Array.getElem?_eq_some_iff.mp hpending).1
  refine ⟨⟨?_, by rwa [hworld], ?_⟩, by rw [hworld]; rfl⟩
  · intro c' progress' hmem' hsame
    obtain ⟨j, t', ht', hthread'⟩ := Machine.exists_thread hmem'
    rcases hp.computation_of_thread ht' hthread' with ⟨t₀, progress₀, ht₀, hold⟩ | ⟨-, hnew⟩
    · -- The thread itself has nothing left of the computation but what was below of it.
      obtain rfl := hm.thread_eq ht ht₀ hcarried (hsame ▸ mem_faultsOf hold)
      obtain rfl := Option.some.inj (hafter.symm.trans ht')
      have hbelow : .computes c' progress' ∈ stackOngoing rest := by
        simpa [Frame.receive, Step.apart, Thread.goOn, Thread.popped, Thread.ongoing, hstack]
          using hthread'
      have hnodup := hm.nodup_faults ht
      rw [hongoing, faultsOf_append, List.nodup_append] at hnodup
      exact hnodup.2.2 _ (mem_faultsOf hmem) _ (mem_faultsOf hbelow) hsame.symm
    · omega
  · rw [hworld]
    change p.before.world.store.resolution? c.fault = none
    rw [Store.resolution?, hpending]
    rfl

end Computations

/-! ## Why a computation is given up -/

/-- In the passage an operation that is called above these frames finds an expired value.  It puts
the fault of a computation in the place of the value, and puts the computation off until the
expiration is reported. -/
structure Passage.PutsOff [DecidableEq K] (p : Passage K V Q R) (operation : Operation K V Q R)
    (i : Nat) (base : List (Frame K V Q R)) (c : Computation K V Q R) (h : Holder V) :
    Prop where
  mover : p.mover = some i
  key : operation.key? = some c.key
  computes : operation.computes none = true
  plants : p.Plants c.key c.fault
  visits : ∃ retries now binding, p.before.world.store.look c.key now = .stale h ∧
    p.before.threads[i]? = some ⟨.keep (.visit operation retries now), base, binding⟩ ∧
    p.after.threads[i]? =
      some ⟨.keep (.report c.key h .expired), .next (.keep (.own c)) :: base, binding⟩

section Steps

variable [DecidableEq K] [DecidableEq V] {settings : Settings K V Q R} {w : World K V Q R}
  {t : Thread K V Q R} {step : Step K V Q R} {c : Computation K V Q R} {progress : Progress V}
  {a : Activity K V Q R} {rest : List (Frame K V Q R)} {panic : Panic}

/-- A panic gets to a computation that was put off only from the report of the expiration, where
the value cannot be copied for the listener. -/
theorem Thread.Stride.reports_of_raised (hstride : t.Stride settings w step) (ht : t.IsParted)
    (hraised : step.thread.activity = .settle (.raised panic))
    (htop : step.thread.stack = .next a :: rest) (hmem : .computes c progress ∈ a.ongoing) :
    ∃ h, t.activity = .keep (.report c.key h .expired) ∧ t.stack = .next a :: rest ∧
      settings.listener.isSome ∧ w.store.listening = true ∧
      settings.copyOut h.value = .error panic := by
  obtain ⟨hflat, hstack⟩ := ht
  -- What is below a frame that is taken off heralds nothing, unless a listener has run there.
  have hbelow : ∀ {frame}, t.stack = frame :: .next a :: rest → frame = .listening := by
    intro frame hframes
    rw [hframes] at hstack
    exact hstack.2.2.2.2.2.1 c progress hmem
  cases hstride with
  | @works _ next frames _ _ hplain hsettled _ _ _ hframes =>
    have hon : frames ++ t.stack = .next a :: rest := htop
    cases frames with
    | nil =>
      rw [List.nil_append] at hon
      rw [hon] at hstack
      have hherald := hstack.2.2.1 c progress hmem
      cases hactivity : t.activity with
      | settle signal => exact absurd hactivity (hsettled signal)
      | keep stage => simp [hactivity, Activity.IsPlain] at hplain
      | _ => simp [hactivity, Activity.Heralds] at hherald
    | cons first others =>
      obtain ⟨rfl, -⟩ := List.cons.inj hon
      have hnone := (hframes (.next a) List.mem_cons_self).ongoing_eq
      rw [Frame.ongoing_next] at hnone
      rw [hnone] at hmem
      cases hmem
  | calls => cases hraised
  | enters => cases htop
  | returns _ hframes hplain =>
    obtain rfl := hbelow (hframes.trans (congrArg _ htop))
    exact hplain.elim
  | proceeds _ hframes => cases hbelow (hframes.trans (congrArg _ htop))
  | unwinds _ hframes => cases hbelow (hframes.trans (congrArg _ htop))
  | @mapped signal c' =>
    obtain ⟨-, -, stage, hstage, -⟩ := w.store.mapped_spec c' signal
    cases hstage.symm.trans hraised
  | @listened signal => cases signal <;> cases hraised
  | @keeps stage draws turn hactivity hturn =>
    have hon : turn.frames ++ t.stack = .next a :: rest := htop
    rcases (Stage.deed hturn).top_cases hon hmem with hbefore | hdisplaces
    · rw [hbefore, hactivity] at hstack
      have hherald := hstack.2.2.1 c progress hmem
      cases stage with
      | report key h cause =>
        obtain ⟨rfl, rfl⟩ := hherald
        obtain rfl := Option.some.inj hturn
        exact ⟨h, hactivity, hbefore, Store.report_raised_iff.mp hraised⟩
      | _ => exact hherald.elim
    · obtain ⟨_, _, _, _, _, _, _, _, hnext⟩ := hdisplaces.visits
      cases hnext.symm.trans hraised

end Steps

section Runs

variable [DecidableEq K] [DecidableEq V] {settings : Settings K V Q R} {start m : Machine K V Q R}
  {trace : List (Passage K V Q R)} {i : Nat} {t : Thread K V Q R} {c : Computation K V Q R}
  {progress : Progress V} {a : Activity K V Q R} {rest : List (Frame K V Q R)} {panic : Panic}

/-- A report that cannot copy the value for the listener ends in the panic. -/
theorem Passage.FailsToTell.raises {p : Passage K V Q R} {key : K} {h : Holder V}
    {cause : RemovalCause} (hfails : p.FailsToTell settings key h cause panic)
    (hp : p.Lawful settings) (hmover : p.mover = some i) {stack : List (Frame K V Q R)}
    {binding : Option Interrupter}
    (ht : p.before.threads[i]? = some ⟨.keep (.report key h cause), stack, binding⟩) :
    p.after.threads[i]? = some ⟨.settle (.raised panic), stack, binding⟩ ∧
      p.after.world.store.map = p.before.world.store.map := by
  obtain ⟨draws, turn, hturn, hstore, hthread, -⟩ := hp.own_turn hmover ht rfl
  obtain rfl := Option.some.inj hturn
  have hraised : (p.before.world.store.report settings key h cause).next =
      .settle (.raised panic) :=
    Store.report_raised_iff.mpr ⟨hfails.listens.1, hfails.listens.2, hfails.panics⟩
  have hframes : (p.before.world.store.report settings key h cause).frames = [] := by
    rcases p.before.world.store.report_cases settings key h cause with
      ⟨-, hnone⟩ | ⟨⟨script, hcode⟩, -⟩
    · exact hnone
    · cases hcode.symm.trans hraised
  constructor
  · rwa [hraised, hframes, List.nil_append] at hthread
  · rw [hstore]
    exact (Store.state_report settings _ key h cause).1

/-- A computation that a panic gives up was put off in the last step but one of its thread, and in
the last one the listener could not be told. -/
theorem Run.putsOff (hstart : start.Fresh settings) (run : Run settings start trace m)
    (ht : m.threads[i]? = some t) (hraised : t.activity = .settle (.raised panic))
    (htop : t.stack = .next a :: rest) (hmem : .computes c progress ∈ a.ongoing) :
    ∃ operation h front p between q since, trace = front ++ p :: (between ++ q :: since) ∧
      p.PutsOff operation i rest c h ∧ (∀ r ∈ between, r.mover ≠ some i) ∧
      q.mover = some i ∧ q.FailsToTell settings c.key h .expired panic := by
  rcases run.last_step hstart ht with ⟨script, rfl⟩ | ⟨early, q, since, hlast, hafter⟩
  · cases hraised
  obtain ⟨hearly, hq, -⟩ := run.split hlast.trace
  rcases hq.thread_cases hafter with ⟨hother, -⟩ | ⟨script, rfl⟩ | ⟨-, t', s, ht', hstride, -, rfl⟩
  · exact absurd hlast.mover hother
  · cases hraised
  obtain ⟨h, hactivity, hstack, hlistener, hlistening, hpanics⟩ :=
    hstride.reports_of_raised ((hearly.reachable hstart).isParted ht') hraised htop hmem
  have hfails : q.FailsToTell settings c.key h .expired panic :=
    ⟨Passage.stage?_of_keep hlast.mover ht' hactivity, ⟨hlistener, hlistening⟩, hpanics⟩
  rcases hearly.last_step hstart ht' with ⟨script, rfl⟩ | ⟨front, p, between, hlast', hafter'⟩
  · cases hactivity
  obtain ⟨hfront, hp, -⟩ := hearly.split hlast'.trace
  rcases hp.thread_cases hafter' with ⟨hother, -⟩ | ⟨script, rfl⟩ |
    ⟨-, t₀, s₀, ht₀, hstride₀, hafter₀, rfl⟩
  · exact absurd hlast'.mover hother
  · cases hactivity
  have hbefore := hfront.reachable hstart
  obtain ⟨stage, turn, hstage, rfl, hdisplaces⟩ :=
    hstride₀.displaces (hbefore.isParted ht₀) hactivity hstack hmem
  obtain ⟨operation, retries, now, h', rfl, hkey, hcomputes, hstale, hnext⟩ := hdisplaces.visits
  obtain ⟨-, rfl, -⟩ := Stage.report.inj (Activity.keep.inj (hnext.symm.trans hactivity))
  have hplants : p.Plants c.key c.fault := by
    constructor
    case free => simp [Machine.slot?, Store.get?_of_stale hstale]
    case slot =>
      rw [Machine.slot?, hafter₀]
      exact hdisplaces.slot hbefore.accounted.map.valid
  have hstack₀ : turn.frames ++ t₀.stack = .next a :: rest := hstack
  rw [hdisplaces.frames, List.singleton_append] at hstack₀
  obtain ⟨-, rfl⟩ := List.cons.inj hstack₀
  obtain ⟨_, stack, binding⟩ := t₀
  obtain rfl : _ = Activity.keep _ := hstage
  refine ⟨operation, h', front, p, between, q, since, ?_, ⟨hlast'.mover, hkey, hcomputes, hplants,
    retries, now, binding, hstale, ht₀, ?_⟩, hlast'.rests, hlast.mover, hfails⟩
  · rw [hlast.trace, hlast'.trace]
    simp
  · rw [hafter']
    simp [Step.ofStore, Thread.goOn, hnext, hdisplaces.frames]

omit [DecidableEq V] in
theorem Passage.PutsOff.findsExpired {p : Passage K V Q R} {operation : Operation K V Q R}
    {base : List (Frame K V Q R)} {h : Holder V} (hputsOff : p.PutsOff operation i base c h) :
    p.FindsExpired c.key := by
  obtain ⟨retries, now, binding, hstale, hlooks, -⟩ := hputsOff.visits
  exact ⟨operation, retries, now, h, Passage.stage?_of_keep hputsOff.mover hlooks rfl,
    hputsOff.key, hputsOff.computes, hstale⟩

/-! ## Faults in the course of a run -/

theorem Passage.Plants.computation {p : Passage K V Q R} {key : K} {fault : Nat}
    (hplants : p.Plants key fault) (hp : p.Lawful settings) (hm : p.before.Reachable settings) :
    ∃ c, .computes c .begun ∈ p.after.ongoing ∧ c.key = key ∧ c.fault = fault :=
  (hp.fault_cases hm hplants.slot).resolve_left hplants.free

/-- A fault that is put into a slot is new. -/
theorem Passage.Plants.size_le {p : Passage K V Q R} {key : K} {fault : Nat}
    (hplants : p.Plants key fault) (hp : p.Lawful settings) (hm : p.before.Reachable settings) :
    p.before.world.store.faults.size ≤ fault := by
  by_contra hlt
  exact hplants.free (hp.slot_of_fault hm (Nat.lt_of_not_le hlt) hplants.slot)

theorem Passage.Plants.lt_size {p : Passage K V Q R} {key : K} {fault : Nat}
    (hplants : p.Plants key fault) (hp : p.Lawful settings) (hm : p.before.Reachable settings) :
    fault < p.after.world.store.faults.size :=
  (Run.reachable_of_reachable hm (Run.rest.move hp)).fault_lt key fault hplants.slot

/-- A fault is put into a slot only once. -/
theorem Run.plants_once (hstart : start.Reachable settings) (run : Run settings start trace m)
    {front front' back back' : List (Passage K V Q R)} {p p' : Passage K V Q R} {key key' : K}
    {fault : Nat} (htrace : trace = front ++ p :: back) (htrace' : trace = front' ++ p' :: back')
    (hplants : p.Plants key fault) (hplants' : p'.Plants key' fault) :
    p = p' ∧ back = back' := by
  -- The later one of two passages would put an old fault into a slot.
  have hnever : ∀ {early between late : List (Passage K V Q R)} {q q' : Passage K V Q R}
      {key key' : K}, trace = early ++ q :: (between ++ q' :: late) → q.Plants key fault →
      ¬ q'.Plants key' fault := by
    intro early between late q q' key key' hsplit hq hq'
    obtain ⟨hearly, hlawful, hrest⟩ := run.split hsplit
    obtain ⟨hbetween, hlawful', -⟩ := hrest.split rfl
    have hbefore := hearly.reachable_of_reachable hstart
    have hafter := Run.reachable_of_reachable hbefore (Run.rest.move hlawful)
    have hlt := hq.lt_size hlawful hbefore
    have hle := hq'.size_le hlawful' (hbetween.reachable_of_reachable hafter)
    have hgrows := hbetween.size_le
    omega
  rcases exists_of_append_eq (htrace.symm.trans htrace') with ⟨rest, rfl⟩ | ⟨gap, hgap⟩
  · have hsplit : trace = front' ++ p' :: (rest ++ p :: back) := by simp [htrace]
    exact absurd hplants (hnever hsplit hplants')
  · cases gap with
    | nil => exact List.cons.inj hgap
    | cons first gap =>
      obtain ⟨rfl, rfl⟩ := List.cons.inj hgap
      exact absurd hplants' (hnever htrace hplants)

end Runs

/-! ## Calls that are over -/

/-- A thread takes no step in the course of a trace, or takes a first one. -/
theorem exists_first_step (i : Nat) (trace : List (Passage K V Q R)) :
    (∀ q ∈ trace, q.mover ≠ some i) ∨ ∃ front q back, trace = front ++ q :: back ∧
      (∀ r ∈ front, r.mover ≠ some i) ∧ q.mover = some i := by
  cases hfirst : trace.find? (fun q => q.mover = some i) with
  | none => exact .inl (by simpa using List.find?_eq_none.mp hfirst)
  | some q =>
    obtain ⟨hq, front, back, htrace, hfront⟩ := List.find?_eq_some_iff_append.mp hfirst
    exact .inr ⟨front, q, back, htrace, by simpa using hfront, by simpa using hq⟩

namespace Invocation

variable [DecidableEq K] [DecidableEq V] {call : Invocation K V Q R} {settings : Settings K V Q R}
  {start m : Machine K V Q R} {trace front back : List (Passage K V Q R)} {p : Passage K V Q R}
  {key : K} {fault : Nat} {panic : Panic} {signal : Signal V}

/-- A look at a key is the call's own only if the call itself looks at its key. -/
theorem At.visit_eq (hat : call.At settings trace m) {operation : Operation K V Q R} {retries : Nat}
    {now : Instant} {base : List (Frame K V Q R)} {binding : Option Interrupter}
    (ht : m.threads[call.thread]? = some ⟨.keep (.visit operation retries now), base, binding⟩)
    (hattends : Thread.attends call.base.length
      (⟨.keep (.visit operation retries now), base, binding⟩ : Thread K V Q R) = true) :
    operation = call.operation ∧ base = call.base := by
  cases hat with
  | seeks ht' hseeks =>
    cases Option.some.inj (ht.symm.trans ht')
    cases hseeks
    exact ⟨rfl, rfl⟩
  | isInterrupted ht' => cases Option.some.inj (ht.symm.trans ht')
  | givesUp ht' => cases Option.some.inj (ht.symm.trans ht')
  | goesOn ht' hstack houtlook =>
    obtain rfl := Option.some.inj (ht.symm.trans ht')
    exact absurd rfl (houtlook.ne_visit hstack hattends operation retries now)

/-- When a call is over, nobody computes a fault that was put into a slot by its thread
meanwhile. -/
theorem IsOver.uncomputed (hover : call.IsOver m signal) (hstart : start.Reachable settings)
    (run : Run settings start trace m) (hspans : call.Spans start trace)
    (htrace : trace = front ++ p :: back) (hmover : p.mover = some call.thread)
    (hplants : p.Plants key fault) :
    ∀ c progress, .computes c progress ∈ m.ongoing → c.fault ≠ fault := by
  rintro c progress hmem rfl
  obtain ⟨hfront, hp, hback⟩ := run.split htrace
  have hbefore := hfront.reachable_of_reachable hstart
  have hnew := hplants.size_le hp hbefore
  obtain ⟨j, t, ht, hthread⟩ := Machine.exists_thread hmem
  by_cases hj : j = call.thread
  · -- The call has left nothing but what waited for it at its beginning.
    subst hj
    obtain ⟨⟨binding, hbegins⟩, -⟩ := hspans
    obtain ⟨binding', hended⟩ := hover
    obtain rfl := Option.some.inj (hended.symm.trans ht)
    have hbase : .computes c progress ∈ stackOngoing call.base := by
      simpa [Thread.ongoing] using hthread
    have hpending := hstart.pending hbegins (mem_faultsOf (List.mem_append_right _ hbase))
    have hlt := (Array.getElem?_eq_some_iff.mp hpending).1
    have hgrows := hfront.size_le
    omega
  · obtain ⟨t', progress', ht', hold⟩ :=
      hback.computation_of_thread (hplants.lt_size hp hbefore) ht hthread
    rcases hp.computation_of_thread ht' hold with ⟨t₀, progress₀, ht₀, hbefore'⟩ | ⟨hown, -⟩
    · have hpending := hbefore.pending ht₀ (mem_faultsOf hbefore')
      have hlt := (Array.getElem?_eq_some_iff.mp hpending).1
      omega
    · exact hj (Option.some.inj (hown.symm.trans hmover))

omit [DecidableEq K] [DecidableEq V] in
theorem exists_thread_of_isOwn (hown : call.isOwn p = true) :
    p.mover = some call.thread ∧ ∃ t, p.before.threads[call.thread]? = some t ∧
      t.attends call.base.length = true := by
  rw [isOwn, Bool.and_eq_true, decide_eq_true_eq] at hown
  obtain ⟨hmover, hattends⟩ := hown
  obtain ⟨t, ht, hattends⟩ := (Option.any_eq_true _ _).mp hattends
  rw [Passage.thread?, hmover, Option.bind_some] at ht
  exact ⟨hmover, t, ht, hattends⟩

/-- A fault of a call that is over is resolved, unless the call has abandoned it. -/
theorem abandons_of_unresolved (hstart : start.Reachable settings)
    (run : Run settings start trace m) (hspans : call.Spans start trace)
    (hover : call.IsOver m signal) (htrace : trace = front ++ p :: back)
    (hown : call.isOwn p = true) (hplants : p.Plants key fault)
    (hunresolved : m.world.store.resolution? fault = none) :
    ∃ panic, call.Abandons settings p back key panic := by
  obtain ⟨hmover, t, ht, hattends⟩ := exists_thread_of_isOwn hown
  obtain ⟨hfront, hp, hback⟩ := run.split htrace
  have hbefore := hfront.reachable_of_reachable hstart
  have hafter := Run.reachable_of_reachable hbefore (Run.rest.move hp)
  obtain ⟨c, hbegun, rfl, rfl⟩ := hplants.computation hp hbefore
  rcases hback.computation_goes hafter hbegun with
    ⟨progress, hgoing⟩ | ⟨resolution, hresolved⟩ | ⟨between, r, rest, rfl, hdrops⟩
  · exact absurd rfl (hover.uncomputed hstart run hspans htrace hmover hplants c progress hgoing)
  · cases hunresolved.symm.trans hresolved
  -- The panic is followed back to the section that has put the computation off.
  obtain ⟨t', panic, a, below, progress, hthread, hraised, htop, hmem⟩ := hdrops
  obtain ⟨i, -, ht'⟩ := Option.bind_eq_some_iff.mp hthread
  obtain ⟨hbetween, -, -⟩ := hback.split rfl
  obtain ⟨origin, past, hfresh, hpast⟩ := hstart
  have hrun : Run settings origin (past ++ (front ++ p :: between)) r.before := by
    have hopening := hpast.append ((hfront.move hp).append hbetween)
    simpa using hopening
  obtain ⟨operation, h, early, p', gap, q, since, hsplit, hputsOff, hrests, hq, hfails⟩ :=
    hrun.putsOff hfresh ht' hraised htop hmem
  have hsplit' : past ++ (front ++ p :: between) = (past ++ front) ++ p :: between := by simp
  obtain ⟨rfl, rfl⟩ := hrun.plants_once ⟨origin, [], hfresh, .rest⟩ hsplit' hsplit hplants
    hputsOff.plants
  obtain rfl := Option.some.inj (hmover.symm.trans hputsOff.mover)
  exact ⟨panic, hputsOff.findsExpired, h, gap, q, since ++ r :: rest, by simp, hrests, hq, hfails⟩

/-- The call that has found an expired value puts the computation of its fault off. -/
theorem putsOff_of_findsExpired (hfront : Run settings start front p.before)
    (hspans : call.Spans start front) (hp : p.Lawful settings)
    (hm : p.before.Reachable settings) (hown : call.isOwn p = true) (hplants : p.Plants key fault)
    (hexpired : p.FindsExpired key) :
    ∃ c h, c.key = key ∧ c.fault = fault ∧
      p.PutsOff call.operation call.thread call.base c h := by
  obtain ⟨hmover, t, ht, hattends⟩ := exists_thread_of_isOwn hown
  obtain ⟨operation, retries, now, h, hstage, hkey, hcomputes, hstale⟩ := hexpired
  obtain ⟨i, ⟨_, stack, binding⟩, hi, ht', hactivity⟩ := Passage.keep_of_stage? hstage
  obtain rfl := Option.some.inj (hmover.symm.trans hi)
  obtain rfl := Option.some.inj (ht.symm.trans ht')
  obtain rfl : _ = Activity.keep _ := hactivity
  obtain ⟨rfl, rfl⟩ := (at_of_run hfront hspans).visit_eq ht hattends
  obtain ⟨draws, turn, hturn, hstore, hthread, -⟩ := hp.own_turn hmover ht rfl
  obtain rfl := Option.some.inj hturn
  obtain ⟨c, rfl, hdisplaces⟩ := Store.displaces_of_visit settings retries hkey hcomputes hstale
  have hslot : p.after.slot? c.key = some (.fault c.fault) := by
    rw [Machine.slot?, hstore]
    exact hdisplaces.slot hm.accounted.map.valid
  obtain rfl : c.fault = fault :=
    Slot.fault.inj (Option.some.inj (hslot.symm.trans hplants.slot))
  obtain ⟨_, _, _, h', hvisit, -, -, hstale', hnext⟩ := hdisplaces.visits
  obtain ⟨-, -, rfl⟩ := Stage.visit.inj hvisit
  obtain rfl := Look.stale.inj (hstale.symm.trans hstale')
  rw [hnext, hdisplaces.frames] at hthread
  exact ⟨c, h, rfl, rfl, hmover, hkey, hcomputes, hplants, retries, now, binding, hstale, ht,
    hthread⟩

/-- A call that has got a panic for a computation that it has put off gives the computation up and
ends with the panic, and takes no other step. -/
theorem IsOver.of_raised {c : Computation K V Q R} {binding : Option Interrupter}
    (hover : call.IsOver m signal) (run : Run settings start trace m)
    (ht : start.threads[call.thread]? =
      some ⟨.settle (.raised panic), .next (.keep (.own c)) :: call.base, binding⟩)
    (hwithin : ∀ q ∈ trace, q.mover = some call.thread → ∀ t,
      q.before.threads[call.thread]? = some t → t.stack = call.base → ∀ signal,
        t.activity ≠ .settle signal) :
    signal = .raised panic ∧ (∃ early r late, trace = early ++ r :: late ∧ r.Drops c) ∧
      ∀ x ∈ trace, x.mover = some call.thread →
        x.after.world.store.map = x.before.world.store.map := by
  obtain ⟨binding', hended⟩ := hover
  rcases exists_first_step call.thread trace with hnone | ⟨early, r, late, rfl, hearly, hr⟩
  · have hstill := run.thread_eq hnone ht
    obtain ⟨-, hstack, -⟩ := Thread.mk.inj (Option.some.inj (hended.symm.trans hstill))
    exact absurd hstack.symm (List.cons_ne_self _ _)
  obtain ⟨hto, hrLawful, hlate⟩ := run.split rfl
  have ht' := hto.thread_eq hearly ht
  obtain ⟨chance, step, hstep, hworld, hleft, -⟩ := hrLawful.own_step hr ht'
  obtain rfl := Thread.receive_of_step rfl rfl hstep
  -- The call is over then, so its thread does not move any more.
  have hlast : ∀ x ∈ late, x.mover ≠ some call.thread := by
    rcases exists_first_step call.thread late with hnone | ⟨gap, x, rest, rfl, hgap, hx⟩
    · exact hnone
    · obtain ⟨hmoved, -, -⟩ := hlate.split rfl
      have hstill := hmoved.thread_eq hgap hleft
      exact absurd rfl (hwithin x (by simp) hx _ hstill rfl (.raised panic))
  have hstill := hlate.thread_eq hlast hleft
  obtain ⟨hsettled, -, -⟩ := Thread.mk.inj (Option.some.inj (hended.symm.trans hstill))
  refine ⟨Activity.settle.inj hsettled, ⟨early, r, late, rfl, ?_⟩, fun x hx hmover => ?_⟩
  · exact ⟨_, panic, _, _, .begun, Passage.thread?_eq hr ht', rfl, rfl, List.mem_singleton.mpr rfl⟩
  · rcases List.mem_append.mp hx with hx | hx
    · exact absurd hmover (hearly x hx)
    rcases List.mem_cons.mp hx with rfl | hx
    · rw [hworld]
      rfl
    · exact absurd hmover (hlast x hx)

/-- A call that has abandoned a computation ends with the panic of the copying, and writes no slot
on the way there. -/
theorem Abandons.course {c : Computation K V Q R} {h : Holder V}
    (habandons : call.Abandons settings p back c.key panic)
    (hputsOff : p.PutsOff call.operation call.thread call.base c h)
    (hback : Run settings p.after back m)
    (hwithin : ∀ q ∈ back, q.mover = some call.thread → ∀ t,
      q.before.threads[call.thread]? = some t → t.stack = call.base → ∀ signal,
        t.activity ≠ .settle signal) (hover : call.IsOver m signal) :
    signal = .raised panic ∧ (∃ early r late, back = early ++ r :: late ∧ r.Drops c) ∧
      ∀ x ∈ back, x.mover = some call.thread →
        x.after.world.store.map = x.before.world.store.map := by
  obtain ⟨-, h', between, q, since, rfl, hrests, hq, hfails⟩ := habandons
  obtain ⟨retries, now, binding, -, -, hputs⟩ := hputsOff.visits
  obtain ⟨hbetween, hqLawful, hsince⟩ := hback.split rfl
  have ht := hbetween.thread_eq hrests hputs
  have hstage := hfails.reports.symm.trans (Passage.stage?_of_keep hq ht rfl)
  obtain ⟨-, rfl, -⟩ := Stage.report.inj (Option.some.inj hstage)
  obtain ⟨hraised, hmap⟩ := hfails.raises hqLawful hq ht
  obtain ⟨hends, ⟨early, r, late, rfl, hdrops⟩, hspared⟩ := hover.of_raised hsince hraised
    fun x hx => hwithin x (List.mem_append_right _ (List.mem_cons_of_mem _ hx))
  refine ⟨hends, ⟨between ++ q :: early, r, late, by simp, hdrops⟩, fun x hx hmover => ?_⟩
  rcases List.mem_append.mp hx with hx | hx
  · exact absurd hmover (hrests x hx)
  rcases List.mem_cons.mp hx with rfl | hx
  · exact hmap
  · exact hspared x hx hmover

/-- By the time a call is over, it has disposed of every fault that it has put into a slot. -/
theorem disposes (hstart : start.Reachable settings) (run : Run settings start trace m)
    (hspans : call.Spans start trace) (hover : call.IsOver m signal)
    (htrace : trace = front ++ p :: back) (hown : call.isOwn p = true)
    (hplants : p.Plants key fault) : call.Disposes settings p back m signal key fault := by
  obtain ⟨hfront, hp, hback⟩ := run.split htrace
  have hm := run.reachable_of_reachable hstart
  have hbefore := hfront.reachable_of_reachable hstart
  have hafter := Run.reachable_of_reachable hbefore (Run.rest.move hp)
  have hspans' : call.Spans start front :=
    ⟨hspans.begins, fun s hs => hspans.within s (htrace ▸ List.mem_append_left _ hs)⟩
  have hunresolved :=
    abandons_of_unresolved hstart run hspans hover htrace hown hplants
  have hcourse : ∀ panic, call.Abandons settings p back key panic →
      signal = .raised panic ∧ m.Forgets fault ∧ ∀ x ∈ back, x.mover = some call.thread →
        x.after.world.store.map = x.before.world.store.map := by
    intro panic habandons
    obtain ⟨c, h, rfl, rfl, hputsOff⟩ :=
      putsOff_of_findsExpired hfront hspans' hp hbefore hown hplants habandons.1
    obtain ⟨hends, ⟨early, r, late, rfl, hdrops⟩, hspared⟩ := habandons.course hputsOff hback
      (fun q hq => hspans.within q (htrace ▸ List.mem_append_right _ (List.mem_cons_of_mem _ hq)))
      hover
    obtain ⟨hearly, hr, hlate⟩ := hback.split rfl
    have hforgets := (hdrops.forgets hr (hearly.reachable_of_reachable hafter)).1
    exact ⟨hends, hlate.forgets hforgets, hspared⟩
  constructor
  case unresolved_iff =>
    constructor
    · exact hunresolved
    · rintro ⟨panic, habandons⟩
      exact (hcourse panic habandons).2.1.unresolved
  case slots =>
    intro other hslot
    refine ⟨?_, hunresolved (hm.unresolved_of_fault hslot)⟩
    obtain ⟨c, hbegun, rfl, rfl⟩ := hplants.computation hp hbefore
    have hlt := hplants.lt_size hp hbefore
    exact hafter.key_eq_of_fault hbegun (hback.slot_of_fault hafter hlt hslot).1
  case ends => exact fun panic habandons => (hcourse panic habandons).1
  case stays =>
    intro panic habandons hothers
    obtain ⟨-, -, hspared⟩ := hcourse panic habandons
    have hsame : ∀ q ∈ back, q.after.slot? key = q.before.slot? key := by
      intro q hq
      by_cases hmover : q.mover = some call.thread
      · rw [Machine.slot?, hspared q hq hmover]
        rfl
      · exact hothers q hq (not_isOwn_of_mover hmover)
    exact (hback.kept (fun m => m.slot? key) hsame).trans hplants.slot
  case blocks =>
    intro panic habandons later m' hlater
    obtain ⟨huncomputed, -, hpending⟩ := hlater.forgets (hcourse panic habandons).2.1
    refine ⟨huncomputed, fun operation retries now draws => ?_⟩
    simp [Stage.turn, hpending]

end Invocation

/-- Whatever panic leaves a call, the call leaves no fault of its own behind, except where the value
of an expired entry cannot be copied for the listener. -/
theorem Run.clearsUp [DecidableEq K] [DecidableEq V] {settings : Settings K V Q R}
    {start m : Machine K V Q R} {trace : List (Passage K V Q R)} {call : Invocation K V Q R}
    {signal : Signal V} (hstart : start.Reachable settings) (run : Run settings start trace m)
    (hspans : call.Spans start trace) (hover : call.IsOver m signal) :
    call.ClearsUp settings trace m signal := by
  obtain ⟨-, hbalanced, -⟩ := (run.reachable_of_reachable hstart).accounted.map
  constructor
  case faults => exact Invocation.disposes hstart run hspans hover
  case entryCount => rw [hbalanced.entryCount, EntryMap.length_entries]
  case weightedSize => rw [hbalanced.weightedSize, EntryMap.sum_weight_entries]

/-! ## A value that cannot be copied for the listener -/

/-- The fault that a thread waits for. -/
def Thread.awaited? (t : Thread K V Q R) : Option Nat :=
  match t.activity with
  | .keep (.await _ _ fault) => some fault
  | _ => none

/-- A store with a listener, whose entries live for ten nanoseconds and whose values cannot be
copied. -/
def brittleSettings : Settings Nat Nat Unit Unit :=
  { plainSettings with
    expiry := some ((Lifetime.mk (some (.ofNanos 10)) none).expiry Nat Nat)
    listener := some fun _ _ _ => .finish .unit
    copyOut := fun _ => .error .silent }

/-- The computation of a key whose value has expired. -/
def orphaningCall : Invocation Nat Nat Unit Unit :=
  ⟨0, [.calling .finish], .compute 1 fun _ _ => .finish (.value (some 6))⟩

/-- A value is put and expires, and the key is about to be computed again; another thread is about
to ask for the key. -/
def orphaningOpening : List (Move Nat Nat Unit Unit) :=
  .spawn (.call (.put 1 5) fun _ => .call orphaningCall.operation .finish) ::
    stepsOf 0 6 ++ .advance (.ofNanos 10) :: .spawn (.call (.get 1) .finish) :: stepsOf 0 1

/-- The call ends in a panic, and the fault that it leaves in the slot keeps the other thread
waiting for a computation that nobody is in the middle of. -/
theorem orphaned_for_good : ∃ (start m : Machine Nat Nat Unit Unit)
    (trace : List (Passage Nat Nat Unit Unit)),
    start.Reachable brittleSettings ∧ Run brittleSettings start trace m ∧
      orphaningCall.Spans start trace ∧ orphaningCall.IsOver m (.raised .silent) ∧
      orphaningCall.ClearsUp brittleSettings trace m (.raised .silent) ∧
      start.slot? 1 ≠ some (.fault 0) ∧ m.slot? 1 = some (.fault 0) ∧
      faultsOf m.ongoing = [] ∧ m.threads[1]?.bind Thread.awaited? = some 0 := by
  have hfacts : (Machine.replayFrom brittleSettings orphaningOpening
      (stepsOf 0 4 ++ stepsOf 1 3)).map (fun run =>
        ((run.1.threads[0]?, run.2.2.threads[0]?, run.2.1.all orphaningCall.outlasts),
          (run.1.slot? 1, run.2.2.slot? 1),
          (faultsOf run.2.2.ongoing, run.2.2.threads[1]?.bind Thread.awaited?))) =
      some ((some ⟨.keep (.round orphaningCall.operation 0), orphaningCall.base, none⟩,
          some ⟨.settle (.raised .silent), orphaningCall.base, none⟩, true),
        (some (.holder ⟨0, 5, Clock.start.now, 1⟩), some (.fault 0)), ([], some 0)) := rfl
  obtain ⟨⟨start, trace, m⟩, hreplay, hall⟩ := Option.map_eq_some_iff.mp hfacts
  obtain ⟨hcall, hrest⟩ := Prod.mk.inj hall
  obtain ⟨hbegins, hcall⟩ := Prod.mk.inj hcall
  obtain ⟨hended, houtlasts⟩ := Prod.mk.inj hcall
  obtain ⟨hslots, hwaits⟩ := Prod.mk.inj hrest
  obtain ⟨hbefore, hafter⟩ := Prod.mk.inj hslots
  obtain ⟨hnobody, hwaits⟩ := Prod.mk.inj hwaits
  obtain ⟨hstart, run⟩ := Machine.run_of_replayFrom hreplay
  have hspans := Invocation.spans_of_outlasts hbegins houtlasts
  exact ⟨start, m, trace, hstart, run, hspans, ⟨none, hended⟩,
    Run.clearsUp hstart run hspans ⟨none, hended⟩, by simp [hbefore], hafter, hnobody, hwaits⟩

end SharedCache
