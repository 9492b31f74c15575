import SharedCache.Proofs.Answers
import SharedCache.Proofs.Deferral
import SharedCache.Proofs.Register

/-!
# Serial updates

Operations that wait for computations are serialised, whatever the interleaving: the acts of any run
that nothing disturbs are those of a register that is used by one operation after another.  The
register shows what every update finds and leaves.  A mapping function runs while no lock is held,
so all rests on the fault in the slot: as long as it is there, exactly one computation of the key is
in progress, and what it was shown is still what the last update has left.
-/

namespace SharedCache

variable {K V Q R : Type} [DecidableEq K]

/-- What the passages of a run do about a key, one after another. -/
def history (settings : Settings K V Q R) (key : K) (trace : List (Passage K V Q R)) :
    List (Act K V Q R) :=
  trace.filterMap (Passage.act? settings key)

/-! ## One passage -/

/-- Where nothing is put off about a key, nothing about it is dropped. -/
theorem Passage.not_concerns_of_dropped {key : K} {p : Passage K V Q R} {t : Thread K V Q R}
    {a : Activity K V Q R} {rest : List (Frame K V Q R)} (ht : p.thread? = some t)
    (hstack : t.stack = .next a :: rest)
    (hdeferred : ∀ o ∈ p.before.deferred, o.concerns key = false) :
    a.ongoing.filter (Ongoing.concerns key) = [] := by
  apply List.filter_eq_nil_iff.mpr
  intro o ho
  obtain ⟨i, -, hi⟩ := Option.bind_eq_some_iff.mp ht
  have hmem : o ∈ p.before.deferred := by
    refine List.mem_flatMap.mpr ⟨t, by simpa using Array.mem_of_getElem? hi, ?_⟩
    rw [hstack, stackDeferred_cons]
    exact List.mem_append_left _ ho
  simp [hdeferred o hmem]

namespace Register

variable [DecidableEq V] {settings : Settings K V Q R} {key : K} {p : Passage K V Q R}
  {r r' : Register K V Q R} {front old new back : List (Ongoing K V Q R)}

/-- A register takes the act of a passage, if there is one. -/
def Follows (settings : Settings K V Q R) (key : K) (r : Register K V Q R)
    (act : Option (Act K V Q R)) (r' : Register K V Q R) : Prop :=
  match act with
  | none => r' = r
  | some act => r.Step settings key act r'

/-- A register that still shows the slot and the computation of the key, and forgets nothing. -/
theorem Describes.goesOn (hr : r.Describes key p.before) (hp : p.Lawful settings)
    (hbefore : p.before.concerning key = front ++ old ++ back)
    (hafter : p.after.concerning key = front ++ new ++ back)
    (hstate : Matches key p.after r'.content r'.busy)
    (hundecided : r'.undecided = front.filterMap Ongoing.pending? ++
      new.filterMap Ongoing.pending? ++ back.filterMap Ongoing.pending?)
    (hknows : ∀ fault, r.Knows fault → r'.Knows fault)
    (hwaits : ∀ operation fault, .awaits operation fault ∈ new → r'.Knows fault)
    (hsettled : ∀ fault verdict, (fault, verdict) ∈ r'.settled → (fault, verdict) ∈ r.settled ∨
      ∃ resolution, p.after.world.store.resolution? fault = some resolution ∧
        resolution.verdict = verdict) : r'.Describes key p.after := by
  refine ⟨hstate, ?_, fun operation fault hmem => ?_, fun fault verdict hmem => ?_⟩
  · simp [hundecided, Machine.undecided, hafter]
  · rw [hafter, List.append_assoc, List.mem_append, List.mem_append] at hmem
    rcases hmem with hfront | hnew | hback
    · exact hknows fault (hr.waiting operation fault (by simp [hbefore, hfront]))
    · exact hwaits operation fault hnew
    · exact hknows fault (hr.waiting operation fault (by simp [hbefore, hback]))
  · rcases hsettled fault verdict hmem with hold | hnew
    · obtain ⟨resolution, hresolved, htold⟩ := hr.settled fault verdict hold
      exact ⟨resolution, hp.resolution? hresolved, htold⟩
    · exact hnew

/-- A passage that leaves the slot and the computations of the key alone. -/
theorem Describes.quiet (hr : r.Describes key p.before) (hp : p.Lawful settings)
    (hbefore : p.before.concerning key = front ++ old ++ back)
    (hafter : p.after.concerning key = front ++ new ++ back)
    (hslot : p.after.slot? key = p.before.slot? key)
    (hold : old.filterMap Ongoing.computation? = [])
    (hnew : new.filterMap Ongoing.computation? = [])
    (hwaits : ∀ operation fault, .awaits operation fault ∈ new → r.Knows fault) :
    Describes key p.after ⟨r.content, r.busy, r.settled, front.filterMap Ongoing.pending? ++
      new.filterMap Ongoing.pending? ++ back.filterMap Ongoing.pending?⟩ := by
  have hcomputing : p.after.computing key = p.before.computing key := by
    simp [Machine.computing, hbefore, hafter, hold, hnew]
  exact hr.goesOn hp hbefore hafter (hr.state.congr hslot hcomputing) rfl (fun _ => id) hwaits
    fun _ _ => .inl

/-- A passage with which the computation of the key goes on. -/
theorem Describes.progresses {c : Computation K V Q R} {progress progress' : Progress V}
    {headway : Headway V} (hr : r.Describes key p.before) (hp : p.Lawful settings)
    (hbefore : p.before.concerning key = front ++ [.computes c progress] ++ back)
    (hafter : p.after.concerning key = front ++ [.computes c progress'] ++ back)
    (hslot : p.after.slot? key = p.before.slot? key) (hfits : headway.Fits c progress') :
    Describes key p.after ⟨r.content, some (c.fault, headway), r.settled, r.undecided⟩ := by
  obtain ⟨hfront, hback, hfault, hcontent, headway', hbusy, -⟩ := hr.state.of_computes hbefore
  refine hr.goesOn hp hbefore hafter ?_ ?_ (fun fault hknows => ?_) (by simp) fun _ _ => .inl
  · rw [hcontent]
    refine .busy (hslot.trans hfault) ?_ hfits
    simp [Machine.computing, hafter, hfront, hback, Ongoing.computation?]
  · rw [hr.undecided]
    simp [Machine.undecided, hbefore, List.filterMap_cons, Ongoing.pending?]
  · rcases hknows.of_busy hbusy with rfl | hsettled
    · exact .inl ⟨headway, rfl⟩
    · exact .inr hsettled

/-- A passage that begins a computation of the key where there was none. -/
theorem Describes.begins {operation : Operation K V Q R} {c : Computation K V Q R}
    (hr : r.Describes key p.before) (hp : p.Lawful settings)
    (hbefore : p.before.concerning key = front ++ [.seeks operation] ++ back)
    (hafter : p.after.concerning key = front ++ [.computes c .begun] ++ back)
    (hfront : front.filterMap Ongoing.computation? = [])
    (hback : back.filterMap Ongoing.computation? = [])
    (hslot : p.after.slot? key = some (.fault c.fault)) (hbusy : r.busy = none)
    (hcontent : r.content = c.previous.map Holder.value) :
    Describes key p.after ⟨r.content, some (c.fault, .begun), r.settled,
      front.filterMap Ongoing.pending? ++ back.filterMap Ongoing.pending?⟩ := by
  refine hr.goesOn hp hbefore hafter ?_ ?_ (fun fault hknows => .inr (hknows.of_idle hbusy))
    (by simp) fun _ _ => .inl
  · rw [hcontent]
    refine .busy hslot ?_ rfl
    simp [Machine.computing, hafter, hfront, hback, Ongoing.computation?]
  · simp [List.filterMap_cons, Ongoing.pending?]

/-- A passage that leaves a slot without a fault and no computation of the key. -/
theorem Describes.comesToRest {settled : List (Nat × Verdict V)} (hr : r.Describes key p.before)
    (hp : p.Lawful settings) (hbefore : p.before.concerning key = front ++ old ++ back)
    (hafter : p.after.concerning key = front ++ back)
    (hfront : front.filterMap Ongoing.computation? = [])
    (hback : back.filterMap Ongoing.computation? = [])
    (hfree : ∀ fault, p.after.slot? key ≠ some (.fault fault))
    (hknows : ∀ fault, r.Knows fault → ∃ verdict, (fault, verdict) ∈ settled)
    (hsettled : ∀ fault verdict, (fault, verdict) ∈ settled → (fault, verdict) ∈ r.settled ∨
      ∃ resolution, p.after.world.store.resolution? fault = some resolution ∧
        resolution.verdict = verdict) :
    Describes key p.after ⟨p.after.content? key, none, settled,
      front.filterMap Ongoing.pending? ++ back.filterMap Ongoing.pending?⟩ := by
  have hgone : p.after.concerning key = front ++ [] ++ back := by simpa using hafter
  refine hr.goesOn hp hbefore hgone (.idle hfree ?_) (by simp)
    (fun fault hknown => .inr (hknows fault hknown)) (by simp) hsettled
  simp [Machine.computing, hafter, hfront, hback]

/-- A new computation has a fault that no other one has had. -/
theorem Describes.fresh {c : Computation K V Q R} {progress : Progress V}
    (hr : r.Describes key p.before) (hp : p.Lawful settings)
    (howned : Owned p.after.world.store p.after.ongoing)
    (hafter : p.after.concerning key = front ++ [.computes c progress] ++ back) :
    ∀ verdict, (c.fault, verdict) ∉ r.settled := by
  intro verdict hmem
  obtain ⟨resolution, hresolved, -⟩ := hr.settled c.fault verdict hmem
  have hpending := howned.pending _ (mem_faultsOf (Machine.mem_ongoing hafter))
  have hstill := hp.resolution? hresolved
  rw [Store.resolution?, hpending] at hstill
  cases hstill

/-- A passage that ends the computation of the key. -/
theorem Describes.ends {c : Computation K V Q R} {left : Option (Holder V)}
    {resolution : Resolution V} {signal : Signal V} (hr : r.Describes key p.before)
    (hp : p.Lawful settings) (howned : Owned p.before.world.store p.before.ongoing)
    (hbefore : p.before.concerning key =
      front ++ [.computes c (.leaving left resolution signal)] ++ back)
    (hafter : p.after.concerning key = front ++ back)
    (hslot : p.after.slot? key = left.map Slot.holder)
    (hfaults : p.after.world.store.faults =
      (p.before.world.store.resolve c.fault resolution).faults) :
    Describes key p.after ⟨p.after.content? key, none,
      (c.fault, resolution.verdict) :: r.settled,
      front.filterMap Ongoing.pending? ++ back.filterMap Ongoing.pending?⟩ := by
  obtain ⟨hfront, hback, -, -, headway, hbusy, -⟩ := hr.state.of_computes hbefore
  have hpending := howned.pending _ (mem_faultsOf (Machine.mem_ongoing hbefore))
  refine hr.comesToRest hp hbefore hafter hfront hback (fun fault => ?_)
    (fun fault hknows => ?_) fun fault verdict hmem => ?_
  · rw [hslot]
    cases left <;> simp
  · rcases hknows.of_busy hbusy with rfl | ⟨verdict, hmem⟩
    · exact ⟨_, List.mem_cons_self⟩
    · exact ⟨verdict, List.mem_cons_of_mem _ hmem⟩
  · rcases List.mem_cons.mp hmem with hfirst | hrest
    · obtain ⟨rfl, rfl⟩ := Prod.mk.inj hfirst
      exact .inr ⟨resolution, Store.resolution?_resolve hpending hfaults, rfl⟩
    · exact .inl hrest

/-- Every passage that does not disturb the key is one that the register follows. -/
theorem Describes.follows (hr : r.Describes key p.before) (hp : p.Lawful settings)
    (hvalid : p.before.world.store.map.Valid)
    (howned : Owned p.before.world.store p.before.ongoing)
    (howned' : Owned p.after.world.store p.after.ongoing)
    (hdeferred : ∀ o ∈ p.before.deferred, o.concerns key = false) (hcalm : ¬ p.Disturbs key) :
    ∃ r', r.Follows settings key (p.act? settings key) r' ∧ r'.Describes key p.after := by
  obtain ⟨front, old, new, back, hbefore, hafter, haffair⟩ := hp.affair hvalid key
  have hundecided : r.undecided = front.filterMap Ongoing.pending? ++
      old.filterMap Ongoing.pending? ++ back.filterMap Ongoing.pending? := by
    rw [hr.undecided]
    simp [Machine.undecided, hbefore]
  have hquiet := hr.quiet hp hbefore hafter
  -- What the register knows about a fault that an operation has waited for.
  have hwaited : ∀ {operation fault}, old = [.awaits operation fault] →
      .awaits operation fault ∈ p.before.concerning key := fun hold => by simp [hbefore, hold]
  have hsettled : ∀ {operation fault resolution}, old = [.awaits operation fault] →
      p.before.world.store.resolution? fault = some resolution →
      (fault, resolution.verdict) ∈ r.settled := fun hold hresolved =>
    hr.mem_settled howned (hwaited hold) hresolved
  have hpending : ∀ {operation fault}, old = [.awaits operation fault] →
      p.before.world.store.resolution? fault = none → ∃ headway, r.busy = some (fault, headway) :=
    fun hold hnone => hr.busy_of_pending (hwaited hold) hnone
  obtain ⟨content, busy, settled, undecided⟩ := r
  dsimp only at hundecided hquiet hsettled hpending
  subst hundecided
  generalize p.act? settings key = act at haffair
  cases haffair with
  | idle hslot => exact ⟨_, rfl, hquiet hslot rfl rfl (by simp)⟩
  | looks hslot => exact ⟨_, rfl, hquiet hslot rfl rfl (by simp)⟩
  | called hconcerns hslot =>
    refine ⟨_, ?_, hquiet hslot rfl rfl (by simp)⟩
    simpa [Follows, Ongoing.pending?] using Step.called
  | disturbed hdisturbs => exact absurd hdisturbs hcalm
  | @waits operation fault hfault hslot =>
    obtain ⟨headway, rfl⟩ := hr.state.of_fault hfault
    refine ⟨_, ?_, hquiet hslot rfl rfl fun found fault' hmem => ?_⟩
    · simpa [Follows, Ongoing.pending?] using Step.waited
    · obtain ⟨rfl, rfl⟩ := Ongoing.awaits.inj (List.mem_singleton.mp hmem)
      exact .inl ⟨headway, rfl⟩
  | @resumes operation fault resolution hresolved hheeds hslot =>
    refine ⟨_, ?_, hquiet hslot rfl rfl (by simp)⟩
    simpa [Follows, Ongoing.pending?] using Step.again (hsettled rfl hresolved) hheeds
  | @shares operation fault resolution reply hresolved hheeds hslot =>
    refine ⟨_, ?_, hquiet hslot rfl rfl (by simp)⟩
    simpa [Follows, Ongoing.pending?] using Step.shared (hsettled rfl hresolved) hheeds
  | @givesUp operation fault error hwhy hslot =>
    refine ⟨_, ?_, hquiet hslot rfl rfl (by simp)⟩
    rcases hwhy with ⟨rfl, hnone⟩ | ⟨n, rfl, hout, hresolved⟩
    · obtain ⟨headway, rfl⟩ := hpending rfl hnone
      simpa [Follows, Ongoing.pending?] using Step.interrupted
    · simpa [Follows, Ongoing.pending?] using Step.abandoned (hsettled rfl hresolved) hout
  | @decides operation hfree hcomputes hwhy =>
    obtain ⟨rfl, rfl, hnone⟩ := hr.state.of_free hfree
    rcases hwhy with ⟨hgives, hslot⟩ | ⟨value, h, hgives, hcopy, hslot⟩
    · have hcontent : p.after.content? key = p.before.content? key := by
        rw [Machine.content?, Machine.content?, hslot]
      refine ⟨_, ?_, hquiet hslot rfl rfl (by simp)⟩
      rw [hcontent]
      simpa [Follows, Ongoing.pending?] using Step.keeps hgives hcomputes
    · obtain ⟨hfront, hback⟩ := parts_of_not_computing hbefore hnone
      have hcontent : p.after.content? key = some h.value := by
        rw [Machine.content?, hslot]
        rfl
      refine ⟨_, ?_, hr.comesToRest hp hbefore (by simpa using hafter) hfront hback
        (by simp [hslot]) (fun fault hknows => hknows.of_idle rfl) fun _ _ => .inl⟩
      rw [hcontent]
      simpa [Follows, Ongoing.pending?] using Step.writes hgives hcopy
  | crashes hfree hgives hbalks hslot =>
    obtain ⟨rfl, rfl, -⟩ := hr.state.of_free hfree
    refine ⟨_, ?_, hquiet hslot rfl rfl (by simp)⟩
    simpa [Follows, Ongoing.pending?] using Step.crashed hgives hbalks
  | @begins operation c hkey hc hfree hslot hwhy =>
    obtain ⟨rfl, rfl, hnone⟩ := hr.state.of_free hfree
    obtain ⟨hprevious, hcomputes⟩ := hwhy hcalm
    obtain ⟨hfront, hback⟩ := parts_of_not_computing hbefore hnone
    refine ⟨_, ?_, hr.begins hp hbefore hafter hfront hback hslot rfl hprevious.symm⟩
    have hfresh := hr.fresh hp howned' hafter
    simpa [Follows, Ongoing.pending?] using Step.began hcomputes hfresh
  | @maps c current hshows hslot =>
    obtain ⟨-, -, -, rfl, headway, rfl, hfits⟩ := hr.state.of_computes hbefore
    obtain rfl := hfits.begun
    have hrunning : (Headway.running : Headway V).Fits c .running := rfl
    exact ⟨_, .mapped hshows, hr.progresses hp hbefore hafter hslot hrunning⟩
  | @unwinds c panic hbalks hslot =>
    obtain ⟨-, -, -, rfl, headway, rfl, hfits⟩ := hr.state.of_computes hbefore
    obtain rfl := hfits.begun
    have hunwinding : (Headway.unwinding panic).Fits c
        (.leaving c.previous .retry (.raised panic)) := rfl
    exact ⟨_, .unshown hbalks, hr.progresses hp hbefore hafter hslot hunwinding⟩
  | @returns c signal hslot =>
    obtain ⟨-, -, -, rfl, headway, rfl, hfits⟩ := hr.state.of_computes hbefore
    obtain rfl := hfits.running
    have hreturned : (Headway.returned signal).Fits c (c.progress signal) := rfl
    exact ⟨_, .returned, hr.progresses hp hbefore hafter hslot hreturned⟩
  | @composes c value copy h hin hout hslot =>
    obtain ⟨-, -, -, rfl, headway, rfl, hfits⟩ := hr.state.of_computes hbefore
    obtain rfl := hfits.given
    have hcomposed : (Headway.composed h.value copy).Fits c
        (.leaving (some h) (.ready h) (.done (.value (some copy)))) := ⟨h, rfl, rfl⟩
    exact ⟨_, .composed hin hout, hr.progresses hp hbefore hafter hslot hcomposed⟩
  | @balks c value panic hbalks hslot =>
    obtain ⟨-, -, -, rfl, headway, rfl, hfits⟩ := hr.state.of_computes hbefore
    obtain rfl := hfits.given
    have hunwinding : (Headway.unwinding panic).Fits c
        (.leaving c.previous .retry (.raised panic)) := rfl
    exact ⟨_, .uncomposed hbalks, hr.progresses hp hbefore hafter hslot hunwinding⟩
  | @ends c left resolution signal hslot hfaults =>
    obtain ⟨-, -, hfault, rfl, headway, rfl, hfits⟩ := hr.state.of_computes hbefore
    rw [if_pos hfault] at hslot
    have hcontent : p.after.content? key = left.map Holder.value := by
      rw [Machine.content?, hslot]
      cases left <;> rfl
    have hrests := hr.ends hp howned hbefore (by simpa using hafter) hslot hfaults
    rw [hcontent] at hrests ⊢
    refine ⟨_, ?_, hrests⟩
    simpa [Follows, List.filterMap_cons, Ongoing.pending?] using Step.ended hfits.closes
  | @drops t a rest ht hstack hslot =>
    have hnone := Passage.not_concerns_of_dropped ht hstack hdeferred
    rw [hnone] at hquiet ⊢
    exact ⟨_, rfl, hquiet hslot rfl rfl (by simp)⟩

end Register

/-! ## Runs -/

section Run

variable {settings : Settings K V Q R} {start m : Machine K V Q R} {key : K}
  {trace : List (Passage K V Q R)}

/-- At rest nothing is put off about the key. -/
theorem Machine.AtRest.deferred [DecidableEq V] (hrest : m.AtRest key)
    (hm : m.Reachable settings) : ∀ o ∈ m.deferred, o.concerns key = false := by
  intro o ho
  obtain ⟨c, rfl⟩ := hm.deferred o ho
  by_contra hconcerns
  have hongoing : .computes c .begun ∈ m.ongoing := by
    obtain ⟨t, ht, hmem⟩ := List.mem_flatMap.mp ho
    refine List.mem_flatMap.mpr ⟨t, ht, ?_⟩
    exact List.mem_append_right _ (stackDeferred_subset t.stack hmem)
  obtain ⟨operation, hseeks⟩ := hrest.ongoing _
    (List.mem_filter.mpr ⟨hongoing, by simpa using hconcerns⟩)
  cases hseeks

theorem Machine.AtRest.describes (hrest : m.AtRest key) :
    Register.Describes key m (m.register key) := by
  refine ⟨.idle hrest.slot ?_, rfl, fun operation fault hmem => ?_, by simp [Machine.register]⟩
  · apply List.filterMap_eq_nil_iff.mpr
    intro o ho
    obtain ⟨operation, rfl⟩ := hrest.ongoing o ho
    rfl
  · obtain ⟨operation, hseeks⟩ := hrest.ongoing _ hmem
    cases hseeks

variable [DecidableEq V]

/-- Nothing is put off about a key that nothing disturbs. -/
theorem Passage.Lawful.not_deferred {p : Passage K V Q R} (hp : p.Lawful settings)
    (hcalm : ¬ p.Disturbs key) (hbefore : ∀ o ∈ p.before.deferred, o.concerns key = false) :
    ∀ o ∈ p.after.deferred, o.concerns key = false := by
  intro o ho
  rcases hp.deferred o ho with hold | ⟨c, stage, rfl, hstage, hstale⟩
  · exact hbefore o hold
  · by_contra hconcerns
    obtain rfl : c.key = key := by simpa [Ongoing.concerns] using hconcerns
    obtain ⟨operation, retries, now, h, rfl, hkey, hlook⟩ := hstale
    apply hcalm
    rw [Passage.Disturbs, hstage]
    exact ⟨hkey, .inr ⟨h, hlook⟩⟩

/-- Whatever any number of threads do, as long as nothing disturbs a key that was at rest, what is
done about it is what a register does that is used by one operation after another, and the register
shows how things are with the key at any time. -/
theorem Run.accepts (hstart : start.Reachable settings) (hrest : start.AtRest key)
    (run : Run settings start trace m) (hcalm : ∀ p ∈ trace, ¬ p.Disturbs key) :
    ∃ r, Register.Accepts settings key (start.register key) (history settings key trace) r ∧
      r.Describes key m := by
  have hinvariant : (∃ r, Register.Accepts settings key (start.register key)
      (history settings key trace) r ∧ r.Describes key m) ∧
      ∀ o ∈ m.deferred, o.concerns key = false := by
    induction run with
    | rest => exact ⟨⟨_, .rest, hrest.describes⟩, hrest.deferred hstart⟩
    | @move trace p hrun hp ih =>
      obtain ⟨⟨r, haccepts, hdescribes⟩, hdeferred⟩ :=
        ih fun q hq => hcalm q (List.mem_append_left _ hq)
      have hundisturbed : ¬ p.Disturbs key := hcalm p (by simp)
      have hbefore := hrun.reachable_of_reachable hstart
      have hafter := (hrun.move hp).reachable_of_reachable hstart
      obtain ⟨r', hfollows, hdescribes'⟩ := hdescribes.follows hp hbefore.accounted.map.valid
        hbefore.owned hafter.owned hdeferred hundisturbed
      refine ⟨⟨r', ?_, hdescribes'⟩, hp.not_deferred hundisturbed hdeferred⟩
      have hhistory : history settings key (trace ++ [p]) =
          history settings key trace ++ (p.act? settings key).toList := by
        simp only [history, List.filterMap_append]
        cases hact : p.act? settings key <;> simp [hact]
      rw [hhistory]
      cases hact : p.act? settings key with
      | none =>
        rw [hact] at hfollows
        obtain rfl : r' = r := hfollows
        simpa using haccepts
      | some act =>
        rw [hact] at hfollows
        exact haccepts.move hfollows
  exact hinvariant.1

/-- In the course of the run the call is made and ends like this.  These passages lead from its
beginning to its end. -/
def Invocation.Lasts (call : Invocation K V Q R) (settings : Settings K V Q R)
    (start : Machine K V Q R) (trace own : List (Passage K V Q R)) (signal : Signal V) : Prop :=
  ∃ front back mid mid', trace = front ++ own ++ back ∧ Run settings start front mid ∧
    Run settings mid own mid' ∧ call.Spans mid own ∧ call.IsOver mid' signal

/-- Whatever any number of threads do, as long as nothing disturbs a key that was at rest, what is
done about it is what a register does that is used by one operation after another, and the register
shows how things are with the key at any time.  Every call ends as it is told by exactly one of its
acts. -/
theorem Run.serialised (hstart : start.Reachable settings) (hrest : start.AtRest key)
    (run : Run settings start trace m) (hcalm : ∀ p ∈ trace, ¬ p.Disturbs key) :
    (∃ r, Register.Accepts settings key (start.register key) (history settings key trace) r ∧
        r.Describes key m) ∧
      ∀ (call : Invocation K V Q R) (own : List (Passage K V Q R)) (signal : Signal V),
        call.operation.concerns key = true → call.Lasts settings start trace own signal →
        ∃ reply, call.Told settings key own (some reply) ∧ reply.Allows settings signal := by
  refine ⟨run.accepts hstart hrest hcalm, ?_⟩
  rintro call own signal hconcerns ⟨front, back, mid, mid', rfl, -, hown, hspans, hover⟩
  have hundisturbed : ∀ p ∈ own, ¬ p.Disturbs key := fun p hp =>
    hcalm p (List.mem_append_left _ (List.mem_append_right _ hp))
  exact (Invocation.answering_of_run hown hspans hconcerns hundisturbed).ends hover

end Run

/-! ## Three threads -/

/-- Counts up the value of a key, as one of several threads. -/
def countingUp (thread : Nat) : Invocation Nat Nat Unit Unit :=
  ⟨thread, [.calling .finish],
    .compute 1 fun _ current => .finish (.value (some (current.getD 0 + 1)))⟩

/-- Puts ten if the key is absent. -/
def puttingTen : Invocation Nat Nat Unit Unit := ⟨2, [.calling .finish], .putIfAbsent 1 10⟩

/-- Two threads are about to count up the same key, and a third one to put ten there if it is
absent. -/
def countOpening : List (Move Nat Nat Unit Unit) :=
  [countingUp 0, countingUp 1, puttingTen].map (fun call =>
      .spawn (.call call.operation .finish)) ++
    [.step 0 .none, .step 1 .none, .step 2 .none]

/-- While the first thread computes, the others come to wait for it. -/
def countMoves : List (Move Nat Nat Unit Unit) :=
  stepsOf 0 2 ++ stepsOf 1 2 ++ stepsOf 2 2 ++ stepsOf 0 7 ++ stepsOf 2 5 ++ stepsOf 1 12

/-- Neither update is lost: the second function is shown what the first one gave, and the key ends
with two.  The third thread is told the value of the computation that it waited for. -/
theorem counted_up : ∃ (start m : Machine Nat Nat Unit Unit)
    (trace : List (Passage Nat Nat Unit Unit)),
    start.Reachable plainSettings ∧ start.AtRest 1 ∧ Run plainSettings start trace m ∧
      (∀ p ∈ trace, ¬ p.Disturbs 1) ∧
      (∃ r, Register.Accepts plainSettings 1 (start.register 1) (history plainSettings 1 trace) r ∧
        r.Describes 1 m) ∧
      m.content? 1 = some 2 ∧
      (trace.flatMap fun p => mappings p.events) = [(1, 0, none), (1, 1, some 1)] ∧
      puttingTen.acts plainSettings 1 trace =
        [.waited puttingTen.operation 0, .shared puttingTen.operation 0 (.copies 1)] ∧
      puttingTen.Lasts plainSettings start trace trace (.done (.value (some 1))) ∧
      ∃ reply, puttingTen.Told plainSettings 1 trace (some reply) ∧
        reply.Allows plainSettings (.done (.value (some 1))) := by
  have hfacts : (Machine.replayFrom plainSettings countOpening countMoves).map (fun run =>
      ((run.1.slot? 1, run.1.concerning 1, run.1.threads[2]?), run.2.1.all (Passage.isCalm 1),
        run.2.1.all puttingTen.outlasts, run.2.2.content? 1,
        (run.2.1.flatMap fun p => mappings p.events), puttingTen.acts plainSettings 1 run.2.1,
        run.2.2.threads[2]?)) =
      some ((none, [.seeks (countingUp 0).operation, .seeks (countingUp 1).operation,
            .seeks puttingTen.operation],
          some ⟨.keep (.round puttingTen.operation 0), puttingTen.base, none⟩), true, true, some 2,
        [(1, 0, none), (1, 1, some 1)],
        [.waited puttingTen.operation 0, .shared puttingTen.operation 0 (.copies 1)],
        some ⟨.settle (.done (.value (some 1))), puttingTen.base, none⟩) := rfl
  obtain ⟨⟨start, trace, m⟩, hreplay, hall⟩ := Option.map_eq_some_iff.mp hfacts
  obtain ⟨hopening, hlater⟩ := Prod.mk.inj hall
  obtain ⟨hslot, hopening⟩ := Prod.mk.inj hopening
  obtain ⟨hconcerning, hbegins⟩ := Prod.mk.inj hopening
  obtain ⟨hcalm, hlater⟩ := Prod.mk.inj hlater
  obtain ⟨houtlasts, hlater⟩ := Prod.mk.inj hlater
  obtain ⟨hcontent, hlater⟩ := Prod.mk.inj hlater
  obtain ⟨hshown, hlater⟩ := Prod.mk.inj hlater
  obtain ⟨hacts, hended⟩ := Prod.mk.inj hlater
  obtain ⟨hstart, run⟩ := Machine.run_of_replayFrom hreplay
  dsimp only at hslot hconcerning
  have hrest : start.AtRest 1 := by
    refine ⟨by simp [hslot], fun o ho => ?_⟩
    rw [hconcerning] at ho
    simp only [List.mem_cons, List.not_mem_nil, or_false] at ho
    rcases ho with rfl | rfl | rfl <;> exact ⟨_, rfl⟩
  have hundisturbed : ∀ p ∈ trace, ¬ p.Disturbs 1 := fun p hp =>
    Passage.not_disturbs (List.all_eq_true.mp hcalm p hp)
  have hlasts : puttingTen.Lasts plainSettings start trace trace (.done (.value (some 1))) :=
    ⟨[], [], start, m, by simp, .rest, run, Invocation.spans_of_outlasts hbegins houtlasts, none,
      hended⟩
  obtain ⟨hserial, hanswers⟩ := Run.serialised hstart hrest run hundisturbed
  exact ⟨start, m, trace, hstart, hrest, run, hundisturbed, hserial, hcontent, hshown, hacts,
    hlasts, hanswers puttingTen trace _ rfl hlasts⟩

end SharedCache
