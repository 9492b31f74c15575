import SharedCache.Proofs.Accounting
import SharedCache.Proofs.Acts
import SharedCache.Proofs.Deferral
import SharedCache.Proofs.Shelter

/-!
# Custody

No fault is left behind in a slot.  Whatever the mapping function, the weigher, the expiry, the veto
or a listener do, a fault that is in a slot belongs to a computation in progress, and the section
that resolves the fault takes it out of the slot.  There is one way in which a computation could be
given up while its fault stays behind: a panic drops what was put off.  A computation is put off
only below the report of an expiration, which no panic leaves, so this never happens.
-/

namespace SharedCache

variable {K V Q R : Type}

/-- What is put off in a frame is nothing, or vital. -/
def Frame.IsOrderly (frame : Frame K V Q R) : Prop := frame.deferred = [] ∨ frame.IsVital

/-- The thread puts off nothing that it could lose. -/
def Thread.IsOrderly (t : Thread K V Q R) : Prop := ∀ frame ∈ t.stack, frame.IsOrderly

theorem Frame.IsPlain.isOrderly {frame : Frame K V Q R} (hframe : frame.IsPlain) :
    frame.IsOrderly := by
  have hnone := hframe.ongoing_eq
  refine .inl (List.subset_nil.mp ?_)
  rw [← hnone]
  exact frame.deferred_subset

/-- A turn that engages its thread in nothing leaves the thread orderly. -/
theorem Turn.orderly_of_nil {σ : Type} {turn : Turn σ K V Q R} (hnone : turn.ongoing = []) :
    ∀ frame ∈ turn.frames, frame.IsOrderly := by
  intro frame hframe
  exact .inl (List.flatMap_eq_nil_iff.mp (Turn.deferred_eq_nil hnone) frame hframe)

theorem Turn.orderly_of_frames {σ : Type} {turn : Turn σ K V Q R} (hnone : turn.frames = []) :
    ∀ frame ∈ turn.frames, frame.IsOrderly := by
  simp [hnone]

/-- The computations in progress that own a fault. -/
def Machine.owners (m : Machine K V Q R) (fault : Nat) :
    List (Computation K V Q R × Progress V) :=
  (m.ongoing.filterMap Ongoing.computation?).filter fun owner => owner.1.fault = fault

theorem Machine.mem_owners {m : Machine K V Q R} {fault : Nat} {c : Computation K V Q R}
    {progress : Progress V} :
    (c, progress) ∈ m.owners fault ↔ .computes c progress ∈ m.ongoing ∧ c.fault = fault := by
  rw [owners, List.mem_filter, List.mem_filterMap]
  constructor
  · rintro ⟨⟨o, ho, heq⟩, hfault⟩
    cases o with
    | computes c' progress' =>
      obtain ⟨rfl, rfl⟩ := Prod.mk.inj (Option.some.inj heq)
      exact ⟨ho, by simpa using hfault⟩
    | awaits operation fault => cases heq
    | seeks operation => cases heq
  · rintro ⟨hmem, hfault⟩
    exact ⟨⟨_, hmem, rfl⟩, by simpa using hfault⟩

theorem Machine.faultsOf_eq_map (ongoing : List (Ongoing K V Q R)) :
    faultsOf ongoing =
      (ongoing.filterMap Ongoing.computation?).map fun owner => owner.1.fault := by
  rw [faultsOf, List.map_filterMap]
  congr 1
  funext o
  cases o <;> rfl

/-- Where all faults are different, each of them has one owner. -/
theorem Machine.owners_eq {m : Machine K V Q R} (howned : Owned m.world.store m.ongoing)
    {c : Computation K V Q R} {progress : Progress V}
    (hmem : .computes c progress ∈ m.ongoing) : m.owners c.fault = [(c, progress)] := by
  have hnodup := howned.nodup
  rw [Machine.faultsOf_eq_map] at hnodup
  have hin : (c, progress) ∈ m.ongoing.filterMap Ongoing.computation? :=
    List.mem_filterMap.mpr ⟨_, hmem, rfl⟩
  obtain ⟨front, back, hsplit⟩ := List.append_of_mem hin
  rw [hsplit, List.map_append, List.map_cons, List.nodup_middle, List.nodup_cons] at hnodup
  have hothers : ∀ owner ∈ front ++ back, ¬ owner.1.fault = c.fault := by
    intro owner howner hsame
    apply hnodup.1
    rw [← List.map_append, ← hsame]
    exact List.mem_map_of_mem howner
  have hfront : front.filter (fun owner => decide (owner.1.fault = c.fault)) = [] :=
    List.filter_eq_nil_iff.mpr fun owner howner => by
      simpa using hothers owner (List.mem_append_left _ howner)
  have hback : back.filter (fun owner => decide (owner.1.fault = c.fault)) = [] :=
    List.filter_eq_nil_iff.mpr fun owner howner => by
      simpa using hothers owner (List.mem_append_right _ howner)
  rw [Machine.owners, hsplit, List.filter_append, List.filter_cons, hfront, hback]
  simp

variable [DecidableEq K]

/-- Every fault in a slot belongs to a computation in progress of that key. -/
def Machine.Keeps (m : Machine K V Q R) : Prop :=
  ∀ key fault, m.slot? key = some (.fault fault) →
    ∃ c progress, .computes c progress ∈ m.ongoing ∧ c.key = key ∧ c.fault = fault

/-- What one stretch of what is going on becomes, where a fault is in a slot afterwards: a
computation that has just put it there, or whatever part of its computation it was before. -/
inductive Handed (before : Option (Slot V)) (key : K) (fault : Nat) :
    List (Ongoing K V Q R) → List (Ongoing K V Q R) → Prop where
  | begun {old new : List (Ongoing K V Q R)} {c : Computation K V Q R} :
      .computes c .begun ∈ new → c.key = key → c.fault = fault → Handed before key fault old new
  | kept {old new : List (Ongoing K V Q R)} :
      before = some (.fault fault) →
      (∀ c progress, .computes c progress ∈ old → c.key = key → c.fault = fault →
        ∃ progress', .computes c progress' ∈ new) → Handed before key fault old new

variable [DecidableEq V]

section Section

variable {settings : Settings K V Q R} {s : Store K V} {stage : Stage K V Q R}
  {turn : StoreTurn K V Q R} {now : Instant} {key : K} {fault : Nat}

/-- A fault that a visit leaves in a slot is its own, or was there before. -/
theorem Store.Visit.handed {operation : Operation K V Q R}
    (hvisit : s.Visit settings now operation turn) (hvalid : s.map.Valid)
    (hslot : turn.state.map.get? key = some (.fault fault)) :
    Handed (s.map.get? key) key fault [.seeks operation] turn.ongoing := by
  have hstays : s.map.get? key = some (.fault fault) →
      Handed (s.map.get? key) key fault [.seeks operation] turn.ongoing := fun hbefore =>
    .kept hbefore (by simp)
  cases hvisit with
  | keeps _ _ hstill =>
    rw [hstill.map] at hslot
    exact hstays hslot
  | waits _ _ hspares =>
    rw [hspares.map] at hslot
    exact hstays hslot
  | writes _ _ _ _ _ hmap =>
    rw [hmap, hvalid.get?_insert] at hslot
    split at hslot
    · cases hslot
    · exact hstays hslot
  | removes _ _ hmap =>
    rw [hmap, hvalid.get?_erase] at hslot
    split at hslot
    · cases hslot
    · exact hstays hslot
  | @begins c m _ _ _ _ hm hmap _ hone =>
    have hvalid' : m.Valid := by
      rcases hm with rfl | ⟨-, rfl⟩
      · exact hvalid
      · exact hvalid.erase c.key
    rw [hmap, hvalid'.get?_insert] at hslot
    by_cases hkey : key = c.key
    · rw [if_pos hkey] at hslot
      have hfault : c.fault = fault := Slot.fault.inj (Option.some.inj hslot)
      exact .begun (by simp [hone]) hkey.symm hfault
    · rw [if_neg hkey] at hslot
      apply hstays
      rcases hm with rfl | ⟨-, rfl⟩
      · exact hslot
      · rwa [hvalid.get?_erase, if_neg hkey] at hslot

/-- A section leaves no fault in a slot without leaving its computation in progress. -/
theorem Stage.Deed.handed (hdeed : stage.Deed settings s turn) (hvalid : s.map.Valid)
    (hslot : turn.state.map.get? key = some (.fault fault)) :
    Handed (s.map.get? key) key fault stage.ongoing turn.ongoing := by
  -- A section whose stage is no part of a computation may leave the slot as it is.
  have hstays : (∀ c progress, .computes c progress ∉ stage.ongoing) →
      s.map.get? key = some (.fault fault) →
      Handed (s.map.get? key) key fault stage.ongoing turn.ongoing := fun hnone hbefore =>
    .kept hbefore fun c progress hmem => absurd hmem (hnone c progress)
  -- A section in the middle of a computation spares the slots and goes on with the computation.
  have hgoesOn : ∀ {c progress progress'}, stage.ongoing = [.computes c progress] →
      turn.ongoing = [.computes c progress'] → turn.Spares s →
      Handed (s.map.get? key) key fault stage.ongoing turn.ongoing := by
    intro c progress progress' hold hnew hspares
    rw [hspares.map] at hslot
    refine .kept hslot fun c' progress'' hmem _ _ => ⟨progress', ?_⟩
    rw [hold, List.mem_singleton] at hmem
    obtain ⟨rfl, -⟩ := Ongoing.computes.inj hmem
    simp [hnew]
  cases hdeed with
  | visits hvisit => exact hvisit.handed hvalid hslot
  | keeps hnone hstill =>
    rw [hstill.map] at hslot
    exact hstays (by simp [hnone]) hslot
  | looks _ _ hspares =>
    rw [hspares.map] at hslot
    exact hstays (by simp [Stage.ongoing]) hslot
  | resumes _ _ _ _ hspares =>
    rw [hspares.map] at hslot
    exact hstays (by simp [Stage.ongoing]) hslot
  | shares _ _ hstill =>
    rw [hstill.map] at hslot
    exact hstays (by simp [Stage.ongoing]) hslot
  | givesUp _ _ hstill =>
    rw [hstill.map] at hslot
    exact hstays (by simp [Stage.ongoing]) hslot
  | expels hstage _ hmap =>
    rw [hmap, hvalid.get?_erase] at hslot
    split at hslot
    · cases hslot
    · rcases hstage with rfl | ⟨failed, cause, rfl⟩
      · exact hstays (by simp [Stage.ongoing]) hslot
      · exact hstays (by simp [Stage.ongoing]) hslot
  | sweeps hmap =>
    rw [hmap, EntryMap.get?_clearSegment] at hslot
    split at hslot
    · cases hslot
    · exact hstays (by simp [Stage.ongoing]) hslot
  | @calls c _ _ _ hnext hframes _ hspares =>
    have hturn : turn.ongoing = [.computes c .running] := by simp [Turn.ongoing, hnext, hframes]
    exact hgoesOn rfl hturn hspares
  | @unwinds _ c p _ hcause _ hnext hframes hspares =>
    have hturn : turn.ongoing = [.computes c (.leaving c.previous .retry (.raised p))] := by
      simp [Turn.ongoing, hnext, hframes, Stage.ongoing]
    rcases hcause with ⟨rfl, -⟩ | ⟨value, rfl⟩
    · exact hgoesOn rfl hturn hspares
    · exact hgoesOn rfl hturn hspares
  | @composes c value copy h _ _ _ _ hnext hframes hspares =>
    have hturn : turn.ongoing =
        [.computes c (.leaving (some h) (.ready h) (.done (.value (some copy))))] := by
      simp [Turn.ongoing, hnext, hframes, Stage.ongoing]
    exact hgoesOn rfl hturn hspares
  | @ends _ c left _ _ _ hstage hmap =>
    -- Where the fault was in the slot of its computation, it has left that slot.
    rw [hmap] at hslot
    by_cases hpending : s.pendingIn c.key c.fault = true
    · rw [if_pos hpending, hvalid.get?_leave] at hslot
      split at hslot
      · cases left <;> cases hslot
      · rename_i hkey
        refine .kept hslot fun c' progress hmem hc' _ => ?_
        rw [hstage, List.mem_singleton] at hmem
        obtain ⟨rfl, -⟩ := Ongoing.computes.inj hmem
        exact absurd hc'.symm hkey
    · rw [if_neg hpending] at hslot
      refine .kept hslot fun c' progress hmem hc' hfault => ?_
      rw [hstage, List.mem_singleton] at hmem
      obtain ⟨rfl, -⟩ := Ongoing.computes.inj hmem
      subst hc' hfault
      exact absurd (Store.pendingIn_iff.mpr hslot) hpending

/-- A section puts off nothing that the thread could lose. -/
theorem Stage.Deed.orderly (hdeed : stage.Deed settings s turn) :
    ∀ frame ∈ turn.frames, frame.IsOrderly := by
  cases hdeed with
  | visits hvisit =>
    cases hvisit with
    | keeps _ _ hstill => exact Turn.orderly_of_nil hstill.ongoing
    | waits _ _ _ _ hnone => exact Turn.orderly_of_frames hnone
    | writes _ _ _ _ _ _ _ hnone => exact Turn.orderly_of_nil hnone
    | removes _ _ _ _ hnone => exact Turn.orderly_of_nil hnone
    | begins _ _ _ _ _ _ _ _ hthread =>
      rcases hthread with ⟨-, hnone⟩ | ⟨-, hone⟩
      · exact Turn.orderly_of_frames hnone
      · intro frame hframe
        rw [hone, List.mem_singleton] at hframe
        rw [hframe]
        exact .inr trivial
  | keeps _ hstill => exact Turn.orderly_of_nil hstill.ongoing
  | looks _ hnone => exact Turn.orderly_of_frames hnone
  | resumes _ _ _ hnone => exact Turn.orderly_of_frames hnone
  | shares _ _ hstill => exact Turn.orderly_of_nil hstill.ongoing
  | givesUp _ _ hstill => exact Turn.orderly_of_nil hstill.ongoing
  | expels _ _ _ _ hnone => exact Turn.orderly_of_nil hnone
  | sweeps _ _ hnone => exact Turn.orderly_of_nil hnone
  | calls _ _ hone =>
    intro frame hframe
    rw [hone, List.mem_singleton] at hframe
    rw [hframe]
    exact .inl rfl
  | unwinds _ _ _ hnone => exact Turn.orderly_of_frames hnone
  | composes _ _ _ _ hnone => exact Turn.orderly_of_frames hnone
  | ends _ _ _ hnone => exact Turn.orderly_of_nil hnone

theorem Thread.Stride.isOrderly {w : World K V Q R} {t : Thread K V Q R} {step : Step K V Q R}
    (hstride : t.Stride settings w step) (ht : t.IsOrderly) : step.thread.IsOrderly := by
  have hpush : ∀ frames : List (Frame K V Q R), (∀ frame ∈ frames, frame.IsOrderly) →
      ∀ frame ∈ frames ++ t.stack, frame.IsOrderly := by
    intro frames hframes frame hframe
    rcases List.mem_append.mp hframe with hnew | hold
    · exact hframes frame hnew
    · exact ht frame hold
  have hpop : ∀ {top : Frame K V Q R} {rest}, t.stack = top :: rest →
      ∀ frame ∈ rest, frame.IsOrderly := by
    intro top rest hstack frame hframe
    exact ht frame (hstack ▸ List.mem_cons_of_mem top hframe)
  cases hstride with
  | works _ _ _ _ _ hframes => exact hpush _ fun frame hframe => (hframes frame hframe).isOrderly
  | @calls operation code =>
    exact hpush [.calling code] (by simp [Frame.IsOrderly, Frame.deferred])
  | enters => exact hpush [.scoped _] (by simp [Frame.IsOrderly, Frame.deferred])
  | returns _ hstack => exact hpop hstack
  | proceeds _ hstack => exact hpop hstack
  | unwinds _ hstack => exact hpop hstack
  | @mapped signal c rest _ hstack =>
    obtain ⟨-, hframes, -⟩ := w.store.mapped_spec c signal
    intro frame hframe
    apply hpop hstack frame
    simpa [Step.ofStore, Thread.goOn, Thread.popped, hframes, hstack] using hframe
  | @listened signal rest _ hstack =>
    obtain ⟨-, hframes⟩ := w.store.listened_spec (Q := Q) (R := R) signal
    intro frame hframe
    apply hpop hstack frame
    simpa [Step.ofStore, Thread.goOn, Thread.popped, hframes, hstack] using hframe
  | keeps _ hturn => exact hpush _ (Stage.deed hturn).orderly

end Section

section Machine

variable {settings : Settings K V Q R} {m : Machine K V Q R}

/-- A panic drops no computation. -/
theorem Machine.Reachable.dropped_eq_nil (hm : m.Reachable settings)
    (hcopy : ∀ value, ∃ copy, settings.copyOut value = .ok copy) {i : Nat} {t : Thread K V Q R}
    {p : Panic} {a : Activity K V Q R} {rest : List (Frame K V Q R)}
    (ht : m.threads[i]? = some t) (hactivity : t.activity = .settle (.raised p))
    (hstack : t.stack = .next a :: rest) : a.ongoing = [] := by
  have horderly : t.IsOrderly :=
    hm.all_threads (P := Thread.IsOrderly)
      (fun script => by simp [Thread.IsOrderly, Thread.running])
      (fun hstride => hstride.isOrderly) i t ht
  have hsheltered := hm.isSheltered hcopy i t ht
  rw [Thread.IsSheltered, hstack, hactivity] at hsheltered
  rcases horderly (.next a) (by simp [hstack]) with hnone | hvital
  · exact hnone
  · exact (hsheltered.1 hvital).elim

/-- A fault in a slot after a passage has its computation in progress after it. -/
theorem Passage.Lawful.keeps {p : Passage K V Q R} (hp : p.Lawful settings)
    (hm : p.before.Reachable settings)
    (hcopy : ∀ value, ∃ copy, settings.copyOut value = .ok copy) (hbefore : p.before.Keeps) :
    p.after.Keeps := by
  intro key fault hslot
  obtain ⟨front, old, new, back, hold, hnew, hturnover⟩ := hp.turnover
  have hvalid := hm.accounted.map.valid
  have hspared : p.Spares → p.before.slot? key = some (.fault fault) := fun hspares => by
    rw [← hslot, Machine.slot?, Machine.slot?, hspares.map]
  have hhanded : Handed (p.before.slot? key) key fault old new := by
    cases hturnover with
    | rests _ hspares => exact .kept (hspared hspares) (by simp)
    | calls _ _ hspares => exact .kept (hspared hspares) (by simp)
    | @drops t panic a rest hthread hactivity hstack hspares =>
      obtain ⟨i, -, ht⟩ := Option.bind_eq_some_iff.mp hthread
      rw [hm.dropped_eq_nil hcopy ht hactivity hstack]
      exact .kept (hspared hspares) (by simp)
    | @moves t signal c rest _ _ _ hspares =>
      refine .kept (hspared hspares) fun c' progress hmem _ _ => ⟨c.progress signal, ?_⟩
      rw [List.mem_singleton] at hmem
      obtain ⟨rfl, -⟩ := Ongoing.computes.inj hmem
      exact List.mem_singleton.mpr rfl
    | acts hsection hdeed =>
      apply hdeed.handed hvalid
      rw [← hsection.store]
      exact hslot
  cases hhanded with
  | @begun c hmem hkey hfault =>
    refine ⟨c, .begun, ?_, hkey, hfault⟩
    rw [hnew]
    exact List.mem_append_left _ (List.mem_append_right _ hmem)
  | kept hsame hgoesOn =>
    obtain ⟨c, progress, hmem, hkey, hfault⟩ := hbefore key fault hsame
    rw [hold, List.mem_append, List.mem_append] at hmem
    rcases hmem with (hfront | hmiddle) | hback
    · refine ⟨c, progress, ?_, hkey, hfault⟩
      rw [hnew]
      exact List.mem_append_left _ (List.mem_append_left _ hfront)
    · obtain ⟨progress', hmem⟩ := hgoesOn c progress hmiddle hkey hfault
      refine ⟨c, progress', ?_, hkey, hfault⟩
      rw [hnew]
      exact List.mem_append_left _ (List.mem_append_right _ hmem)
    · refine ⟨c, progress, ?_, hkey, hfault⟩
      rw [hnew]
      exact List.mem_append_right _ hback

/-- No fault is orphaned.  A computation is in progress from the section of its call that puts its
fault into a slot to the section of the same call that resolves it. -/
structure Machine.InCustody (m : Machine K V Q R) : Prop where
  /-- A fault in a slot is pending, and exactly one computation in progress owns it. -/
  owned : ∀ key fault, m.slot? key = some (.fault fault) →
    m.world.store.faults[fault]? = some none ∧
      ∃ c progress, m.owners fault = [(c, progress)] ∧ c.key = key
  /-- The call of that computation is in progress on a thread. -/
  carried : ∀ key fault, m.slot? key = some (.fault fault) →
    ∃ (i : Nat) (t : Thread K V Q R) (c : Computation K V Q R) (progress : Progress V),
      m.threads[i]? = some t ∧ .computes c progress ∈ t.ongoing ∧ ¬ t.IsPlain ∧
        c.key = key ∧ c.fault = fault
  apart : ∀ key key' fault, m.slot? key = some (.fault fault) →
    m.slot? key' = some (.fault fault) → key = key'
  unresolved : ∀ fault resolution, m.world.store.resolution? fault = some resolution →
    ∀ key, m.slot? key ≠ some (.fault fault)
  /-- While nothing is computed, no slot has a fault. -/
  clean : (∀ c progress, .computes c progress ∉ m.ongoing) →
    ∀ key fault, m.slot? key ≠ some (.fault fault)

theorem Machine.Reachable.keeps (hm : m.Reachable settings)
    (hcopy : ∀ value, ∃ copy, settings.copyOut value = .ok copy) : m.Keeps := by
  obtain ⟨start, trace, hstart, run⟩ := hm
  induction run with
  | rest =>
    intro key fault hslot
    rw [Machine.slot?, hstart.get?_eq_none] at hslot
    cases hslot
  | @move trace p run hp ih => exact hp.keeps (run.reachable hstart) hcopy ih

/-- In every reachable state every fault in a slot is in custody, as long as values can be copied
out of the store: no panic of any other collaborator leaves a fault behind. -/
theorem Machine.inCustody (hm : m.Reachable settings)
    (hcopy : ∀ value, ∃ copy, settings.copyOut value = .ok copy) : m.InCustody := by
  have hkeeps := hm.keeps hcopy
  have howned := hm.owned
  have hpending : ∀ key fault, m.slot? key = some (.fault fault) →
      m.world.store.faults[fault]? = some none := by
    intro key fault hslot
    obtain ⟨c, progress, hmem, -, rfl⟩ := hkeeps key fault hslot
    exact howned.pending c.fault (mem_faultsOf hmem)
  constructor
  case owned =>
    intro key fault hslot
    obtain ⟨c, progress, hmem, hkey, rfl⟩ := hkeeps key fault hslot
    exact ⟨hpending key c.fault hslot, c, progress, Machine.owners_eq howned hmem, hkey⟩
  case carried =>
    intro key fault hslot
    obtain ⟨c, progress, hmem, hkey, hfault⟩ := hkeeps key fault hslot
    obtain ⟨t, ht, hthread⟩ := List.mem_flatMap.mp hmem
    obtain ⟨i, hi⟩ := List.mem_iff_getElem?.mp ht
    refine ⟨i, t, c, progress, by simpa using hi, hthread, fun hplain => ?_, hkey, hfault⟩
    rw [hplain.ongoing_eq] at hthread
    cases hthread
  case apart =>
    intro key key' fault hslot hslot'
    obtain ⟨c, progress, hmem, hkey, rfl⟩ := hkeeps key fault hslot
    obtain ⟨c', progress', hmem', hkey', hfault⟩ := hkeeps key' c.fault hslot'
    have hone : (c', progress') ∈ m.owners c.fault := Machine.mem_owners.mpr ⟨hmem', hfault⟩
    rw [Machine.owners_eq howned hmem, List.mem_singleton] at hone
    rw [← hkey, ← hkey', (Prod.mk.inj hone).1]
  case unresolved =>
    intro fault resolution hresolved key hslot
    rw [Store.resolution?, hpending key fault hslot] at hresolved
    cases hresolved
  case clean =>
    intro hnone key fault hslot
    obtain ⟨c, progress, hmem, -⟩ := hkeeps key fault hslot
    exact hnone c progress hmem

end Machine

/-- A thread computes the value of one key and, inside of that, the value of another one, which
ends in a panic. -/
def nestedMoves : List (Move Nat Nat Unit Unit) :=
  .spawn (.call (.compute 1 fun _ _ => .call (.computeIfAbsent 2 fun _ => .raise .silent) .finish)
    .finish) :: List.replicate 8 (.step 0 .none)

/-- Just before the panic both faults are in their slots. -/
theorem both_in_custody : ∃ m : Machine Nat Nat Unit Unit, m.Reachable plainSettings ∧
    (∀ value, ∃ copy, plainSettings.copyOut value = .ok copy) ∧ m.InCustody ∧
      m.slot? 1 = some (.fault 0) ∧ m.slot? 2 = some (.fault 1) := by
  have hslots : (Machine.replay plainSettings nestedMoves).map (fun run =>
      (run.2.slot? 1, run.2.slot? 2)) = some (some (.fault 0), some (.fault 1)) := by decide
  obtain ⟨⟨trace, m⟩, hreplay, hm⟩ := Option.map_eq_some_iff.mp hslots
  obtain ⟨start, hstart, run⟩ := Machine.run_of_replay hreplay
  have hreachable := run.reachable hstart
  have hcopy : ∀ value, ∃ copy, plainSettings.copyOut value = .ok copy :=
    fun value => ⟨value, rfl⟩
  obtain ⟨hfirst, hsecond⟩ := Prod.mk.inj hm
  exact ⟨m, hreachable, hcopy, Machine.inCustody hreachable hcopy, hfirst, hsecond⟩

end SharedCache
