import SharedCache.Proofs.Accounting
import SharedCache.Proofs.Shelter
import SharedCache.Proofs.Victims

/-!
# The bound on the total weight

Whatever makes a store heavier than its capacity sees to it that entries are evicted before the
operation ends, with one exception.  A computation whose function fails puts back the value that
its key had, and the weight of that value was free for other keys meanwhile: nothing is evicted
then.  So, for a single thread whose evictions draw every entry, the store is too heavy between two
operations just when such a restoration made it so and nothing has relieved it since.

The invariant says that the store is within its capacity, or that it is strained by a restoration,
or that its thread owes an enforcement, which no panic can make it forget.
-/

namespace SharedCache

variable {K V Q R : Type}

/-! ## Weights -/

namespace EntryMap

variable [DecidableEq K] (m : EntryMap K V)

theorem weightedSize_erase_le (key : K) : (m.erase key).weightedSize ≤ m.weightedSize :=
  Nat.sub_le _ _

theorem weightedSize_fault_le (key : K) (fault : Nat) :
    (m.insert key (.fault fault)).weightedSize ≤ m.weightedSize :=
  Nat.sub_le _ _

omit [DecidableEq K] in
theorem weightedSize_clearSegment_le (i : Nat) :
    (m.clearSegment i).weightedSize ≤ m.weightedSize :=
  Nat.sub_le _ _

end EntryMap

variable [DecidableEq K] [DecidableEq V]

/-- A visit that makes the store heavier sees to it that the capacity is enforced. -/
theorem Store.Visit.weight {settings : Settings K V Q R} {s : Store K V} {now : Instant}
    {operation : Operation K V Q R} {turn : StoreTurn K V Q R}
    (hvisit : s.Visit settings now operation turn) :
    turn.state.map.weightedSize ≤ s.map.weightedSize ∨ turn.Enforces := by
  cases hvisit with
  | keeps _ _ hstill => exact .inl (by rw [hstill.map])
  | waits _ _ hspares => exact .inl (by rw [hspares.map])
  | writes _ _ _ _ _ _ _ _ henforces => exact .inr henforces
  | removes _ _ hmap => exact .inl (by rw [hmap]; exact s.map.weightedSize_erase_le _)
  | begins _ _ _ _ hm hmap =>
    refine .inl ?_
    rw [hmap]
    rcases hm with rfl | ⟨-, rfl⟩
    · exact EntryMap.weightedSize_fault_le _ _ _
    · exact (EntryMap.weightedSize_fault_le _ _ _).trans (s.map.weightedSize_erase_le _)

/-- The restoration of a value that a computation took the place of. -/
def Stage.Restores (s : Store K V) (stage : Stage K V Q R) : Prop :=
  ∃ c resolution signal h, stage = .restore c resolution signal ∧ c.previous = some h ∧
    s.pendingIn c.key c.fault = true

/-- A section that makes the store heavier sees to it that the capacity is enforced, unless it is
the restoration of a value. -/
theorem Stage.Deed.weight {settings : Settings K V Q R} {s : Store K V} {stage : Stage K V Q R}
    {turn : StoreTurn K V Q R} (hdeed : stage.Deed settings s turn) :
    turn.state.map.weightedSize ≤ s.map.weightedSize ∨ turn.Enforces ∨ stage.Restores s := by
  cases hdeed with
  | visits hvisit =>
    rcases hvisit.weight with hle | henforces
    · exact .inl hle
    · exact .inr (.inl henforces)
  | keeps _ hstill => exact .inl (by rw [hstill.map])
  | looks _ _ hspares => exact .inl (by rw [hspares.map])
  | resumes _ _ _ _ hspares => exact .inl (by rw [hspares.map])
  | shares _ _ hstill => exact .inl (by rw [hstill.map])
  | givesUp _ _ hstill => exact .inl (by rw [hstill.map])
  | expels _ _ hmap => exact .inl (by rw [hmap]; exact s.map.weightedSize_erase_le _)
  | sweeps hmap => exact .inl (by rw [hmap]; exact s.map.weightedSize_clearSegment_le _)
  | calls _ _ _ _ hspares => exact .inl (by rw [hspares.map])
  | unwinds _ _ _ _ hspares => exact .inl (by rw [hspares.map])
  | composes _ _ _ _ _ hspares => exact .inl (by rw [hspares.map])
  | @ends _ c left _ _ _ hongoing hmap _ _ henforces =>
    by_cases hpending : s.pendingIn c.key c.fault = true
    · rw [if_pos hpending] at hmap
      cases stage with
      | install c' h value =>
        obtain rfl : c' = c := (Ongoing.computes.inj (List.cons.inj hongoing).1).1
        exact .inr (.inl (henforces h value rfl hpending))
      | restore c' resolution signal =>
        obtain ⟨rfl, hprogress⟩ := Ongoing.computes.inj (List.cons.inj hongoing).1
        obtain ⟨rfl, -⟩ := Progress.leaving.inj hprogress
        cases hprevious : c'.previous with
        | none =>
          rw [hprevious] at hmap
          exact .inl (by rw [hmap]; exact s.map.weightedSize_erase_le _)
        | some h => exact .inr (.inr ⟨c', resolution, signal, h, rfl, hprevious, hpending⟩)
      | vacate c' resolution answer =>
        obtain ⟨-, hprogress⟩ := Ongoing.computes.inj (List.cons.inj hongoing).1
        obtain ⟨rfl, -⟩ := Progress.leaving.inj hprogress
        exact .inl (by rw [hmap]; exact s.map.weightedSize_erase_le _)
      | own c' => simp [Stage.ongoing] at hongoing
      | compose c' value => simp [Stage.ongoing] at hongoing
      | _ => cases hongoing
    · rw [if_neg hpending] at hmap
      exact .inl (by rw [hmap])

/-! ## Owing an enforcement -/

omit [DecidableEq V] in
/-- An activity enforces the capacity, and no round of it has failed.  What it has drawn so far is
still in its slots. -/
def Activity.Enforcing (s : Store K V) : Activity K V Q R → Prop
  | .keep (.enforce failed) => failed = 0
  | .keep (.draw failed sample _) | .keep (.pick failed sample) =>
    failed = 0 ∧ ∀ entry ∈ sample, s.map.get? entry.1 = some (.holder entry.2)
  | .keep (.evict failed key h _) => failed = 0 ∧ s.map.get? key = some (.holder h)
  | _ => False

omit [DecidableEq V] in
/-- A thread owes an enforcement: it is at it, or has put it off. -/
def Thread.Owes (s : Store K V) (t : Thread K V Q R) : Prop :=
  t.activity.Enforcing s ∨ .next (.keep (.enforce 0)) ∈ t.stack

section Owing

variable {settings : Settings K V Q R} {s : Store K V} {capacity : Nat}

omit [DecidableEq V] in
theorem Activity.IsPlain.not_enforcing {a : Activity K V Q R} (ha : a.IsPlain) :
    ¬ a.Enforcing s := by
  cases a with
  | keep stage => exact absurd ha id
  | _ => exact id

omit [DecidableEq V] in
/-- A thread that carries out no operation owes nothing. -/
theorem Thread.IsPlain.not_owes {t : Thread K V Q R} (ht : t.IsPlain) : ¬ t.Owes s := by
  rintro (henforcing | hframe)
  · exact ht.1.not_enforcing henforcing
  · exact ht.2 _ hframe

omit [DecidableEq V] in
/-- Enforcing stops where the store is within its capacity, and only there. -/
theorem Store.enforcing_enforce (hcapacity : settings.blueprint.capacity = some capacity) :
    (s.enforce settings 0 : StoreTurn K V Q R).state = s ∧
      (s.map.weightedSize ≤ capacity ∨
        (s.enforce settings 0 : StoreTurn K V Q R).next.Enforcing s) := by
  have hattempts := settings.blueprint.sampling.attempts_pos
  unfold enforce
  rw [hcapacity]
  dsimp only
  split
  · exact ⟨rfl, .inl ‹_›⟩
  · split
    · omega
    · exact ⟨rfl, .inr ⟨rfl, by simp⟩⟩

omit [DecidableEq V] in
/-- What is drawn is in its slot. -/
theorem Store.enforcing_draw {sample : List (K × Holder V)} (left : Nat) (draws : List K)
    (hsample : ∀ entry ∈ sample, s.map.get? entry.1 = some (.holder entry.2)) :
    (s.draw 0 sample left draws : StoreTurn K V Q R).state = s ∧
      (s.draw 0 sample left draws : StoreTurn K V Q R).next.Enforcing s := by
  have hdrawn : ∀ entry ∈ sample ++ s.map.sample (draws.take left),
      s.map.get? entry.1 = some (.holder entry.2) := by
    intro entry hentry
    rcases List.mem_append.mp hentry with hold | hnew
    · exact hsample entry hold
    · obtain ⟨key, -, hslot⟩ := List.mem_filterMap.mp hnew
      obtain ⟨slot, hget, hholder⟩ := Option.bind_eq_some_iff.mp hslot
      cases slot with
      | fault f => cases hholder
      | holder h =>
        obtain rfl := Option.some.inj hholder
        exact hget
  unfold draw
  dsimp only
  split <;> exact ⟨rfl, rfl, hdrawn⟩

omit [DecidableEq V] in
/-- A round that has drawn an entry has a victim. -/
theorem Store.enforcing_pick (hveto : settings.veto = none) {sample : List (K × Holder V)}
    (now : Instant) (hsome : sample ≠ [])
    (hsample : ∀ entry ∈ sample, s.map.get? entry.1 = some (.holder entry.2)) :
    (s.pick settings 0 sample now : StoreTurn K V Q R).state = s ∧
      (s.pick settings 0 sample now : StoreTurn K V Q R).next.Enforcing s := by
  obtain ⟨⟨⟨key, h⟩, cause⟩, hresult⟩ := Store.exists_victim hveto hsome
  unfold pick
  refine Turn.consulting_induction (P := fun turn => turn.state = s ∧ turn.next.Enforcing s)
    (fun _ _ hturn => hturn) (fun p hpanic => ?_) fun choice hchoice => ?_
  · rw [hresult] at hpanic
    cases hpanic
  · rw [hresult] at hchoice
    obtain rfl := Except.ok.inj hchoice
    exact ⟨rfl, rfl, hsample _ (Store.mem_of_victim hresult)⟩

omit [DecidableEq V] in
/-- A victim in its slot leaves it, and the capacity is enforced again after the report. -/
theorem Store.owes_evict {key : K} {h : Holder V} (cause : RemovalCause)
    (hslot : s.map.get? key = some (.holder h)) :
    .next (.keep (.enforce 0)) ∈ (s.evict 0 key h cause : StoreTurn K V Q R).frames := by
  have hholds : s.holds key h = true := by simp [holds, hslot, Slot.isHolder]
  unfold evict
  rw [if_pos hholds]
  exact List.mem_cons_self

variable {w : World K V Q R} {t : Thread K V Q R} {step : Step K V Q R}

/-- What is put off stays put off until it is done. -/
theorem Thread.Stride.owes_of_mem (hstride : t.Stride settings w step) (ht : t.IsSheltered)
    (hframe : .next (.keep (.enforce 0)) ∈ t.stack) : step.thread.Owes step.world.store := by
  unfold Thread.IsSheltered at ht
  cases hstride with
  | works => exact .inr (List.mem_append_right _ hframe)
  | calls => exact .inr (List.mem_cons_of_mem _ hframe)
  | enters => exact .inr (List.mem_cons_of_mem _ hframe)
  | returns _ hstack _ hnext =>
    rw [hstack] at hframe
    rcases List.mem_cons.mp hframe with rfl | hrest
    · exact absurd rfl (hnext _)
    · exact .inr hrest
  | @proceeds answer a rest _ hstack =>
    rw [hstack] at hframe
    rcases List.mem_cons.mp hframe with hfirst | hrest
    · obtain rfl : _ = a := Frame.next.inj hfirst
      exact .inl rfl
    · exact .inr hrest
  | unwinds hactivity hstack =>
    rw [hstack] at hframe ht
    rcases List.mem_cons.mp hframe with hfirst | hrest
    · have hvital : (Frame.next (.keep (.enforce 0)) : Frame K V Q R).IsVital := trivial
      rw [hfirst] at hvital
      have hcalm := ht.1 hvital
      rw [hactivity] at hcalm
      exact hcalm.elim
    · exact .inr hrest
  | mapped _ hstack =>
    rw [hstack] at hframe
    refine .inr (List.mem_append_right _ ?_)
    simpa [Thread.popped, hstack] using hframe
  | listened _ hstack =>
    rw [hstack] at hframe
    refine .inr (List.mem_append_right _ ?_)
    simpa [Thread.popped, hstack] using hframe
  | keeps => exact .inr (List.mem_append_right _ hframe)

/-- A thread owes an enforcement until the store is within its capacity. -/
theorem Thread.Stride.owes (hcapacity : settings.blueprint.capacity = some capacity)
    (hveto : settings.veto = none) (hstride : t.Stride settings w step) (ht : t.IsSheltered)
    (howes : t.Owes w.store)
    (hscan : ∀ failed sample, t.activity = .keep (.pick failed sample) → sample ≠ []) :
    step.thread.Owes step.world.store ∨ step.world.store.map.weightedSize ≤ capacity := by
  rcases howes with henforcing | hframe
  · cases hstride with
    | works hplain => exact absurd henforcing hplain.not_enforcing
    | calls hactivity | enters hactivity | returns hactivity | proceeds hactivity
    | unwinds hactivity | mapped hactivity | listened hactivity =>
      rw [hactivity] at henforcing
      exact henforcing.elim
    | @keeps stage draws turn hactivity hturn =>
      rw [hactivity] at henforcing
      cases stage with
      | enforce failed =>
        obtain rfl : failed = 0 := henforcing
        obtain rfl := Option.some.inj hturn
        obtain ⟨hstate, hwithin | hnext⟩ := w.store.enforcing_enforce (Q := Q) (R := R) hcapacity
        · exact .inr (by simpa [Step.ofStore, hstate] using hwithin)
        · refine .inl (.inl ?_)
          simpa [Step.ofStore, Thread.goOn, hstate] using hnext
      | draw failed sample left =>
        obtain ⟨rfl, hsample⟩ := henforcing
        obtain rfl := Option.some.inj hturn
        obtain ⟨hstate, hnext⟩ :=
          w.store.enforcing_draw (Q := Q) (R := R) left draws hsample
        refine .inl (.inl ?_)
        simpa [Step.ofStore, Thread.goOn, hstate] using hnext
      | pick failed sample =>
        obtain ⟨rfl, hsample⟩ := henforcing
        obtain rfl := Option.some.inj hturn
        obtain ⟨hstate, hnext⟩ :=
          w.store.enforcing_pick hveto w.clock.now (hscan 0 sample hactivity) hsample
        refine .inl (.inl ?_)
        simpa [Step.ofStore, Thread.goOn, hstate] using hnext
      | evict failed key h cause =>
        obtain ⟨rfl, hslot⟩ := henforcing
        obtain rfl := Option.some.inj hturn
        exact .inl (.inr (List.mem_append_left _ (Store.owes_evict cause hslot)))
      | _ => exact henforcing.elim
  · exact .inl (hstride.owes_of_mem ht hframe)

/-- A step that makes the store heavier leaves its thread owing an enforcement, unless it restores
a value. -/
theorem Thread.Stride.weight (hstride : t.Stride settings w step) :
    step.world.store.map.weightedSize ≤ w.store.map.weightedSize ∨
      step.thread.Owes step.world.store ∨
      ∃ stage, t.activity = .keep stage ∧ stage.Restores w.store := by
  cases hstride with
  | works _ _ _ hstore => exact .inl (by rw [hstore])
  | calls => exact .inl le_rfl
  | enters => exact .inl le_rfl
  | returns _ _ _ _ hstore => exact .inl (by rw [hstore])
  | proceeds => exact .inl le_rfl
  | unwinds => exact .inl le_rfl
  | @mapped signal c =>
    obtain ⟨hspares, -⟩ := w.store.mapped_spec c signal
    exact .inl (by simp [Step.ofStore, hspares.map])
  | @listened signal =>
    obtain ⟨hstill, -⟩ := w.store.listened_spec (Q := Q) (R := R) signal
    exact .inl (by simp [Step.ofStore, hstill.map])
  | @keeps stage draws turn hactivity hturn =>
    rcases (Stage.deed hturn).weight with hle | henforces | hrestores
    · exact .inl hle
    · refine .inr (.inl ?_)
      rcases henforces.owes with hnext | hframe
      · refine .inl ?_
        change turn.next.Enforcing turn.state
        rw [hnext]
        rfl
      · exact .inr (List.mem_append_left _ hframe)
    · exact .inr (.inr ⟨stage, hactivity, hrestores⟩)

end Owing

/-! ## Runs of one thread -/

/-- A passage restores a value that a computation took the place of. -/
def Passage.Restores (p : Passage K V Q R) : Prop :=
  ∃ stage, p.stage? = some stage ∧ stage.Restores p.before.world.store

/-- A restoration made the store too heavy, and it has been too heavy since. -/
def Strained (capacity : Nat) (trace : List (Passage K V Q R)) : Prop :=
  ∃ front p back, trace = front ++ p :: back ∧ p.Restores ∧
    ∀ q ∈ p :: back, capacity < q.after.world.store.map.weightedSize

/-- Every round of an eviction has drawn all entries when it picks its victim. -/
def DrawsAll (trace : List (Passage K V Q R)) : Prop :=
  ∀ p ∈ trace, ∀ failed sample, p.stage? = some (.pick failed sample) →
    ∀ entry ∈ p.before.world.store.map.entries, entry ∈ sample

omit [DecidableEq V] in
theorem Strained.snoc {capacity : Nat} {trace : List (Passage K V Q R)} {p : Passage K V Q R}
    (htrace : Strained capacity trace)
    (hp : capacity < p.after.world.store.map.weightedSize) : Strained capacity (trace ++ [p]) := by
  obtain ⟨front, q, back, rfl, hrestores, hheavy⟩ := htrace
  refine ⟨front, q, back ++ [p], by simp, hrestores, fun r hr => ?_⟩
  rw [← List.cons_append] at hr
  rcases List.mem_append.mp hr with hold | hnew
  · exact hheavy r hold
  · rw [List.mem_singleton.mp hnew]
    exact hp

omit [DecidableEq V] in
theorem Passage.Restores.strained {capacity : Nat} {trace : List (Passage K V Q R)}
    {p : Passage K V Q R} (hrestores : p.Restores)
    (hp : capacity < p.after.world.store.map.weightedSize) : Strained capacity (trace ++ [p]) :=
  ⟨trace, p, [], rfl, hrestores, by simpa using hp⟩

omit [DecidableEq V] in
/-- A store that is too heavy has an entry. -/
theorem EntryMap.Accounted.entries_ne_nil {settings : Settings K V Q R} {m : EntryMap K V}
    (hm : m.Accounted settings) (hpos : 0 < m.weightedSize) : m.entries ≠ [] := by
  intro hnil
  have hsum := m.sum_weight_entries
  rw [← hm.balanced.weightedSize, hnil] at hsum
  simp at hsum
  omega

/-- What one thread keeps: the store is strained, or within its capacity, or the thread owes an
enforcement. -/
structure Machine.Bounded (capacity : Nat) (i : Nat) (trace : List (Passage K V Q R))
    (m : Machine K V Q R) : Prop where
  sheltered : ∀ t, m.threads[i]? = some t → t.IsSheltered
  bound : Strained capacity trace ∨ m.world.store.map.weightedSize ≤ capacity ∨
    ∃ t, m.threads[i]? = some t ∧ t.Owes m.world.store

section Run

variable {settings : Settings K V Q R} {start m : Machine K V Q R} {capacity i : Nat}
  {trace : List (Passage K V Q R)} {p : Passage K V Q R}

/-- A step of the thread. -/
theorem Machine.Bounded.step {t : Thread K V Q R} {s : Step K V Q R}
    (hcapacity : settings.blueprint.capacity = some capacity) (hveto : settings.veto = none)
    (hcopy : ∀ value, ∃ copy, settings.copyOut value = .ok copy)
    (hbounded : p.before.Bounded capacity i trace)
    (hmap : p.before.world.store.map.Accounted settings)
    (hdraws : ∀ failed sample, p.stage? = some (.pick failed sample) →
      ∀ entry ∈ p.before.world.store.map.entries, entry ∈ sample)
    (hmover : p.mover = some i) (ht : p.before.threads[i]? = some t)
    (hstride : t.Stride settings p.before.world s)
    (hafter : p.after = ⟨s.world, p.before.threads.setIfInBounds i s.thread⟩) :
    p.after.Bounded capacity i (trace ++ [p]) := by
  have hsize : i < p.before.threads.size := (Array.getElem?_eq_some_iff.mp ht).1
  have hthread : p.after.threads[i]? = some s.thread := by
    rw [hafter]
    simp [hsize]
  have hstage : ∀ stage, t.activity = .keep stage → p.stage? = some stage :=
    fun stage => Passage.stage?_of_keep hmover ht
  have hsheltered := hbounded.sheltered t ht
  refine ⟨fun t' ht' => ?_, ?_⟩
  · rw [hthread] at ht'
    rw [← Option.some.inj ht']
    exact hstride.isSheltered hcopy hsheltered
  · rw [hafter]
    by_cases hheavy : capacity < s.world.store.map.weightedSize
    · have hp : capacity < p.after.world.store.map.weightedSize := by rw [hafter]; exact hheavy
      have howed : s.thread.Owes s.world.store → ∃ t', (p.before.threads.setIfInBounds i
          s.thread)[i]? = some t' ∧ t'.Owes s.world.store :=
        fun howes => ⟨s.thread, by simp [hsize], howes⟩
      rcases hbounded.bound with hstrained | hwithin | ⟨t', ht', howes⟩
      · exact .inl (hstrained.snoc hp)
      · rcases hstride.weight with hle | howes | ⟨stage, hactivity, hrestores⟩
        · omega
        · exact .inr (.inr (howed howes))
        · exact .inl (Passage.Restores.strained ⟨stage, hstage stage hactivity, hrestores⟩ hp)
      · obtain rfl : t = t' := by
          rw [ht] at ht'
          exact Option.some.inj ht'
        by_cases hbefore : p.before.world.store.map.weightedSize ≤ capacity
        · rcases hstride.weight with hle | howes | ⟨stage, hactivity, hrestores⟩
          · omega
          · exact .inr (.inr (howed howes))
          · exact .inl (Passage.Restores.strained ⟨stage, hstage stage hactivity, hrestores⟩ hp)
        · have hscan : ∀ failed sample, t.activity = .keep (.pick failed sample) → sample ≠ [] := by
            intro failed sample hactivity hnil
            have hentries := hmap.entries_ne_nil (by omega)
            obtain ⟨entry, hentry⟩ := List.exists_mem_of_ne_nil _ hentries
            have hdrawn := hdraws failed sample (hstage _ hactivity) entry hentry
            rw [hnil] at hdrawn
            cases hdrawn
          rcases hstride.owes hcapacity hveto hsheltered howes hscan with hnext | hle
          · exact .inr (.inr (howed hnext))
          · omega
    · exact .inr (.inl (Nat.le_of_not_lt hheavy))

/-- The invariant of a run in which one thread moves. -/
theorem Run.bounded (hstart : start.Fresh settings) (run : Run settings start trace m)
    (hcapacity : settings.blueprint.capacity = some capacity) (hveto : settings.veto = none)
    (hcopy : ∀ value, ∃ copy, settings.copyOut value = .ok copy)
    (hsolo : ∀ p ∈ trace, ∀ j, p.mover = some j → j = i) (hdraws : DrawsAll trace) :
    m.Bounded capacity i trace := by
  induction run with
  | rest =>
    refine ⟨by simp [hstart.threads], .inr (.inl ?_)⟩
    obtain ⟨h, hstore⟩ := Store.of_eq_ok hstart.store
    rw [hstore]
    exact Nat.zero_le _
  | @move trace p hrun hp ih =>
    have hbounded := ih (fun q hq => hsolo q (List.mem_append_left _ hq))
      fun q hq => hdraws q (List.mem_append_left _ hq)
    have hlast : p ∈ trace ++ [p] := by simp
    cases hp.course with
    | @step j t s hmover ht hstride hafter hevents =>
      obtain rfl := hsolo p hlast j hmover
      exact hbounded.step hcapacity hveto hcopy (hrun.reachable hstart).accounted.map
        (hdraws p hlast) hmover ht hstride hafter
    | outside hmover houtside hevents =>
      have hstore := houtside.store_eq
      refine ⟨fun t ht => ?_, ?_⟩
      · rcases houtside.threads_eq i with hsame | ⟨script, -, hnew⟩
        · rw [hsame] at ht
          exact hbounded.sheltered t ht
        · rw [hnew] at ht
          rw [← Option.some.inj ht]
          trivial
      · by_cases hheavy : capacity < p.after.world.store.map.weightedSize
        · rcases hbounded.bound with hstrained | hwithin | ⟨t, ht, howes⟩
          · exact .inl (hstrained.snoc hheavy)
          · rw [hstore] at hheavy
            omega
          · refine .inr (.inr ⟨t, ?_, by rw [hstore]; exact howes⟩)
            rcases houtside.threads_eq i with hsame | ⟨script, hnone, -⟩
            · rw [hsame]
              exact ht
            · rw [hnone] at ht
              cases ht
        · exact .inr (.inl (by omega))

/-- A store without a veto, whose one thread draws every entry in each round of an eviction, is too
heavy between two operations just when a restoration made it so and nothing has relieved it
since. -/
theorem Run.overweight_iff {t : Thread K V Q R} (hstart : start.Fresh settings)
    (run : Run settings start trace m)
    (hcapacity : settings.blueprint.capacity = some capacity) (hveto : settings.veto = none)
    (hcopy : ∀ value, ∃ copy, settings.copyOut value = .ok copy)
    (hsolo : ∀ p ∈ trace, ∀ j, p.mover = some j → j = i) (hdraws : DrawsAll trace)
    (ht : m.threads[i]? = some t) (hplain : t.IsPlain) :
    capacity < m.world.store.map.weightedSize ↔ Strained capacity trace := by
  constructor
  · intro hheavy
    rcases (run.bounded hstart hcapacity hveto hcopy hsolo hdraws).bound with
      hstrained | hwithin | ⟨t', ht', howes⟩
    · exact hstrained
    · omega
    · rw [ht] at ht'
      obtain rfl := Option.some.inj ht'
      exact absurd howes hplain.not_owes
  · rintro ⟨front, p, back, htrace, -, hheavy⟩
    obtain ⟨q, hq, rfl⟩ := run.exists_last htrace
    exact hheavy q hq

end Run

/-! ## A store that is too heavy -/

/-- A store of two entries, in which the smallest key is evicted first. -/
def narrowSettings : Settings Nat Nat Unit Unit :=
  { Settings.plain ⟨none, some 2, none, 2, ⟨3, 1, by decide, by decide⟩⟩ id with
    priority := some fun key _ key' _ => compare key key' }

/-- A thread puts three values, and then computes the second one with a function that puts a fourth
one and fails. -/
def narrowMoves (steps : Nat) : List (Move Nat Nat Unit Unit) :=
  .spawn (.call (.put 1 0) fun _ => .call (.put 2 0) fun _ => .call (.put 3 0) fun _ =>
    .call (.compute 2 fun _ _ => .call (.put 4 0) fun _ => .finish (.complaint "no"))
      .finish) ::
  List.replicate steps (.step 0 ⟨[1, 2, 3], .none, false⟩)

/-- What the schedule comes to: only the first thread moves, every pick has drawn all entries, the
thread has ended, and the store is too heavy. -/
theorem narrow_replay : (Machine.replay narrowSettings (narrowMoves 39)).map (fun run =>
    (run.1.all fun p => p.mover.all (· == 0),
      run.1.all fun p => match p.stage? with
        | some (.pick _ sample) => p.before.world.store.map.entries.all (· ∈ sample)
        | _ => true,
      (run.2.threads[0]?.bind Thread.result?).isSome,
      run.2.world.store.map.weightedSize)) = some (true, true, true, 3) := by
  decide +kernel

omit [DecidableEq K] [DecidableEq V] in
theorem Thread.isPlain_of_result? {t : Thread K V Q R} (ht : t.result?.isSome = true) :
    t.IsPlain := by
  unfold Thread.result? at ht
  split at ht
  · rename_i signal hactivity hstack
    exact ⟨by rw [hactivity]; trivial, by simp [hstack]⟩
  · cases ht

/-- The fourth value takes the room of the second one while that is computed, and nothing is evicted
when it comes back. -/
theorem narrow_overweight : ∃ (start m : Machine Nat Nat Unit Unit)
    (trace : List (Passage Nat Nat Unit Unit)) (t : Thread Nat Nat Unit Unit),
    start.Fresh narrowSettings ∧ Run narrowSettings start trace m ∧ DrawsAll trace ∧
      (∀ p ∈ trace, ∀ j, p.mover = some j → j = 0) ∧ m.threads[0]? = some t ∧ t.IsPlain ∧
      2 < m.world.store.map.weightedSize ∧ Strained 2 trace := by
  obtain ⟨⟨trace, m⟩, hreplay, hfacts⟩ := Option.map_eq_some_iff.mp narrow_replay
  obtain ⟨start, hstart, run⟩ := Machine.run_of_replay hreplay
  obtain ⟨hmovers, hrest⟩ := Prod.mk.inj hfacts
  obtain ⟨hpicks, hrest⟩ := Prod.mk.inj hrest
  obtain ⟨hresult, hweight⟩ := Prod.mk.inj hrest
  have hsolo : ∀ p ∈ trace, ∀ j, p.mover = some j → j = 0 := by
    intro p hp j hj
    have hmover := List.all_eq_true.mp hmovers p hp
    simpa [hj] using hmover
  have hdraws : DrawsAll trace := by
    intro p hp failed sample hstage entry hentry
    have hpick := List.all_eq_true.mp hpicks p hp
    rw [hstage] at hpick
    simpa using List.all_eq_true.mp hpick entry hentry
  cases ht : m.threads[0]? with
  | none => simp [ht] at hresult
  | some t =>
    have hplain : t.IsPlain := Thread.isPlain_of_result? (by simpa [ht] using hresult)
    have hheavy : 2 < m.world.store.map.weightedSize := by
      change m.world.store.map.weightedSize = 3 at hweight
      omega
    exact ⟨start, m, trace, t, hstart, run, hdraws, hsolo, ht, hplain, hheavy,
      (run.overweight_iff hstart rfl rfl (fun value => ⟨value, rfl⟩) hsolo hdraws ht hplain).mp
        hheavy⟩

end SharedCache
