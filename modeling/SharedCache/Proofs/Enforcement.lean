import SharedCache.Proofs.Enforcement.Steps

/-!
# Enforcements

From its beginning to its end an enforcement of the capacity takes a bounded number of steps, and
removes an entry only when it must.
-/

namespace SharedCache

variable {K V Q R : Type}

namespace Enforcement

variable (e : Enforcement K V Q R) [DecidableEq K]

/-! ## Runs -/

section Runs

variable [DecidableEq V] {e} {settings : Settings K V Q R} {start m : Machine K V Q R}
  {trace : List (Passage K V Q R)} {p : Passage K V Q R}

/-- Where an enforcement stands after a run from its beginning on. -/
structure Stands (e : Enforcement K V Q R) (settings : Settings K V Q R) (weight : Nat)
    (trace : List (Passage K V Q R)) (m : Machine K V Q R) : Prop where
  place : ∃ n t above, m.threads[e.thread]? = some t ∧ t.stack = above ++ e.base ∧
    e.At settings trace m.world.store.map n t.activity above ∧
      e.steps trace + n ≤ cost settings weight 0 + 1
  treated : e.HasTreated settings trace

omit [DecidableEq K] [DecidableEq V] in
theorem steps_snoc_own (hown : e.isOwn p = true) :
    e.steps (trace ++ [p]) = e.steps trace + 1 := by
  simp [steps, hown]

omit [DecidableEq K] [DecidableEq V] in
theorem steps_snoc_other (hother : e.isOwn p = false) :
    e.steps (trace ++ [p]) = e.steps trace := by
  simp [steps, hother]

omit [DecidableEq V] in
theorem HasTreated.snoc (htreated : e.HasTreated settings trace)
    (hp : e.isOwn p = true → e.Treats settings trace p) :
    e.HasTreated settings (trace ++ [p]) := by
  intro front q back hsplit hown
  rcases List.eq_nil_or_concat back with rfl | ⟨rest, last, rfl⟩
  · obtain ⟨rfl, hlast⟩ := List.append_inj' hsplit rfl
    obtain rfl := (List.cons.inj hlast).1
    exact hp hown
  · rw [List.concat_eq_append, ← List.cons_append, ← List.append_assoc] at hsplit
    exact htreated front q rest (List.append_inj' hsplit rfl).1 hown

/-- While the listener runs the enforcement waits for it. -/
theorem At.waits {t : Thread K V Q R} {above : List (Frame K V Q R)} {n : Nat} {map : EntryMap K V}
    (hat : e.At settings trace map n t.activity above) (hp : p.Lawful settings)
    (hmover : p.mover = some e.thread) (ht : p.before.threads[e.thread]? = some t)
    (hstack : t.stack = above ++ e.base) (hother : e.isOwn p = false) :
    ∃ t' above', p.after.threads[e.thread]? = some t' ∧ t'.stack = above' ++ e.base ∧
      e.At settings (trace ++ [p]) map n t'.activity above' := by
  have hlong : ¬ above.length ≤ 1 := fun hshort => by
    simp [isOwn_of_stack hmover ht hstack hshort] at hother
  generalize hactivity : t.activity = a at hat
  cases hat with
  | @listens _ inside hfruitless hquiet =>
    rw [List.append_assoc] at hstack
    obtain ⟨chance, s, hstep, -, ht', -⟩ := hp.own_step hmover ht
    rcases (Thread.stride hstep).below hstack with ⟨rfl, signal, hsettled⟩ | ⟨inside', hinside⟩
    · rw [isOwn_of_listened hmover ht hsettled hstack] at hother
      cases hother
    · exact ⟨s.thread, inside' ++ [.listening, .next (.keep (.enforce 0))], ht',
        by rw [hinside, List.append_assoc]; rfl,
        .listens ((fruitless_snoc_other hother).trans hfruitless) (hquiet.snoc_other hother)⟩
  | _ => exact absurd (by simp) hlong

/-- Every passage either brings the enforcement nearer to its end or is none of its steps. -/
theorem Stands.step {weight : Nat} (hstands : e.Stands settings weight trace p.before)
    (hp : p.Lawful settings) (hm : p.before.Reachable settings)
    (hundisturbed : e.Undisturbed (trace ++ [p])) :
    e.Stands settings weight (trace ++ [p]) p.after := by
  obtain ⟨⟨n, t, above, ht, hstack, hat, hsteps⟩, htreated⟩ := hstands
  have hlast : p ∈ trace ++ [p] := by simp
  cases hown : e.isOwn p with
  | true =>
    have hmover : p.mover = some e.thread := by simp [isOwn] at hown; exact hown.1
    obtain ⟨htreats, n', t', above', hless, ht', hstack', hat'⟩ :=
      hat.advances hp hmover ht hm hstack (hundisturbed.within p hlast hmover t ht) hown
    refine ⟨⟨n', t', above', ht', hstack', hat', ?_⟩, htreated.snoc fun _ => htreats⟩
    rw [steps_snoc_own hown]
    omega
  | false =>
    refine ⟨?_, htreated.snoc fun hyes => by simp [hown] at hyes⟩
    rw [hundisturbed.calm p hlast hown, steps_snoc_other hown]
    by_cases hmover : p.mover = some e.thread
    · obtain ⟨t', above', ht', hstack', hat'⟩ := hat.waits hp hmover ht hstack hown
      exact ⟨n, t', above', ht', hstack', hat', hsteps⟩
    · exact ⟨n, t, above, hp.thread_eq hmover ht, hstack, hat.snoc_other hmover, hsteps⟩

omit [DecidableEq K] [DecidableEq V] in
theorem Undisturbed.of_append {front back : List (Passage K V Q R)}
    (hundisturbed : e.Undisturbed (front ++ back)) : e.Undisturbed front :=
  ⟨fun p hp => hundisturbed.calm p (List.mem_append_left back hp),
    fun p hp => hundisturbed.within p (List.mem_append_left back hp)⟩

theorem stands_of_run {t : Thread K V Q R} (hstart : start.Reachable settings)
    (ht : start.threads[e.thread]? = some t) (hstack : t.stack = e.base)
    (hbegins : t.activity = .keep (.enforce 0)) (run : Run settings start trace m)
    (hundisturbed : e.Undisturbed trace) :
    e.Stands settings start.world.store.map.weightedSize trace m := by
  induction run with
  | rest =>
    have hat : e.At settings [] start.world.store.map
        (cost settings start.world.store.map.weightedSize 0 + 1) t.activity [] := by
      rw [hbegins]
      exact .enforces (Nat.zero_le _) rfl (by simp) (by simp [Quiet])
    exact ⟨⟨_, t, [], ht, hstack, hat, by simp [steps]⟩, by simp [HasTreated]⟩
  | @move trace p run hp ih =>
    exact (ih hundisturbed.of_append).step hp (run.reachable_of_reachable hstart) hundisturbed

end Runs

/-- The enforcement, to whose step these passages lead, removes an entry because it has to: the
entries weigh too much, and the entry was drawn in this round and is expired or not vetoed. -/
structure Removes (settings : Settings K V Q R) (front : List (Passage K V Q R))
    (p : Passage K V Q R) (entry : K × Holder V) (cause : RemovalCause) : Prop where
  overweight : settings.Overweight p.before.world.store.map
  drawn : ∃ head q round failed sample, front = head ++ q :: round ∧ e.isOwn q = true ∧
    (∀ r ∈ round, e.isOwn r = false) ∧ q.stage? = some (.pick failed sample) ∧
    entry ∈ sample ∧ sample.length ≤ settings.blueprint.sampling.size ∧ e.Drawn head sample ∧
      (cause = .expired ∧
          q.before.world.store.expired entry.2 q.before.world.clock.now = true ∨
        cause = .size ∧
          q.before.world.store.expired entry.2 q.before.world.clock.now = false ∧
          (settings.spares entry).result = .ok false)
  map : p.after.world.store.map = p.before.world.store.map.erase entry.1
  reported : p.next? = some (.keep (.report entry.1 entry.2 cause))

theorem Treats.removes_of_evicted {e : Enforcement K V Q R} {settings : Settings K V Q R}
    {front : List (Passage K V Q R)} {p : Passage K V Q R} {entry : K × Holder V}
    {cause : RemovalCause} (htreats : e.Treats settings front p)
    (hevicted : p.evicted? = some (entry, cause)) : e.Removes settings front p entry cause := by
  obtain ⟨hover, ⟨head, q, round, hfront, ⟨hown, failed, sample, hstage, hsize, hdrawn, -, hresult⟩,
    hround⟩, hmap, hreported⟩ := htreats.removes entry cause hevicted
  have hmem := Store.mem_of_victim hresult
  refine ⟨hover, ⟨head, q, round, failed, sample, hfront, hown, hround, hstage, hmem, hsize, hdrawn,
    ?_⟩, hmap, hreported⟩
  rcases Store.victim_spec hresult with hexpired | ⟨hcause, hfresh, hspares⟩
  · exact .inl hexpired
  · exact .inr ⟨hcause, hfresh entry hmem, hspares⟩

/-- What an enforcement has done after these passages. -/
structure Sound (settings : Settings K V Q R) [DecidableEq V] (start m : Machine K V Q R)
    (trace : List (Passage K V Q R)) : Prop where
  /-- It never takes more steps than that. -/
  steps : e.steps trace ≤ (settings.blueprint.sampling.size + 6) *
    (settings.blueprint.sampling.attempts * start.world.store.map.weightedSize +
      settings.blueprint.sampling.attempts) + 1
  /-- Until it is over it can go on, unless the listener runs that it has called. -/
  goesOn : ∃ t, m.threads[e.thread]? = some t ∧
    (t.stack = e.base ∧ (∃ signal, t.activity = .settle signal) ∨
      (∃ inside, t.stack = inside ++ .listening :: .next (.keep (.enforce 0)) :: e.base) ∧
        t.enforces e.base.length = false ∨
      ∀ chance, (m.step settings chance e.thread).isSome)
  ends : ∀ t signal, m.threads[e.thread]? = some t → t.stack = e.base →
    t.activity = .settle signal → e.Ends settings trace m.world.store.map signal
  removes : ∀ front p back entry cause, trace = front ++ p :: back → e.isOwn p = true →
    p.evicted? = some (entry, cause) → e.Removes settings front p entry cause
  /-- Unless it removes an entry, a step leaves all slots as they are. -/
  spares : ∀ p ∈ trace, e.isOwn p = true → p.evicted? = none →
    p.after.world.store.map = p.before.world.store.map
  deadlines : ∀ p ∈ trace, e.isOwn p = true →
    p.after.world.store.deadlines = p.before.world.store.deadlines

section Sound

variable [DecidableEq V] {e} {settings : Settings K V Q R} {m : Machine K V Q R}
  {trace : List (Passage K V Q R)} {t : Thread K V Q R} {above : List (Frame K V Q R)} {n : Nat}

/-- Nothing but the listener keeps an enforcement from going on. -/
theorem At.goesOn (hat : e.At settings trace m.world.store.map n t.activity above)
    (ht : m.threads[e.thread]? = some t) (hstack : t.stack = above ++ e.base) :
    t.stack = e.base ∧ (∃ signal, t.activity = .settle signal) ∨
      (∃ inside, t.stack = inside ++ .listening :: .next (.keep (.enforce 0)) :: e.base) ∧
        t.enforces e.base.length = false ∨
      ∀ chance, (m.step settings chance e.thread).isSome := by
  have hstep : (∀ chance, (t.step settings chance m.world).isSome) →
      ∀ chance, (m.step settings chance e.thread).isSome := fun hsome chance => by
    obtain ⟨s, hs⟩ := Option.isSome_iff_exists.mp (hsome chance)
    exact Machine.isSome_step ht hs
  have hkeep : ∀ stage, t.activity = .keep stage →
      (∀ operation retries fault, stage ≠ .await operation retries fault) →
        ∀ chance, (m.step settings chance e.thread).isSome := fun stage hactivity hstage =>
    hstep (Thread.isSome_step_of_keep hactivity hstage)
  generalize hactivity : t.activity = a at hat
  cases hat with
  | enforces => exact .inr (.inr (hkeep _ hactivity (by simp)))
  | draws => exact .inr (.inr (hkeep _ hactivity (by simp)))
  | picks => exact .inr (.inr (hkeep _ hactivity (by simp)))
  | evicts => exact .inr (.inr (hkeep _ hactivity (by simp)))
  | reports => exact .inr (.inr (hkeep _ hactivity (by simp)))
  | @listens _ inside =>
    rw [List.append_assoc] at hstack
    by_cases hruns : inside = [] ∧ ∃ signal, t.activity = .settle signal
    · obtain ⟨rfl, signal, hsettled⟩ := hruns
      exact .inr (.inr (hstep (Thread.isSome_step_of_settle hsettled hstack)))
    · refine .inr (.inl ⟨⟨inside, hstack⟩, ?_⟩)
      have hother := not_isOwn_of_listens (p := ⟨m, some e.thread, [], m⟩) rfl ht hstack hruns
      simpa [isOwn, Passage.thread?, ht] using hother
  | reported => exact .inr (.inr (hstep (Thread.isSome_step_of_settle hactivity hstack)))
  | unwinds => exact .inr (.inr (hstep (Thread.isSome_step_of_settle hactivity hstack)))
  | @ends signal => exact .inl ⟨hstack, signal, rfl⟩

omit [DecidableEq V] in
/-- An enforcement is over when nothing of it is left on the thread. -/
theorem At.of_settled {map : EntryMap K V} {signal : Signal V}
    (hat : e.At settings trace map n (.settle signal) above) (hempty : above = []) :
    e.Ends settings trace map signal := by
  generalize hactivity : Activity.settle signal = a at hat
  cases hat with
  | ends hends =>
    obtain rfl := Activity.settle.inj hactivity
    exact hends
  | listens => simp at hempty
  | reported => cases hempty
  | unwinds => cases hempty
  | _ => cases hactivity

end Sound

end Enforcement

/-- An enforcement of the capacity ends, and removes an entry only when it must.

It begins in `start`, and no one else, the listener included, changes a slot until it is over.  Then
it takes a bounded number of steps, whatever it draws, and nothing but the listener can keep it from
taking the next.  Each removal takes place while the entries weigh too much, and concerns an entry
drawn in that round that was either expired, whatever the veto says, or not vetoed.  It ends with
entries that fit and without a word to the log, or with entries that are too heavy, after as many
rounds in a row without a removal as are allowed, and tells the log so; otherwise a callback has
panicked. -/
theorem Run.enforcesCapacity [DecidableEq K] [DecidableEq V] {settings : Settings K V Q R}
    {start m : Machine K V Q R} {trace : List (Passage K V Q R)} {e : Enforcement K V Q R}
    {t : Thread K V Q R} (hstart : start.Reachable settings) (run : Run settings start trace m)
    (ht : start.threads[e.thread]? = some t) (hstack : t.stack = e.base)
    (hbegins : t.activity = .keep (.enforce 0)) (hundisturbed : e.Undisturbed trace) :
    e.Sound settings start m trace := by
  obtain ⟨⟨n, t', above, ht', hstack', hat, hsteps⟩, htreated⟩ :=
    Enforcement.stands_of_run hstart ht hstack hbegins run hundisturbed
  have htreats : ∀ p ∈ trace, e.isOwn p = true → ∃ front, e.Treats settings front p :=
    fun p hp hown => by
      obtain ⟨front, back, hsplit⟩ := List.append_of_mem hp
      exact ⟨front, htreated front p back hsplit hown⟩
  refine ⟨(Nat.le_add_right _ n).trans hsteps, ⟨t', ht', hat.goesOn ht' hstack'⟩,
    fun last signal hlast hbase hsettled => ?_, fun front p back entry cause hsplit hown hevicted =>
      (htreated front p back hsplit hown).removes_of_evicted hevicted, fun p hp hown => ?_,
    fun p hp hown => ?_⟩
  · obtain rfl := Option.some.inj (ht'.symm.trans hlast)
    rw [hsettled] at hat
    exact hat.of_settled (by simpa [hstack'] using hbase)
  · obtain ⟨front, hp⟩ := htreats p hp hown
    exact hp.spares
  · obtain ⟨front, hp⟩ := htreats p hp hown
    exact hp.deadlines

/-! ## An enforcement that gives up -/

/-- A store for one value, in which the values of odd keys must not be evicted. -/
def guardedSettings : Settings Nat Nat Unit Unit :=
  { (.plain ⟨none, some 1, none, 1, ⟨2, 1, Nat.two_pos, Nat.one_pos⟩⟩ id :
      Settings Nat Nat Unit Unit) with
    veto := some fun key _ => .ok (key % 2 = 1)
    listener := some fun _ _ _ => .finish .unit }

/-- The enforcement of the last value that the first thread puts. -/
def lastPut : Enforcement Nat Nat Unit Unit :=
  ⟨0, [.next (.settle (.done .unit)), .calling .finish]⟩

/-- Puts three values. -/
def guardedMoves : List (Move Nat Nat Unit Unit) :=
  .spawn (.call (.put 1 0) fun _ => .call (.put 3 0) fun _ => .call (.put 2 0) .finish) ::
    List.replicate 18 (.step 0 ⟨[1, 2], .none, false⟩)

/-- Whether the passage belongs to an enforcement that is not over, or to code outside the store. -/
def Enforcement.spares (e : Enforcement Nat Nat Unit Unit) (p : Passage Nat Nat Unit Unit) : Bool :=
  (e.isOwn p || p.stage?.isNone) &&
    p.thread?.all fun t => match t.activity with
      | .settle _ => t.stack.length ≠ e.base.length
      | _ => true

theorem Enforcement.undisturbed_of_spares {e : Enforcement Nat Nat Unit Unit}
    {start m : Machine Nat Nat Unit Unit} {trace : List (Passage Nat Nat Unit Unit)}
    {settings : Settings Nat Nat Unit Unit} (run : Run settings start trace m)
    (hspares : trace.all e.spares = true) : e.Undisturbed trace := by
  have hp : ∀ p ∈ trace, e.spares p = true := List.all_eq_true.mp hspares
  simp only [Enforcement.spares, Bool.and_eq_true, Bool.or_eq_true, Option.isNone_iff_eq_none] at hp
  refine ⟨fun p hmem hother => ?_, fun p hmem hmover t ht hstack signal hactivity => ?_⟩
  · obtain ⟨front, back, hsplit⟩ := List.append_of_mem hmem
    exact (run.split hsplit).2.1.map_of_apart ((hp p hmem).1.resolve_left (by simp [hother]))
  · obtain ⟨-, hover⟩ := hp p hmem
    simp [Passage.thread?, hmover, ht, hactivity, hstack] at hover

/-- The third value is evicted, as the first one must not be, and then the enforcement gives up. -/
theorem guarded_sound : ∃ (start m : Machine Nat Nat Unit Unit)
    (trace : List (Passage Nat Nat Unit Unit)) (t : Thread Nat Nat Unit Unit),
    start.Reachable guardedSettings ∧ Run guardedSettings start trace m ∧
      start.threads[0]? = some t ∧ t.stack = lastPut.base ∧
      t.activity = .keep (.enforce 0) ∧ lastPut.Undisturbed trace ∧
      trace.filterMap (fun p => p.evicted?.map fun victim => (victim.1.1, victim.2)) =
        [(2, .size)] ∧
      m.world.store.map.weightedSize = 2 ∧ m.threads[0]?.map Thread.activity =
        some (.settle (.done .unit)) ∧
      lastPut.Sound guardedSettings start m trace := by
  have hruns : (Machine.replayFrom guardedSettings guardedMoves
      (List.replicate 12 (.step 0 ⟨[1, 2], .none, false⟩))).map (fun run =>
        (run.1.threads[0]?, run.2.1.all lastPut.spares,
          run.2.1.filterMap (fun p => p.evicted?.map fun victim => (victim.1.1, victim.2)),
          run.2.2.world.store.map.weightedSize, run.2.2.threads[0]?.map Thread.activity)) =
      some (some ⟨.keep (.enforce 0), lastPut.base, none⟩, true, [(2, .size)], 2,
        some (.settle (.done .unit))) := rfl
  obtain ⟨⟨start, trace, m⟩, hrun, hfacts⟩ := Option.map_eq_some_iff.mp hruns
  obtain ⟨hbegins, hrest⟩ := Prod.mk.inj hfacts
  obtain ⟨hspares, hrest⟩ := Prod.mk.inj hrest
  obtain ⟨hevicted, hrest⟩ := Prod.mk.inj hrest
  obtain ⟨hweight, hended⟩ := Prod.mk.inj hrest
  obtain ⟨hstart, run⟩ := Machine.run_of_replayFrom hrun
  have hundisturbed := Enforcement.undisturbed_of_spares run hspares
  exact ⟨start, m, trace, _, hstart, run, hbegins, rfl, rfl, hundisturbed, hevicted, hweight,
    hended, run.enforcesCapacity hstart hbegins rfl rfl hundisturbed⟩

end SharedCache
