import SharedCache.Proofs.LifetimeSections

/-!
# Tending a store

One thread has a store for itself: it is the only one that moves.  Whatever it does, in its sections
or between them, it owes the store no more than its next section pays, and what it has put off owes
nothing.
-/

namespace SharedCache

open Function

variable {K V Q R : Type} [DecidableEq K] {l : Lifetime} {usages : K → Option Usage}
  {since : Instant}

/-! ## Ends of functions and listeners -/

section Ends

variable {s : Store K V} {front back : List (Ongoing K V Q R)} {c : Computation K V Q R}

/-- The end of its function lets a computation make a value, remove the one that it had, or put that
back. -/
theorem Store.owes_mapped {signal : Signal V} (hobserves : Observes l s.deadlines
      (lodgings (front ++ [.computes c .running] ++ back) s.map.get?) usages since) :
    (s.mapped c signal).Owes l front back usages since := by
  have hslots : ∀ progress, lodgings (front ++ [.computes c progress] ++ back) s.map.get? =
      lodgings (front ++ [.computes c .running] ++ back) s.map.get? := fun progress =>
    lodgings_keep rfl fun _ _ => withheld_progress ..
  have hvacates : ∀ (s' : Store K V) resolution answer, s'.map = s.map →
      s'.deadlines = s.deadlines →
      resolution = .absent ∨ c.previous = none ∧ (∃ error, resolution = .failed error) →
      (Turn.goTo s' (.keep (.vacate c resolution answer))).Owes l front back usages since := by
    intro s' resolution answer hmap hdeadlines hwhy
    refine ⟨.vacates ?_ hwhy, by simp⟩
    change Observes l s'.deadlines
      (lodgings (front ++ [.computes c (.leaving none resolution (.done answer))] ++ back)
        s'.map.get?) usages since
    rw [hmap, hdeadlines, hslots]
    exact hobserves
  cases signal with
  | raised p =>
    exact Turn.owes_keep hobserves rfl rfl (fun _ _ => withheld_progress ..) rfl
      (by simp [mapped, unwinding])
  | done answer =>
    cases answer with
    | complaint text =>
      rw [mapped]
      split
      · exact Turn.owes_keep hobserves rfl rfl (fun _ _ => withheld_progress ..) rfl (by simp)
      · rename_i hprevious
        exact hvacates _ _ _ rfl rfl (.inr ⟨hprevious, _, rfl⟩)
    | value v =>
      cases v with
      | some value =>
        exact Turn.owes_keep hobserves rfl rfl (fun _ _ => withheld_progress ..) rfl
          (by simp [mapped, Answer.value?])
      | none => exact hvacates _ _ _ rfl rfl (.inl rfl)
    | _ => exact hvacates _ _ _ rfl rfl (.inl rfl)

theorem Store.owes_listened {signal : Signal V} (hobserves : Observes l s.deadlines
      (lodgings (front ++ [] ++ back) s.map.get?) usages since) :
    (s.listened signal : StoreTurn K V Q R).Owes l front back usages since := by
  cases signal with
  | done answer =>
    exact Turn.owes_keep hobserves rfl rfl (fun _ _ => rfl) trivial (by simp [listened])
  | raised p =>
    exact Turn.owes_keep hobserves rfl rfl (fun _ _ => rfl) trivial (by simp [listened])

end Ends

/-! ## Steps -/

/-- What a thread owes that has the store for itself. -/
structure Thread.Tends (l : Lifetime) (front back : List (Ongoing K V Q R))
    (usages : K → Option Usage) (since : Instant) (s : Store K V) (t : Thread K V Q R) : Prop where
  owes : Undertakes l s (lodgings (front ++ t.ongoing ++ back) s.map.get?) usages since t.activity
  later : ∀ frame ∈ t.stack, frame.IsLater

variable [DecidableEq V] {settings : Settings K V Q R} {w : World K V Q R} {t : Thread K V Q R}
  {step : Step K V Q R} {front back : List (Ongoing K V Q R)}

omit [DecidableEq V] in
/-- A turn on top of a stack. -/
theorem Turn.Owes.tends {turn : StoreTurn K V Q R}
    (hturn : turn.Owes l front (stackOngoing t.stack ++ back) usages since)
    (hstack : ∀ frame ∈ t.stack, frame.IsLater) :
    (t.goOn turn.next turn.frames).Tends l front back usages since turn.state := by
  have hongoing : front ++ (t.goOn turn.next turn.frames).ongoing ++ back =
      front ++ turn.ongoing ++ (stackOngoing t.stack ++ back) := by
    rw [Thread.ongoing_goOn]
    simp
  refine ⟨?_, fun frame hframe => ?_⟩
  · rw [hongoing]
    exact hturn.next
  · rcases List.mem_append.mp hframe with hnew | hold
    · exact hturn.frames frame hnew
    · exact hstack frame hold

omit [DecidableEq V] in
/-- Between its sections a thread owes nothing. -/
theorem Undertakes.isFree {s : Store K V} {slots : K → Option (Slot V)} {a : Activity K V Q R}
    (howes : Undertakes l s slots usages since a) (hapart : ∀ stage, a ≠ .keep stage) :
    a.IsFree := by
  cases howes with
  | rests hfree => exact hfree
  | _ => exact absurd rfl (hapart _)

omit [DecidableEq V] in
theorem Thread.Tends.observes {s : Store K V} (htends : t.Tends l front back usages since s)
    (hapart : ∀ stage, t.activity ≠ .keep stage) :
    Observes l s.deadlines (lodgings (front ++ t.ongoing ++ back) s.map.get?) usages since :=
  htends.owes.observes_of_free (htends.owes.isFree hapart)

omit [DecidableEq V] in
/-- A step that leaves the store alone and withholds the same. -/
theorem Thread.Tends.rests {s s' : Store K V} (htends : t.Tends l front back usages since s)
    (hapart : ∀ stage, t.activity ≠ .keep stage) {t' : Thread K V Q R} (hs' : s' = s)
    (hsame : ∀ key fault, withheld t'.ongoing key fault = withheld t.ongoing key fault)
    (hfree : t'.activity.IsFree) (hlater : ∀ frame ∈ t'.stack, frame.IsLater) :
    t'.Tends l front back usages since s' := by
  subst hs'
  refine ⟨.rests hfree ?_, hlater⟩
  rw [lodgings_keep rfl hsame]
  exact htends.observes hapart

/-- Every step of a thread that is no section leaves it owing nothing that it cannot pay. -/
theorem Thread.Stride.tends (hstride : t.Stride settings w step)
    (htends : t.Tends l front back usages since w.store)
    (hapart : ∀ stage, t.activity ≠ .keep stage) :
    step.thread.Tends l front back usages since step.world.store := by
  have hlater := htends.later
  have hobserves := htends.observes hapart
  cases hstride with
  | works hplain _ _ hstore ha hframes =>
    refine htends.rests hapart hstore (fun _ _ => ?_) ha.isFree fun frame hframe => ?_
    · simp [Thread.ongoing, hplain.ongoing_eq, ha.ongoing_eq, stackOngoing_eq_nil hframes]
    · rcases List.mem_append.mp hframe with hnew | hold
      · exact (hframes frame hnew).isLater
      · exact hlater frame hold
  | calls hactivity =>
    refine htends.rests hapart rfl (fun _ _ => ?_) rfl fun frame hframe => ?_
    · rw [Thread.ongoing, Thread.ongoing, hactivity]
      rfl
    · rcases List.mem_cons.mp hframe with rfl | hold
      · trivial
      · exact hlater frame hold
  | enters hactivity =>
    have hfree := htends.owes.isFree hapart
    rw [hactivity] at hfree
    refine htends.rests hapart rfl (fun _ _ => ?_) hfree fun frame hframe => ?_
    · rw [Thread.ongoing, Thread.ongoing, hactivity]
      rfl
    · rcases List.mem_cons.mp hframe with rfl | hold
      · trivial
      · exact hlater frame hold
  | returns hactivity hstack hplain _ hstore ha =>
    refine htends.rests hapart hstore (fun _ _ => ?_) ha.isFree fun frame hframe =>
      hlater frame (hstack ▸ List.mem_cons_of_mem _ hframe)
    simp [Thread.ongoing, hactivity, hstack, ha.ongoing_eq, hplain.ongoing_eq]
  | proceeds hactivity hstack =>
    have ha := hlater _ (hstack ▸ List.mem_cons_self)
    refine htends.rests hapart rfl (fun _ _ => ?_) (Activity.IsLater.isFree ha) fun frame hframe =>
      hlater frame (hstack ▸ List.mem_cons_of_mem _ hframe)
    simp [Thread.ongoing, hactivity, hstack]
  | unwinds hactivity hstack =>
    have ha := hlater _ (hstack ▸ List.mem_cons_self)
    refine htends.rests hapart rfl (fun key fault => ?_) trivial fun frame hframe =>
      hlater frame (hstack ▸ List.mem_cons_of_mem _ hframe)
    simp [Thread.ongoing, hactivity, hstack, withheld_append, Activity.IsLater.withheld ha]
  | @mapped signal c rest hactivity hstack =>
    have hongoing : front ++ t.ongoing ++ back =
        front ++ [.computes c .running] ++ (stackOngoing t.popped.stack ++ back) := by
      simp [Thread.ongoing, Thread.popped, hactivity, hstack]
    rw [hongoing] at hobserves
    exact (Store.owes_mapped hobserves).tends fun frame hframe =>
      hlater frame (List.mem_of_mem_tail hframe)
  | @listened signal rest hactivity hstack =>
    have hongoing : front ++ t.ongoing ++ back =
        front ++ [] ++ (stackOngoing t.popped.stack ++ back) := by
      simp [Thread.ongoing, Thread.popped, hactivity, hstack, Frame.ongoing]
    rw [hongoing] at hobserves
    exact (Store.owes_listened hobserves).tends fun frame hframe =>
      hlater frame (List.mem_of_mem_tail hframe)
  | keeps hactivity => exact absurd hactivity (hapart _)

/-- So does every section. -/
theorem Thread.Tends.acts {stage : Stage K V Q R} {turn : StoreTurn K V Q R}
    {now : Instant} {interrupted : Bool} {draws : List K} {s : Store K V}
    (htends : t.Tends l front back usages since s) (hactivity : t.activity = .keep stage)
    (hcapacity : settings.blueprint.capacity = none)
    (hsound : s.Sound settings l (front ++ t.ongoing ++ back)) (hle : since ≤ now)
    (hturn : stage.turn settings s now interrupted draws = some turn) :
    ∃ since' ≤ now, (t.goOn turn.next turn.frames).Tends l front back
      (stage.treats s turn.raises usages) since' turn.state := by
  have hongoing : front ++ t.ongoing ++ back =
      front ++ stage.ongoing ++ (stackOngoing t.stack ++ back) := by
    simp [Thread.ongoing, hactivity]
  have howes := htends.owes
  rw [hongoing, hactivity] at howes
  rw [hongoing] at hsound
  obtain ⟨since', hle', hturn'⟩ := Stage.owes hcapacity hsound howes hle hturn
  exact ⟨since', hle', hturn'.tends htends.later⟩

/-! ## Runs -/

/-- A machine in which slots and deadlines go by what was written and used, but for what this thread
owes. -/
structure Machine.Tended (l : Lifetime) (i : Nat) (usages : K → Option Usage)
    (m : Machine K V Q R) : Prop where
  idle : m.threads[i]? = none → Observes l m.world.store.deadlines
    (lodgings m.ongoing m.world.store.map.get?) usages m.world.clock.now
  busy : ∀ t, m.threads[i]? = some t → ∃ since ≤ m.world.clock.now, Undertakes l m.world.store
    (lodgings m.ongoing m.world.store.map.get?) usages since t.activity ∧
      ∀ frame ∈ t.stack, frame.IsLater

variable {p : Passage K V Q R} {m start : Machine K V Q R} {trace : List (Passage K V Q R)}
  {i : Nat}

omit [DecidableEq V] in
/-- A machine that nobody has used shows nothing, as nothing was written. -/
theorem Machine.Fresh.tended (hm : m.Fresh settings) : m.Tended l i fun _ => none := by
  refine ⟨fun _ => ?_, by simp [hm.threads]⟩
  have hnone : lodgings m.ongoing m.world.store.map.get? = fun _ => none :=
    funext fun key => lodgings_of_none (hm.get?_eq_none key)
  rw [hnone]
  exact ⟨⟨_, ⟨⟨by simp, by simp, by simp⟩, rfl⟩, fun key => .none⟩, by simp⟩

theorem Machine.Reachable.sound (hm : m.Reachable settings)
    (hexpiry : settings.expiry = some (l.expiry K V)) :
    m.world.store.Sound settings l m.ongoing :=
  ⟨hexpiry, hm.accounted.map.valid, hm.owned, fun _ _ hslot => hm.unresolved_of_fault hslot⟩

omit [DecidableEq V] in
/-- What happens outside the threads does not concern what is owed. -/
theorem Machine.Tended.outside (htended : p.before.Tended l i usages)
    (houtside : p.before.Outside p.after) : p.after.Tended l i usages := by
  have hstore := houtside.store_eq
  have hongoing := houtside.ongoing_eq
  have hle := houtside.now_le_now
  refine ⟨fun hnone => ?_, fun t ht => ?_⟩
  · rcases houtside.threads_eq i with hsame | ⟨script, -, hnew⟩
    · rw [hstore, hongoing]
      exact (htended.idle (hsame.symm.trans hnone)).mono hle
    · rw [hnone] at hnew
      cases hnew
  · rw [hstore, hongoing]
    rcases houtside.threads_eq i with hsame | ⟨script, hnone, hnew⟩
    · obtain ⟨since, hsince, howes⟩ := htended.busy t (hsame.symm.trans ht)
      exact ⟨since, Nat.le_trans hsince hle, howes⟩
    · obtain rfl := Option.some.inj (ht.symm.trans hnew)
      exact ⟨_, hle, .rests trivial (htended.idle hnone), by simp [Thread.running]⟩

omit [DecidableEq K] [DecidableEq V] in
theorem Passage.isRaising_of_next {turn : StoreTurn K V Q R} (hnext : p.next? = some turn.next) :
    p.isRaising = turn.raises := by
  rw [isRaising, hnext, Turn.raises]
  cases turn.next with
  | settle signal => cases signal <;> rfl
  | _ => rfl

/-- A step of the thread pays what the thread owes. -/
theorem Machine.Tended.move (htended : p.before.Tended l i usages) (hp : p.Lawful settings)
    (hm : p.before.Reachable settings) (hcapacity : settings.blueprint.capacity = none)
    (hexpiry : settings.expiry = some (l.expiry K V)) (hmover : p.mover = some i)
    (ht : p.before.threads[i]? = some t) (hstride : t.Stride settings p.before.world step)
    (hafter : p.after = ⟨step.world, p.before.threads.setIfInBounds i step.thread⟩) :
    p.after.Tended l i (p.treats usages) := by
  obtain ⟨front, back, hbefore, hset⟩ := Machine.ongoing_set ht step.world
  obtain ⟨since, hsince, howes, hlater⟩ := htended.busy t ht
  have hsound := hm.sound hexpiry
  rw [hbefore] at hsound howes
  have htends : t.Tends l front back usages since p.before.world.store := ⟨howes, hlater⟩
  have hsize := (Array.getElem?_eq_some_iff.mp ht).1
  have hthread : p.after.threads[i]? = some step.thread := by simp [hafter, hsize]
  have hongoing : p.after.ongoing = front ++ step.thread.ongoing ++ back := by
    rw [hafter]
    exact hset step.thread
  have hbusy : ∀ {usages' since'}, since' ≤ p.before.world.clock.now →
      step.thread.Tends l front back usages' since' step.world.store →
      p.after.Tended l i usages' := by
    intro usages' since' hle htends'
    refine ⟨fun hnone => (nomatch hthread.symm.trans hnone), fun t' ht' => ?_⟩
    obtain rfl := Option.some.inj (hthread.symm.trans ht')
    refine ⟨since', Nat.le_trans hle hp.now_le_now, ?_, htends'.later⟩
    rw [hongoing, hafter]
    exact htends'.owes
  by_cases hkeeps : ∃ stage, t.activity = .keep stage
  · obtain ⟨stage, hactivity⟩ := hkeeps
    obtain ⟨turn, draws, hturn, rfl⟩ := hstride.turn_of_keep hactivity
    have hnext : p.next? = some turn.next := by
      simp [Passage.next?, hmover, hthread, Step.ofStore, Thread.goOn]
    have htreats : p.treats usages = stage.treats p.before.world.store turn.raises usages := by
      rw [Passage.treats, Passage.stage?_of_keep hmover ht hactivity,
        Passage.isRaising_of_next hnext]
    obtain ⟨since', hle, htends'⟩ := htends.acts hactivity hcapacity hsound hsince hturn
    rw [htreats]
    exact hbusy hle htends'
  · have hapart : ∀ stage, t.activity ≠ .keep stage := fun stage hstage => hkeeps ⟨stage, hstage⟩
    rw [Passage.treats, Passage.stage?_of_apart hmover ht hapart]
    exact hbusy hsince (hstride.tends htends hapart)

/-- In a run in which one thread moves slots and deadlines go by what was written and used. -/
theorem Run.tended (hstart : start.Fresh settings) (run : Run settings start trace m)
    (hcapacity : settings.blueprint.capacity = none)
    (hexpiry : settings.expiry = some (l.expiry K V))
    (hsolo : ∀ p ∈ trace, ∀ j, p.mover = some j → j = i) :
    m.Tended l i (SharedCache.usages trace) := by
  induction run with
  | rest => exact hstart.tended
  | @move trace p run hp ih =>
    have htended := ih fun q hq => hsolo q (List.mem_append_left _ hq)
    rw [usages_snoc]
    cases hp.course with
    | @step j t s hmover ht hstride hafter =>
      obtain rfl := hsolo p (by simp) j hmover
      exact htended.move hp (run.reachable hstart) hcapacity hexpiry hmover ht hstride hafter
    | outside hmover houtside =>
      have hnone : p.stage? = none := by simp [Passage.stage?, Passage.thread?, hmover]
      rw [Passage.treats, hnone]
      exact htended.outside houtside

/-- The threads that never move withhold nothing. -/
theorem Run.ongoing_eq_nil (hstart : start.Fresh settings) (run : Run settings start trace m)
    (hsolo : ∀ p ∈ trace, ∀ j, p.mover = some j → j = i)
    (hplain : ∀ t, m.threads[i]? = some t → t.IsPlain) : m.ongoing = [] := by
  refine List.flatMap_eq_nil_iff.mpr fun t ht => ?_
  obtain ⟨j, hj⟩ := List.mem_iff_getElem?.mp ht
  have hthread : m.threads[j]? = some t := by simpa using hj
  rcases run.last_step hstart hthread with ⟨script, rfl⟩ | ⟨front, p, back, hlast, -⟩
  · rfl
  · obtain rfl := hsolo p (by simp [hlast.trace]) j hlast.mover
    exact (hplain t hthread).ongoing_eq

end SharedCache
