import SharedCache.Proofs.Capacity
import SharedCache.Proofs.Endings
import SharedCache.Proofs.Tending

/-!
# The law of lifetimes

Where one thread has an unbounded store for itself, a key is visible just as long as its lifetime
goes on: until the time to live is over since the value was written, and until the time to idle is
over since it was written or hit.  Whatever happens in between and at whatever times, the single
deadline that the store keeps never drifts from these two.
-/

namespace SharedCache

open Function

variable {K V Q R : Type} [DecidableEq K] {l : Lifetime} {since now t : Instant} {key : K}

/-! ## What is visible -/

/-- A key that nothing is withheld of is visible at a time to come just as long as its lifetime goes
on. -/
theorem Observes.visible_iff {s : Store K V} {ongoing : List (Ongoing K V Q R)}
    {usages : K → Option Usage}
    (hobserves : Observes l s.deadlines (lodgings ongoing s.map.get?) usages since)
    (hnone : ∀ fault, s.map.get? key = some (.fault fault) → withheld ongoing key fault = none)
    (hle : since ≤ t) : s.visible key t = true ↔ ∃ u, usages key = some u ∧ l.Allows u t := by
  constructor
  · intro hvisible
    obtain ⟨h, hlook⟩ := Store.live_of_visible hvisible
    obtain ⟨hslot, halive⟩ := Store.slot_of_live hlook
    have hshown : (h.record s.deadlines).isVisible t = true := by
      rw [s.expired_eq] at halive
      simpa using halive
    obtain ⟨u, hu, hgoes⟩ :=
      hobserves.live (lodgings_of_holder hslot) (Record.isVisible_of_le hle hshown)
    exact ⟨u, hu, (hgoes.2 t).mp hshown⟩
  · rintro ⟨u, hu, hallows⟩
    obtain ⟨h, hlodged, hshown⟩ := hobserves.visible hu (hallows.mono hle)
    obtain ⟨u', hu', hgoes⟩ := hobserves.live hlodged hshown
    obtain rfl := Option.some.inj (hu.symm.trans hu')
    have hslot := (lodgings_eq_some hnone).mp hlodged
    have hshown' : (h.record s.deadlines).isVisible t = true := (hgoes.2 t).mpr hallows
    have halive : s.expired h t = false := by
      rw [s.expired_eq]
      simpa using hshown'
    rw [Store.visible, Store.look, hslot]
    simp [halive]

variable [DecidableEq V] {settings : Settings K V Q R} {start m : Machine K V Q R}
  {trace : List (Passage K V Q R)} {i : Nat}

/-! ## What moves no time -/

/-- The function of a computation has failed: it has returned an error, or it has panicked. -/
def Signal.IsFailure (signal : Signal V) : Prop :=
  (∃ p, signal = .raised p) ∨ ∃ text, signal = .done (.complaint text)

/-- After a trace the passage moves neither time of a value: it looks at the value without using it,
or it is part of a computation that leaves it as it was. -/
inductive Passage.LeavesTimes (front : List (Passage K V Q R)) (p : Passage K V Q R) : Prop where
  | contains {key : K} {retries : Nat} {now : Instant} :
      p.stage? = some (.visit (.contains key) retries now) → LeavesTimes front p
  /-- The operation finds another value than it expects. -/
  | differs {operation : Operation K V Q R} {key : K} {expected : V} {h : Holder V} {retries : Nat}
      {now : Instant} :
      p.stage? = some (.visit operation retries now) →
      operation = .removeIfEqual key expected ∨
        (∃ value, operation = .replaceIfEqual key expected value) →
      p.before.world.store.look key now = .live h → h.value ≠ expected → LeavesTimes front p
  /-- The operation is about to compute. -/
  | begins {operation : Operation K V Q R} {key : K} {retries : Nat} {now : Instant} :
      p.stage? = some (.visit operation retries now) → operation.key? = some key →
      operation.computes ((p.before.world.store.look key now).live?.map Holder.value) = true →
      LeavesTimes front p
  /-- The end of a computation whose function has failed. -/
  | fails {i : Nat} {t : Thread K V Q R} {stage : Stage K V Q R} {e : Ending K V Q R} :
      p.mover = some i → p.before.threads[i]? = some t → t.activity = .keep stage →
      stage.ending? = some e →
      (∀ signal, e.computation.Returned i t.stack signal front → signal.IsFailure) →
      LeavesTimes front p

/-- An end that gives no value and does not remove one leaves the value as it was. -/
theorem Stage.treatment?_of_ending {s : Store K V} {raises : Bool} {stage : Stage K V Q R}
    {e : Ending K V Q R} (hends : stage.ending? = some e) (hready : ∀ h, e.resolution ≠ .ready h)
    (habsent : e.resolution ≠ .absent) : stage.treatment? s raises key = none := by
  cases stage with
  | install c h value =>
    obtain rfl := Option.some.inj hends
    exact absurd rfl (hready h)
  | vacate c resolution answer =>
    obtain rfl := Option.some.inj hends
    cases resolution with
    | absent => exact absurd rfl habsent
    | _ => rfl
  | restore => rfl
  | _ => cases hends

omit [DecidableEq K] [DecidableEq V] in
/-- A function that has failed leaves no value and removes none. -/
theorem Ending.Concludes.of_failure {e : Ending K V Q R} {signal : Signal V}
    (hconcludes : e.Concludes settings signal) (hfails : signal.IsFailure) :
    (∀ h, e.resolution ≠ .ready h) ∧ e.resolution ≠ .absent := by
  cases hconcludes with
  | gives | crashes =>
    rcases hfails with ⟨p, hp⟩ | ⟨text, htext⟩
    · cases hp
    · cases htext
  | nothing hcomplaint =>
    rcases hfails with ⟨p, hp⟩ | ⟨text, htext⟩
    · cases hp
    · exact absurd (Signal.done.inj htext) (hcomplaint text)
  | fails | restores | panics => exact ⟨by simp, by simp⟩

/-- Such a passage leaves all usages as they were. -/
theorem Run.usages_of_leavesTimes (hstart : start.Fresh settings) (run : Run settings start trace m)
    {front back : List (Passage K V Q R)} {p : Passage K V Q R}
    (htrace : trace = front ++ p :: back) (hleaves : p.LeavesTimes front) :
    usages (front ++ [p]) = usages front := by
  rw [usages_snoc, Passage.treats]
  cases hleaves with
  | @contains key retries now hstage =>
    rw [hstage]
    refine Stage.treats_visit_eq_self rfl (.inr ?_)
    rw [Store.treatment?_of_admits (Store.admits_of_not_waits rfl)]
    simp [Operation.treatment?, Operation.gives, Operation.takes, Operation.reads]
  | @differs operation key expected h retries now hstage hwhich hlook hvalue =>
    have hnone : operation.treatment? now (some h.value) = none := by
      rcases hwhich with rfl | ⟨value, rfl⟩ <;>
        simp [Operation.treatment?, Operation.gives, Operation.takes, Operation.reads, hvalue]
    have hkey : operation.key? = some key := by
      rcases hwhich with rfl | ⟨value, rfl⟩ <;> rfl
    rw [hstage]
    exact Stage.treats_visit_eq_self hkey (.inr ((Store.treatment?_of_live hlook).trans hnone))
  | @begins operation key retries now hstage hkey hcomputes =>
    rw [hstage]
    refine Stage.treats_visit_eq_self hkey (.inr ?_)
    rw [Store.treatment?]
    split
    · exact if_pos (Operation.waits_of_computes hcomputes)
    · exact Operation.treatment?_of_computes hcomputes
  | @fails i t stage e hmover ht hactivity hends hfailed =>
    rw [Passage.stage?_of_keep hmover ht hactivity]
    refine Stage.treats_eq_self fun other => ?_
    obtain ⟨hfront, -, -⟩ := run.split htrace
    rcases hfront.concluded hstart ht hactivity hends with
      ⟨signal, hreturned, hconcludes⟩ | huncalled
    · obtain ⟨hready, habsent⟩ := hconcludes.of_failure (hfailed signal hreturned)
      exact Stage.treatment?_of_ending hends hready habsent
    · obtain ⟨panic, he⟩ := huncalled.ending
      have hretry : e.resolution = .retry := congrArg Ending.resolution he
      exact Stage.treatment?_of_ending hends (by simp [hretry]) (by simp [hretry])

/-! ## Where the readings come from -/

omit [DecidableEq K] [DecidableEq V] in
/-- A new value is written at the reading of the clock at which it is composed. -/
theorem Store.writtenAt_of_compose (hexpiry : settings.expiry = some (l.expiry K V)) {s : Store K V}
    {c c' : Computation K V Q R} {value copy : V} {h : Holder V}
    (hnext : (s.compose settings c value now).next = .keep (.install c' h copy)) :
    h.writtenAt = now := by
  revert hnext
  rw [compose]
  refine Turn.consulting_induction
    (P := fun turn => turn.next = .keep (.install c' h copy) → h.writtenAt = now)
    (fun _ _ hturn => hturn) (fun _ _ hturn => by cases hturn) fun d hd => ?_
  refine Turn.consulting_induction
    (P := fun turn => turn.next = .keep (.install c' h copy) → h.writtenAt = now)
    (fun _ _ hturn => hturn) (fun _ _ hturn => by cases hturn) fun copy' _ hnext => ?_
  obtain ⟨-, rfl, -⟩ := Stage.install.inj (Activity.keep.inj hnext)
  exact (Settings.bounds_draft hexpiry hd).1

omit [DecidableEq K] [DecidableEq V] in
/-- No function ends in a holder. -/
theorem Store.next_mapped_ne_install (s : Store K V) (c c' : Computation K V Q R)
    (signal : Signal V) (h : Holder V) (value : V) :
    (s.mapped c signal).next ≠ .keep (.install c' h value) := by
  cases signal with
  | raised p => nofun
  | done answer =>
    cases answer with
    | complaint text =>
      obtain ⟨key, fault, previous, isRequest, code⟩ := c
      cases previous <;> nofun
    | value v => cases v <;> nofun
    | _ => nofun

/-- A computed value is written at the reading of the clock that its thread has taken just
before. -/
theorem Run.composed (hstart : start.Fresh settings) (run : Run settings start trace m)
    (hexpiry : settings.expiry = some (l.expiry K V)) {front back : List (Passage K V Q R)}
    {p : Passage K V Q R} (htrace : trace = front ++ p :: back) (hmover : p.mover = some i)
    {c : Computation K V Q R} {h : Holder V} {value : V}
    (hstage : p.stage? = some (.install c h value)) :
    ∃ early clock between given, IsLastStep front i early clock between ∧
      clock.stage? = some (.compose c given) ∧
      clock.before.world.clock.now = h.writtenAt := by
  obtain ⟨hfront, -, -⟩ := run.split htrace
  obtain ⟨j, t, hj, ht, hactivity⟩ := Passage.keep_of_stage? hstage
  obtain rfl := Option.some.inj (hmover.symm.trans hj)
  obtain ⟨early, clock, between, t', hlast, ht', hfrom⟩ :=
    hfront.computes hstart ht hactivity rfl (by simp)
  rcases hfrom with ⟨signal, -, -, hmapped⟩ | ⟨stage, hactivity', -, hstages⟩
  · exact (Store.next_mapped_ne_install _ _ _ _ _ _ hmapped).elim
  rcases hstages with ⟨p, -, -, hrestores⟩ | ⟨given, copy, h', rfl, -, -, hinstalls⟩
  · cases hrestores
  have hclock := Passage.stage?_of_keep hlast.mover ht' hactivity'
  obtain ⟨-, hlawful, hrests⟩ := hfront.split hlast.trace
  obtain ⟨interrupted, draws, turn, hturn, hsection⟩ := hlawful.isSection hclock
  obtain rfl := Option.some.inj hturn
  -- The thread is still where composing the value has left it.
  have hnext := hsection.next
  rw [Passage.next?, hlast.mover, Option.bind_some] at hnext
  obtain ⟨t'', ht'', hnext⟩ := Option.map_eq_some_iff.mp hnext
  obtain rfl := Option.some.inj ((hrests.thread_eq hlast.rests ht'').symm.trans ht)
  exact ⟨early, clock, between, given, hlast, hclock,
    (Store.writtenAt_of_compose hexpiry (hnext.symm.trans hactivity)).symm⟩

/-! ## The law -/

/-- How the keys of an unbounded store live that one thread has for itself. -/
structure KeepsLifetimes (l : Lifetime) (i : Nat) (trace : List (Passage K V Q R))
    (m : Machine K V Q R) : Prop where
  /-- Between two operations a key is visible at a time to come just as long as its lifetime goes on
  from when it was written and used. -/
  visible : (∀ t, m.threads[i]? = some t → t.IsPlain) → ∀ key t, m.world.clock.now ≤ t →
    (m.world.store.visible key t = true ↔ ∃ u, usages trace key = some u ∧ l.Allows u t)
  /-- While a function or a listener runs that holds of the keys that nobody computes. -/
  within : (∀ t, m.threads[i]? = some t → ∀ stage, t.activity ≠ .keep stage) → ∀ key,
    (∀ c progress, .computes c progress ∈ m.ongoing → c.key ≠ key) →
    ∀ t, m.world.clock.now ≤ t →
    (m.world.store.visible key t = true ↔ ∃ u, usages trace key = some u ∧ l.Allows u t)
  /-- An operation goes by the reading of the clock that its thread has taken just before, and finds
  a value alive by the same law. -/
  looks : ∀ front p back, trace = front ++ p :: back → ∀ operation retries now,
    p.stage? = some (.visit operation retries now) →
    (∃ early clock between, IsLastStep front i early clock between ∧
      clock.stage? = some (.round operation retries) ∧ clock.before.world.clock.now = now) ∧
    ∀ key, operation.key? = some key → (∀ fault, p.before.slot? key ≠ some (.fault fault)) →
      (p.before.world.store.visible key now = true ↔
        ∃ u, usages front key = some u ∧ l.Allows u now)
  /-- So does a computation whose value is written. -/
  composes : ∀ front p back, trace = front ++ p :: back → ∀ c h value,
    p.stage? = some (.install c h value) →
    ∃ early clock between given, IsLastStep front i early clock between ∧
      clock.stage? = some (.compose c given) ∧ clock.before.world.clock.now = h.writtenAt
  /-- Some operations look at a value without using it, and those that fail leave it as it was. -/
  leaves : ∀ front p back, trace = front ++ p :: back → p.LeavesTimes front →
    usages (front ++ [p]) = usages front

/-- In every run in which one thread moves, whatever operations it calls and whenever the clock
moves on, the keys of an unbounded store live by the time to live and the time to idle. -/
theorem Run.keepsLifetimes (hstart : start.Fresh settings) (run : Run settings start trace m)
    (hcapacity : settings.blueprint.capacity = none)
    (hexpiry : settings.expiry = some (l.expiry K V))
    (hsolo : ∀ p ∈ trace, ∀ j, p.mover = some j → j = i) :
    KeepsLifetimes l i trace m := by
  -- What holds while the thread is in no section.
  have hwithin : (∀ t, m.threads[i]? = some t → ∀ stage, t.activity ≠ .keep stage) → ∀ key,
      (∀ c progress, .computes c progress ∈ m.ongoing → c.key ≠ key) →
      ∀ t, m.world.clock.now ≤ t →
      (m.world.store.visible key t = true ↔ ∃ u, usages trace key = some u ∧ l.Allows u t) := by
    intro hapart key hothers t hle
    have htended := run.tended hstart hcapacity hexpiry hsolo
    have hnone : ∀ fault, withheld m.ongoing key fault = none := fun fault =>
      withheld_of_others hothers fault
    cases hthread : m.threads[i]? with
    | none => exact (htended.idle hthread).visible_iff (fun fault _ => hnone fault) hle
    | some thread =>
      obtain ⟨since, hsince, howes, -⟩ := htended.busy thread hthread
      have hobserves := howes.observes_of_free (howes.isFree (hapart thread hthread))
      exact hobserves.visible_iff (fun fault _ => hnone fault) (Nat.le_trans hsince hle)
  constructor
  case visible =>
    intro hplain key t hle
    refine hwithin (fun t ht => (hplain t ht).1.ne_keep) key (fun c progress hmem => ?_) t hle
    rw [run.ongoing_eq_nil hstart hsolo hplain] at hmem
    cases hmem
  case within => exact hwithin
  case looks =>
    intro front p back htrace operation retries now hstage
    obtain ⟨hfront, -, -⟩ := run.split htrace
    have hsolo' : ∀ q ∈ front, ∀ j, q.mover = some j → j = i := fun q hq =>
      hsolo q (by simp [htrace, hq])
    obtain ⟨j, t, hmover, ht, hactivity⟩ := Passage.keep_of_stage? hstage
    obtain rfl := hsolo p (by simp [htrace]) j hmover
    obtain ⟨early, clock, between, stage, hlast, hclock, rfl, hreading⟩ :=
      run.stems_of_stage hstart htrace hmover hstage rfl (by simp)
    refine ⟨⟨early, clock, between, hlast, hclock, hreading.symm⟩, fun key hkey hfree => ?_⟩
    obtain ⟨since, -, howes, -⟩ :=
      (hfront.tended hstart hcapacity hexpiry hsolo').busy t ht
    rw [hactivity] at howes
    cases howes with
    | rests hnever => cases hnever
    | visits hobserves =>
      exact hobserves.visible_iff (fun fault hfault => absurd hfault (hfree fault)) (Nat.le_refl _)
  case composes =>
    intro front p back htrace c h value hstage
    obtain ⟨j, t, hmover, -, -⟩ := Passage.keep_of_stage? hstage
    obtain rfl := hsolo p (by simp [htrace]) j hmover
    exact run.composed hstart hexpiry htrace hmover hstage
  case leaves =>
    intro front p back htrace hleaves
    exact run.usages_of_leavesTimes hstart htrace hleaves

/-! ## A value that is read again and again -/

/-- Ten nanoseconds from the last time that a value was written, and four from the last time that it
was used. -/
def fleetingLife : Lifetime := ⟨some (.ofNanos 10), some (.ofNanos 4)⟩

/-- A store whose entries live that long. -/
def fleetingSettings : Settings Nat Nat Unit Unit :=
  { plainSettings with expiry := some (fleetingLife.expiry Nat Nat) }

/-- A thread puts a value and reads it three times, three nanoseconds apart. -/
def fleetingMoves : List (Move Nat Nat Unit Unit) :=
  .spawn (.call (.put 1 7) fun _ => .call (.get 1) fun _ => .call (.get 1) fun _ =>
    .call (.get 1) .finish) ::
  ([6, 7, 7].flatMap fun steps =>
    List.replicate steps (.step 0 .none) ++ [.advance (.ofNanos 3)]) ++
  List.replicate 8 (.step 0 .none)

/-- The reads keep the value alive, but not for longer than ten nanoseconds after it was written. -/
theorem fleeting_value_ends : ∃ (start m : Machine Nat Nat Unit Unit)
    (trace : List (Passage Nat Nat Unit Unit)), start.Fresh fleetingSettings ∧
      Run fleetingSettings start trace m ∧ fleetingSettings.blueprint.capacity = none ∧
      fleetingSettings.expiry = some (fleetingLife.expiry Nat Nat) ∧
      (∀ p ∈ trace, ∀ j, p.mover = some j → j = 0) ∧ KeepsLifetimes fleetingLife 0 trace m ∧
      m.world.clock.now.nanos = 9 ∧
      ∀ t, m.world.clock.now ≤ t → (m.world.store.visible 1 t = true ↔ t.nanos < 10) := by
  have hfacts : (Machine.replay fleetingSettings fleetingMoves).map (fun run =>
      (run.1.all fun p => p.mover.all (· == 0),
        (run.2.threads[0]?.bind Thread.result?).isSome,
        (usages run.1 1).map fun u => (u.writtenAt.nanos, u.usedAt.nanos),
        run.2.world.clock.now.nanos)) = some (true, true, some (0, 9), 9) := by
    decide +kernel
  obtain ⟨⟨trace, m⟩, hreplay, htuple⟩ := Option.map_eq_some_iff.mp hfacts
  obtain ⟨hmovers, hrest⟩ := Prod.mk.inj htuple
  obtain ⟨hresult, hrest⟩ := Prod.mk.inj hrest
  obtain ⟨husage, hnow⟩ := Prod.mk.inj hrest
  obtain ⟨start, hstart, run⟩ := Machine.run_of_replay hreplay
  have hsolo : ∀ p ∈ trace, ∀ j, p.mover = some j → j = 0 := by
    intro p hp j hj
    have hmover := List.all_eq_true.mp hmovers p hp
    simpa [hj] using hmover
  have hlaw := run.keepsLifetimes hstart rfl rfl hsolo
  refine ⟨start, m, trace, hstart, run, rfl, rfl, hsolo, hlaw, hnow, fun t hle => ?_⟩
  have hplain : ∀ thread, m.threads[0]? = some thread → thread.IsPlain := fun thread hthread =>
    Thread.isPlain_of_result? (by simpa [hthread] using hresult)
  rw [hlaw.visible hplain 1 t hle]
  obtain ⟨u, hu, hreadings⟩ := Option.map_eq_some_iff.mp husage
  obtain ⟨hwritten, hused⟩ := Prod.mk.inj hreadings
  have hlive : (Duration.ofNanos 10).nanos = 10 := by decide
  have hidle : (Duration.ofNanos 4).nanos = 4 := by decide
  have hhorizon : 13 ≤ horizon := by decide
  simp only [hu, Option.some.injEq, exists_eq_left', Lifetime.Allows, fleetingLife, forall_eq',
    hwritten, hused, hlive, hidle]
  omega

end SharedCache
