import SharedCache.Proofs.Deadlines
import SharedCache.Proofs.Emissions
import SharedCache.Proofs.Footsteps

/-!
# Readings

A read that finds a value looks at its deadline first, and one that receives a value from the
computation it waited for does not.  Either of them asks the expiry and moves the deadline later on,
at the reading of the clock that it took before.  So a value that has expired comes back to life in
two ways, and in no other one: a read that has waited refreshes it, or a read does that had taken
its reading of the clock while the value was alive.
-/

namespace SharedCache

variable {K V Q R : Type}

/-- Of two ways to part a list, the element between the parts of one is in the first part of the
other or comes later. -/
theorem exists_of_append_eq {α : Type} {front back early later : List α} {a : α}
    (heq : front ++ back = early ++ a :: later) :
    (∃ rest, front = early ++ a :: rest) ∨ ∃ gap, back = gap ++ a :: later := by
  rcases List.append_eq_append_iff.mp heq with ⟨gap, -, hback⟩ | ⟨rest, hfront, hrest⟩
  · exact .inr ⟨gap, hback⟩
  · cases rest with
    | nil => exact .inr ⟨[], hrest.symm⟩
    | cons first rest =>
      obtain ⟨rfl, -⟩ := List.cons.inj hrest
      exact .inl ⟨rest, hfront⟩

namespace Store

variable {s s' : Store K V} {h h' : Holder V} {now later : Instant}

theorem expired_congr (hid : h'.id = h.id) (hdeadlines : s'.deadlines[h.id]? = s.deadlines[h.id]?)
    (now : Instant) : s'.expired h' now = s.expired h now := by
  rw [expired, expired, deadline, deadline, hid, hdeadlines]

/-- What has expired stays so. -/
theorem expired_mono (hle : now ≤ later) (hexpired : s.expired h now = true) :
    s.expired h later = true := by
  rw [expired] at hexpired ⊢
  split at hexpired
  · cases hexpired
  · exact decide_eq_true (Nat.le_trans (of_decide_eq_true hexpired) hle)

variable [DecidableEq K] {key : K}

theorem slot_of_live (hlook : s.look key now = .live h) :
    s.map.get? key = some (.holder h) ∧ s.expired h now = false := by
  rw [look] at hlook
  split at hlook
  · cases hlook
  · cases hlook
  · rename_i found hslot
    split at hlook
    · cases hlook
    · obtain rfl := Look.live.inj hlook
      exact ⟨hslot, Bool.eq_false_iff.mpr ‹_›⟩

theorem live_of_visible (hvisible : s.visible key now = true) : ∃ h, s.look key now = .live h := by
  rw [visible] at hvisible
  split at hvisible
  · exact ⟨_, ‹_›⟩
  · cases hvisible

end Store

variable [DecidableEq K]

/-- The last that a thread did in a trace was to look at a key and to find a holder alive, at a
reading of the clock that it had taken after `early`. -/
inductive Found (trace : List (Passage K V Q R)) (i : Nat) (key : K) (h : Holder V) (now : Instant)
    (early : List (Passage K V Q R)) : Prop where
  | looked {front between back : List (Passage K V Q R)} {look clock : Passage K V Q R}
      {operation : Operation K V Q R} {retries : Nat} :
      IsLastStep trace i front look back → look.stage? = some (.visit operation retries now) →
      operation.key? = some key → operation.reads = true →
      look.before.world.store.look key now = .live h →
      IsLastStep front i early clock between → clock.stage? = some (.round operation retries) →
      clock.before.world.clock.now = now → Found trace i key h now early

/-- The last that a thread did in a trace was to read the clock for a holder that it had got from
the computation that it had waited for. -/
inductive Received (trace : List (Passage K V Q R)) (i : Nat) (key : K) (h : Holder V)
    (now : Instant) : Prop where
  | waited {front between back earlier : List (Passage K V Q R)} {clock wake : Passage K V Q R}
      {operation : Operation K V Q R} {retries fault : Nat} :
      IsLastStep trace i front clock back → clock.stage? = some (.receive key h) →
      clock.before.world.clock.now = now →
      IsLastStep front i earlier wake between →
      wake.stage? = some (.await operation retries fault) → operation.key? = some key →
      operation.reads = true → wake.before.world.store.resolution? fault = some (.ready h) →
      Received trace i key h now

/-- After a trace the passage refreshes the holder with this number for a read that had received it
or had taken its reading of the clock before `death` was over. -/
inductive Revives (trace : List (Passage K V Q R)) (p : Passage K V Q R) (id : Nat)
    (death : List (Passage K V Q R)) : Prop where
  | refreshed {i : Nat} {key : K} {h : Holder V} {now : Instant}
      {deadline : Option (Option Instant)} {thenEnforce : Bool}
      {front back : List (Passage K V Q R)} {consult : Passage K V Q R} :
      p.mover = some i → p.stage? = some (.refresh h deadline thenEnforce) → h.id = id →
      IsLastStep trace i front consult back →
      consult.stage? = some (.consult key h now thenEnforce) →
      (Received front i key h now ∨
        ∃ early clock rest, Found front i key h now early ∧ death = early ++ clock :: rest) →
      Revives trace p id death

variable [DecidableEq V] {settings : Settings K V Q R} {start m : Machine K V Q R}
  {trace : List (Passage K V Q R)} {i : Nat}

/-! ## Where a reading comes from -/

/-- The step of the same thread that a section of a run stems from. -/
theorem Run.stems_of_stage (hstart : start.Fresh settings) (run : Run settings start trace m)
    {front back : List (Passage K V Q R)} {p : Passage K V Q R}
    (htrace : trace = front ++ p :: back)
    (hmover : p.mover = some i) {next : Stage K V Q R} (hstage : p.stage? = some next)
    (hinner : next.isInner = true) (hhands : ∀ h thenEnforce, next ≠ .handOut h thenEnforce) :
    ∃ front' q back' stage, IsLastStep front i front' q back' ∧ q.stage? = some stage ∧
      stage.Stems q.before.world.store q.before.world.clock.now next := by
  obtain ⟨hfront, -, -⟩ := run.split htrace
  obtain ⟨j, t, hj, ht, hactivity⟩ := Passage.keep_of_stage? hstage
  obtain rfl := Option.some.inj (hmover.symm.trans hj)
  exact hfront.stems hstart ht hactivity hinner hhands

/-- A read has found what it asks the expiry about, or has received it. -/
theorem Run.found_or_received (hstart : start.Fresh settings) (run : Run settings start trace m)
    {front back : List (Passage K V Q R)} {p : Passage K V Q R}
    (htrace : trace = front ++ p :: back)
    (hmover : p.mover = some i) {key : K} {h : Holder V} {now : Instant} {thenEnforce : Bool}
    (hstage : p.stage? = some (.consult key h now thenEnforce)) :
    (∃ early, Found front i key h now early) ∨ Received front i key h now := by
  obtain ⟨front', q, back', stage, hlast, hq, hstems⟩ :=
    run.stems_of_stage hstart htrace hmover hstage rfl (by simp)
  obtain ⟨hfront, -, -⟩ := run.split htrace
  rcases hstems with ⟨operation, retries, rfl, hkey, hreads, hlook⟩ | ⟨rfl, rfl⟩
  · obtain ⟨early, clock, between, round, hlast', hround, rfl, htime⟩ :=
      hfront.stems_of_stage hstart hlast.trace hlast.mover hq rfl (by simp)
    exact .inl ⟨early, .looked hlast hq hkey hreads hlook hlast' hround htime.symm⟩
  · obtain ⟨earlier, wake, between, await, hlast', hawait, operation, retries, fault, rfl, hkey,
        hreads, hresolved⟩ := hfront.stems_of_stage hstart hlast.trace hlast.mover hq rfl (by simp)
    exact .inr (.waited hlast hq rfl hlast' hawait hkey hreads hresolved)

/-- What was found alive still is, unless somebody has refreshed it meanwhile. -/
theorem Run.alive_of_found (hstart : start.Fresh settings) (run : Run settings start trace m)
    {front back : List (Passage K V Q R)} {look : Passage K V Q R}
    (htrace : trace = front ++ look :: back) {key : K} {h : Holder V} {now : Instant}
    {operation : Operation K V Q R} {retries : Nat}
    (hstage : look.stage? = some (.visit operation retries now))
    (hlook : look.before.world.store.look key now = .live h)
    (hspared : ∀ p ∈ back, ¬ p.Refreshes h.id) : m.world.store.expired h now = false := by
  obtain ⟨hfront, hlawful, hback⟩ := run.split htrace
  obtain ⟨hslot, halive⟩ := Store.slot_of_live hlook
  have hreachable := hfront.reachable hstart
  have hrest : Run settings look.before (look :: back) m := (Run.rest.move hlawful).append hback
  have hsame := hrest.deadlines_eq hreachable (hreachable.id_lt hslot) fun p hp => by
    rcases List.mem_cons.mp hp with rfl | hlater
    · rintro ⟨h', deadline, thenEnforce, hrefresh, -⟩
      cases hstage.symm.trans hrefresh
    · exact hspared p hlater
  rw [Store.expired_congr rfl hsame]
  exact halive

/-! ## Coming back to life -/

/-- An expired value that is visible again has been refreshed, if nobody has written its key. -/
theorem Run.refreshed_of_visible (hstart : start.Reachable settings)
    (run : Run settings start trace m) {key : K} {h : Holder V}
    (hslot : start.slot? key = some (.holder h))
    (hdead : start.world.store.expired h start.world.clock.now = true)
    (hspared : ∀ p ∈ trace, ¬ p.Writes key)
    (hvisible : m.world.store.visible key m.world.clock.now = true) :
    ∃ p ∈ trace, p.Refreshes h.id := by
  by_contra hnone
  obtain ⟨h', hlook⟩ := Store.live_of_visible hvisible
  obtain ⟨hslot', halive⟩ := Store.slot_of_live hlook
  have hid : h'.id = h.id := by
    have hstood := run.standing_eq hstart hspared (Store.standing_of_holder hslot')
    rw [Machine.standing, Store.standing_of_holder hslot] at hstood
    exact (Option.some.inj hstood).symm
  have hsame := run.deadlines_eq hstart (hstart.id_lt hslot) fun p hp hrefreshes =>
    hnone ⟨p, hp, hrefreshes⟩
  rw [Store.expired_congr hid hsame, Store.expired_mono run.now_le_now hdead] at halive
  cases halive

/-- As long as nobody has refreshed an expired holder, nobody finds it alive but with a reading of
the clock that was taken before. -/
theorem Run.early_of_found (hstart : start.Reachable settings) (run : Run settings start trace m)
    {key key' : K} {h h' : Holder V} {now : Instant} (hslot : start.slot? key = some (.holder h))
    (hdead : start.world.store.expired h start.world.clock.now = true)
    (hspared : ∀ p ∈ trace, ¬ p.Refreshes h.id) (hid : h'.id = h.id)
    (hlook : m.world.store.look key' now = .live h') : now < start.world.clock.now := by
  obtain ⟨-, halive⟩ := Store.slot_of_live hlook
  have hsame := run.deadlines_eq hstart (hstart.id_lt hslot) hspared
  rw [Store.expired_congr hid hsame] at halive
  by_contra hlate
  rw [Store.expired_mono (Nat.le_of_not_lt hlate) hdead] at halive
  cases halive

/-- Whoever brings an expired value back to life has received it, or had read the clock before the
value was dead. -/
theorem Run.revives (hstart : start.Fresh settings) (run : Run settings start trace m)
    {front back : List (Passage K V Q R)} {p : Passage K V Q R}
    (htrace : trace = front ++ p :: back)
    {key : K} {h : Holder V} (hslot : p.before.slot? key = some (.holder h))
    (hdead : p.before.world.store.expired h p.before.world.clock.now = true)
    (hspared : ∀ q ∈ p :: back, ¬ q.Writes key)
    (hvisible : m.world.store.visible key m.world.clock.now = true) :
    ∃ before q after, p :: back = before ++ q :: after ∧
      Revives (front ++ before) q h.id front := by
  classical
  obtain ⟨hfront, hlawful, hback⟩ := run.split htrace
  have hreachable := hfront.reachable hstart
  have hrest : Run settings p.before (p :: back) m := (Run.rest.move hlawful).append hback
  obtain ⟨some', hsome, hrefreshes⟩ :=
    hrest.refreshed_of_visible hreachable hslot hdead hspared hvisible
  -- The first of those who refresh the holder meets it as dead as it was.
  have hany : ((p :: back).find? fun q => decide (q.Refreshes h.id)).isSome = true :=
    List.find?_isSome.mpr ⟨some', hsome, decide_eq_true hrefreshes⟩
  obtain ⟨q, hfind⟩ := Option.isSome_iff_exists.mp hany
  obtain ⟨hq, before, after, hsplit, hbefore⟩ := List.find?_eq_some_iff_append.mp hfind
  obtain ⟨h', deadline, thenEnforce, hstage, hid⟩ := of_decide_eq_true hq
  have hunmoved : ∀ r ∈ before, ¬ r.Refreshes h.id := fun r hr => by simpa using hbefore r hr
  have hwhole : trace = (front ++ before) ++ q :: after := by
    rw [htrace, hsplit, List.append_assoc]
  obtain ⟨i, t, hmover, -, -⟩ := Passage.keep_of_stage? hstage
  obtain ⟨front', consult, back', stage, hlast, hconsult, key', now, rfl⟩ :=
    run.stems_of_stage hstart hwhole hmover hstage rfl (by simp)
  refine ⟨before, q, after, hsplit, .refreshed hmover hstage hid hlast hconsult ?_⟩
  obtain ⟨hq', -, -⟩ := run.split hwhole
  rcases hq'.found_or_received hstart hlast.trace hlast.mover hconsult with
    ⟨early, hfound⟩ | hreceived
  · refine .inr ⟨early, ?_⟩
    cases hfound with
    | @looked front'' between back'' look clock operation retries hlook hvisit hkey hreads halive
        hclock hround htime =>
      have hfound : Found front' i key' h' now early :=
        .looked hlook hvisit hkey hreads halive hclock hround htime
      have heq : front ++ before =
          early ++ clock :: (between ++ look :: (back'' ++ consult :: back')) := by
        rw [hlast.trace, hlook.trace, hclock.trace]
        simp
      rcases exists_of_append_eq heq with ⟨rest, hrest'⟩ | ⟨gap, hgap⟩
      · exact ⟨clock, rest, hfound, hrest'⟩
      · -- The clock would have been read after the death, and the look would have met it.
        have hclocked : p :: back =
            gap ++ clock :: (between ++ look :: (back'' ++ consult :: back') ++ q :: after) := by
          rw [hsplit, hgap]
          simp
        have hlooked : p :: back =
            (gap ++ clock :: between) ++ look :: (back'' ++ consult :: back' ++ q :: after) := by
          rw [hsplit, hgap]
          simp
        obtain ⟨huntil, -, -⟩ := hrest.split hclocked
        obtain ⟨hlook', -, -⟩ := hrest.split hlooked
        have hearly := hlook'.early_of_found hreachable hslot hdead
          (fun r hr => hunmoved r (by
            rw [hgap]
            simp only [List.mem_append, List.mem_cons] at hr ⊢
            tauto)) hid halive
        rw [← htime] at hearly
        exact absurd huntil.now_le_now (Nat.not_le_of_lt hearly)
  · exact .inl hreceived

/-! ## What deadlines are good for -/

/-- How reads go by the deadlines of the values that they answer. -/
structure WatchesDeadlines (trace : List (Passage K V Q R)) (m : Machine K V Q R) : Prop where
  /-- The expiry is asked about reads in one section only, with the reading of the clock and the
  time that is left. -/
  asked : ∀ p ∈ trace, ∀ key value now left writtenAt,
    .askedOnRead key value now left writtenAt ∈ p.events → ∃ h thenEnforce,
      p.stage? = some (.consult key h now thenEnforce) ∧ h.value = value ∧
        h.writtenAt = writtenAt ∧ left = p.before.world.store.timeLeft h now
  /-- A read gets there with a holder that it has found alive at that reading of the clock, or with
  one that it has received. -/
  read : ∀ front p back, trace = front ++ p :: back → ∀ i key h now thenEnforce,
    p.mover = some i → p.stage? = some (.consult key h now thenEnforce) →
    (∃ early, Found front i key h now early) ∨ Received front i key h now
  /-- A holder that was found alive still is, unless somebody has refreshed it in between. -/
  alive : ∀ front look middle p back, trace = front ++ look :: (middle ++ p :: back) →
    ∀ operation retries key h now, look.stage? = some (.visit operation retries now) →
    look.before.world.store.look key now = .live h → (∀ q ∈ middle, ¬ q.Refreshes h.id) →
    p.before.world.store.expired h now = false
  /-- A deadline is moved only right after the expiry was asked. -/
  refreshed : ∀ front p back, trace = front ++ p :: back → ∀ i h deadline thenEnforce,
    p.mover = some i → p.stage? = some (.refresh h deadline thenEnforce) →
    ∃ front' q back' key now, IsLastStep front i front' q back' ∧
      q.stage? = some (.consult key h now thenEnforce)
  /-- A value is handed out only right after its deadline was moved, or after its removal was
  reported by the call that has replaced or removed it. -/
  handed : ∀ front p back, trace = front ++ p :: back → ∀ i h thenEnforce,
    p.mover = some i → p.stage? = some (.handOut h thenEnforce) →
    ∃ front' q back', IsLastStep front i front' q back' ∧
      ((∃ deadline, q.stage? = some (.refresh h deadline thenEnforce)) ∨
        thenEnforce = false ∧ q.stage? = none)
  /-- A value that had expired is visible again, and nobody has written its key: then it was
  refreshed for a read that has received it, or for one that had read the clock before. -/
  revived : ∀ front p back, trace = front ++ p :: back → ∀ key h,
    p.before.slot? key = some (.holder h) →
    p.before.world.store.expired h p.before.world.clock.now = true →
    (∀ q ∈ p :: back, ¬ q.Writes key) →
    m.world.store.visible key m.world.clock.now = true →
    ∃ before q after, p :: back = before ++ q :: after ∧ Revives (front ++ before) q h.id front

/-- In every run, whatever any number of threads do, reads go by the deadlines as far as they look
at them. -/
theorem Run.watchesDeadlines (hstart : start.Fresh settings) (run : Run settings start trace m) :
    WatchesDeadlines trace m := by
  constructor
  case asked =>
    intro p hp key value now left writtenAt hevent
    obtain ⟨front, back, htrace⟩ := List.append_of_mem hp
    obtain ⟨-, hlawful, -⟩ := run.split htrace
    rcases hlawful.emitted hevent with hexecutors | ⟨stage, hstage, hemits⟩
    · cases hexecutors
    · obtain ⟨h, thenEnforce, rfl, rfl, rfl, rfl⟩ := hemits.of_askedOnRead
      exact ⟨h, thenEnforce, hstage, rfl, rfl, rfl⟩
  case read =>
    intro front p back htrace i key h now thenEnforce hmover hstage
    exact run.found_or_received hstart htrace hmover hstage
  case alive =>
    intro front look middle p back htrace operation retries key h now hstage hlook hspared
    have hsplit : trace = (front ++ look :: middle) ++ p :: back := by
      rw [htrace]
      simp
    obtain ⟨huntil, -, -⟩ := run.split hsplit
    exact huntil.alive_of_found hstart rfl hstage hlook hspared
  case refreshed =>
    intro front p back htrace i h deadline thenEnforce hmover hstage
    obtain ⟨front', q, back', stage, hlast, hq, key, now, rfl⟩ :=
      run.stems_of_stage hstart htrace hmover hstage rfl (by simp)
    exact ⟨front', q, back', key, now, hlast, hq⟩
  case handed =>
    intro front p back htrace i h thenEnforce hmover hstage
    obtain ⟨hfront, -, -⟩ := run.split htrace
    obtain ⟨j, t, hj, ht, hactivity⟩ := Passage.keep_of_stage? hstage
    obtain rfl := Option.some.inj (hmover.symm.trans hj)
    obtain ⟨front', q, back', hlast, ⟨stage, hq, deadline, rfl⟩ | ⟨⟨h', hhands⟩, hnone⟩⟩ :=
      hfront.led hstart ht hactivity rfl
    · exact ⟨front', q, back', hlast, .inl ⟨deadline, hq⟩⟩
    · exact ⟨front', q, back', hlast, .inr ⟨(Stage.handOut.inj hhands).2, hnone⟩⟩
  case revived =>
    intro front p back htrace key h hslot hdead hspared hvisible
    exact run.revives hstart htrace hslot hdead hspared hvisible

/-! ## A reader that comes late -/

/-- A store whose entries live for ten nanoseconds from the last time that they were used. -/
def idleSettings : Settings Nat Nat Unit Unit :=
  { plainSettings with expiry := some ((Lifetime.mk none (some (.ofNanos 10))).expiry Nat Nat) }

/-- One thread computes a value, and another one waits for it.  The value has been there for ten
nanoseconds before the second thread wakes up. -/
def idleMoves : List (Move Nat Nat Unit Unit) :=
  [.spawn (.call (.computeIfAbsent 1 fun _ => .finish (.value (some 7))) .finish),
    .spawn (.call (.get 1) .finish)] ++
    ([0, 0, 0, 1, 1, 1] ++ List.replicate 9 0).map (.step · .none) ++
    [.advance (.ofNanos 10)] ++ (List.replicate 7 1).map (.step · .none)

/-- The value has expired when the second thread wakes up, and is visible when it has ended. -/
theorem idle_revived : ∃ (start m : Machine Nat Nat Unit Unit)
    (trace front back : List (Passage Nat Nat Unit Unit)) (p : Passage Nat Nat Unit Unit)
    (h : Holder Nat), start.Fresh idleSettings ∧ Run idleSettings start trace m ∧
      WatchesDeadlines trace m ∧ trace = front ++ p :: back ∧
      p.before.slot? 1 = some (.holder h) ∧
      p.before.world.store.expired h p.before.world.clock.now = true ∧
      (∀ q ∈ p :: back, q.after.slot? 1 = q.before.slot? 1) ∧
      m.world.store.visible 1 m.world.clock.now = true ∧
      ∃ before q after, p :: back = before ++ q :: after ∧
        Revives (front ++ before) q h.id front := by
  have hfacts : (Machine.replay idleSettings idleMoves).map (fun run =>
      (run.1[18]?.any fun p => ((p.before.slot? 1).bind Slot.holder?).any fun h =>
          p.before.world.store.expired h p.before.world.clock.now,
        (run.1.drop 18).all fun q => q.after.slot? 1 = q.before.slot? 1,
        run.2.world.store.visible 1 run.2.world.clock.now)) = some (true, true, true) := by
    decide +kernel
  obtain ⟨⟨trace, m⟩, hreplay, htriple⟩ := Option.map_eq_some_iff.mp hfacts
  obtain ⟨hlate, hrest⟩ := Prod.mk.inj htriple
  obtain ⟨hstays, hvisible⟩ := Prod.mk.inj hrest
  obtain ⟨start, hstart, run⟩ := Machine.run_of_replay hreplay
  obtain ⟨p, hp, hheld⟩ := (Option.any_eq_true _ _).mp hlate
  obtain ⟨h, hholder, hexpired⟩ := (Option.any_eq_true _ _).mp hheld
  obtain ⟨slot, hslot, hh⟩ := Option.bind_eq_some_iff.mp hholder
  obtain rfl := Slot.holder?_eq_some_iff.mp hh
  have hdrop : trace.drop 18 = p :: trace.drop 19 := by
    obtain ⟨hlt, rfl⟩ := List.getElem?_eq_some_iff.mp hp
    exact List.drop_eq_getElem_cons hlt
  have htrace : trace = trace.take 18 ++ p :: trace.drop 19 := by
    rw [← hdrop, List.take_append_drop]
  have hsame : ∀ q ∈ p :: trace.drop 19, q.after.slot? 1 = q.before.slot? 1 := fun q hq =>
    of_decide_eq_true (List.all_eq_true.mp hstays q (hdrop ▸ hq))
  have hwatches := Run.watchesDeadlines hstart run
  exact ⟨start, m, trace, trace.take 18, trace.drop 19, p, h, hstart, run, hwatches, htrace, hslot,
    hexpired, hsame, hvisible,
    hwatches.revived _ p _ htrace 1 h hslot hexpired
      (fun q hq hwrites => hwrites.2.1 (hsame q hq)) hvisible⟩

end SharedCache
