import SharedCache.Proofs.Readings
import SharedCache.Proofs.Undone.Steps

/-!
# Undone calls

A call that fails leaves its key as it was: the slot, the counters and the other keys.  It does so
as long as nobody else writes the key, and unless the call itself finds there that the value has
expired since its beginning.
-/

namespace SharedCache

variable {K V Q R : Type}

namespace Call

variable (call : Call K V Q R) [DecidableEq K]

/-- What a call that ends like this leaves behind if it has failed. -/
structure Undone (settings : Settings K V Q R) [DecidableEq V] (start m : Machine K V Q R)
    (trace : List (Passage K V Q R)) (signal : Signal V) : Prop where
  /-- The slot is what it was. -/
  slot : m.slot? call.key = start.slot? call.key
  /-- The entry has the deadline that it had, unless someone else has moved it. -/
  deadline : ∀ h, start.slot? call.key = some (.holder h) →
    (∀ p ∈ trace, call.isOwn p = false →
      p.after.world.store.deadline h = p.before.world.store.deadline h) →
    m.world.store.deadline h = start.world.store.deadline h
  /-- The call has changed no other key and no deadline. -/
  others : ∀ p ∈ trace, call.isOwn p = true →
    (∀ key, key ≠ call.key → p.after.slot? key = p.before.slot? key) ∧
      p.after.world.store.deadlines = p.before.world.store.deadlines
  /-- All in all, the call has not changed the number of entries. -/
  entryCount : ((trace.filter call.isOwn).map fun p =>
    (p.after.world.store.map.entryCount : Int) - p.before.world.store.map.entryCount).sum = 0
  /-- Nor has it changed the total weight. -/
  weightedSize : ((trace.filter call.isOwn).map fun p =>
    (p.after.world.store.map.weightedSize : Int) - p.before.world.store.map.weightedSize).sum = 0
  /-- The call has counted no removal and has not called the listener. -/
  silent : ∀ p ∈ trace, call.isOwn p = true → p.IsSilent
  /-- Those who wait for a fault of the call look at the key again or take over the failure. -/
  waiters : ∀ p ∈ trace, call.isOwn p = true → ∀ fault, call.Installs p fault →
    ∀ operation retries now interrupted draws, ∃ turn,
      Stage.turn settings m.world.store now interrupted draws (.await operation retries fault) =
        some turn ∧ operation.TakesFailure retries signal turn.next

theorem Clean.undone [DecidableEq V] {call : Call K V Q R} {settings : Settings K V Q R}
    {start m : Machine K V Q R} {trace : List (Passage K V Q R)} {owns : Nat → Prop}
    {signal : Signal V} (hclean : call.Clean owns trace) (hstart : start.Reachable settings)
    (run : Run settings start trace m) (hundisturbed : call.Undisturbed trace)
    (hslot : m.slot? call.key = start.slot? call.key)
    (hresolved : ∀ fault, owns fault → ∃ resolution,
      m.world.store.resolution? fault = some resolution ∧ resolution.IsFailure signal) :
    call.Undone settings start m trace signal where
  slot := hslot
  deadline h _ hcalm := by
    refine run.kept (fun m => m.world.store.deadline h) fun p hp => ?_
    cases hown : call.isOwn p with
    | true => rw [Store.deadline, Store.deadline, (hclean.spares p hp hown).deadlines]
    | false => exact hcalm p hp hown
  others p hp hown := by
    obtain ⟨front, back, rfl⟩ := List.append_of_mem hp
    have hbefore := (run.split rfl).1.reachable_of_reachable hstart
    have hspares := hclean.spares p hp hown
    exact ⟨fun key hkey => hspares.map.get? hbefore.accounted.map.valid hkey, hspares.deadlines⟩
  entryCount := by
    rw [sum_changes hstart run hundisturbed hclean
      fun _ hm => hm.accounted.map.balanced.entryCount, hslot, Int.sub_self]
  weightedSize := by
    rw [sum_changes hstart run hundisturbed hclean
      fun _ hm => hm.accounted.map.balanced.weightedSize, hslot, Int.sub_self]
  silent p hp hown := (hclean.spares p hp hown).silent
  waiters p hp hown fault hinstalls operation retries now interrupted draws := by
    obtain ⟨resolution, hresolution, hfailure⟩ :=
      hresolved fault (hclean.installs p hp hown fault hinstalls)
    refine ⟨m.world.store.resume operation retries resolution, ?_, Store.takesFailure hfailure⟩
    rw [Stage.turn, hresolution]

end Call

/-- A call that fails leaves its key as it was.

The call begins in `start` and is over in `m`, no one else changes the slot of its key meanwhile,
and no look of the call finds a value there that has expired.  If the mapping function returns an
error or panics, or a collaborator panics over the value that is to be written, then the call ends
with that error or panic, and it is undone. -/
theorem Run.undoesFailure [DecidableEq K] [DecidableEq V] {settings : Settings K V Q R}
    {start m : Machine K V Q R} {trace : List (Passage K V Q R)} {call : Call K V Q R}
    {t t' : Thread K V Q R} {p : Passage K V Q R} {signal ending : Signal V}
    (hstart : start.Reachable settings) (run : Run settings start trace m)
    (ht : start.threads[call.thread]? = some t) (hstack : t.stack = call.base)
    (hbegins : t.activity = .keep (.round call.operation 0))
    (ht' : m.threads[call.thread]? = some t') (hended : t'.activity = .settle ending)
    (hundisturbed : call.Undisturbed trace) (hp : p ∈ trace)
    (hfails : call.Fails settings p signal) :
    t'.stack = call.base ∧ ending = signal ∧ call.Undone settings start m trace signal := by
  have hat := Call.at_of_run hstart ht hstack hbegins run hundisturbed
  have hsame : ∀ {t : Thread K V Q R}, m.threads[call.thread]? = some t → t = t' := fun hfound =>
    Option.some.inj (hfound.symm.trans ht')
  cases hat with
  | seeks _ _ _ _ _ _ hunfailed => exact absurd hfails (hunfailed p hp signal)
  | computes _ _ _ _ hunfailed => exact absurd hfails (hunfailed p hp signal)
  | spends _ _ _ hunfailed => exact absurd hfails (hunfailed p hp signal)
  | undoes hfound _ hactivity =>
    rw [hsame hfound, hended] at hactivity
    cases hactivity
  | ends hfound hbase hactivity hslot hclean hresolved honly =>
    rw [hsame hfound] at hbase hactivity
    obtain rfl := Activity.settle.inj (hended.symm.trans hactivity)
    obtain rfl := honly p hp signal hfails
    exact ⟨hbase, rfl, hclean.undone hstart run hundisturbed hslot hresolved⟩

/-! ## Values that expire or are read meanwhile -/

/-- Whether the passage leaves the key alone unless it is a step of the call, finds no expired
entry, and is not made by a call that is over. -/
def Call.spares (call : Call Nat Nat Unit Unit) (p : Passage Nat Nat Unit Unit) : Bool :=
  (call.isOwn p || p.after.slot? call.key = p.before.slot? call.key) &&
    (match p.stage? with
      | some (.visit _ _ now) => ((p.before.slot? call.key).bind Slot.holder?).all
          fun h => !p.before.world.store.expired h now
      | _ => true) &&
    (p.mover ≠ some call.thread || p.thread?.all fun t => match t.activity with
      | .settle _ => t.stack.length ≠ call.base.length
      | _ => true)

theorem Call.undisturbed_of_spares {call : Call Nat Nat Unit Unit}
    {trace : List (Passage Nat Nat Unit Unit)} (hspares : trace.all call.spares = true) :
    call.Undisturbed trace := by
  have hp : ∀ p ∈ trace, call.spares p = true := List.all_eq_true.mp hspares
  simp only [Call.spares, Bool.and_eq_true, Bool.or_eq_true, decide_eq_true_eq] at hp
  refine ⟨fun p hmem hother => ?_, fun p hmem _ _ now h hstage hslot => ?_,
    fun p hmem hmover t ht hstack signal hactivity => ?_⟩
  · obtain ⟨⟨hcalm, -⟩, -⟩ := hp p hmem
    exact hcalm.resolve_left (by simp [hother])
  · obtain ⟨⟨-, hfresh⟩, -⟩ := hp p hmem
    simpa [hstage, hslot, Slot.holder?] using hfresh
  · obtain ⟨-, hover⟩ := hp p hmem
    simp [Passage.thread?, hmover, ht, hactivity, hstack] at hover

/-- A computation whose function returns an error. -/
def lapsingCall : Call Nat Nat Unit Unit :=
  ⟨0, [.calling .finish], .compute 1 fun _ _ => .finish (.complaint "no"), 1, rfl⟩

/-- Puts a value and calls the computation of the next one. -/
def lapsingMoves : List (Move Nat Nat Unit Unit) :=
  .spawn (.call (.put 1 5) fun _ => .call lapsingCall.operation .finish) ::
    List.replicate 7 (.step 0 .none)

/-- The deadline passes before the call reads the clock. -/
def lapsingRest : List (Move Nat Nat Unit Unit) :=
  .advance (.ofNanos 10) :: List.replicate 10 (.step 0 .none)

/-- It is not enough that the value is alive when the call begins, and that nobody else writes the
key.  If the clock passes the deadline before the call looks, the call itself removes the value and
reports it, and the slot stays empty when the function fails. -/
theorem lapsed_not_undone : ∃ (start m : Machine Nat Nat Unit Unit)
    (trace : List (Passage Nat Nat Unit Unit)) (t t' : Thread Nat Nat Unit Unit)
    (p : Passage Nat Nat Unit Unit) (h : Holder Nat) (signal : Signal Nat),
    start.Reachable tellingSettings ∧ Run tellingSettings start trace m ∧
      start.threads[0]? = some t ∧ t.stack = lapsingCall.base ∧
      t.activity = .keep (.round lapsingCall.operation 0) ∧
      start.slot? 1 = some (.holder h) ∧
      start.world.store.expired h start.world.clock.now = false ∧
      (∀ q ∈ trace, lapsingCall.isOwn q = false → q.after.slot? 1 = q.before.slot? 1 ∧
        q.after.world.store.deadline h = q.before.world.store.deadline h) ∧
      m.threads[0]? = some t' ∧ t'.stack = lapsingCall.base ∧ t'.activity = .settle signal ∧
      p ∈ trace ∧ lapsingCall.Fails tellingSettings p signal ∧
      m.slot? 1 = none ∧ (∃ q ∈ trace, lapsingCall.isOwn q = true ∧
        .listened 1 5 .expired ∈ q.events) ∧
      ¬ lapsingCall.Undone tellingSettings start m trace signal := by
  have hruns : (Machine.replayFrom tellingSettings lapsingMoves lapsingRest).map (fun runs =>
      ((runs.1.threads[0]?, runs.1.slot? 1,
          runs.1.world.store.expired ⟨0, 5, Clock.start.now, 1⟩ runs.1.world.clock.now),
        runs.2.1.all (fun q => lapsingCall.isOwn q || (q.after.slot? 1 = q.before.slot? 1 &&
          q.after.world.store.deadline ⟨0, 5, Clock.start.now, 1⟩ =
            q.before.world.store.deadline ⟨0, 5, Clock.start.now, 1⟩)),
        runs.2.1[3]?.map (fun q => (lapsingCall.isOwn q, q.events)),
        runs.2.1[9]?.map (fun q => (q.mover, q.before.threads[0]?)), runs.2.2.threads[0]?,
        runs.2.2.slot? 1)) =
      some ((some ⟨.keep (.round lapsingCall.operation 0), lapsingCall.base, none⟩,
          some (.holder ⟨0, 5, Clock.start.now, 1⟩), false), true,
        some (true, [.reported 0 .expired, .copiedOut 5, .listened 1 5 .expired]),
        some (some 0, some ⟨.settle (.done (.complaint "no")), .computing ⟨1, 0, none, false,
          fun _ _ => .finish (.complaint "no")⟩ :: lapsingCall.base, none⟩),
        some ⟨.settle (.done (.failed (.computation ⟨0, "no"⟩))), lapsingCall.base, none⟩,
        none) := rfl
  obtain ⟨⟨start, trace, m⟩, hrun, hfacts⟩ := Option.map_eq_some_iff.mp hruns
  obtain ⟨hopening, hrest⟩ := Prod.mk.inj hfacts
  obtain ⟨hbegins, hopening⟩ := Prod.mk.inj hopening
  obtain ⟨hslot, halive⟩ := Prod.mk.inj hopening
  obtain ⟨hcalm, hrest⟩ := Prod.mk.inj hrest
  obtain ⟨htelling, hrest⟩ := Prod.mk.inj hrest
  obtain ⟨hfailing, hrest⟩ := Prod.mk.inj hrest
  obtain ⟨hended, hgone⟩ := Prod.mk.inj hrest
  obtain ⟨hstart, run⟩ := Machine.run_of_replayFrom hrun
  obtain ⟨q, hq, htold⟩ := Option.map_eq_some_iff.mp htelling
  obtain ⟨hown, hevents⟩ := Prod.mk.inj htold
  obtain ⟨p, hp, hwhere⟩ := Option.map_eq_some_iff.mp hfailing
  obtain ⟨hmover, hthread⟩ := Prod.mk.inj hwhere
  have hfails : lapsingCall.Fails tellingSettings p (.done (.failed (.computation ⟨0, "no"⟩))) :=
    ⟨hmover, _, hthread, .complains (c := ⟨1, 0, none, false, _⟩) rfl rfl⟩
  dsimp only at hslot hgone
  refine ⟨start, m, trace, _, _, p, _, _, hstart, run, hbegins, rfl, rfl, hslot, halive,
    fun q hq hother => ?_, hended, rfl, rfl, List.mem_of_getElem? hp, hfails, hgone,
    ⟨q, List.mem_of_getElem? hq, hown, by simp [hevents]⟩, fun hundone => ?_⟩
  · have hkept := List.all_eq_true.mp hcalm q hq
    simpa [hother] using hkept
  · have hsame := hundone.slot
    rw [show lapsingCall.key = 1 from rfl, hgone, hslot] at hsame
    cases hsame

/-- Another thread gets the value meanwhile. -/
def refreshingRest : List (Move Nat Nat Unit Unit) :=
  [.spawn (.call (.get 1) .finish), .advance (.ofNanos 5)] ++ List.replicate 7 (.step 1 .none) ++
    List.replicate 6 (.step 0 .none)

/-- Nor is it the call alone that may move the deadline: a `get` of another thread does so while the
call is under way, and the value has the new deadline when it is put back. -/
theorem refreshed_meanwhile : ∃ (start m : Machine Nat Nat Unit Unit)
    (trace : List (Passage Nat Nat Unit Unit)) (t t' : Thread Nat Nat Unit Unit)
    (p : Passage Nat Nat Unit Unit) (h : Holder Nat) (signal : Signal Nat),
    start.Reachable idleSettings ∧ Run idleSettings start trace m ∧
      start.threads[0]? = some t ∧ t.stack = lapsingCall.base ∧
      t.activity = .keep (.round lapsingCall.operation 0) ∧
      start.slot? 1 = some (.holder h) ∧ lapsingCall.Undisturbed trace ∧
      m.threads[0]? = some t' ∧ t'.activity = .settle signal ∧
      p ∈ trace ∧ lapsingCall.Fails idleSettings p signal ∧
      m.slot? 1 = some (.holder h) ∧
      start.world.store.deadline h = some (Clock.start.now.saturatingAdd (.ofNanos 10)) ∧
      m.world.store.deadline h = some (Clock.start.now.saturatingAdd (.ofNanos 15)) := by
  have hruns : (Machine.replayFrom idleSettings lapsingMoves refreshingRest).map (fun runs =>
      ((runs.1.threads[0]?, runs.1.slot? 1,
          runs.1.world.store.deadline ⟨0, 5, Clock.start.now, 1⟩), runs.2.1.all lapsingCall.spares,
        runs.2.1[13]?.map (fun q => (q.mover, q.before.threads[0]?)), runs.2.2.threads[0]?,
        runs.2.2.slot? 1, runs.2.2.world.store.deadline ⟨0, 5, Clock.start.now, 1⟩)) =
      some ((some ⟨.keep (.round lapsingCall.operation 0), lapsingCall.base, none⟩,
          some (.holder ⟨0, 5, Clock.start.now, 1⟩),
          some (Clock.start.now.saturatingAdd (.ofNanos 10))), true,
        some (some 0, some ⟨.settle (.done (.complaint "no")), [.computing ⟨1, 0,
            some ⟨0, 5, Clock.start.now, 1⟩, false, fun _ _ => .finish (.complaint "no")⟩,
          .calling .finish], none⟩),
        some ⟨.settle (.done (.failed (.computation ⟨0, "no"⟩))), lapsingCall.base, none⟩,
        some (.holder ⟨0, 5, Clock.start.now, 1⟩),
        some (Clock.start.now.saturatingAdd (.ofNanos 15))) := rfl
  obtain ⟨⟨start, trace, m⟩, hrun, hfacts⟩ := Option.map_eq_some_iff.mp hruns
  obtain ⟨hopening, hrest⟩ := Prod.mk.inj hfacts
  obtain ⟨hbegins, hopening⟩ := Prod.mk.inj hopening
  obtain ⟨hslot, hdeadline⟩ := Prod.mk.inj hopening
  obtain ⟨hspares, hrest⟩ := Prod.mk.inj hrest
  obtain ⟨hfailing, hrest⟩ := Prod.mk.inj hrest
  obtain ⟨hended, hrest⟩ := Prod.mk.inj hrest
  obtain ⟨hslot', hdeadline'⟩ := Prod.mk.inj hrest
  obtain ⟨hstart, run⟩ := Machine.run_of_replayFrom hrun
  obtain ⟨p, hp, hwhere⟩ := Option.map_eq_some_iff.mp hfailing
  obtain ⟨hmover, hthread⟩ := Prod.mk.inj hwhere
  have hfails : lapsingCall.Fails idleSettings p (.done (.failed (.computation ⟨0, "no"⟩))) :=
    ⟨hmover, _, hthread, .complains (c := ⟨1, 0, _, false, _⟩) rfl rfl⟩
  exact ⟨start, m, trace, _, _, p, _, _, hstart, run, hbegins, rfl, rfl, hslot,
    Call.undisturbed_of_spares hspares, hended, rfl, List.mem_of_getElem? hp, hfails, hslot',
    hdeadline, hdeadline'⟩

/-! ## A value that cannot be weighed -/

/-- A store whose weigher panics over the value 0. -/
def fussySettings : Settings Nat Nat Unit Unit :=
  { plainSettings with weigher := some fun _ value => if value = 0 then .error .silent else .ok 1 }

/-- The computation of a value that cannot be weighed. -/
def spoiledCall : Call Nat Nat Unit Unit :=
  ⟨0, [.calling .finish], .compute 1 fun _ _ => .finish (.value (some 0)), 1, rfl⟩

/-- Puts a value and begins to compute the next one. -/
def spoiledMoves : List (Move Nat Nat Unit Unit) :=
  .spawn (.call (.put 1 10) fun _ => .call spoiledCall.operation .finish) ::
    List.replicate 7 (.step 0 .none)

/-- The mapping function has given the value, and the fault is in the slot, when the weigher
panics. -/
theorem spoiled_undone : ∃ (start m : Machine Nat Nat Unit Unit)
    (trace : List (Passage Nat Nat Unit Unit)) (t t' : Thread Nat Nat Unit Unit)
    (p : Passage Nat Nat Unit Unit),
    start.Reachable fussySettings ∧ Run fussySettings start trace m ∧
      start.threads[0]? = some t ∧ t.stack = spoiledCall.base ∧
      t.activity = .keep (.round spoiledCall.operation 0) ∧ m.threads[0]? = some t' ∧
      t'.activity = .settle (.raised .silent) ∧ spoiledCall.Undisturbed trace ∧ p ∈ trace ∧
      spoiledCall.Fails fussySettings p (.raised .silent) ∧
      t'.stack = spoiledCall.base ∧
      spoiledCall.Undone fussySettings start m trace (.raised .silent) := by
  have hruns : (Machine.replayFrom fussySettings spoiledMoves
      (List.replicate 7 (.step 0 .none))).map (fun runs => (runs.1.threads[0]?,
        runs.2.2.threads[0]?, runs.2.1[5]?.map fun p => (p.mover, p.before.threads[0]?),
        runs.2.1.all spoiledCall.spares)) =
      some (some ⟨.keep (.round spoiledCall.operation 0), [.calling .finish], none⟩,
        some ⟨.settle (.raised .silent), [.calling .finish], none⟩,
        some (some 0, some ⟨.keep (.compose ⟨1, 0, some ⟨0, 10, Clock.start.now, 1⟩, false,
          fun _ _ => .finish (.value (some 0))⟩ 0), [.calling .finish], none⟩), true) := rfl
  obtain ⟨⟨start, trace, m⟩, hrun, hfacts⟩ := Option.map_eq_some_iff.mp hruns
  obtain ⟨hbegins, hrest⟩ := Prod.mk.inj hfacts
  obtain ⟨hended, hrest⟩ := Prod.mk.inj hrest
  obtain ⟨hfailing, hspares⟩ := Prod.mk.inj hrest
  obtain ⟨hstart, run⟩ := Machine.run_of_replayFrom hrun
  obtain ⟨p, hp, hwhere⟩ := Option.map_eq_some_iff.mp hfailing
  obtain ⟨hmover, hthread⟩ := Prod.mk.inj hwhere
  have hfails : spoiledCall.Fails fussySettings p (.raised .silent) :=
    ⟨hmover, _, hthread, .composes rfl rfl rfl⟩
  have hundisturbed := Call.undisturbed_of_spares hspares
  have hmem : p ∈ trace := List.mem_of_getElem? hp
  obtain ⟨hbase, -, hundone⟩ := Run.undoesFailure hstart run hbegins rfl rfl hended rfl
    hundisturbed hmem hfails
  exact ⟨_, m, trace, _, _, p, hstart, run, hbegins, rfl, rfl, hended, rfl, hundisturbed, hmem,
    hfails, hbase, hundone⟩

end SharedCache
