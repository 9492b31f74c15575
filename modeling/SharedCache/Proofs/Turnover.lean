import SharedCache.Proofs.SectionEffects

/-!
# Turnover

A passage replaces one stretch of what is going on by another one, and says so in five ways only: it
does nothing about operations and computations, it calls an operation, it gives up something that
was put off, it hands a computation the end of its function, or it is a section of the store.

From that it follows that the faults of the computations in progress are all different and
unresolved, whatever the threads do, and that a fault that is resolved stays as it is.
-/

namespace SharedCache

variable {K V Q R : Type}

namespace Passage

/-- What the thread that moved does after that. -/
def next? (p : Passage K V Q R) : Option (Activity K V Q R) :=
  p.mover.bind fun i => p.after.threads[i]?.map Thread.activity

/-- The frames that the thread that moved has put on its stack. -/
def pushed (p : Passage K V Q R) : List (Frame K V Q R) :=
  match p.thread?, p.mover.bind fun i => p.after.threads[i]? with
  | some before, some after => after.stack.take (after.stack.length - before.stack.length)
  | _, _ => []

/-- What the passage leaves its thread to do in the end. -/
def upshot? (p : Passage K V Q R) : Option (Activity K V Q R) :=
  p.next?.bind fun next => SharedCache.upshot? next p.pushed

/-- The passage is this section of a store operation, with this turn. -/
structure IsSection (p : Passage K V Q R) (stage : Stage K V Q R)
    (turn : StoreTurn K V Q R) : Prop where
  stage : p.stage? = some stage
  next : p.next? = some turn.next
  pushed : p.pushed = turn.frames
  store : p.after.world.store = turn.state
  events : p.events = turn.events

/-- The passage changes neither a slot nor a fault. -/
structure Spares (p : Passage K V Q R) : Prop where
  map : p.after.world.store.map = p.before.world.store.map
  faults : p.after.world.store.faults = p.before.world.store.faults

theorem IsSection.upshot? {p : Passage K V Q R} {stage : Stage K V Q R}
    {turn : StoreTurn K V Q R} (hsection : p.IsSection stage turn) : p.upshot? = turn.upshot? := by
  rw [Passage.upshot?, hsection.next, hsection.pushed]
  rfl

/-- A thread that was in a section has taken the turn of that section. -/
theorem IsSection.of_thread {p : Passage K V Q R} {stage : Stage K V Q R}
    {turn : StoreTurn K V Q R} {i : Nat} {t : Thread K V Q R} (hmover : p.mover = some i)
    (ht : p.before.threads[i]? = some t) (hactivity : t.activity = .keep stage)
    (hstore : p.after.world.store = turn.state)
    (hthread : p.after.threads[i]? = some (t.goOn turn.next turn.frames))
    (hevents : p.events = turn.events) : p.IsSection stage turn := by
  refine ⟨Passage.stage?_of_keep hmover ht hactivity, ?_, ?_, hstore, hevents⟩
  · simp [next?, hmover, hthread, Thread.goOn]
  · rw [Passage.pushed, Passage.thread?_eq hmover ht, hmover, Option.bind_some, hthread]
    simp [Thread.goOn]

/-- A step of a thread in a section is that section. -/
theorem IsSection.of_step {p : Passage K V Q R} {stage : Stage K V Q R} {turn : StoreTurn K V Q R}
    {i : Nat} {t : Thread K V Q R} (hmover : p.mover = some i)
    (ht : p.before.threads[i]? = some t) (hactivity : t.activity = .keep stage)
    (hafter : p.after = ⟨(Step.ofStore p.before.world t turn).world,
      p.before.threads.setIfInBounds i (Step.ofStore p.before.world t turn).thread⟩)
    (hevents : p.events = turn.events) : p.IsSection stage turn := by
  have hsize := (Array.getElem?_eq_some_iff.mp ht).1
  have hthread : p.after.threads[i]? = some (t.goOn turn.next turn.frames) := by
    simp [hafter, hsize, Step.ofStore]
  exact .of_thread hmover ht hactivity (by rw [hafter]; rfl) hthread hevents

variable [DecidableEq K] [DecidableEq V]

/-- A passage in a section is the turn of that section at the reading of the clock. -/
theorem Lawful.isSection {settings : Settings K V Q R} {p : Passage K V Q R}
    (hp : p.Lawful settings) {stage : Stage K V Q R} (hstage : p.stage? = some stage) :
    ∃ interrupted draws turn, stage.turn settings p.before.world.store p.before.world.clock.now
      interrupted draws = some turn ∧ p.IsSection stage turn := by
  obtain ⟨i, t, hmover, ht, hactivity⟩ := keep_of_stage? hstage
  cases hp.course with
  | outside hnone => cases hnone.symm.trans hmover
  | @step j t' s hmover' ht' hstride hafter hevents =>
    obtain rfl := Option.some.inj (hmover.symm.trans hmover')
    obtain rfl := Option.some.inj (ht.symm.trans ht')
    obtain ⟨turn, draws, hturn, rfl⟩ := hstride.turn_of_keep hactivity
    exact ⟨_, draws, turn, hturn, .of_step hmover ht hactivity hafter hevents⟩

/-- What a passage replaces of what is going on, and by what. -/
inductive Turnover (settings : Settings K V Q R) (p : Passage K V Q R) :
    List (Ongoing K V Q R) → List (Ongoing K V Q R) → Prop where
  /-- Nothing: no thread moves, or one that does something else. -/
  | rests :
      (∀ t, p.thread? = some t → (∀ stage, t.activity ≠ .keep stage) ∧
        (∀ operation code, t.activity ≠ .code (.call operation code)) ∧
        ∀ signal c rest, t.activity = .settle signal → t.stack ≠ .computing c :: rest) →
      p.Spares → Turnover settings p [] []
  | calls {t : Thread K V Q R} {operation : Operation K V Q R}
      {code : Answer V → Script K V Q R} :
      p.thread? = some t → t.activity = .code (.call operation code) → p.Spares →
      Turnover settings p [] [.seeks (operation.stored settings)]
  | drops {t : Thread K V Q R} {panic : Panic} {a : Activity K V Q R}
      {rest : List (Frame K V Q R)} :
      p.thread? = some t → t.activity = .settle (.raised panic) → t.stack = .next a :: rest →
      p.Spares → Turnover settings p a.ongoing []
  | moves {t : Thread K V Q R} {signal : Signal V} {c : Computation K V Q R}
      {rest : List (Frame K V Q R)} :
      p.thread? = some t → t.activity = .settle signal → t.stack = .computing c :: rest →
      p.Spares → Turnover settings p [.computes c .running] [.computes c (c.progress signal)]
  | acts {stage : Stage K V Q R} {turn : StoreTurn K V Q R} :
      p.IsSection stage turn → stage.Deed settings p.before.world.store turn →
      Turnover settings p stage.ongoing turn.ongoing

/-- Every passage replaces one stretch of what is going on. -/
theorem Lawful.turnover {settings : Settings K V Q R} {p : Passage K V Q R}
    (hp : p.Lawful settings) : ∃ front old new back,
      p.before.ongoing = front ++ old ++ back ∧ p.after.ongoing = front ++ new ++ back ∧
        p.Turnover settings old new := by
  cases hp.course with
  | outside hmover houtside hevents =>
    have hstore := houtside.store_eq
    have hongoing := houtside.ongoing_eq
    have hthread : p.thread? = none := by simp [Passage.thread?, hmover]
    refine ⟨p.before.ongoing, [], [], [], by simp, by simpa using hongoing, .rests ?_ ⟨?_, ?_⟩⟩
    · simp [hthread]
    · rw [hstore]
    · rw [hstore]
  | @step i t s hmover ht hstride hafter hevents =>
    obtain ⟨front, back, hbefore, hset⟩ := Machine.ongoing_set ht s.world
    have hthread : p.thread? = some t := by simp [Passage.thread?, hmover, ht]
    have hstore : p.after.world = s.world := by rw [hafter]
    have hongoing : p.after.ongoing = front ++ s.thread.ongoing ++ back := by
      rw [hafter]
      exact hset s.thread
    cases hstride.effect with
    | rests hstage hcall hcomputing hmap hfaults hsame =>
      refine ⟨front ++ t.ongoing, [], [], back, by simpa using hbefore, ?_, .rests ?_ ⟨?_, ?_⟩⟩
      · simpa [hsame] using hongoing
      · intro t' ht'
        obtain rfl := Option.some.inj (hthread.symm.trans ht')
        exact ⟨hstage, hcall, hcomputing⟩
      · rw [hstore, hmap]
      · rw [hstore, hfaults]
    | calls hactivity hmap hfaults hseeks =>
      refine ⟨front, [], _, t.ongoing ++ back, by simpa using hbefore, ?_,
        .calls hthread hactivity ⟨?_, ?_⟩⟩
      · simpa [hseeks] using hongoing
      · rw [hstore, hmap]
      · rw [hstore, hfaults]
    | @drops panic a rest hactivity hstack hmap hfaults hsame =>
      refine ⟨front, a.ongoing, [], s.thread.ongoing ++ back, ?_, by simpa using hongoing,
        .drops hthread hactivity hstack ⟨?_, ?_⟩⟩
      · simpa [hsame] using hbefore
      · rw [hstore, hmap]
      · rw [hstore, hfaults]
    | @moves c signal rest base hactivity hstack hmap hfaults hold hnew =>
      refine ⟨front, _, _, base ++ back, ?_, ?_, .moves hthread hactivity hstack ⟨?_, ?_⟩⟩
      · simpa [hold] using hbefore
      · simpa [hnew] using hongoing
      · rw [hstore, hmap]
      · rw [hstore, hfaults]
    | @acts stage turn base hactivity hdeed hstep hold hnew =>
      subst hstep
      have hsection : p.IsSection stage turn := .of_step hmover ht hactivity hafter hevents
      refine ⟨front, _, _, base ++ back, ?_, ?_, .acts hsection hdeed⟩
      · simpa [hold] using hbefore
      · simpa [hnew] using hongoing

end Passage

/-! ## Ownership -/

/-- The fault of a computation. -/
def Ongoing.fault? : Ongoing K V Q R → Option Nat
  | .computes c _ => some c.fault
  | _ => none

/-- The faults of the computations among what is going on. -/
def faultsOf (ongoing : List (Ongoing K V Q R)) : List Nat := ongoing.filterMap Ongoing.fault?

@[simp]
theorem faultsOf_nil : faultsOf ([] : List (Ongoing K V Q R)) = [] := rfl

@[simp]
theorem faultsOf_computes (c : Computation K V Q R) (progress : Progress V) :
    faultsOf [.computes c progress] = [c.fault] := rfl

@[simp]
theorem faultsOf_cons_computes (c : Computation K V Q R) (progress : Progress V)
    (rest : List (Ongoing K V Q R)) :
    faultsOf (.computes c progress :: rest) = c.fault :: faultsOf rest := rfl

@[simp]
theorem faultsOf_awaits (operation : Operation K V Q R) (fault : Nat) :
    faultsOf [.awaits operation fault] = [] := rfl

@[simp]
theorem faultsOf_seeks (operation : Operation K V Q R) : faultsOf [.seeks operation] = [] := rfl

@[simp]
theorem faultsOf_append (front back : List (Ongoing K V Q R)) :
    faultsOf (front ++ back) = faultsOf front ++ faultsOf back :=
  List.filterMap_append

theorem mem_faultsOf {c : Computation K V Q R} {progress : Progress V}
    {ongoing : List (Ongoing K V Q R)} (hmem : .computes c progress ∈ ongoing) :
    c.fault ∈ faultsOf ongoing :=
  List.mem_filterMap.mpr ⟨_, hmem, rfl⟩

theorem exists_of_mem_faultsOf {ongoing : List (Ongoing K V Q R)} {fault : Nat}
    (hfault : fault ∈ faultsOf ongoing) :
    ∃ c progress, .computes c progress ∈ ongoing ∧ c.fault = fault := by
  obtain ⟨o, ho, hof⟩ := List.mem_filterMap.mp hfault
  cases o with
  | computes c progress => exact ⟨c, progress, ho, Option.some.inj hof⟩
  | awaits => cases hof
  | seeks => cases hof

theorem Machine.faultsOf_ongoing (m : Machine K V Q R) :
    faultsOf m.ongoing = m.threads.toList.flatMap fun t => faultsOf t.ongoing :=
  List.filterMap_flatMap

/-- What becomes of the faults when one stretch of what is going on is replaced. -/
inductive Store.FaultChange (s s' : Store K V) : List Nat → List Nat → Prop where
  | same {old new : List Nat} :
      s'.faults = s.faults → new.Sublist old → FaultChange s s' old new
  | begins : s'.faults = s.faults.push none → FaultChange s s' [] [s.faults.size]
  | ends {fault : Nat} {resolution : Resolution V} :
      s'.faults = (s.resolve fault resolution).faults → FaultChange s s' [fault] []

/-- Every computation among what is going on has an unresolved fault of its own. -/
structure Owned (s : Store K V) (ongoing : List (Ongoing K V Q R)) : Prop where
  nodup : (faultsOf ongoing).Nodup
  pending : ∀ fault ∈ faultsOf ongoing, s.faults[fault]? = some none

namespace Store

variable {s s' : Store K V}

/-- A fault that is not resolved takes the first resolution. -/
theorem faults_resolve {fault : Nat} (hpending : s.faults[fault]? = some none)
    (resolution : Resolution V) :
    (s.resolve fault resolution).faults = s.faults.setIfInBounds fault (some resolution) := by
  have hnone : s.resolution? fault = none := by simp [resolution?, hpending]
  rw [resolve, hnone]

theorem resolution?_resolve {s s' : Store K V} {fault : Nat} {resolution : Resolution V}
    (hpending : s.faults[fault]? = some none)
    (hfaults : s'.faults = (s.resolve fault resolution).faults) :
    s'.resolution? fault = some resolution := by
  have hlt := (Array.getElem?_eq_some_iff.mp hpending).1
  rw [resolution?, hfaults, faults_resolve hpending, Array.getElem?_setIfInBounds_self_of_lt hlt]
  rfl

/-- Resolutions are never taken back. -/
theorem FaultChange.resolution? {old new : List Nat} (hchange : s.FaultChange s' old new)
    {fault : Nat} {resolution : Resolution V}
    (hresolved : s.resolution? fault = some resolution) :
    s'.resolution? fault = some resolution := by
  have hfound : s.faults[fault]? = some (some resolution) := Option.join_eq_some_iff.mp hresolved
  have hlt : fault < s.faults.size := (Array.getElem?_eq_some_iff.mp hfound).1
  cases hchange with
  | same hfaults => rw [Store.resolution?, hfaults, hfound, Option.join_some]
  | begins hfaults =>
    rw [Store.resolution?, hfaults, Array.getElem?_push, if_neg (by omega), hfound,
      Option.join_some]
  | @ends other r hfaults =>
    rw [Store.resolution?, hfaults]
    rw [Store.resolve]
    split
    · rw [hfound, Option.join_some]
    · rename_i hother
      have hne : other ≠ fault := by
        rintro rfl
        rw [hresolved] at hother
        cases hother
      simp [hne, hfound]

/-- A fault is resolved by nobody but its computation. -/
theorem FaultChange.unresolved {old new : List Nat} (hchange : s.FaultChange s' old new)
    {fault : Nat} (hother : fault ∉ old) (hlt : fault < s.faults.size)
    (hnone : s.resolution? fault = none) : s'.resolution? fault = none := by
  cases hchange with
  | same hfaults => rwa [Store.resolution?, hfaults]
  | begins hfaults =>
    rw [Store.resolution?, hfaults, Array.getElem?_push, if_neg (Nat.ne_of_lt hlt)]
    exact hnone
  | @ends other resolution hfaults =>
    have hne : other ≠ fault := by
      rintro rfl
      exact hother (List.mem_singleton.mpr rfl)
    rw [Store.resolution?, hfaults, Store.resolve]
    split
    · exact hnone
    · rw [Array.getElem?_setIfInBounds_ne hne]
      exact hnone

/-- No fault is ever taken away. -/
theorem FaultChange.size_le {old new : List Nat} (hchange : s.FaultChange s' old new) :
    s.faults.size ≤ s'.faults.size := by
  cases hchange with
  | same hfaults => exact Nat.le_of_eq (congrArg Array.size hfaults.symm)
  | begins hfaults =>
    rw [hfaults, Array.size_push]
    exact Nat.le_succ _
  | ends hfaults =>
    rw [hfaults, resolve]
    split
    · exact Nat.le_refl _
    · simp

/-- The faults of the computations in progress stay different and unresolved. -/
theorem FaultChange.owned {front old new back : List (Ongoing K V Q R)}
    (howned : Owned s (front ++ old ++ back))
    (hchange : s.FaultChange s' (faultsOf old) (faultsOf new)) :
    Owned s' (front ++ new ++ back) := by
  obtain ⟨hnodup, hpending⟩ := howned
  simp only [faultsOf_append] at hnodup hpending
  generalize faultsOf old = oldFaults at hchange hnodup hpending
  generalize hnew : faultsOf new = newFaults at hchange
  have hafter : faultsOf (front ++ new ++ back) =
      faultsOf front ++ newFaults ++ faultsOf back := by
    rw [faultsOf_append, faultsOf_append, hnew]
  cases hchange with
  | same hfaults hsublist =>
    have hstretch : (faultsOf front ++ newFaults ++ faultsOf back).Sublist
        (faultsOf front ++ oldFaults ++ faultsOf back) :=
      (hsublist.append_left _).append_right _
    refine ⟨hafter ▸ hnodup.sublist hstretch, fun fault hfault => ?_⟩
    rw [hafter] at hfault
    rw [hfaults]
    exact hpending fault (hstretch.subset hfault)
  | begins hfaults =>
    rw [List.append_nil] at hnodup hpending
    have hfresh : s.faults.size ∉ faultsOf front ++ faultsOf back := by
      intro hmem
      have hlt := (Array.getElem?_eq_some_iff.mp (hpending _ hmem)).1
      omega
    constructor
    · rw [hafter, List.append_assoc, List.singleton_append, List.nodup_middle]
      exact List.nodup_cons.mpr ⟨hfresh, hnodup⟩
    · intro fault hfault
      rw [hafter, List.append_assoc, List.singleton_append, List.mem_append, List.mem_cons]
        at hfault
      rw [hfaults, Array.getElem?_push]
      split
      · rfl
      · apply hpending fault
        apply List.mem_append.mpr
        tauto
  | @ends fault resolution hfaults =>
    have hthis : s.faults[fault]? = some none := hpending fault (by simp)
    rw [Store.faults_resolve hthis] at hfaults
    rw [List.append_assoc, List.singleton_append, List.nodup_middle] at hnodup
    obtain ⟨hgone, hrest⟩ := List.nodup_cons.mp hnodup
    rw [List.append_nil] at hafter
    refine ⟨hafter ▸ hrest, fun other hother => ?_⟩
    rw [hafter] at hother
    have hne : fault ≠ other := by
      rintro rfl
      exact hgone hother
    have hbefore := hpending other (by
      rw [List.append_assoc, List.singleton_append]
      exact List.mem_append.mpr ((List.mem_append.mp hother).imp_right (List.mem_cons_of_mem _)))
    rw [hfaults, Array.getElem?_setIfInBounds_ne hne]
    exact hbefore

end Store

variable [DecidableEq K] [DecidableEq V]

section Change

variable {settings : Settings K V Q R} {s : Store K V} {stage : Stage K V Q R}
  {turn : StoreTurn K V Q R} {now : Instant}

theorem Store.Visit.faultChange {operation : Operation K V Q R}
    (hvisit : s.Visit settings now operation turn) :
    s.FaultChange turn.state [] (faultsOf turn.ongoing) := by
  cases hvisit with
  | keeps _ _ hstill =>
    rw [hstill.ongoing]
    exact .same hstill.faults (List.Sublist.refl _)
  | waits _ _ hspares hnext hframes =>
    apply Store.FaultChange.same hspares.faults
    simp [Turn.ongoing, hnext, hframes, Stage.ongoing]
  | writes _ _ _ _ _ _ hfaults hnone =>
    rw [hnone]
    exact .same hfaults (List.Sublist.refl _)
  | removes _ _ _ hfaults hnone =>
    rw [hnone]
    exact .same hfaults (List.Sublist.refl _)
  | begins _ _ _ hc _ _ hfaults hone =>
    have hfault := congrArg Computation.fault hc
    rw [hone, faultsOf_computes, hfault]
    exact .begins hfaults

/-- A section begins at most one computation or ends one. -/
theorem Stage.Deed.faultChange (hdeed : stage.Deed settings s turn) :
    s.FaultChange turn.state (faultsOf stage.ongoing) (faultsOf turn.ongoing) := by
  cases hdeed with
  | visits hvisit => exact hvisit.faultChange
  | keeps hnone hstill =>
    rw [hnone, hstill.ongoing]
    exact .same hstill.faults (List.Sublist.refl _)
  | looks hnext hframes hspares =>
    apply Store.FaultChange.same hspares.faults
    simp [Turn.ongoing, hnext, hframes, Stage.ongoing]
  | resumes _ _ hnext hframes hspares =>
    apply Store.FaultChange.same hspares.faults
    simp [Turn.ongoing, hnext, hframes, Stage.ongoing]
  | shares _ _ hstill =>
    rw [hstill.ongoing]
    exact .same hstill.faults (List.nil_sublist _)
  | givesUp _ _ hstill =>
    rw [hstill.ongoing]
    exact .same hstill.faults (List.nil_sublist _)
  | expels hstage _ _ hfaults hnone =>
    rw [hnone]
    exact .same hfaults (List.nil_sublist _)
  | sweeps _ hfaults hnone =>
    rw [hnone]
    exact .same hfaults (List.nil_sublist _)
  | calls _ hnext hframes _ hspares =>
    apply Store.FaultChange.same hspares.faults
    simp [Turn.ongoing, hnext, hframes, Stage.ongoing]
  | unwinds hcause _ hnext hframes hspares =>
    apply Store.FaultChange.same hspares.faults
    rcases hcause with ⟨rfl, -⟩ | ⟨value, rfl⟩ <;>
      simp [Turn.ongoing, hnext, hframes, Stage.ongoing]
  | composes _ _ _ hnext hframes hspares =>
    apply Store.FaultChange.same hspares.faults
    simp [Turn.ongoing, hnext, hframes, Stage.ongoing]
  | ends hstage _ hfaults hnone =>
    rw [hstage, hnone, faultsOf_computes]
    exact .ends hfaults

/-- And so does a passage. -/
theorem Passage.Turnover.faultChange {p : Passage K V Q R} {old new : List (Ongoing K V Q R)}
    (hturnover : p.Turnover settings old new) :
    p.before.world.store.FaultChange p.after.world.store (faultsOf old) (faultsOf new) := by
  cases hturnover with
  | rests _ hspares => exact .same hspares.faults (List.Sublist.refl _)
  | calls _ _ hspares => exact .same hspares.faults (List.Sublist.refl _)
  | drops _ _ _ hspares => exact .same hspares.faults (List.nil_sublist _)
  | moves _ _ _ hspares => exact .same hspares.faults (List.Sublist.refl _)
  | acts hsection hdeed =>
    rw [hsection.store]
    exact hdeed.faultChange

end Change

section Machine

variable {settings : Settings K V Q R} {m : Machine K V Q R}

/-- Every computation in progress has an unresolved fault of its own. -/
theorem Machine.Reachable.owned (hm : m.Reachable settings) :
    Owned m.world.store m.ongoing := by
  apply hm.invariant (P := fun m => Owned m.world.store m.ongoing)
  · intro start hstart
    have hnone : start.ongoing = [] := by simp [Machine.ongoing, hstart.threads]
    rw [hnone]
    exact ⟨List.nodup_nil, by simp⟩
  · intro p hp howned
    obtain ⟨front, old, new, back, hbefore, hafter, hturnover⟩ := hp.turnover
    rw [hbefore] at howned
    rw [hafter]
    exact hturnover.faultChange.owned howned

theorem Machine.Reachable.pending (hm : m.Reachable settings) {i fault : Nat} {t : Thread K V Q R}
    (ht : m.threads[i]? = some t) (hfault : fault ∈ faultsOf t.ongoing) :
    m.world.store.faults[fault]? = some none := by
  apply hm.owned.pending
  rw [Machine.faultsOf_ongoing]
  exact List.mem_flatMap.mpr ⟨t, List.mem_iff_getElem?.mpr ⟨i, by simpa using ht⟩, hfault⟩

/-- A thread carries the computation of a fault only once. -/
theorem Machine.Reachable.nodup_faults (hm : m.Reachable settings) {i : Nat} {t : Thread K V Q R}
    (ht : m.threads[i]? = some t) : (faultsOf t.ongoing).Nodup := by
  have hnodup := hm.owned.nodup
  rw [Machine.faultsOf_ongoing, List.nodup_flatMap] at hnodup
  exact hnodup.1 t (List.mem_iff_getElem?.mpr ⟨i, by simpa using ht⟩)

/-- The computation of a fault is carried by one thread. -/
theorem Machine.Reachable.thread_eq (hm : m.Reachable settings) {i j fault : Nat}
    {t t' : Thread K V Q R} (hi : m.threads[i]? = some t) (hj : m.threads[j]? = some t')
    (ht : fault ∈ faultsOf t.ongoing) (ht' : fault ∈ faultsOf t'.ongoing) : i = j := by
  have hnodup := hm.owned.nodup
  rw [Machine.faultsOf_ongoing, List.nodup_flatMap] at hnodup
  have happart := List.pairwise_iff_getElem.mp hnodup.2
  have hnever : ∀ {i j : Nat} {t t' : Thread K V Q R}, i < j → m.threads[i]? = some t →
      m.threads[j]? = some t' → fault ∈ faultsOf t.ongoing → fault ∈ faultsOf t'.ongoing →
      False := by
    intro i j t t' hlt hi hj ht ht'
    obtain ⟨hisize, rfl⟩ := Array.getElem?_eq_some_iff.mp hi
    obtain ⟨hjsize, rfl⟩ := Array.getElem?_eq_some_iff.mp hj
    exact happart i j (by simpa using hisize) (by simpa using hjsize) hlt (by simpa using ht)
      (by simpa using ht')
  rcases Nat.lt_trichotomy i j with hlt | heq | hgt
  · exact (hnever hlt hi hj ht ht').elim
  · exact heq
  · exact (hnever hgt hj hi ht' ht).elim

theorem Passage.Lawful.resolution? {p : Passage K V Q R} (hp : p.Lawful settings) {fault : Nat}
    {resolution : Resolution V}
    (hresolved : p.before.world.store.resolution? fault = some resolution) :
    p.after.world.store.resolution? fault = some resolution := by
  obtain ⟨_, _, _, _, _, _, hturnover⟩ := hp.turnover
  exact hturnover.faultChange.resolution? hresolved

end Machine

end SharedCache
