import SharedCache.Proofs.Exclusion
import SharedCache.Proofs.Standings

/-!
# Sharing

One computation serves everybody who asks for its key meanwhile.  The function of a call of
`computeIfAbsent` that installs a fault is called once, by that call; how the function ends settles
the resolution of the fault; and whoever has waited for the fault answers by the resolution alone,
without a function of its own.  `Owner.Assures` is what everybody is certain of while the call of
the owner stands somewhere, and `Run.sharesComputations` is the result about whole runs.
-/

namespace SharedCache

variable {K V Q R : Type} [DecidableEq K] [DecidableEq V]

/-- Whether an operation asks for the value of its key and takes what a computation gives. -/
def Operation.asks : Operation K V Q R → Bool
  | .get _ | .computeIfAbsent .. => true
  | _ => false

namespace Owner

variable (settings : Settings K V Q R) (o : Owner K V Q R) (m : Machine K V Q R)

/-- The fault is pending, and whoever waits for it goes on waiting unless the thread is
interrupted. -/
structure Pends : Prop where
  unresolved : m.world.store.resolution? o.fault = none
  patient : ∀ (p : Passage K V Q R) i t operation retries, p.before = m → p.Lawful settings →
    p.mover = some i → m.threads[i]? = some t →
    t.activity = .keep (.await operation retries o.fault) →
    m.world.interrupts t.binding = true ∧
      p.after.threads[i]? = some ⟨.settle (.done (.failed .interrupted)), t.stack, t.binding⟩

/-- Whoever asks for the key and waits for the fault answers like the owner after a few moves, and
calls no function for that. -/
def SharedBy (answer : Answer V) : Prop :=
  ∀ i t operation retries, m.threads[i]? = some t →
    t.activity = .keep (.await operation retries o.fault) → operation.asks = true →
    ∃ n ≤ 5, m.Promises settings i n fun moves m' =>
      m'.threads[i]? =
          some ⟨.settle (.done (operation.receives answer)), t.stack, t.binding⟩ ∧
        ∀ q ∈ moves, mappings q.events = []

/-- What everybody is certain of while the call of the owner stands like this. -/
def Assures : Standing V → Prop
  | .begun => o.Pends settings m ∧ ∀ t, m.threads[o.thread]? = some t →
      t.activity = .keep (.own o.computation) → t.stack = o.base →
      m.Promises settings o.thread 1 fun moves _ => moves.map (Passage.calls o.fault) = [true]
  | .running => o.Pends settings m
  | .ended signal => o.Pends settings m ∧ ∃ n ≤ 2, m.Promises settings o.thread n fun _ m' =>
      ∃ resolution out, settings.Concludes o.fault signal resolution out ∧
        m'.world.store.resolution? o.fault = some resolution
  | .resolved _ _ out => ∀ answer, out = .done answer → o.SharedBy settings m answer

variable {settings o m} {t : Thread K V Q R} {signal : Signal V}

/-- The computation of a fault that a thread carries is pending. -/
theorem pends_of_mem (hm : m.Reachable settings) (ht : m.threads[o.thread]? = some t)
    (hfault : o.fault ∈ faultsOf t.ongoing) : o.Pends settings m := by
  have hnone : m.world.store.resolution? o.fault = none := by
    rw [Store.resolution?, hm.pending ht hfault]
    rfl
  refine ⟨hnone, fun p i t operation retries hbefore hp hmover ht hactivity => ?_⟩
  subst hbefore
  exact hp.interrupted_of_await hmover ht hactivity hnone

/-- A thread that is about to call the function does so when it moves. -/
theorem promises_call (ht : m.threads[o.thread]? = some t)
    (hactivity : t.activity = .keep (.own o.computation)) (hstack : t.stack = o.base) :
    m.Promises settings o.thread 1 fun moves _ => moves.map (Passage.calls o.fault) = [true] := by
  apply Machine.promises_of_countdown (P := fun left moves m' =>
    left = 0 ∧ moves.map (Passage.calls o.fault) = [true] ∨
      left = 1 ∧ moves = [] ∧ m'.threads[o.thread]? = some t)
  · exact .inr ⟨rfl, rfl, ht⟩
  · rintro left moves p hp hmover (hdone | ⟨hleft, hmoves, ht⟩)
    · exact .inl hdone
    · exact .inr ⟨hleft, hmoves, hp.thread_eq hmover ht⟩
  · rintro left moves p hp hmover (⟨hleft, -⟩ | ⟨hleft, rfl, ht⟩)
    · omega
    · obtain ⟨chance, s, hstep, -, -, hevents⟩ := hp.own_step hmover ht
      obtain ⟨-, hcall⟩ := step_own hstep hactivity hstack
      have hcalls : p.calls o.fault = true := by
        simp [Passage.calls, hevents, hcall]
      refine .inl ⟨by omega, ?_⟩
      rw [List.nil_append, List.map_singleton, hcalls]
  · rintro left moves m' (⟨hleft, -⟩ | ⟨-, -, ht⟩) chance
    · omega
    · exact Machine.isSome_step ht (Thread.step_of_turn hactivity rfl)
  · rintro moves m' (⟨-, hmoves⟩ | ⟨hleft, -⟩)
    · exact hmoves
    · omega

/-- A call whose function has ended resolves its fault in its next sections. -/
theorem Ends.promises {n : Nat} (hsteady : settings.Steady) (hm : m.Reachable settings)
    (ht : m.threads[o.thread]? = some t) (hends : o.Ends settings t signal n) :
    m.Promises settings o.thread n fun _ m' => ∃ resolution out,
      settings.Concludes o.fault signal resolution out ∧
        m'.world.store.resolution? o.fault = some resolution := by
  apply Machine.promises_of_countdown (P := fun left _ m' => m'.Reachable settings ∧
    ((∃ t, m'.threads[o.thread]? = some t ∧ o.Ends settings t signal left) ∨
      left = 0 ∧ ∃ resolution out, settings.Concludes o.fault signal resolution out ∧
        m'.world.store.resolution? o.fault = some resolution))
  · exact ⟨hm, .inl ⟨t, ht, hends⟩⟩
  · rintro left moves p hp hmover ⟨hm, hcase⟩
    refine ⟨(Run.rest.move hp).reachable_of_reachable hm, ?_⟩
    rcases hcase with ⟨t, ht, hends⟩ | ⟨hleft, resolution, out, hconcludes, hresolution⟩
    · exact .inl ⟨t, hp.thread_eq hmover ht, hends⟩
    · exact .inr ⟨hleft, resolution, out, hconcludes, hp.resolution? hresolution⟩
  · rintro left moves p hp hmover ⟨hm, ⟨t, ht, hends⟩ | ⟨hleft, -⟩⟩
    · refine ⟨(Run.rest.move hp).reachable_of_reachable hm, ?_⟩
      obtain ⟨chance, s, hstep, hworld, hthread, -⟩ := hp.own_step hmover ht
      rcases hends.step hsteady hstep with
        ⟨hleft, hends'⟩ | ⟨hleft, resolution, out, hconcludes, hresolves, -⟩
      · obtain rfl : left = 1 := by omega
        exact .inl ⟨s.thread, hthread, hends'⟩
      · refine .inr ⟨by omega, resolution, out, hconcludes, ?_⟩
        rw [hworld]
        exact Store.resolution?_resolve (hm.pending ht hends.mem_faults) hresolves.faults
    · omega
  · rintro left moves m' ⟨-, ⟨t, ht, hends⟩ | ⟨hleft, -⟩⟩ chance
    · obtain ⟨stage, hactivity, hturn⟩ := hends.isSome_turn m'.world.store m'.world.clock.now
        (m'.world.interrupts t.binding) chance.draws
      obtain ⟨turn, hturn⟩ := Option.isSome_iff_exists.mp hturn
      exact Machine.isSome_step ht (Thread.step_of_turn hactivity hturn)
    · omega
  · rintro moves m' ⟨-, ⟨t, ht, hends⟩ | ⟨-, hresolved⟩⟩
    · cases hends
    · exact hresolved

omit [DecidableEq K] [DecidableEq V] in
/-- A wait that is over brings an operation that asks for the key within reach of the answer. -/
theorem concludes_nears {fault : Nat} {resolution : Resolution V}
    {answer : Answer V} (hconcludes : settings.Concludes fault signal resolution (.done answer))
    {operation : Operation K V Q R} (hasks : operation.asks = true) (retries : Nat)
    (s : Store K V) : ∃ n ≤ 4, ∃ next,
      (∀ s' : Store K V, s'.resume operation retries resolution = .goTo s' next) ∧
        s.Nears settings n (operation.receives answer) next := by
  cases operation with
  | get key =>
    cases hconcludes with
    | gives _ hout => exact ⟨4, by omega, _, fun _ => rfl, .receives hout⟩
    | nothing => exact ⟨1, by omega, _, fun _ => rfl, .misses⟩
    | fails => exact ⟨1, by omega, _, fun _ => rfl, .misses⟩
  | computeIfAbsent key mapping =>
    cases hconcludes with
    | gives _ hout => exact ⟨4, by omega, _, fun _ => rfl, .receives hout⟩
    | nothing => exact ⟨1, by omega, _, fun _ => rfl, .misses⟩
    | fails => exact ⟨0, by omega, _, fun _ => rfl, .settles⟩
  | _ => cases hasks

/-- Everybody who has waited shares what the computation has left. -/
theorem sharedBy_of_concludes (hsteady : settings.Steady) {resolution : Resolution V}
    {answer : Answer V} (hresolution : m.world.store.resolution? o.fault = some resolution)
    (hconcludes : settings.Concludes o.fault signal resolution (.done answer)) :
    o.SharedBy settings m answer := by
  intro i t operation retries ht hactivity hasks
  obtain ⟨n, hn, next, hnext, hnears⟩ := concludes_nears hconcludes hasks retries m.world.store
  have hawaits : m.world.store.Nears settings (n + 1) (operation.receives answer) t.activity := by
    rw [hactivity]
    exact .resumes hresolution hnext hnears
  exact ⟨n + 1, by omega, hawaits.promises hsteady ht⟩

/-- Wherever the call of the owner stands, what is to come is assured. -/
theorem At.assures {trace : List (Passage K V Q R)} {standing : Standing V}
    (hsteady : settings.Steady) (hm : m.Reachable settings)
    (hat : o.At settings trace m standing) : o.Assures settings m standing := by
  cases hat with
  | begun hnone ht hbegins =>
    refine ⟨pends_of_mem hm ht hbegins.mem_faults, fun t' ht' hactivity hstack => ?_⟩
    exact promises_call ht' hactivity hstack
  | @running t hcalled ht hruns =>
    apply pends_of_mem hm ht
    rw [Thread.ongoing, faultsOf_append]
    exact List.mem_append_right _ hruns.mem_faults
  | @ended t signal n hcalled hreturned ht hends =>
    refine ⟨pends_of_mem hm ht hends.mem_faults, n, ?_, hends.promises hsteady hm ht⟩
    cases hends <;> omega
  | finishing hresolved hresolution =>
    rintro answer rfl
    exact sharedBy_of_concludes hsteady hresolution hresolved.concludes
  | closed hresolved hresolution =>
    rintro answer rfl
    exact sharedBy_of_concludes hsteady hresolution hresolved.concludes

end Owner

/-- In every run whose collaborators do not panic, whatever any number of threads do: the function
of a call that installs a fault is called once and by that call, its end settles the fault, and
everybody who has waited for the fault answers like the owner; and as long as nobody overwrites or
removes a pending fault of a key, no two functions of the key run at the same time. -/
theorem Run.sharesComputations {settings : Settings K V Q R} {start m : Machine K V Q R}
    {trace : List (Passage K V Q R)} (hsteady : settings.Steady) (hstart : start.Fresh settings)
    (run : Run settings start trace m) :
    (∀ front p back (o : Owner K V Q R), trace = front ++ p :: back → p.Installs o →
      ∃ standing, o.At settings trace m standing ∧ o.Assures settings m standing) ∧
    ∀ key, (∀ p ∈ trace, p.Hits key → ∀ fault, p.before.slot? key ≠ some (.fault fault)) →
      (m.running key).length ≤ 1 := by
  constructor
  · rintro front p back o rfl hinstalls
    obtain ⟨hfront, hp, hback⟩ := run.split rfl
    obtain ⟨standing, hat⟩ := hfront.exists_at hsteady hstart hp hback hinstalls
    exact ⟨standing, hat, hat.assures hsteady (run.reachable hstart)⟩
  · intro key hspared
    exact (run.exclusive hstart hspared).length_running

/-! ## Two threads and a reader -/

/-- The owner whose call installs a fault in this passage, if there is one. -/
def Passage.owner? (p : Passage Nat Nat Unit Unit) : Option (Owner Nat Nat Unit Unit) :=
  match p.mover, p.thread? with
  | some i, some ⟨.keep (.visit (.computeIfAbsent key mapping) _ _), base, _⟩ =>
    match p.before.slot? key, p.after.slot? key with
    | none, some (.fault fault) => some ⟨i, base, key, mapping, fault⟩
    | _, _ => none
  | _, _ => none

theorem Passage.installs_of_owner? {p : Passage Nat Nat Unit Unit} {o : Owner Nat Nat Unit Unit}
    (howner : p.owner? = some o) : p.Installs o := by
  rw [Passage.owner?] at howner
  split at howner
  · rename_i i key mapping retries now base binding hmover hthread
    split at howner
    · rename_i fault hbefore hafter
      obtain rfl := Option.some.inj howner
      rw [Passage.thread?, hmover] at hthread
      refine ⟨hmover, ⟨retries, now, binding, hthread⟩, ?_, hafter⟩
      simp [hbefore]
    · cases howner
  · cases howner

/-- Asks for a key and gives a value where it has none. -/
def ask (value : Nat) : Script Nat Nat Unit Unit :=
  .call (.computeIfAbsent 1 fun _ => .finish (.value (some value))) .finish

/-- Two threads ask for a key, and a third one reads it.  The first one computes, and the others
wait for it. -/
def askMoves : List (Move Nat Nat Unit Unit) :=
  [.spawn (ask 7), .spawn (ask 8), .spawn (.call (.get 1) .finish)] ++
    ([0, 0, 0, 1, 1, 1, 2, 2, 2] ++ List.replicate 9 0 ++ List.replicate 7 1 ++
      List.replicate 7 2).map (.step · .none)

theorem plainSettings_steady : plainSettings.Steady := by
  constructor <;> simp [plainSettings, Settings.plain]

/-- All three of them end with what the only function that is called has given. -/
theorem seven_shared : ∃ (start m : Machine Nat Nat Unit Unit)
    (trace : List (Passage Nat Nat Unit Unit)) (p : Passage Nat Nat Unit Unit)
    (o : Owner Nat Nat Unit Unit) (standing : Standing Nat),
    plainSettings.Steady ∧ start.Fresh plainSettings ∧ Run plainSettings start trace m ∧
      p ∈ trace ∧ p.Installs o ∧ o.At plainSettings trace m standing ∧
      o.Assures plainSettings m standing ∧ (m.running 1).length ≤ 1 ∧
      m.threads.toList.map Thread.result? = List.replicate 3 (some (.done (.value (some 7)))) ∧
      (trace.flatMap fun p => mappings p.events) = [(1, 0, none)] := by
  have hfacts : (Machine.replay plainSettings askMoves).map (fun run =>
      (run.1.all (Passage.isCalm 1) && (run.1.findSome? Passage.owner?).isSome &&
        run.2.threads.toList.map Thread.result? =
          List.replicate 3 (some (.done (.value (some 7)))),
        run.1.flatMap fun p => mappings p.events)) = some (true, [(1, 0, none)]) := by
    decide +kernel
  obtain ⟨⟨trace, m⟩, hreplay, hpair⟩ := Option.map_eq_some_iff.mp hfacts
  obtain ⟨start, hstart, run⟩ := Machine.run_of_replay hreplay
  obtain ⟨htrue, hcalls⟩ := Prod.mk.inj hpair
  obtain ⟨hboth, hresults⟩ := Bool.and_eq_true_iff.mp htrue
  obtain ⟨hcalm, howner⟩ := Bool.and_eq_true_iff.mp hboth
  obtain ⟨o, ho⟩ := Option.isSome_iff_exists.mp howner
  obtain ⟨p, hp, hinstalls⟩ := List.exists_of_findSome?_eq_some ho
  obtain ⟨front, back, htrace⟩ := List.append_of_mem hp
  obtain ⟨hshared, halone⟩ := Run.sharesComputations plainSettings_steady hstart run
  obtain ⟨standing, hat, hassures⟩ :=
    hshared front p back o htrace (Passage.installs_of_owner? hinstalls)
  have hspared : ∀ p ∈ trace, p.Hits 1 → ∀ fault, p.before.slot? 1 ≠ some (.fault fault) := by
    intro q hq hhits
    exact absurd hhits.disturbs (Passage.not_disturbs (List.all_eq_true.mp hcalm q hq))
  exact ⟨start, m, trace, p, o, standing, plainSettings_steady, hstart, run, hp,
    Passage.installs_of_owner? hinstalls, hat, hassures, halone 1 hspared,
    of_decide_eq_true hresults, hcalls⟩

end SharedCache
