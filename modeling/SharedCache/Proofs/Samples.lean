import SharedCache.Proofs.Accounting
import SharedCache.Proofs.Acts
import SharedCache.Proofs.Aftermath
import SharedCache.Proofs.Emissions
import SharedCache.Proofs.Footsteps

/-!
# Samples

An eviction draws entries, picks a victim among them and removes it, in sections between which other
threads may do anything.  What is drawn lies in its slot at that moment, so a fault is never drawn,
and neither is the value that it has taken the place of.  The victim leaves its slot only if it is
still there, so a fault that has come in between stays, and the round has failed.
-/

namespace SharedCache

variable {K V Q R : Type}

/-- Whether the veto or the comparison of entries is asked about a value of a key. -/
def Event.Judges (key : K) (value : V) : Event K V → Prop
  | .vetoAsked asked value' => asked = key ∧ value' = value
  | .ranked first value' second value'' =>
    first = key ∧ value' = value ∨ second = key ∧ value'' = value
  | _ => False

namespace Passage

/-- The passage adds this entry to the sample of its thread. -/
def Draws (p : Passage K V Q R) (key : K) (h : Holder V) : Prop :=
  ∃ failed sample left next new, p.stage? = some (.draw failed sample left) ∧
    p.next? = some (.keep next) ∧ next.sample? = some (sample ++ new) ∧ (key, h) ∈ new

/-- The passage is a draw. -/
def IsDraw (p : Passage K V Q R) : Prop :=
  ∃ failed sample left, p.stage? = some (.draw failed sample left)

/-- The entry was drawn in the course of a trace by the thread that moves in the passage, which has
done nothing else since but draw. -/
def HasDrawn (p : Passage K V Q R) (trace : List (Passage K V Q R)) (key : K) (h : Holder V) :
    Prop :=
  ∃ front q round, trace = front ++ q :: round ∧ q.mover = p.mover ∧ q.Draws key h ∧
    ∀ r ∈ round, r.mover = p.mover → r.IsDraw

end Passage

theorem Event.IsOfChoice.mem_sample {sample : List (K × Holder V)} {event : Event K V} {key : K}
    {value : V} (hchoice : event.IsOfChoice sample) (hjudges : event.Judges key value) :
    ∃ h, (key, h) ∈ sample ∧ h.value = value := by
  cases event with
  | vetoAsked asked value' =>
    obtain ⟨rfl, rfl⟩ := hjudges
    exact hchoice
  | ranked first value' second value'' =>
    obtain ⟨hfirst, hsecond⟩ := hchoice
    rcases hjudges with ⟨rfl, rfl⟩ | ⟨rfl, rfl⟩
    · exact hfirst
    · exact hsecond
  | _ => exact hjudges.elim

/-- Nobody but those who pick a victim ask about the entries of a sample. -/
theorem Stage.Emits.isOfChoice {s : Store K V} {stage : Stage K V Q R} {event : Event K V}
    {key : K} {value : V} (hemits : stage.Emits s event) (hjudges : event.Judges key value) :
    ∃ failed sample, stage = .pick failed sample ∧ event.IsOfChoice sample := by
  cases stage with
  | pick failed sample => exact ⟨failed, sample, rfl, hemits⟩
  | visit => cases event <;> first | exact hjudges.elim | cases hemits
  | consult =>
    obtain rfl := hemits
    exact hjudges.elim
  | handOut =>
    obtain rfl := hemits
    exact hjudges.elim
  | report => obtain rfl | rfl | ⟨value, rfl⟩ := hemits <;> exact hjudges.elim
  | own => obtain ⟨value, rfl⟩ | ⟨current, rfl⟩ := hemits <;> exact hjudges.elim
  | compose =>
    rcases hemits with hwrite | ⟨value, rfl⟩
    · cases event <;> first | exact hjudges.elim | cases hwrite
    · exact hjudges.elim
  | enforce =>
    obtain ⟨message, rfl⟩ := hemits
    exact hjudges.elim
  | _ => exact hemits.elim

variable [DecidableEq K]

/-- What is drawn lies in its slot. -/
theorem EntryMap.get?_of_mem_sample {m : EntryMap K V} {draws : List K} {key : K} {h : Holder V}
    (hmem : (key, h) ∈ m.sample draws) : m.get? key = some (.holder h) := by
  obtain ⟨drawn, -, hdrawn⟩ := List.mem_filterMap.mp hmem
  obtain ⟨slot, hslot, hholder⟩ := Option.bind_eq_some_iff.mp hdrawn
  obtain ⟨found, hfound, hpair⟩ := Option.map_eq_some_iff.mp hholder
  obtain ⟨rfl, rfl⟩ := Prod.mk.inj hpair
  cases slot with
  | fault id => cases hfound
  | holder other => rw [hslot, Option.some.inj hfound]

variable [DecidableEq V] {settings : Settings K V Q R} {start m : Machine K V Q R}
  {trace : List (Passage K V Q R)}

/-- A section of an eviction leaves a slot with a fault as it is. -/
theorem Stage.IsEnforcing.get?_fault {stage : Stage K V Q R} {s : Store K V}
    {turn : StoreTurn K V Q R} {key : K} {fault : Nat} (hstage : stage.IsEnforcing)
    (hdeed : stage.Deed settings s turn) (hvalid : s.map.Valid)
    (hslot : s.map.get? key = some (.fault fault)) :
    turn.state.map.get? key = some (.fault fault) := by
  cases hdeed with
  | keeps _ hstill => rw [hstill.map, hslot]
  | @expels _ _ other h _ hholds hmap =>
    have hne : key ≠ other := by
      rintro rfl
      simp [Store.holds, hslot, Slot.isHolder] at hholds
    rw [hmap, hvalid.get?_erase, if_neg hne, hslot]
  | unwinds hcause =>
    rcases hcause with ⟨rfl, -⟩ | ⟨value, rfl⟩ <;> exact hstage.elim
  | ends hongoing =>
    cases stage <;> first | exact hstage.elim | cases hongoing
  | _ => exact hstage.elim

omit [DecidableEq V] in
/-- The victim of an eviction stays if there is a fault in its place. -/
theorem Store.evict_of_fault {s : Store K V} {failed : Nat} {key : K} {h : Holder V}
    {cause : RemovalCause} {fault : Nat} (hslot : s.map.get? key = some (.fault fault)) :
    s.evict failed key h cause =
      (.goTo s (.keep (.enforce (failed + 1))) : StoreTurn K V Q R) := by
  have hholds : s.holds key h = false := by simp [holds, hslot, Slot.isHolder]
  rw [evict, hholds]
  rfl

/-! ## Rounds -/

omit [DecidableEq V] in
/-- A sample begins empty and gets longer with each draw. -/
theorem Stage.Stems.of_sample {s : Store K V} {now : Instant} {stage next : Stage K V Q R}
    {sample : List (K × Holder V)} (hstems : stage.Stems s now next)
    (hsample : next.sample? = some sample) :
    sample = [] ∨ ∃ failed drawn left draws, stage = .draw failed drawn left ∧
      sample = drawn ++ s.map.sample draws := by
  cases next with
  | draw failed drawn left =>
    obtain rfl := Option.some.inj hsample
    exact hstems
  | pick failed drawn =>
    obtain rfl := Option.some.inj hsample
    exact hstems
  | _ => cases hsample

/-- An entry that is drawn lies in its slot. -/
theorem Passage.Lawful.slot?_of_draws {p : Passage K V Q R} (hp : p.Lawful settings)
    (hm : p.before.Reachable settings) {key : K} {h : Holder V} (hdraws : p.Draws key h) :
    p.before.slot? key = some (.holder h) := by
  obtain ⟨failed, sample, left, next, new, hstage, hnext, hsample, hmem⟩ := hdraws
  obtain ⟨i, hmover, hthread⟩ := Option.bind_eq_some_iff.mp hnext
  obtain ⟨t, ht, hactivity⟩ := Option.map_eq_some_iff.mp hthread
  have hinner : next.isInner = true := by
    cases next <;> first | rfl | cases hsample
  have hhands : ∀ h thenEnforce, next ≠ .handOut h thenEnforce := by
    rintro h thenEnforce rfl
    cases hsample
  obtain ⟨stage, hstage', hstems⟩ := hp.stems hm hmover ht hactivity hinner hhands
  obtain rfl := Option.some.inj (hstage.symm.trans hstage')
  rcases hstems.of_sample hsample with hnil | ⟨_, drawn, _, draws, heq, happend⟩
  · simp [(List.append_eq_nil_iff.mp hnil).2] at hmem
  · obtain ⟨-, rfl, -⟩ := Stage.draw.inj heq
    obtain rfl := List.append_cancel_left happend
    exact EntryMap.get?_of_mem_sample hmem

/-- Every entry of a sample was drawn in the round that the thread is in. -/
theorem Run.exists_draws (hstart : start.Fresh settings) (run : Run settings start trace m)
    {i : Nat} {t : Thread K V Q R} {stage : Stage K V Q R} {sample : List (K × Holder V)}
    {key : K} {h : Holder V} (ht : m.threads[i]? = some t) (hactivity : t.activity = .keep stage)
    (hsample : stage.sample? = some sample) (hmem : (key, h) ∈ sample) :
    ∃ front q round, trace = front ++ q :: round ∧ q.mover = some i ∧ q.Draws key h ∧
      ∀ r ∈ round, r.mover = some i → r.IsDraw := by
  have hinner : stage.isInner = true := by
    cases stage <;> first | rfl | cases hsample
  induction run generalizing t stage sample with
  | rest => simp [hstart.threads] at ht
  | @move trace p run hp ih =>
    -- A passage that is a draw or none of the thread's makes the round longer.
    have hlonger : (p.mover = some i → p.IsDraw) → ∀ {t stage sample},
        p.before.threads[i]? = some t → t.activity = .keep stage →
        stage.sample? = some sample → (key, h) ∈ sample → stage.isInner = true →
        ∃ front q round, trace ++ [p] = front ++ q :: round ∧ q.mover = some i ∧ q.Draws key h ∧
          ∀ r ∈ round, r.mover = some i → r.IsDraw := by
      intro hdraw t stage sample ht hactivity hsample hmem hinner
      obtain ⟨front, q, round, htrace, hq, hdraws, hround⟩ :=
        ih ht hactivity hsample hmem hinner
      refine ⟨front, q, round ++ [p], by simp [htrace], hq, hdraws, fun r hr hmover => ?_⟩
      rcases List.mem_append.mp hr with hold | hnew
      · exact hround r hold hmover
      · obtain rfl := List.mem_singleton.mp hnew
        exact hdraw hmover
    rcases hp.thread_cases ht with ⟨hother, hsame⟩ | ⟨script, rfl⟩ | ⟨hmover, -⟩
    · exact hlonger (fun hi => absurd hi hother) hsame hactivity hsample hmem hinner
    · cases hactivity
    · have hhands : ∀ h thenEnforce, stage ≠ .handOut h thenEnforce := by
        rintro h thenEnforce rfl
        cases hsample
      obtain ⟨before, hbefore, hstems⟩ :=
        hp.stems (run.reachable hstart) hmover ht hactivity hinner hhands
      obtain ⟨k, t', hk, ht', hactivity'⟩ := Passage.keep_of_stage? hbefore
      obtain rfl := Option.some.inj (hmover.symm.trans hk)
      rcases hstems.of_sample hsample with rfl | ⟨failed, drawn, left, draws, rfl, rfl⟩
      · cases hmem
      · rcases List.mem_append.mp hmem with hold | hdrawn
        · exact hlonger (fun _ => ⟨failed, drawn, left, hbefore⟩) ht' hactivity' rfl hold rfl
        · have hnext : p.next? = some (.keep stage) := by
            simp [Passage.next?, hmover, ht, hactivity]
          exact ⟨trace, p, [], rfl, hmover,
            ⟨failed, drawn, left, stage, _, hbefore, hnext, hsample, hdrawn⟩, by simp⟩

/-- Evictions and faults keep apart. -/
structure IsolatesFaults (trace : List (Passage K V Q R)) : Prop where
  /-- What is drawn lies in its slot at that moment. -/
  drawn : ∀ p ∈ trace, ∀ key h, p.Draws key h → p.before.slot? key = some (.holder h)
  /-- While a key has a fault in its slot, no eviction draws it, whatever holder it had before. -/
  undrawn : ∀ p ∈ trace, ∀ key fault h, p.before.slot? key = some (.fault fault) → ¬ p.Draws key h
  /-- The veto and the comparison are asked only where a victim is picked, and only about values
  that were drawn in that round. -/
  judged : ∀ front p back, trace = front ++ p :: back → ∀ event ∈ p.events, ∀ key value,
    event.Judges key value → (∃ failed sample, p.stage? = some (.pick failed sample)) ∧
      ∃ h, h.value = value ∧ p.HasDrawn front key h
  /-- No section of an eviction removes a fault or puts something in its place. -/
  spared : ∀ p ∈ trace, ∀ stage, p.stage? = some stage → stage.IsEnforcing → ∀ key fault,
    p.before.slot? key = some (.fault fault) → p.after.slot? key = some (.fault fault)
  /-- A victim that was picked before a fault took its place stays where it is, and the round has
  failed. -/
  wasted : ∀ p ∈ trace, ∀ failed key h cause fault,
    p.stage? = some (.evict failed key h cause) → p.before.slot? key = some (.fault fault) →
    p.after.world.store = p.before.world.store ∧ p.events = [] ∧
      p.next? = some (.keep (.enforce (failed + 1)))

/-- In every run evictions leave the keys alone that are being computed. -/
theorem Run.isolatesFaults (hstart : start.Fresh settings) (run : Run settings start trace m) :
    IsolatesFaults trace := by
  have hstep : ∀ {p}, p ∈ trace → p.Lawful settings ∧ p.before.Reachable settings := by
    intro p hp
    obtain ⟨front, back, htrace⟩ := List.append_of_mem hp
    obtain ⟨hfront, hlawful, -⟩ := run.split htrace
    exact ⟨hlawful, hfront.reachable hstart⟩
  have hdrawn : ∀ p ∈ trace, ∀ key h, p.Draws key h → p.before.slot? key = some (.holder h) :=
    fun p hp key h hdraws => (hstep hp).1.slot?_of_draws (hstep hp).2 hdraws
  constructor
  case drawn => exact hdrawn
  case undrawn =>
    intro p hp key fault h hfault hdraws
    cases hfault.symm.trans (hdrawn p hp key h hdraws)
  case judged =>
    intro front p back htrace event hevent key value hjudges
    obtain ⟨hfront, hlawful, -⟩ := run.split htrace
    rcases hlawful.emitted hevent with hexecutors | ⟨stage, hstage, hemits⟩
    · cases event <;> first | exact hjudges.elim | cases hexecutors
    · obtain ⟨failed, sample, rfl, hchoice⟩ := hemits.isOfChoice hjudges
      obtain ⟨h, hmem, hvalue⟩ := hchoice.mem_sample hjudges
      obtain ⟨i, t, hmover, ht, hactivity⟩ := Passage.keep_of_stage? hstage
      obtain ⟨before, q, round, hbefore, hq, hdraws, hround⟩ :=
        hfront.exists_draws hstart ht hactivity rfl hmem
      exact ⟨⟨failed, sample, hstage⟩, h, hvalue, before, q, round, hbefore,
        hq.trans hmover.symm, hdraws, fun r hr hr' => hround r hr (hr'.trans hmover)⟩
  case spared =>
    intro p hp stage hstage henforcing key fault hslot
    obtain ⟨hlawful, hm⟩ := hstep hp
    obtain ⟨interrupted, draws, turn, hturn, hsection⟩ := hlawful.isSection hstage
    rw [Machine.slot?, hsection.store]
    exact henforcing.get?_fault (Stage.deed hturn) hm.accounted.map.valid hslot
  case wasted =>
    intro p hp failed key h cause fault hstage hslot
    obtain ⟨interrupted, draws, turn, hturn, hsection⟩ := (hstep hp).1.isSection hstage
    obtain rfl : turn = _ := (Option.some.inj hturn).symm.trans (Store.evict_of_fault hslot)
    exact ⟨hsection.store, hsection.events, hsection.next⟩

/-! ## A victim that is computed meanwhile -/

/-- A store of one entry that draws one entry in a round and gives up after the second one. -/
def tightSettings : Settings Nat Nat Unit Unit :=
  .plain ⟨none, some 1, none, 1, ⟨1, 2, Nat.one_pos, Nat.two_pos⟩⟩ id

/-- One thread puts two values and picks the first one as its victim.  Before it comes to remove it,
another thread begins to compute that key with a function that puts a third value, for which nothing
is evicted either. -/
def tightMoves : List (Move Nat Nat Unit Unit) :=
  [.spawn (.call (.put 1 0) fun _ => .call (.put 2 0) .finish),
    .spawn (.call (.compute 1 fun _ _ => .call (.put 3 0) .finish) .finish)] ++
    (List.replicate 12 0 ++ List.replicate 14 1 ++ [0]).map (.step · ⟨[1], .none, false⟩)

/-- The round and the key of an eviction. -/
def Stage.eviction? {K V Q R : Type} : Stage K V Q R → Option (Nat × K)
  | .evict failed key _ _ => some (failed, key)
  | _ => none

theorem Stage.eq_evict_of_eviction? {K V Q R : Type} {stage : Stage K V Q R} {failed : Nat}
    {key : K} (heviction : stage.eviction? = some (failed, key)) :
    ∃ h cause, stage = .evict failed key h cause := by
  unfold Stage.eviction? at heviction
  split at heviction
  · cases heviction
    exact ⟨_, _, rfl⟩
  · cases heviction

/-- The victim is not there any more, the computation stays, and the round has failed. -/
theorem tight_isolated : ∃ (start m : Machine Nat Nat Unit Unit)
    (trace : List (Passage Nat Nat Unit Unit)) (p : Passage Nat Nat Unit Unit) (h : Holder Nat)
    (cause : RemovalCause), start.Fresh tightSettings ∧ Run tightSettings start trace m ∧
      IsolatesFaults trace ∧ p ∈ trace ∧ p.stage? = some (.evict 0 1 h cause) ∧
      p.before.slot? 1 = some (.fault 0) ∧ p.after.slot? 1 = some (.fault 0) ∧
      p.next? = some (.keep (.enforce 1)) := by
  have hfacts : (Machine.replay tightSettings tightMoves).map (fun run =>
      run.1.any fun p => p.stage?.bind Stage.eviction? = some (0, 1) ∧
        p.before.slot? 1 = some (.fault 0)) = some true := by
    decide +kernel
  obtain ⟨⟨trace, m⟩, hreplay, hany⟩ := Option.map_eq_some_iff.mp hfacts
  obtain ⟨start, hstart, run⟩ := Machine.run_of_replay hreplay
  obtain ⟨p, hp, hfound⟩ := List.any_eq_true.mp hany
  obtain ⟨heviction, hslot⟩ := of_decide_eq_true hfound
  obtain ⟨stage, hstage, hevicts⟩ := Option.bind_eq_some_iff.mp heviction
  obtain ⟨h, cause, rfl⟩ := Stage.eq_evict_of_eviction? hevicts
  have hisolates := Run.isolatesFaults hstart run
  exact ⟨start, m, trace, p, h, cause, hstart, run, hisolates, hp, hstage, hslot,
    hisolates.spared p hp _ hstage trivial 1 0 hslot,
    (hisolates.wasted p hp 0 1 h cause 0 hstage hslot).2.2⟩

end SharedCache
