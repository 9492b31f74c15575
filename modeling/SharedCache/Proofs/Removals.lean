import SharedCache.Proofs.Balance
import SharedCache.Proofs.Calls
import SharedCache.Proofs.Capacity

/-!
# Removals

Every holder that was ever in the slot of a key is still there or has left in exactly one way: it
was reported as removed, once, or it was dropped when its segment was emptied, or it was dropped
when `put` or `remove` took out the fault that had taken its place.  The last of these is a leak:
nobody ever counts such a holder as removed, and the listener never hears of it.

A run balances because each of its passages does: a holder is put on the balance in the passage
that makes it, and whatever is taken off the balance was reported or lost.
-/

namespace SharedCache

variable {K V Q R : Type} [DecidableEq K]

/-- How often a holder of a key was reported as removed in the course of a run, or lost. -/
def settled (trace : List (Passage K V Q R)) (key : K) (id : Nat) : Nat :=
  trace.countP (·.reports key id) + trace.countP (·.clears key id) +
    trace.countP (·.overtakes key id)

theorem settled_append (front back : List (Passage K V Q R)) (key : K) (id : Nat) :
    settled (front ++ back) key id = settled front key id + settled back key id := by
  simp only [settled, List.countP_append]
  omega

theorem settled_singleton (p : Passage K V Q R) (key : K) (id : Nat) :
    settled [p] key id = p.settles key id := by
  have hone : ∀ b : Bool, (if b = true then 1 else 0) = b.toNat := by decide
  simp [settled, Passage.settles, List.countP_cons, hone]

namespace Machine

/-- All that is known of a holder after a run: the balance, the threads that are about to install
the holder, and what was settled. -/
def account (m : Machine K V Q R) (trace : List (Passage K V Q R)) (key : K) (id : Nat) : Nat :=
  m.balance key id + m.shares Activity.made key id + settled trace key id

/-- After a run, every holder is accounted for at most once and under one key only, and what is on
the balance was in its slot. -/
structure Audited (trace : List (Passage K V Q R)) (m : Machine K V Q R) : Prop where
  once : ∀ key id, m.account trace key id ≤ 1
  numbered : ∀ key id, 0 < m.account trace key id → id < m.world.store.deadlines.size
  apart : ∀ key key' id, 0 < m.account trace key id → 0 < m.account trace key' id → key = key'
  origin : ∀ key id, 0 < m.balance key id → ∃ p ∈ trace, p.after.world.store.Has key id

/-- Whether this holder is in the slot of the key. -/
def holds (m : Machine K V Q R) (key : K) (id : Nat) : Bool :=
  (m.slot? key).any (Slot.isHolder id)

theorem balance_pos_of_has {m : Machine K V Q R} {key : K} {id : Nat}
    (hhas : m.world.store.Has key id) : 0 < m.balance key id := by
  obtain ⟨h, hslot, rfl⟩ := hhas
  rw [balance, standing, Store.standing_of_holder hslot, share_self]
  omega

theorem shares_of_plain {m : Machine K V Q R} {about : Activity K V Q R → Option (K × Nat)}
    (hplain : ∀ (i : Nat) t, m.threads[i]? = some t → about t.activity = none) (key : K)
    (id : Nat) : m.shares about key id = 0 := by
  have hall : ∀ share' ∈ m.threads.toList.map fun t => share (about t.activity) (key, id),
      share' = 0 := by
    intro share' hmem
    obtain ⟨t, ht, rfl⟩ := List.mem_map.mp hmem
    obtain ⟨i, hi⟩ := List.mem_iff_getElem?.mp ht
    rw [hplain i t (by simpa using hi), share_none]
  exact List.sum_eq_zero hall

/-- While no operation is in progress, the slots with holders are all there is on the balance. -/
theorem balance_of_plain {m : Machine K V Q R}
    (hclean : ∀ key fault, m.slot? key ≠ some (.fault fault))
    (hplain : ∀ (i : Nat) t, m.threads[i]? = some t → t.IsPlain) (key : K) (id : Nat) :
    m.balance key id = (m.holds key id).toNat := by
  have hdue : m.shares Activity.due key id = 0 :=
    shares_of_plain (fun i t ht => Activity.IsPlain.due_eq (hplain i t ht).1) key id
  rw [balance, hdue, standing, Store.standing, holds, slot?]
  cases hslot : m.world.store.map.get? key with
  | none => simp
  | some slot =>
    cases slot with
    | fault fault => exact absurd hslot (hclean key fault)
    | holder h =>
      by_cases hid : h.id = id
      · simp [Slot.standsFor, Slot.isHolder, hid]
      · simp [Slot.standsFor, Slot.isHolder, share, hid, beq_false_of_ne hid]

end Machine

variable [DecidableEq V]

section Run

variable {settings : Settings K V Q R} {start m : Machine K V Q R}
  {trace : List (Passage K V Q R)} {p : Passage K V Q R}

omit [DecidableEq V] in
theorem Machine.Fresh.audited (hstart : start.Fresh settings) : start.Audited [] := by
  have hnone : ∀ key id, start.balance key id = 0 := by
    intro key id
    rw [Machine.balance, Machine.standing, Store.standing_of_absent (hstart.get?_eq_none key)]
    simp [Machine.shares, hstart.threads]
  have haccount : ∀ key id, start.account [] key id = 0 := by
    intro key id
    rw [Machine.account, hnone]
    simp [Machine.shares, hstart.threads, settled]
  exact ⟨by simp [haccount], by simp [haccount], by simp [haccount], by simp [hnone]⟩

/-- A passage keeps the accounts. -/
theorem Passage.Lawful.audited (hp : p.Lawful settings) (hm : p.before.Reachable settings)
    (hcopy : ∀ value, ∃ copy, settings.copyOut value = .ok copy)
    (hbefore : p.before.Audited trace) : p.after.Audited (trace ++ [p]) := by
  obtain ⟨made, hmakes, hsize, hbalances⟩ := hp.balances hm hcopy
  have hbound : ∀ key id, p.after.account (trace ++ [p]) key id ≤
      p.before.account trace key id + share made (key, id) := by
    intro key id
    have hbounded := (hbalances key id).bounded
    simp only [Machine.account, settled_append, settled_singleton]
    omega
  -- What was made has a number that nothing had before.
  have hnew : ∀ key key' id, made = some (key, id) → p.before.account trace key' id = 0 := by
    intro key key' id hmade
    by_contra hpos
    have hlt := hbefore.numbered key' id (by omega)
    have hid := (hmakes key id hmade).id
    omega
  have hkeeps : ∀ key id, made ≠ some (key, id) →
      p.after.account (trace ++ [p]) key id ≤ p.before.account trace key id := by
    intro key id hother
    have hle := hbound key id
    rw [share_of_ne hother] at hle
    exact hle
  constructor
  case once =>
    intro key id
    by_cases hmade : made = some (key, id)
    · have hle := hbound key id
      rw [hnew key key id hmade, hmade, share_self] at hle
      exact hle
    · exact (hkeeps key id hmade).trans (hbefore.once key id)
  case numbered =>
    intro key id hpos
    by_cases hmade : made = some (key, id)
    · obtain ⟨hid, hlt⟩ := hmakes key id hmade
      omega
    · have hlt := hbefore.numbered key id (by have := hkeeps key id hmade; omega)
      omega
  case apart =>
    intro key key' id hpos hpos'
    by_contra hne
    have hone : ∀ other, made = some (other, id) → other = key ∧ other = key' := by
      intro other hmade
      constructor
      · by_contra hother
        have hle := hkeeps key id (by simp [hmade, hother])
        have hzero := hnew other key id hmade
        omega
      · by_contra hother
        have hle := hkeeps key' id (by simp [hmade, hother])
        have hzero := hnew other key' id hmade
        omega
    have hkey : made ≠ some (key, id) := fun hmade => hne (hone key hmade).2
    have hkey' : made ≠ some (key', id) := fun hmade => hne (hone key' hmade).1.symm
    have hle := hkeeps key id hkey
    have hle' := hkeeps key' id hkey'
    exact hne (hbefore.apart key key' id (by omega) (by omega))
  case origin =>
    intro key id hpos
    rcases (hbalances key id).origin with hhas | hle
    · exact ⟨p, by simp, hhas⟩
    · obtain ⟨q, hq, hhas⟩ := hbefore.origin key id (by omega)
      exact ⟨q, by simp [hq], hhas⟩

theorem Run.audited (hstart : start.Fresh settings) (run : Run settings start trace m)
    (hcopy : ∀ value, ∃ copy, settings.copyOut value = .ok copy) : m.Audited trace := by
  induction run with
  | rest => exact hstart.audited
  | move run hp ih => exact hp.audited (run.reachable hstart) hcopy ih

/-- What is on the balance stays there until it is settled. -/
theorem Run.balance_le (hstart : start.Reachable settings) (run : Run settings start trace m)
    (hcopy : ∀ value, ∃ copy, settings.copyOut value = .ok copy) (key : K) (id : Nat) :
    start.balance key id ≤ m.balance key id + settled trace key id := by
  induction run with
  | rest => exact Nat.le_add_right _ _
  | @move trace p run hp ih =>
    obtain ⟨made, -, -, hbalances⟩ :=
      hp.balances (Run.reachable_of_reachable hstart run) hcopy
    have hkept := (hbalances key id).kept
    rw [settled_append, settled_singleton]
    omega

/-! ## Reports -/

omit [DecidableEq K] [DecidableEq V] in
theorem Store.statistics_report (s : Store K V) (key : K) (h : Holder V) (cause : RemovalCause) :
    (s.report settings key h cause).state.statistics =
      s.statistics.recordRemoval h.weight cause := by
  rw [Store.report, Turn.state_after]
  split
  · rfl
  · split
    · exact Turn.consulting_induction
        (P := fun turn : StoreTurn K V Q R =>
          turn.state.statistics = s.statistics.recordRemoval h.weight cause)
        (fun _ _ hturn => hturn) (fun _ _ => rfl) (fun _ _ => rfl)
    · rfl

/-- The passage counts one removal by its cause and calls the listener once, if it is enabled. -/
structure Passage.CountsRemoval (settings : Settings K V Q R) (p : Passage K V Q R) (key : K)
    (h : Holder V) (cause : RemovalCause) : Prop where
  statistics : p.after.world.store.statistics =
    p.before.world.store.statistics.recordRemoval h.weight cause
  events : ∃ copy, settings.copyOut h.value = .ok copy ∧
    marked p.events = .reported h.id cause ::
      if settings.listener.isSome && p.before.world.store.listening then
        [.listened key copy cause] else []

theorem Passage.Lawful.countsRemoval (hp : p.Lawful settings)
    (hcopy : ∀ value, ∃ copy, settings.copyOut value = .ok copy) {key : K} {h : Holder V}
    {cause : RemovalCause} (hstage : p.stage? = some (.report key h cause)) :
    p.CountsRemoval settings key h cause := by
  obtain ⟨interrupted, draws, turn, hturn, hsection⟩ := hp.isSection hstage
  obtain rfl := Option.some.inj hturn
  obtain ⟨copy, hvalue⟩ := hcopy h.value
  refine ⟨?_, copy, hvalue, ?_⟩
  · rw [hsection.store, Store.statistics_report]
  · rw [hsection.events, Store.marked_report, hvalue]
    cases settings.listener with
    | none => rfl
    | some listener => cases p.before.world.store.listening <;> rfl

/-- The passage counts no removal and does not call the listener. -/
structure Passage.IsSilent (p : Passage K V Q R) : Prop where
  statistics : p.after.world.store.statistics.removals = p.before.world.store.statistics.removals
  reported : ∀ holder cause, .reported holder cause ∉ p.events
  listened : ∀ key value cause, .listened key value cause ∉ p.events

theorem Passage.Lawful.isSilent (hp : p.Lawful settings) (hm : p.before.Reachable settings)
    (hstage : ∀ key h cause, p.stage? ≠ some (.report key h cause)) : p.IsSilent := by
  have hmapped : ∀ event ∈ p.events, event.isMarked = true →
      ∃ key fault current, event = .mapped key fault current := by
    intro event hevent hmarked
    rcases hp.emitted hevent with hexecutors | ⟨stage, hfound, hemits⟩
    · cases event with
      | mapped | reported | listened => cases hexecutors
      | _ => cases hmarked
    · refine (hemits.report_or_mapped hmarked).resolve_left ?_
      rintro ⟨key, h, cause, rfl⟩
      exact hstage key h cause hfound
  refine ⟨?_, fun holder cause hmem => ?_, fun key value cause hmem => ?_⟩
  · cases hp.course with
    | outside _ houtside => rw [houtside.store_eq]
    | @step i t s hmover ht hstride hafter =>
      have hworld : p.after.world = s.world := by rw [hafter]
      by_cases hsection : ∃ stage, t.activity = .keep stage
      · obtain ⟨stage, hactivity⟩ := hsection
        obtain ⟨turn, draws, hturn, rfl⟩ := hstride.turn_of_keep hactivity
        rw [hworld]
        apply (hp.transfers hm ht hactivity hturn hafter).counted
        rintro key h cause rfl
        exact hstage key h cause (Passage.stage?_of_keep hmover ht hactivity)
      · have hrests := hstride.rests (fun stage hactivity => hsection ⟨stage, hactivity⟩)
          (hm.isIdle i t ht)
        rw [hworld, hrests.counted]
  · obtain ⟨_, _, _, heq⟩ := hmapped _ hmem rfl
    cases heq
  · obtain ⟨_, _, _, heq⟩ := hmapped _ hmem rfl
    cases heq

/-! ## Whole runs -/

/-- What has become of all the holders that ever were in a slot, when no operation is in
progress. -/
structure Run.ReportsRemovals (settings : Settings K V Q R) (trace : List (Passage K V Q R))
    (m : Machine K V Q R) : Prop where
  /-- A holder that was in the slot of a key is still there, or its removal was reported, or it was
  cleared, or its fault was overtaken.  It is one of these only, and it was so once. -/
  once : ∀ p ∈ trace, ∀ key h, p.after.slot? key = some (.holder h) →
    (m.holds key h.id).toNat + trace.countP (·.reports key h.id) +
      trace.countP (·.clears key h.id) + trace.countP (·.overtakes key h.id) = 1
  /-- No two keys ever have the same holder. -/
  apart : ∀ p ∈ trace, ∀ q ∈ trace, ∀ key key' h h', p.after.slot? key = some (.holder h) →
    q.after.slot? key' = some (.holder h') → h.id = h'.id → key = key'
  /-- Only what was in a slot is reported, by one update of the statistics and, as long as the
  listener is enabled, one call of it. -/
  reported : ∀ p ∈ trace, ∀ key h cause, p.stage? = some (.report key h cause) →
    p.CountsRemoval settings key h cause ∧
      ∃ q ∈ trace, ∃ found, q.after.slot? key = some (.holder found) ∧ found.id = h.id
  silent : ∀ p ∈ trace, (∀ key h cause, p.stage? ≠ some (.report key h cause)) → p.IsSilent

/-- When no operation is in progress, all the holders that ever were in a slot are accounted for, as
long as values can be copied out of the store. -/
theorem Run.reportsRemovals (hstart : start.Fresh settings) (run : Run settings start trace m)
    (hcopy : ∀ value, ∃ copy, settings.copyOut value = .ok copy)
    (hplain : ∀ (i : Nat) t, m.threads[i]? = some t → t.IsPlain) :
    Run.ReportsRemovals settings trace m := by
  have haudited := run.audited hstart hcopy
  have hnothing : ∀ c progress, .computes c progress ∉ m.ongoing := by
    intro c progress hmem
    obtain ⟨t, ht, hthread⟩ := List.mem_flatMap.mp hmem
    obtain ⟨i, hi⟩ := List.mem_iff_getElem?.mp ht
    rw [(hplain i t (by simpa using hi)).ongoing_eq] at hthread
    cases hthread
  have hclean : ∀ key fault, m.slot? key ≠ some (.fault fault) := by
    intro key fault hslot
    obtain ⟨c, progress, hmem, -⟩ := (run.reachable hstart).keeps hcopy key fault hslot
    exact hnothing c progress hmem
  have hmade : ∀ key id, m.shares Activity.made key id = 0 :=
    Machine.shares_of_plain fun i t ht => Activity.IsPlain.made_eq (hplain i t ht).1
  -- Once a holder is in a slot, its account is never empty again.
  have hpos : ∀ p ∈ trace, ∀ key h, p.after.slot? key = some (.holder h) →
      0 < m.account trace key h.id := by
    intro p hp key h hslot
    obtain ⟨front, back, rfl⟩ := List.append_of_mem hp
    obtain ⟨hfront, hlawful, hback⟩ := run.split rfl
    have hreached : p.after.Reachable settings :=
      Run.reachable_of_reachable (hfront.reachable hstart) (Run.rest.move hlawful)
    have hle := hback.balance_le hreached hcopy key h.id
    have hbalance := Machine.balance_pos_of_has (m := p.after) ⟨h, hslot, rfl⟩
    have hsplit := settled_append (front ++ [p]) back key h.id
    rw [List.append_assoc, List.singleton_append] at hsplit
    rw [Machine.account, hsplit]
    omega
  constructor
  case once =>
    intro p hp key h hslot
    have honce := haudited.once key h.id
    have haccount := hpos p hp key h hslot
    rw [Machine.account, hmade, Machine.balance_of_plain hclean hplain, settled] at honce haccount
    omega
  case apart =>
    intro p hp q hq key key' h h' hslot hslot' hsame
    have hfound := hpos p hp key h hslot
    rw [hsame] at hfound
    exact haudited.apart key key' h'.id hfound (hpos q hq key' h' hslot')
  case reported =>
    intro p hp key h cause hstage
    obtain ⟨front, back, rfl⟩ := List.append_of_mem hp
    obtain ⟨hfront, hlawful, -⟩ := run.split rfl
    refine ⟨hlawful.countsRemoval hcopy hstage, ?_⟩
    have hdue : 0 < p.before.balance key h.id := by
      obtain ⟨i, t, -, ht, hactivity⟩ := Passage.keep_of_stage? hstage
      have hshare := Machine.share_le_shares Activity.due ht key h.id
      rw [hactivity, Activity.due, Stage.due_report, share_self] at hshare
      rw [Machine.balance]
      omega
    obtain ⟨q, hq, found, hslot, hid⟩ := (hfront.audited hstart hcopy).origin key h.id hdue
    exact ⟨q, List.mem_append_left _ hq, found, hslot, hid⟩
  case silent =>
    intro p hp hstage
    obtain ⟨front, back, rfl⟩ := List.append_of_mem hp
    obtain ⟨hfront, hlawful, -⟩ := run.split rfl
    exact hlawful.isSilent (hfront.reachable hstart) hstage

end Run

/-- Puts a value and computes the next one, and on the way puts yet another one. -/
def overtakingMoves : List (Move Nat Nat Unit Unit) :=
  .spawn (.call (.put 1 10) fun _ =>
    .call (.compute 1 fun _ _ => .call (.put 1 20) fun _ => .finish (.value (some 30))) .finish) ::
    List.replicate 22 (.step 0 .none)

/-- The first value leaves the store, and its removal is never reported. -/
theorem first_overtaken : ∃ (start m : Machine Nat Nat Unit Unit)
    (trace : List (Passage Nat Nat Unit Unit)),
    start.Fresh plainSettings ∧ Run plainSettings start trace m ∧
      (∀ value, ∃ copy, plainSettings.copyOut value = .ok copy) ∧
      (∀ (i : Nat) t, m.threads[i]? = some t → t.IsPlain) ∧
      Run.ReportsRemovals plainSettings trace m ∧ m.holds 1 0 = false ∧
      trace.countP (·.reports 1 0) = 0 ∧ trace.countP (·.overtakes 1 0) = 1 := by
  have hrun : (Machine.replay plainSettings overtakingMoves).map (fun run =>
      (run.2.threads.toList.all fun t => t.result?.isSome, run.2.holds 1 0,
        run.1.countP (·.reports 1 0), run.1.countP (·.overtakes 1 0))) =
      some (true, false, 0, 1) := by decide
  obtain ⟨⟨trace, m⟩, hreplay, hm⟩ := Option.map_eq_some_iff.mp hrun
  obtain ⟨start, hstart, run⟩ := Machine.run_of_replay hreplay
  obtain ⟨hended, hrest⟩ := Prod.mk.inj hm
  obtain ⟨hholds, hrest⟩ := Prod.mk.inj hrest
  obtain ⟨hreports, hovertakes⟩ := Prod.mk.inj hrest
  have hcopy : ∀ value, ∃ copy, plainSettings.copyOut value = .ok copy :=
    fun value => ⟨value, rfl⟩
  have hplain : ∀ (i : Nat) t, m.threads[i]? = some t → t.IsPlain := by
    intro i t ht
    have hmem : t ∈ m.threads.toList := by simpa using Array.mem_of_getElem? ht
    exact Thread.isPlain_of_result? (List.all_eq_true.mp hended t hmem)
  exact ⟨start, m, trace, hstart, run, hcopy, hplain,
    Run.reportsRemovals hstart run hcopy hplain, hholds, hreports, hovertakes⟩

end SharedCache
