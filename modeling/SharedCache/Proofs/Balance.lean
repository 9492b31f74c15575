import SharedCache.Proofs.Custody
import SharedCache.Proofs.Departures

/-!
# Balance

The holders of a machine in numbers.  For a key and the number of a holder, the balance adds up the
slot that stands for the holder and the threads that are about to report its removal.  A passage
that takes something off the balance reports the removal or loses the holder, and nothing else
does; and only a passage that makes a holder puts anything on the balance.
-/

namespace SharedCache

variable {K V Q R : Type}

/-- One where the value is there, and zero otherwise. -/
def share {A : Type} [DecidableEq A] (found : Option A) (a : A) : Nat :=
  if found = some a then 1 else 0

@[simp]
theorem share_none {A : Type} [DecidableEq A] (a : A) : share none a = 0 := rfl

@[simp]
theorem share_self {A : Type} [DecidableEq A] (a : A) : share (some a) a = 1 := if_pos rfl

theorem share_of_ne {A : Type} [DecidableEq A] {found : Option A} {a : A} (hne : found ≠ some a) :
    share found a = 0 := if_neg hne

theorem toNat_eq_share {A : Type} [DecidableEq A] {b : Bool} {found : Option A} {a : A}
    (hb : b = true ↔ found = some a) : b.toNat = share found a := by
  cases b with
  | true => rw [hb.mp rfl, share_self, Bool.toNat_true]
  | false => rw [share_of_ne fun hfound => Bool.false_ne_true (hb.mpr hfound), Bool.toNat_false]

/-- What is found under one key is found there under no other. -/
theorem share_map {A B : Type} [DecidableEq A] [DecidableEq B] (found : Option B) (a other : A)
    (b : B) :
    share (found.map fun b => (a, b)) (other, b) = if other = a then share found b else 0 := by
  cases found with
  | none => simp
  | some b' =>
    by_cases hother : other = a
    · subst hother
      simp [share]
    · have hne : (a, b') ≠ (other, b) := fun heq => hother (Prod.mk.inj heq).1.symm
      simp [share, hother, hne]

/-- A section reports the removal of this holder. -/
def Stage.Reports (key : K) (id : Nat) : Stage K V Q R → Prop
  | .report other h _ => other = key ∧ h.id = id
  | _ => False

theorem Stage.due_of_reports {stage : Stage K V Q R} {key : K} {id : Nat}
    (hreports : stage.Reports key id) : stage.due = some (key, id) := by
  cases stage with
  | report other h cause =>
    obtain ⟨rfl, rfl⟩ := hreports
    rfl
  | _ => exact hreports.elim

/-- Where no removal is due, none is reported. -/
theorem Stage.reported_eq_false {stage : Stage K V Q R} {key : K} {id : Nat} {reported : Bool}
    (hdue : stage.due = none) (hreported : reported = true ↔ stage.Reports key id) :
    reported = false := by
  rw [Bool.eq_false_iff]
  intro htrue
  cases hdue.symm.trans (Stage.due_of_reports (hreported.mp htrue))

variable [DecidableEq K]

/-- What a section does about one holder of one key, in numbers. -/
structure Stage.Balances (parked : Nat → Option Nat) (s s' : Store K V) (stage : Stage K V Q R)
    (next : Activity K V Q R) (made : Option (K × Nat)) (key : K) (id : Nat)
    (reported lost : Bool) : Prop where
  kept : share (s.standing parked key) id + share stage.due (key, id) ≤
    share (s'.standing parked key) id + share next.due (key, id) + reported.toNat + lost.toNat
  bounded : share (s'.standing parked key) id + share next.due (key, id) +
      share next.made (key, id) + reported.toNat + lost.toNat ≤
    share (s.standing parked key) id + share stage.due (key, id) + share stage.made (key, id) +
      share made (key, id)
  /-- What is new on the balance is in its slot. -/
  origin : s'.Has key id ∨ share (s'.standing parked key) id + share next.due (key, id) ≤
    share (s.standing parked key) id + share stage.due (key, id)

section Section

variable {parked : Nat → Option Nat} {s s' : Store K V} {stage : Stage K V Q R}
  {next : Activity K V Q R}

theorem Stage.Transfer.size_le (htransfer : stage.Transfer parked s s' next) :
    s.deadlines.size ≤ s'.deadlines.size := by
  cases htransfer with
  | rests _ _ _ _ hsize => exact hsize
  | reports _ _ _ hsize => exact hsize
  | composes _ _ _ hmakes => exact Nat.le_of_lt hmakes.size
  | changes _ _ _ _ _ hsize => exact hsize
  | overtakes _ _ _ _ _ _ hsize => exact hsize
  | sweeps _ _ _ hsize => exact hsize

/-- The holder that a slot stands for since a section that has just made it. -/
def Stage.fresh (stage : Stage K V Q R) (parked : Nat → Option Nat) (s' : Store K V) (key : K) :
    Option Nat :=
  (s'.standing parked key).filter fun id => stage.made ≠ some (key, id)

/-- What a slot stands for was about to be installed or is fresh. -/
theorem Stage.standing_le_fresh (parked : Nat → Option Nat) (s' : Store K V) (key : K) (id : Nat) :
    share (s'.standing parked key) id ≤
      share stage.made (key, id) + share (stage.fresh parked s' key) id := by
  by_cases hstanding : s'.standing parked key = some id
  · by_cases hmade : stage.made = some (key, id)
    · simp [hmade, hstanding]
    · have hfresh : stage.fresh parked s' key = some id :=
        Option.filter_eq_some_iff.mpr ⟨hstanding, by simpa using hmade⟩
      rw [hfresh, hstanding, share_self]
      omega
  · rw [share_of_ne hstanding]
    exact Nat.zero_le _

theorem Stage.balances_of_changes {changed : K} (hnone : stage.due = none)
    (hothers : ∀ other, other ≠ changed → s'.standing parked other = s.standing parked other)
    (hdue : next.due = (s.standing parked changed).map fun id => (changed, id))
    (hmade : next.made = none)
    (hhas : ∀ id, s'.standing parked changed = some id → s'.Has changed id) (key : K) (id : Nat) :
    stage.Balances parked s s' next
      ((stage.fresh parked s' changed).map fun id => (changed, id)) key id false false := by
  by_cases hkey : key = changed
  · subst hkey
    have hfresh := stage.standing_le_fresh parked s' key id
    constructor
    · simp [hnone, hdue, share_map]
    · simp only [hnone, hdue, hmade, share_map, share_none, if_pos]
      simp
      omega
    · by_cases hstanding : s'.standing parked key = some id
      · exact .inl (hhas id hstanding)
      · simp [hnone, hdue, share_map, share_of_ne hstanding]
  · constructor
    · simp [hnone, hdue, share_map, hothers key hkey]
    · simp [hnone, hdue, hmade, share_map, hothers key hkey, hkey]
    · simp [hnone, hdue, share_map, hothers key hkey, hkey]

/-- Who overtakes a fault loses what the slot of the key stood for. -/
theorem Stage.loses_iff_of_overtakes {operation : Operation K V Q R} {retries fault : Nat}
    {now : Instant} {changed : K}
    (hoperation : (∃ value, operation = .put changed value) ∨ operation = .remove changed)
    (hslot : s.map.get? changed = some (.fault fault))
    (hgone : s'.map.get? changed ≠ some (.fault fault)) (key : K) (id : Nat) :
    (Stage.visit operation retries now).Loses parked s s' key id ↔
      changed = key ∧ s.standing parked key = some id := by
  have hiff : (Stage.visit operation retries now).Loses parked s s' key id ↔
      changed = key ∧ ∃ fault, s.map.get? key = some (.fault fault) ∧
        parked fault = some id ∧ s'.map.get? key ≠ some (.fault fault) := by
    rcases hoperation with ⟨value, rfl⟩ | rfl <;> exact Iff.rfl
  rw [hiff]
  constructor
  · rintro ⟨rfl, found, hfound, hparked, -⟩
    exact ⟨rfl, by rw [Store.standing_of_fault hfound, hparked]⟩
  · rintro ⟨rfl, hstanding⟩
    rw [Store.standing_of_fault hslot] at hstanding
    exact ⟨rfl, fault, hslot, hstanding, hgone⟩

theorem Stage.balances_of_overtakes {changed key : K} {id : Nat} {lost : Bool}
    (hnone : stage.due = none)
    (hothers : ∀ other, other ≠ changed → s'.standing parked other = s.standing parked other)
    (hdue : next.due = none) (hmade : next.made = none)
    (hhas : ∀ id, s'.standing parked changed = some id → s'.Has changed id)
    (hlost : lost = true ↔ changed = key ∧ s.standing parked key = some id) :
    stage.Balances parked s s' next ((s'.standing parked changed).map fun id => (changed, id)) key
      id false lost := by
  by_cases hkey : key = changed
  · subst hkey
    have hshare : lost.toNat = share (s.standing parked key) id :=
      toNat_eq_share (hlost.trans (and_iff_right rfl))
    constructor
    · simp [hnone, hdue, hshare]
    · simp [hnone, hdue, hmade, hshare, share_map]
      omega
    · by_cases hstanding : s'.standing parked key = some id
      · exact .inl (hhas id hstanding)
      · simp [hnone, hdue, share_of_ne hstanding]
  · obtain rfl : lost = false :=
      Bool.eq_false_iff.mpr fun htrue => hkey (hlost.mp htrue).1.symm
    constructor
    · simp [hnone, hdue, hothers key hkey]
    · simp [hnone, hdue, hmade, hothers key hkey, Nat.add_assoc]
    · simp [hnone, hdue, hothers key hkey]

theorem Stage.balances_of_sweeps {segment : Nat} {key : K} {id : Nat} {lost : Bool}
    (hmap : s'.map = s.map.clearSegment segment) (hdue : next.due = none)
    (hmade : next.made = none)
    (hlost : lost = true ↔ s.map.segmentOf key = segment ∧ s.standing parked key = some id) :
    (Stage.sweep segment).Balances parked s s' next none key id false lost := by
  have hafter : s'.standing parked key =
      if s.map.segmentOf key = segment then none else s.standing parked key := by
    rw [Store.standing, hmap, EntryMap.get?_clearSegment]
    split <;> rfl
  by_cases hkey : s.map.segmentOf key = segment
  · have hshare : lost.toNat = share (s.standing parked key) id :=
      toNat_eq_share (hlost.trans (and_iff_right hkey))
    constructor
    · simp [Stage.due, hafter, hkey, hdue, hshare]
    · simp [Stage.due, hafter, hkey, hdue, hmade, hshare]
    · simp [Stage.due, hafter, hkey, hdue]
  · obtain rfl : lost = false := Bool.eq_false_iff.mpr fun htrue => hkey (hlost.mp htrue).1
    constructor
    · simp [Stage.due, hafter, hkey, hdue]
    · simp [Stage.due, hafter, hkey, hdue, hmade]
    · simp [Stage.due, hafter, hkey, hdue]

/-- A section makes at most one holder, and otherwise hands over what there is. -/
theorem Stage.Transfer.balances (htransfer : stage.Transfer parked s s' next) :
    ∃ made : Option (K × Nat), (∀ key id, made = some (key, id) → s.Makes s' id) ∧
      ∀ key id reported lost, (reported = true ↔ stage.Reports key id) →
        (lost = true ↔ stage.Loses parked s s' key id) →
        stage.Balances parked s s' next made key id reported lost := by
  cases htransfer with
  | rests hstanding hdue hcommon hmade hsize hloses =>
    refine ⟨none, by simp, fun key id reported lost hreported hlost => ?_⟩
    obtain rfl : reported = false := by
      rw [Bool.eq_false_iff]
      intro htrue
      have hreports := hreported.mp htrue
      cases stage with
      | report => exact hcommon.elim
      | _ => exact hreports.elim
    obtain rfl : lost = false := Bool.eq_false_iff.mpr fun htrue => hloses key id (hlost.mp htrue)
    constructor
    · simp [hstanding, hdue]
    · simp [hstanding, hdue, hmade]
    · simp [hstanding, hdue]
  | @reports other h cause _ _ hmap hdue hmade hsize =>
    refine ⟨none, by simp, fun key id reported lost hreported hlost => ?_⟩
    obtain rfl : lost = false := Bool.eq_false_iff.mpr fun htrue => (hlost.mp htrue).elim
    have hshare : reported.toNat = share (some (other, h.id)) (key, id) :=
      toNat_eq_share (hreported.trans (by simp [Stage.Reports]))
    constructor
    · simp [Store.standing_congr hmap, hdue, hshare]
    · simp [Store.standing_congr hmap, hdue, hmade, hshare]
    · simp [Store.standing_congr hmap, hdue]
  | @composes c value h _ _ hmap hdue hmade hmakes =>
    refine ⟨some (c.key, h.id), ?_, fun key id reported lost hreported hlost => ?_⟩
    · intro key id hsome
      obtain ⟨rfl, rfl⟩ := Prod.mk.inj (Option.some.inj hsome)
      exact hmakes
    · obtain rfl := Stage.reported_eq_false rfl hreported
      obtain rfl : lost = false := Bool.eq_false_iff.mpr fun htrue => (hlost.mp htrue).elim
      constructor
      · simp [Store.standing_congr hmap, hdue, Stage.due]
      · simp [Store.standing_congr hmap, hdue, hmade, Stage.due]
      · simp [Store.standing_congr hmap, hdue, Stage.due]
  | @changes _ _ _ changed hnone hothers hdue hmade hsize hloses hafter =>
    refine ⟨(stage.fresh parked s' changed).map fun id => (changed, id), ?_,
      fun key id reported lost hreported hlost => ?_⟩
    · intro key id hsome
      obtain ⟨id', hfresh, heq⟩ := Option.map_eq_some_iff.mp hsome
      obtain ⟨rfl, rfl⟩ := Prod.mk.inj heq
      obtain ⟨hstanding, hnew⟩ := Option.filter_eq_some_iff.mp hfresh
      exact (hafter id' hstanding).2.resolve_left (by simpa using hnew)
    · obtain rfl := Stage.reported_eq_false hnone hreported
      obtain rfl : lost = false := Bool.eq_false_iff.mpr fun htrue => hloses key id (hlost.mp htrue)
      exact Stage.balances_of_changes hnone hothers hdue hmade
        (fun id hstanding => (hafter id hstanding).1) key id
  | @overtakes operation retries now changed fault _ _ hoperation hslot hgone hothers hdue hmade
      hsize hafter =>
    refine ⟨(s'.standing parked changed).map fun id => (changed, id), ?_,
      fun key id reported lost hreported hlost => ?_⟩
    · intro key id hsome
      obtain ⟨id', hstanding, heq⟩ := Option.map_eq_some_iff.mp hsome
      obtain ⟨rfl, rfl⟩ := Prod.mk.inj heq
      exact (hafter id' hstanding).2
    · obtain rfl := Stage.reported_eq_false rfl hreported
      exact Stage.balances_of_overtakes rfl hothers hdue hmade
        (fun id hstanding => (hafter id hstanding).1)
        (hlost.trans (Stage.loses_iff_of_overtakes hoperation hslot hgone key id))
  | @sweeps segment _ _ hmap hdue hmade hsize =>
    refine ⟨none, by simp, fun key id reported lost hreported hlost => ?_⟩
    obtain rfl := Stage.reported_eq_false rfl hreported
    exact Stage.balances_of_sweeps hmap hdue hmade hlost

end Section

/-! ## Threads -/

/-- What the thread puts off is idle. -/
def Thread.IsIdle (t : Thread K V Q R) : Prop := ∀ frame ∈ t.stack, frame.IsIdle

/-- A step that is no section of the store: no slot changes and no holder is made, and the thread
reports and installs next what it was about to. -/
structure Thread.Rests (w : World K V Q R) (t : Thread K V Q R) (step : Step K V Q R) : Prop where
  map : step.world.store.map = w.store.map
  deadlines : step.world.store.deadlines = w.store.deadlines
  counted : step.world.store.statistics.removals = w.store.statistics.removals
  due : step.thread.activity.due = t.activity.due
  made : step.thread.activity.made = t.activity.made
  idle : step.thread.IsIdle

namespace Store

variable (s : Store K V)

omit [DecidableEq K] in
theorem mapped_idle (c : Computation K V Q R) (signal : Signal V) :
    (s.mapped c signal).next.due = none ∧ (s.mapped c signal).next.made = none ∧
      (s.mapped c signal).state.deadlines = s.deadlines ∧
        (s.mapped c signal).state.statistics.removals = s.statistics.removals := by
  obtain ⟨key, fault, previous, isRequest, code⟩ := c
  cases signal with
  | raised p => exact ⟨rfl, rfl, rfl, rfl⟩
  | done answer =>
    cases answer with
    | complaint text => cases previous <;> exact ⟨rfl, rfl, rfl, rfl⟩
    | value v => cases v <;> exact ⟨rfl, rfl, rfl, rfl⟩
    | _ => exact ⟨rfl, rfl, rfl, rfl⟩

omit [DecidableEq K] in
theorem listened_idle (signal : Signal V) :
    (s.listened signal : StoreTurn K V Q R).next.due = none ∧
      (s.listened signal : StoreTurn K V Q R).next.made = none ∧
        (s.listened signal : StoreTurn K V Q R).state.deadlines = s.deadlines ∧
          (s.listened signal : StoreTurn K V Q R).state.statistics.removals =
            s.statistics.removals := by
  cases signal <;> exact ⟨rfl, rfl, rfl, rfl⟩

end Store

section Stride

variable [DecidableEq V] {settings : Settings K V Q R} {w : World K V Q R} {t : Thread K V Q R}
  {step : Step K V Q R}

theorem Thread.Stride.rests (hstride : t.Stride settings w step)
    (hsection : ∀ stage, t.activity ≠ .keep stage) (ht : t.IsIdle) : t.Rests w step := by
  have hpush : ∀ frames : List (Frame K V Q R), (∀ frame ∈ frames, frame.IsIdle) →
      ∀ frame ∈ frames ++ t.stack, frame.IsIdle := by
    intro frames hframes frame hframe
    rcases List.mem_append.mp hframe with hnew | hold
    · exact hframes frame hnew
    · exact ht frame hold
  have hpop : ∀ {top : Frame K V Q R} {rest}, t.stack = top :: rest →
      ∀ frame ∈ rest, frame.IsIdle := by
    intro top rest hstack frame hframe
    exact ht frame (hstack ▸ List.mem_cons_of_mem top hframe)
  cases hstride with
  | works hactivity _ _ hstore ha hframes =>
    exact ⟨by rw [hstore], by rw [hstore], by rw [hstore], ha.due_eq.trans hactivity.due_eq.symm,
      ha.made_eq.trans hactivity.made_eq.symm,
      hpush _ fun frame hframe => (hframes frame hframe).isIdle⟩
  | @calls operation code hactivity =>
    exact ⟨rfl, rfl, rfl, by rw [hactivity]; rfl, by rw [hactivity]; rfl,
      hpush [.calling code] (by simp [Frame.IsIdle])⟩
  | enters hactivity =>
    exact ⟨rfl, rfl, rfl, by rw [hactivity]; rfl, by rw [hactivity]; rfl,
      hpush [.scoped _] (by simp [Frame.IsIdle])⟩
  | returns hactivity hstack _ _ hstore ha =>
    exact ⟨by rw [hstore], by rw [hstore], by rw [hstore], by rw [hactivity]; exact ha.due_eq,
      by rw [hactivity]; exact ha.made_eq, hpop hstack⟩
  | @proceeds answer a rest hactivity hstack =>
    have hidle : (Frame.next a).IsIdle := ht _ (by simp [hstack])
    exact ⟨rfl, rfl, rfl, by rw [hactivity]; exact hidle.1, by rw [hactivity]; exact hidle.2,
      hpop hstack⟩
  | unwinds hactivity hstack =>
    exact ⟨rfl, rfl, rfl, by rw [hactivity], by rw [hactivity], hpop hstack⟩
  | @mapped signal c rest hactivity hstack =>
    obtain ⟨hspares, hframes, -⟩ := w.store.mapped_spec c signal
    obtain ⟨hdue, hmade, hdeadlines, hcounted⟩ := w.store.mapped_idle c signal
    refine ⟨hspares.map, hdeadlines, hcounted, by rw [hactivity]; exact hdue,
      by rw [hactivity]; exact hmade, fun frame hframe => hpop hstack frame ?_⟩
    simpa [Step.ofStore, Thread.goOn, Thread.popped, hframes, hstack] using hframe
  | @listened signal rest hactivity hstack =>
    obtain ⟨hstill, hframes⟩ := w.store.listened_spec (Q := Q) (R := R) signal
    obtain ⟨hdue, hmade, hdeadlines, hcounted⟩ := w.store.listened_idle (Q := Q) (R := R) signal
    refine ⟨hstill.map, hdeadlines, hcounted, by rw [hactivity]; exact hdue,
      by rw [hactivity]; exact hmade, fun frame hframe => hpop hstack frame ?_⟩
    simpa [Step.ofStore, Thread.goOn, Thread.popped, hframes, hstack] using hframe
  | keeps hactivity => exact absurd hactivity (hsection _)

end Stride

/-! ## Machines -/

/-- The number of the live holder that a fault has taken the place of. -/
def Machine.parked (m : Machine K V Q R) (fault : Nat) : Option Nat :=
  (m.owners fault).head?.bind fun owner => owner.1.previous.map Holder.id

/-- The number of the holder that the slot of a key stands for. -/
def Machine.standing (m : Machine K V Q R) (key : K) : Option Nat :=
  m.world.store.standing m.parked key

/-- How many threads are about to do something about a holder of a key. -/
def Machine.shares (about : Activity K V Q R → Option (K × Nat)) (m : Machine K V Q R) (key : K)
    (id : Nat) : Nat :=
  (m.threads.toList.map fun t => share (about t.activity) (key, id)).sum

/-- The slot that stands for a holder, and the threads that are about to report its removal. -/
def Machine.balance (m : Machine K V Q R) (key : K) (id : Nat) : Nat :=
  share (m.standing key) id + m.shares Activity.due key id

section Machine

variable {m : Machine K V Q R} {about : Activity K V Q R → Option (K × Nat)}

omit [DecidableEq K] in
theorem Machine.parked_eq (howned : Owned m.world.store m.ongoing) {c : Computation K V Q R}
    {progress : Progress V} (hmem : .computes c progress ∈ m.ongoing) :
    m.parked c.fault = c.previous.map Holder.id := by
  rw [Machine.parked, Machine.owners_eq howned hmem, List.head?_cons, Option.bind_some]

/-- A step changes the share of one thread. -/
theorem Machine.shares_set {i : Nat} {t : Thread K V Q R} (ht : m.threads[i]? = some t)
    (w : World K V Q R) (t' : Thread K V Q R) (key : K) (id : Nat) :
    (⟨w, m.threads.setIfInBounds i t'⟩ : Machine K V Q R).shares about key id +
        share (about t.activity) (key, id) =
      m.shares about key id + share (about t'.activity) (key, id) := by
  have hlist : m.threads.toList[i]? = some t := by simpa using ht
  obtain ⟨front, back, hbefore, hafter⟩ :=
    exists_flatMap_set (fun t => [share (about t.activity) (key, id)]) hlist
  simp only [Machine.shares, List.map_eq_flatMap, Array.toList_setIfInBounds, hbefore, hafter,
    List.sum_append, List.sum_singleton]
  omega

theorem Machine.share_le_shares (about : Activity K V Q R → Option (K × Nat))
    {i : Nat} {t : Thread K V Q R} (ht : m.threads[i]? = some t)
    (key : K) (id : Nat) : share (about t.activity) (key, id) ≤ m.shares about key id := by
  have hmem : t ∈ m.threads.toList := by simpa using Array.mem_of_getElem? ht
  exact List.le_sum_of_mem
    (List.mem_map_of_mem (f := fun t => share (about t.activity) (key, id)) hmem)

theorem Machine.Outside.shares_eq {m' : Machine K V Q R} (hm : m.Outside m')
    (habout : ∀ script, about (.code script) = none) (key : K) (id : Nat) :
    m'.shares about key id = m.shares about key id := by
  cases hm with
  | clock => rfl
  | trip => rfl
  | spawn script =>
    simp [Machine.shares, Machine.spawn, Thread.running, habout]

/-- What a slot stands for goes by the computations in progress, if every fault in a slot has
one. -/
theorem Machine.standing_eq (howned : Owned m.world.store m.ongoing) (hkeeps : m.Keeps)
    {parked : Nat → Option Nat} (hparked : ∀ c progress, .computes c progress ∈ m.ongoing →
      parked c.fault = c.previous.map Holder.id) (key : K) :
    m.standing key = m.world.store.standing parked key := by
  rw [Machine.standing, Store.standing, Store.standing]
  cases hslot : m.world.store.map.get? key with
  | none => rfl
  | some slot =>
    cases slot with
    | holder h => rfl
    | fault fault =>
      obtain ⟨c, progress, hmem, -, rfl⟩ := hkeeps key fault hslot
      exact (Machine.parked_eq howned hmem).trans (hparked c progress hmem).symm

end Machine

/-! ## Passages -/

namespace Passage

/-- What faults have taken the place of, in the course of a passage. -/
def parked (p : Passage K V Q R) (fault : Nat) : Option Nat :=
  if fault < p.before.world.store.faults.size then p.before.parked fault else p.after.parked fault

/-- The passage reports the removal of this holder of the key. -/
def reports (p : Passage K V Q R) (key : K) (id : Nat) : Bool :=
  match p.stage? with
  | some (.report other h _) => other = key ∧ h.id = id
  | _ => false

/-- The passage empties the segment of the key, whose slot stands for this holder. -/
def clears (p : Passage K V Q R) (key : K) (id : Nat) : Bool :=
  match p.stage? with
  | some (.sweep segment) =>
    p.before.world.store.map.segmentOf key = segment ∧ p.before.standing key = some id
  | _ => false

/-- The passage is a section of `put` or `remove` that takes the fault out of the slot of the key,
while the slot stands for this holder. -/
def overtakes (p : Passage K V Q R) (key : K) (id : Nat) : Bool :=
  match p.stage? with
  | some (.visit (.put other _) _ _) | some (.visit (.remove other) _ _) =>
    match p.before.slot? key with
    | some (.fault fault) =>
      other = key ∧ p.before.standing key = some id ∧
        p.after.world.store.pendingIn key fault = false
    | _ => false
  | _ => false

/-- What the passage takes off the balance. -/
def settles (p : Passage K V Q R) (key : K) (id : Nat) : Nat :=
  (p.reports key id).toNat + (p.clears key id).toNat + (p.overtakes key id).toNat

/-- What a passage does about one holder of one key, in numbers. -/
structure Balances (p : Passage K V Q R) (made : Option (K × Nat)) (key : K) (id : Nat) :
    Prop where
  kept : p.before.balance key id ≤ p.after.balance key id + p.settles key id
  bounded : p.after.balance key id + p.after.shares Activity.made key id + p.settles key id ≤
    p.before.balance key id + p.before.shares Activity.made key id + share made (key, id)
  origin : p.after.world.store.Has key id ∨ p.after.balance key id ≤ p.before.balance key id

end Passage

section Passage

variable [DecidableEq V] {settings : Settings K V Q R} {p : Passage K V Q R}
  {s : Store K V} {stage : Stage K V Q R} {turn : StoreTurn K V Q R}

/-- A section goes on with one computation, or ends one, or is part of none and begins at most
one. -/
theorem Stage.Deed.computations (hdeed : stage.Deed settings s turn) :
    (∃ c before after, stage.ongoing = [.computes c before] ∧
        turn.ongoing = [.computes c after]) ∨
      (∃ c progress resolution, stage.ongoing = [.computes c progress] ∧ turn.ongoing = [] ∧
        turn.state.faults = (s.resolve c.fault resolution).faults) ∨
      (∀ c progress, .computes c progress ∉ stage.ongoing) ∧
        ∀ c progress, .computes c progress ∈ turn.ongoing → c.fault = s.faults.size := by
  -- Where a section is part of no computation and begins none, the third case says nothing.
  have hnone : (∀ c progress, .computes c progress ∉ stage.ongoing) → turn.ongoing = [] →
      (∀ c progress, .computes c progress ∉ stage.ongoing) ∧
        ∀ c progress, .computes c progress ∈ turn.ongoing → c.fault = s.faults.size := by
    intro hstage hturn
    exact ⟨hstage, by simp [hturn]⟩
  cases hdeed with
  | visits hvisit =>
    refine .inr (.inr ?_)
    cases hvisit with
    | keeps _ _ hstill => exact hnone (by simp [Stage.ongoing]) hstill.ongoing
    | waits _ _ _ hnext hframes => simp [Turn.ongoing, hnext, hframes, Stage.ongoing]
    | writes _ _ _ _ _ _ _ hgone => exact hnone (by simp [Stage.ongoing]) hgone
    | removes _ _ _ _ hgone => exact hnone (by simp [Stage.ongoing]) hgone
    | begins _ _ _ hc _ _ _ hone =>
      refine ⟨by simp [Stage.ongoing], fun c progress hmem => ?_⟩
      rw [hone, List.mem_singleton] at hmem
      obtain ⟨rfl, -⟩ := Ongoing.computes.inj hmem
      exact congrArg Computation.fault hc
  | keeps hstage hstill => exact .inr (.inr (hnone (by simp [hstage]) hstill.ongoing))
  | looks hnext hframes =>
    refine .inr (.inr ?_)
    simp [Turn.ongoing, hnext, hframes, Stage.ongoing]
  | resumes _ _ hnext hframes =>
    refine .inr (.inr ?_)
    simp [Turn.ongoing, hnext, hframes, Stage.ongoing]
  | shares _ _ hstill => exact .inr (.inr (hnone (by simp [Stage.ongoing]) hstill.ongoing))
  | givesUp _ _ hstill => exact .inr (.inr (hnone (by simp [Stage.ongoing]) hstill.ongoing))
  | expels hstage _ _ _ hgone =>
    refine .inr (.inr (hnone ?_ hgone))
    rcases hstage with rfl | ⟨failed, cause, rfl⟩
    · simp [Stage.ongoing]
    · simp [Stage.ongoing]
  | sweeps _ _ hgone => exact .inr (.inr (hnone (by simp [Stage.ongoing]) hgone))
  | @calls c _ _ _ hnext hframes =>
    have hturn : turn.ongoing = [.computes c .running] := by simp [Turn.ongoing, hnext, hframes]
    exact .inl ⟨c, .begun, .running, rfl, hturn⟩
  | @unwinds _ c p _ hcause _ hnext hframes =>
    have hturn : turn.ongoing = [.computes c (.leaving c.previous .retry (.raised p))] := by
      simp [Turn.ongoing, hnext, hframes, Stage.ongoing]
    rcases hcause with ⟨rfl, -⟩ | ⟨value, rfl⟩
    · exact .inl ⟨c, .begun, _, rfl, hturn⟩
    · exact .inl ⟨c, .given value, _, rfl, hturn⟩
  | @composes c value copy h _ _ _ _ hnext hframes =>
    have hturn : turn.ongoing =
        [.computes c (.leaving (some h) (.ready h) (.done (.value (some copy))))] := by
      simp [Turn.ongoing, hnext, hframes, Stage.ongoing]
    exact .inl ⟨c, .given value, _, rfl, hturn⟩
  | @ends _ c left resolution signal _ hstage _ hfaults hgone =>
    exact .inr (.inl ⟨c, .leaving left resolution signal, resolution, hstage, hgone, hfaults⟩)

/-- A computation that is in progress after a section was before, or has a new fault. -/
theorem Stage.Deed.computation_cases (hdeed : stage.Deed settings s turn)
    {c : Computation K V Q R} {progress : Progress V}
    (hmem : .computes c progress ∈ turn.ongoing) :
    (∃ progress', .computes c progress' ∈ stage.ongoing) ∨ c.fault = s.faults.size := by
  rcases hdeed.computations with
    ⟨c', before, after, hstage, hturn⟩ | ⟨_, _, _, -, hturn, -⟩ | ⟨-, hbegins⟩
  · rw [hturn, List.mem_singleton] at hmem
    obtain ⟨rfl, -⟩ := Ongoing.computes.inj hmem
    exact .inl ⟨before, by simp [hstage]⟩
  · rw [hturn] at hmem
    cases hmem
  · exact .inr (hbegins c progress hmem)

/-- A computation that is in progress before a section goes on, or the section resolves its
fault. -/
theorem Stage.Deed.goesOn_or_resolves (hdeed : stage.Deed settings s turn)
    {c : Computation K V Q R} {progress : Progress V}
    (hmem : .computes c progress ∈ stage.ongoing) (hpending : s.faults[c.fault]? = some none) :
    (∃ progress', .computes c progress' ∈ turn.ongoing) ∨
      ∃ resolution, turn.state.resolution? c.fault = some resolution := by
  rcases hdeed.computations with
    ⟨c', before, after, hstage, hturn⟩ | ⟨c', _, resolution, hstage, -, hfaults⟩ | ⟨hnone, -⟩
  · rw [hstage, List.mem_singleton] at hmem
    obtain ⟨rfl, -⟩ := Ongoing.computes.inj hmem
    exact .inl ⟨after, by simp [hturn]⟩
  · rw [hstage, List.mem_singleton] at hmem
    obtain ⟨rfl, -⟩ := Ongoing.computes.inj hmem
    exact .inr ⟨resolution, Store.resolution?_resolve hpending hfaults⟩
  · exact absurd hmem (hnone c progress)

/-- And so it is with the steps of a thread. -/
theorem Thread.Stride.computation_cases {w : World K V Q R} {t : Thread K V Q R}
    {step : Step K V Q R} (hstride : t.Stride settings w step) {c : Computation K V Q R}
    {progress : Progress V} (hmem : .computes c progress ∈ step.thread.ongoing) :
    (∃ progress', .computes c progress' ∈ t.ongoing) ∨ c.fault = w.store.faults.size := by
  cases hstride.effect with
  | rests _ _ _ _ _ hsame => exact .inl ⟨progress, hsame ▸ hmem⟩
  | calls _ _ _ hseeks =>
    rw [hseeks, List.mem_cons] at hmem
    exact .inl ⟨progress, hmem.resolve_left (by simp)⟩
  | drops _ _ _ _ hsame =>
    rw [hsame]
    exact .inl ⟨progress, List.mem_append_right _ hmem⟩
  | moves _ _ _ _ hold hnew =>
    rw [hnew, List.mem_cons] at hmem
    rw [hold]
    rcases hmem with hmoved | hbase
    · obtain ⟨rfl, -⟩ := Ongoing.computes.inj hmoved
      exact .inl ⟨_, List.mem_cons_self⟩
    · exact .inl ⟨progress, List.mem_cons_of_mem _ hbase⟩
  | acts _ hdeed _ hold hnew =>
    rw [hnew] at hmem
    rw [hold]
    rcases List.mem_append.mp hmem with hturn | hbase
    · refine (hdeed.computation_cases hturn).imp_left ?_
      rintro ⟨progress', hstage⟩
      exact ⟨progress', List.mem_append_left _ hstage⟩
    · exact .inl ⟨progress, List.mem_append_right _ hbase⟩

/-- No computation moves from one thread to another. -/
theorem Passage.Lawful.computation_of_thread (hp : p.Lawful settings) {i : Nat}
    {t : Thread K V Q R} (ht : p.after.threads[i]? = some t) {c : Computation K V Q R}
    {progress : Progress V} (hmem : .computes c progress ∈ t.ongoing) :
    (∃ t' progress', p.before.threads[i]? = some t' ∧ .computes c progress' ∈ t'.ongoing) ∨
      p.mover = some i ∧ c.fault = p.before.world.store.faults.size := by
  rcases hp.thread_cases ht with ⟨-, hsame⟩ | ⟨script, rfl⟩ | ⟨hmover, t', s, ht', hstride, -, rfl⟩
  · exact .inl ⟨t, progress, hsame, hmem⟩
  · cases hmem
  · rcases hstride.computation_cases hmem with ⟨progress', hold⟩ | hnew
    · exact .inl ⟨t', progress', ht', hold⟩
    · exact .inr ⟨hmover, hnew⟩

theorem Passage.Lawful.computation_cases (hp : p.Lawful settings) {c : Computation K V Q R}
    {progress : Progress V} (hmem : .computes c progress ∈ p.after.ongoing) :
    (∃ progress', .computes c progress' ∈ p.before.ongoing) ∨
      c.fault = p.before.world.store.faults.size := by
  obtain ⟨i, t, ht, hthread⟩ := Machine.exists_thread hmem
  rcases hp.computation_of_thread ht hthread with ⟨t', progress', ht', hold⟩ | ⟨-, hnew⟩
  · exact .inl ⟨progress', Machine.mem_ongoing_of_thread ht' hold⟩
  · exact .inr hnew

theorem Passage.parked_before (hm : p.before.Reachable settings) {c : Computation K V Q R}
    {progress : Progress V} (hmem : .computes c progress ∈ p.before.ongoing) :
    p.parked c.fault = c.previous.map Holder.id := by
  have hpending := hm.owned.pending c.fault (mem_faultsOf hmem)
  rw [Passage.parked, if_pos (Array.getElem?_eq_some_iff.mp hpending).1]
  exact Machine.parked_eq hm.owned hmem

theorem Passage.Lawful.parked_after (hp : p.Lawful settings) (hm : p.before.Reachable settings)
    {c : Computation K V Q R} {progress : Progress V}
    (hmem : .computes c progress ∈ p.after.ongoing) :
    p.parked c.fault = c.previous.map Holder.id := by
  have hafter : p.after.Reachable settings := Run.reachable_of_reachable hm (Run.rest.move hp)
  rcases hp.computation_cases hmem with ⟨progress', hold⟩ | hnew
  · exact Passage.parked_before hm hold
  · rw [Passage.parked, if_neg (by omega)]
    exact Machine.parked_eq hafter.owned hmem

/-- In a section, the holders are handed over as the section does it. -/
theorem Passage.Lawful.transfers (hp : p.Lawful settings) (hm : p.before.Reachable settings)
    {i : Nat} {t : Thread K V Q R} (ht : p.before.threads[i]? = some t)
    (hactivity : t.activity = .keep stage) {now : Instant} {interrupted : Bool} {draws : List K}
    (hturn : stage.turn settings p.before.world.store now interrupted draws = some turn)
    (hafter : p.after = ⟨(Step.ofStore p.before.world t turn).world,
      p.before.threads.setIfInBounds i (Step.ofStore p.before.world t turn).thread⟩) :
    turn.Transfers p.parked p.before.world.store stage := by
  have hsize : i < p.before.threads.size := (Array.getElem?_eq_some_iff.mp ht).1
  apply Stage.transfers hturn hm.accounted.map.valid
  · intro c progress hmem
    have hthread : .computes c progress ∈ t.ongoing := by
      rw [Thread.ongoing, hactivity]
      exact List.mem_append_left _ hmem
    exact Passage.parked_before hm (Machine.mem_ongoing_of_thread ht hthread)
  · intro c progress hmem
    have ht' : p.after.threads[i]? = some (t.goOn turn.next turn.frames) := by
      rw [hafter]
      simp [hsize, Step.ofStore]
    have hthread : .computes c progress ∈ (t.goOn turn.next turn.frames).ongoing := by
      rw [Thread.ongoing_goOn]
      exact List.mem_append_left _ hmem
    exact hp.parked_after hm (Machine.mem_ongoing_of_thread ht' hthread)

/-- No thread puts off a removal that it must report, or a holder that it is to install. -/
theorem Machine.Reachable.isIdle {m : Machine K V Q R} (hm : m.Reachable settings) :
    ∀ (i : Nat) t, m.threads[i]? = some t → t.IsIdle := by
  apply hm.all_threads_of_step (P := Thread.IsIdle)
  · intro script
    simp [Thread.IsIdle, Thread.running]
  · intro p i t step hp hbefore ht hstride hafter hidle
    by_cases hsection : ∃ stage, t.activity = .keep stage
    · obtain ⟨stage, hactivity⟩ := hsection
      obtain ⟨turn, draws, hturn, rfl⟩ := hstride.turn_of_keep hactivity
      have htransfers := hp.transfers hbefore ht hactivity hturn hafter
      intro frame hframe
      rcases List.mem_append.mp hframe with hnew | hold
      · exact htransfers.idle frame hnew
      · exact hidle frame hold
    · exact (hstride.rests (fun stage hactivity => hsection ⟨stage, hactivity⟩) hidle).idle

omit [DecidableEq V] in
/-- What a passage loses is what its section loses. -/
theorem Passage.lost_iff (hstage : p.stage? = some stage)
    (hstanding : ∀ key, p.before.standing key = p.before.world.store.standing p.parked key)
    {key : K} {id : Nat} : (p.clears key id || p.overtakes key id) = true ↔
      stage.Loses p.parked p.before.world.store p.after.world.store key id := by
  have hovertakes : ∀ other : K,
      (match p.before.slot? key with
        | some (.fault fault) => decide (other = key ∧ p.before.standing key = some id ∧
            p.after.world.store.pendingIn key fault = false)
        | _ => false) = true ↔
      other = key ∧ ∃ fault, p.before.world.store.map.get? key = some (.fault fault) ∧
        p.parked fault = some id ∧ p.after.world.store.map.get? key ≠ some (.fault fault) := by
    intro other
    rw [Machine.slot?]
    cases hslot : p.before.world.store.map.get? key with
    | none => simp
    | some slot =>
      cases slot with
      | holder h => simp
      | fault fault =>
        have hsame : p.before.standing key = p.parked fault := by
          rw [hstanding, Store.standing_of_fault hslot]
        have hgone : p.after.world.store.pendingIn key fault = false ↔
            p.after.world.store.map.get? key ≠ some (.fault fault) := by
          rw [← Bool.not_eq_true, Store.pendingIn_iff]
        simp [hsame, hgone]
  cases stage with
  | visit operation retries now =>
    cases operation with
    | put other value =>
      simpa [Passage.clears, Passage.overtakes, hstage, Stage.Loses] using hovertakes other
    | remove other =>
      simpa [Passage.clears, Passage.overtakes, hstage, Stage.Loses] using hovertakes other
    | _ => simp [Passage.clears, Passage.overtakes, hstage, Stage.Loses]
  | sweep segment => simp [Passage.clears, Passage.overtakes, hstage, Stage.Loses, hstanding]
  | _ => simp [Passage.clears, Passage.overtakes, hstage, Stage.Loses]

omit [DecidableEq V] in
theorem Passage.settles_of_apart (hstage : p.stage? = none) (key : K) (id : Nat) :
    p.settles key id = 0 := by
  simp [Passage.settles, Passage.reports, Passage.clears, Passage.overtakes, hstage]

omit [DecidableEq V] in
theorem Passage.settles_eq (hstage : p.stage? = some stage) (key : K) (id : Nat) :
    p.settles key id =
      (p.reports key id).toNat + (p.clears key id || p.overtakes key id).toNat := by
  -- No section both empties a segment and takes out a fault.
  have hone : p.clears key id = false ∨ p.overtakes key id = false := by
    cases stage with
    | sweep => exact .inr (by simp [Passage.overtakes, hstage])
    | _ => exact .inl (by simp [Passage.clears, hstage])
  rw [Passage.settles]
  rcases hone with hno | hno
  · simp [hno]
  · simp [hno]

/-- A passage takes something off the balance only by reporting or losing a holder, and puts
something on it only by making one. -/
theorem Passage.Lawful.balances (hp : p.Lawful settings) (hm : p.before.Reachable settings)
    (hcopy : ∀ value, ∃ copy, settings.copyOut value = .ok copy) :
    ∃ made : Option (K × Nat),
      (∀ key id, made = some (key, id) → p.before.world.store.Makes p.after.world.store id) ∧
      p.before.world.store.deadlines.size ≤ p.after.world.store.deadlines.size ∧
      ∀ key id, p.Balances made key id := by
  have hm' : p.after.Reachable settings := Run.reachable_of_reachable hm (Run.rest.move hp)
  have hbefore : ∀ key, p.before.standing key = p.before.world.store.standing p.parked key :=
    Machine.standing_eq hm.owned (hm.keeps hcopy) fun _ _ => Passage.parked_before hm
  have hafter : ∀ key, p.after.standing key = p.after.world.store.standing p.parked key :=
    Machine.standing_eq hm'.owned (hm'.keeps hcopy) fun _ _ => hp.parked_after hm
  have hrests : p.after.world.store.map = p.before.world.store.map →
      ∀ key, p.after.standing key = p.before.standing key := fun hmap key => by
    rw [hbefore, hafter, Store.standing_congr hmap]
  cases hp.course with
  | outside hmover houtside =>
    have hstage : p.stage? = none := by simp [Passage.stage?, Passage.thread?, hmover]
    have hstore := houtside.store_eq
    refine ⟨none, by simp, by rw [hstore], fun key id => ?_⟩
    have hdue : p.after.shares Activity.due key id = p.before.shares Activity.due key id :=
      houtside.shares_eq (fun _ => rfl) key id
    have hmade : p.after.shares Activity.made key id = p.before.shares Activity.made key id :=
      houtside.shares_eq (fun _ => rfl) key id
    have hsame := hrests (by rw [hstore]) key
    have hsettles := p.settles_of_apart hstage key id
    constructor
    · simp [Machine.balance, hdue, hsame, hsettles]
    · simp [Machine.balance, hdue, hmade, hsame, hsettles]
    · simp [Machine.balance, hdue, hsame]
  | @step i t s hmover ht hstride hmoved =>
    have hdue : ∀ key id, p.after.shares Activity.due key id + share t.activity.due (key, id) =
        p.before.shares Activity.due key id + share s.thread.activity.due (key, id) := by
      rw [hmoved]
      exact Machine.shares_set ht s.world s.thread
    have hmade : ∀ key id, p.after.shares Activity.made key id + share t.activity.made (key, id) =
        p.before.shares Activity.made key id + share s.thread.activity.made (key, id) := by
      rw [hmoved]
      exact Machine.shares_set ht s.world s.thread
    by_cases hsection : ∃ stage, t.activity = .keep stage
    · obtain ⟨stage, hactivity⟩ := hsection
      have hstage := Passage.stage?_of_keep hmover ht hactivity
      obtain ⟨turn, draws, hturn, rfl⟩ := hstride.turn_of_keep hactivity
      have htransfer := (hp.transfers hm ht hactivity hturn hmoved).transfer
      have hstate : turn.state = p.after.world.store := by
        rw [hmoved]
        rfl
      rw [hstate] at htransfer
      obtain ⟨made, hmakes, hbalances⟩ := htransfer.balances
      refine ⟨made, hmakes, htransfer.size_le, fun key id => ?_⟩
      have hreports : p.reports key id = true ↔ stage.Reports key id := by
        cases stage <;> simp [Passage.reports, hstage, Stage.Reports]
      obtain ⟨hkept, hbounded, horigin⟩ := hbalances key id _ _ hreports (p.lost_iff hstage hbefore)
      rw [← hbefore, ← hafter] at hkept hbounded horigin
      have hsettles := p.settles_eq hstage key id
      have hdue' := hdue key id
      have hmade' := hmade key id
      rw [hactivity] at hdue' hmade'
      constructor
      · simp only [Machine.balance, hsettles]
        simp only [Activity.due, Step.ofStore, Thread.goOn] at hdue'
        omega
      · simp only [Machine.balance, hsettles]
        simp only [Activity.due, Activity.made, Step.ofStore, Thread.goOn] at hdue' hmade'
        omega
      · apply horigin.imp_right
        intro hle
        simp only [Machine.balance]
        simp only [Activity.due, Step.ofStore, Thread.goOn] at hdue'
        omega
    · have hapart : ∀ stage, t.activity ≠ .keep stage := fun stage hactivity =>
        hsection ⟨stage, hactivity⟩
      have hrest := hstride.rests hapart (hm.isIdle i t ht)
      have hworld : p.after.world = s.world := by rw [hmoved]
      refine ⟨none, by simp, by rw [hworld, hrest.deadlines], fun key id => ?_⟩
      have hsame := hrests (by rw [hworld, hrest.map]) key
      have hsettles := p.settles_of_apart (Passage.stage?_of_apart hmover ht hapart) key id
      have hdue' := hdue key id
      have hmade' := hmade key id
      rw [hrest.due] at hdue'
      rw [hrest.made] at hmade'
      constructor
      · rw [Machine.balance, Machine.balance, hsame, hsettles]
        omega
      · rw [Machine.balance, Machine.balance, hsame, hsettles, share_none]
        omega
      · apply Or.inr
        rw [Machine.balance, Machine.balance, hsame]
        omega

end Passage

end SharedCache
