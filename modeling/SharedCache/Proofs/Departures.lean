import SharedCache.Proofs.Acts

/-!
# Departures

How holders leave the slots of a store.  A slot stands for the holder in it or, while the value of
its key is computed, for the live holder that the fault has taken the place of.  A section that
makes a slot stand for nothing, or for another holder, leaves the old one to its thread, which
reports it at once.  There are two exceptions: clearing drops what it finds, and so does an
operation that overwrites or removes a fault.
-/

namespace SharedCache

variable {K V Q R : Type}

/-- The number of the holder that a slot stands for, where `parked` tells what the faults have taken
the place of. -/
def Slot.standsFor (parked : Nat → Option Nat) : Slot V → Option Nat
  | .holder h => some h.id
  | .fault f => parked f

/-- The removal that a section is on its way to report, or reports. -/
def Stage.due : Stage K V Q R → Option (K × Nat)
  | .judge key h _ | .dismiss key h _ | .report key h _ => some (key, h.id)
  | _ => none

/-- The holder that a section is about to install. -/
def Stage.made : Stage K V Q R → Option (K × Nat)
  | .install c h _ => some (c.key, h.id)
  | _ => none

/-- Whether a section neither reports a removal nor clears a segment. -/
def Stage.IsCommon : Stage K V Q R → Prop
  | .report .. | .sweep _ => False
  | _ => True

/-- The removal that an activity reports next. -/
@[simp]
def Activity.due : Activity K V Q R → Option (K × Nat)
  | .keep stage => stage.due
  | .enter _ inside => inside.due
  | _ => none

/-- The holder that an activity installs next. -/
@[simp]
def Activity.made : Activity K V Q R → Option (K × Nat)
  | .keep stage => stage.made
  | .enter _ inside => inside.made
  | _ => none

/-- What has been counted of removals: evictions, their weight, and expirations. -/
def Statistics.removals (s : Statistics) : Nat × Nat × Nat :=
  (s.evictions, s.evictionWeight, s.expirations)

/-- A frame is idle when what is put off in it neither reports a removal first nor installs a
holder. -/
def Frame.IsIdle : Frame K V Q R → Prop
  | .next activity => activity.due = none ∧ activity.made = none
  | _ => True

@[simp]
theorem Frame.isIdle_settle (signal : Signal V) :
    (Frame.next (.settle signal) : Frame K V Q R).IsIdle := ⟨rfl, rfl⟩

@[simp]
theorem Stage.due_report (key : K) (h : Holder V) (cause : RemovalCause) :
    (Stage.report key h cause : Stage K V Q R).due = some (key, h.id) := rfl

@[simp]
theorem Stage.due_enforce (failed : Nat) : (Stage.enforce failed : Stage K V Q R).due = none := rfl

@[simp]
theorem Stage.made_enforce (failed : Nat) :
    (Stage.enforce failed : Stage K V Q R).made = none := rfl

@[simp]
theorem Stage.made_install (c : Computation K V Q R) (h : Holder V) (value : V) :
    (Stage.install c h value).made = some (c.key, h.id) := rfl

@[simp]
theorem Frame.isIdle_enforce (failed : Nat) :
    (Frame.next (.keep (.enforce failed)) : Frame K V Q R).IsIdle := ⟨rfl, rfl⟩

@[simp]
theorem Frame.isIdle_listening : (Frame.listening : Frame K V Q R).IsIdle := trivial

@[simp]
theorem Frame.isIdle_computing (c : Computation K V Q R) : (Frame.computing c).IsIdle := trivial

@[simp]
theorem Frame.isIdle_own (c : Computation K V Q R) : (Frame.next (.keep (.own c))).IsIdle :=
  ⟨rfl, rfl⟩

@[simp]
theorem Frame.isIdle_handOut (h : Holder V) (thenEnforce : Bool) :
    (Frame.next (.keep (.handOut h thenEnforce)) : Frame K V Q R).IsIdle := ⟨rfl, rfl⟩

theorem Activity.IsPlain.due_eq {a : Activity K V Q R} (ha : a.IsPlain) : a.due = none := by
  induction a with
  | enter _ inside ih => exact ih ha
  | keep stage => exact ha.elim
  | _ => rfl

theorem Activity.IsPlain.made_eq {a : Activity K V Q R} (ha : a.IsPlain) : a.made = none := by
  induction a with
  | enter _ inside ih => exact ih ha
  | keep stage => exact ha.elim
  | _ => rfl

theorem Frame.IsPlain.isIdle {frame : Frame K V Q R} (hframe : frame.IsPlain) : frame.IsIdle := by
  cases frame with
  | next a => exact ⟨Activity.IsPlain.due_eq hframe, Activity.IsPlain.made_eq hframe⟩
  | _ => trivial

variable [DecidableEq K]

/-- The number of the holder that the slot of a key stands for. -/
def Store.standing (parked : Nat → Option Nat) (s : Store K V) (key : K) :
    Option Nat :=
  (s.map.get? key).bind (Slot.standsFor parked)

/-- A section drops the holder that a slot stands for: it clears the segment of the key, or
overwrites or removes the fault that has taken the place of the holder. -/
def Stage.Loses (parked : Nat → Option Nat) (s s' : Store K V) (key : K) (id : Nat) :
    Stage K V Q R → Prop
  | .sweep segment => s.map.segmentOf key = segment ∧ s.standing parked key = some id
  | .visit (.put other _) _ _ | .visit (.remove other) _ _ =>
    other = key ∧ ∃ fault, s.map.get? key = some (.fault fault) ∧ parked fault = some id ∧
      s'.map.get? key ≠ some (.fault fault)
  | _ => False

/-- A holder with this number is in the slot of a key. -/
def Store.Has (s : Store K V) (key : K) (id : Nat) : Prop :=
  ∃ h, s.map.get? key = some (.holder h) ∧ h.id = id

/-- A holder that is made in a section gets the next number. -/
structure Store.Makes (s s' : Store K V) (id : Nat) : Prop where
  id : id = s.deadlines.size
  size : s.deadlines.size < s'.deadlines.size

/-- What becomes of the holders that the slots stand for. -/
inductive Stage.Transfer (parked : Nat → Option Nat) (s : Store K V) :
    Stage K V Q R → Store K V → Activity K V Q R → Prop where
  /-- The slots stand for the same holders. -/
  | rests {stage : Stage K V Q R} {s' : Store K V} {next : Activity K V Q R} :
      (∀ key, s'.standing parked key = s.standing parked key) → next.due = stage.due →
      stage.IsCommon → next.made = none →
      s.deadlines.size ≤ s'.deadlines.size → (∀ key id, ¬ stage.Loses parked s s' key id) →
      Transfer parked s stage s' next
  /-- A removal is reported. -/
  | reports {key : K} {h : Holder V} {cause : RemovalCause} {s' : Store K V}
      {next : Activity K V Q R} :
      s'.map = s.map → next.due = none → next.made = none →
      s.deadlines.size ≤ s'.deadlines.size → Transfer parked s (.report key h cause) s' next
  /-- A holder is made that has no slot yet. -/
  | composes {c : Computation K V Q R} {value : V} {h : Holder V} {s' : Store K V}
      {next : Activity K V Q R} :
      s'.map = s.map → next.due = none → next.made = some (c.key, h.id) → s.Makes s' h.id →
      Transfer parked s (.compose c value) s' next
  /-- A slot stands for nothing any more, for a holder that was just made, or for the one that was
  about to be installed.  What it stood for is reported next. -/
  | changes {stage : Stage K V Q R} {s' : Store K V} {next : Activity K V Q R} (key : K) :
      stage.due = none →
      (∀ other, other ≠ key → s'.standing parked other = s.standing parked other) →
      next.due = (s.standing parked key).map (fun id => (key, id)) → next.made = none →
      s.deadlines.size ≤ s'.deadlines.size → (∀ other id, ¬ stage.Loses parked s s' other id) →
      (∀ id, s'.standing parked key = some id →
        s'.Has key id ∧ (stage.made = some (key, id) ∨ s.Makes s' id)) →
      Transfer parked s stage s' next
  /-- A fault is overwritten or removed, and what it has taken the place of is dropped. -/
  | overtakes {operation : Operation K V Q R} {retries : Nat} {now : Instant} {key : K}
      {fault : Nat} {s' : Store K V} {next : Activity K V Q R} :
      (∃ value, operation = .put key value) ∨ operation = .remove key →
      s.map.get? key = some (.fault fault) → s'.map.get? key ≠ some (.fault fault) →
      (∀ other, other ≠ key → s'.standing parked other = s.standing parked other) →
      next.due = none → next.made = none → s.deadlines.size ≤ s'.deadlines.size →
      (∀ id, s'.standing parked key = some id → s'.Has key id ∧ s.Makes s' id) →
      Transfer parked s (.visit operation retries now) s' next
  /-- A segment is emptied, and what its slots stand for is dropped. -/
  | sweeps {segment : Nat} {s' : Store K V} {next : Activity K V Q R} :
      s'.map = s.map.clearSegment segment → next.due = none → next.made = none →
      s.deadlines.size ≤ s'.deadlines.size → Transfer parked s (.sweep segment) s' next

namespace Store

variable {parked : Nat → Option Nat} {s s' : Store K V}

theorem standing_congr (hmap : s'.map = s.map) (key : K) :
    s'.standing parked key = s.standing parked key := by
  rw [standing, standing, hmap]

theorem standing_of_insert (hvalid : s.map.Valid) {key : K} {slot : Slot V}
    (hmap : s'.map = s.map.insert key slot) (other : K) :
    s'.standing parked other =
      if other = key then slot.standsFor parked else s.standing parked other := by
  rw [standing, standing, hmap, hvalid.get?_insert]
  split <;> rfl

theorem standing_of_leave (hvalid : s.map.Valid) {key : K} {left : Option (Holder V)}
    (hmap : s'.map = s.map.leave key left) (other : K) :
    s'.standing parked other =
      if other = key then left.map Holder.id else s.standing parked other := by
  rw [standing, standing, hmap, hvalid.get?_leave]
  split
  · cases left <;> rfl
  · rfl

/-- Where a slot is left, it stands for the holder that it is left with. -/
theorem has_of_leave (hvalid : s.map.Valid) {key : K} {left : Option (Holder V)}
    (hmap : s'.map = s.map.leave key left) {id : Nat}
    (hstanding : s'.standing parked key = some id) :
    ∃ h, left = some h ∧ h.id = id ∧ s'.Has key id := by
  rw [standing_of_leave hvalid hmap, if_pos rfl] at hstanding
  obtain ⟨h, rfl, rfl⟩ := Option.map_eq_some_iff.mp hstanding
  refine ⟨h, rfl, rfl, h, ?_, rfl⟩
  rw [hmap, hvalid.get?_leave, if_pos rfl]
  rfl

theorem standing_of_fault {key : K} {fault : Nat} (hslot : s.map.get? key = some (.fault fault)) :
    s.standing parked key = parked fault := by
  rw [standing, hslot, Option.bind_some, Slot.standsFor]

theorem standing_of_holder {key : K} {h : Holder V} (hslot : s.map.get? key = some (.holder h)) :
    s.standing parked key = some h.id := by
  rw [standing, hslot, Option.bind_some, Slot.standsFor]

theorem standing_of_absent {key : K} (hslot : s.map.get? key = none) :
    s.standing parked key = none := by
  rw [standing, hslot]
  rfl

omit [DecidableEq K] in
@[simp]
theorem statistics_resolve (s : Store K V) (fault : Nat) (resolution : Resolution V) :
    (s.resolve fault resolution).statistics = s.statistics := by
  unfold resolve
  split <;> rfl

end Store

/-- A turn hands over what it must, and puts off nothing that is due. -/
structure Turn.Transfers (parked : Nat → Option Nat) (s : Store K V)
    (stage : Stage K V Q R) (turn : StoreTurn K V Q R) : Prop where
  transfer : stage.Transfer parked s turn.state turn.next
  idle : ∀ frame ∈ turn.frames, frame.IsIdle
  counted : (∀ key h cause, stage ≠ .report key h cause) →
    turn.state.statistics.removals = s.statistics.removals

section Turn

variable {parked : Nat → Option Nat} {s s' : Store K V} {stage : Stage K V Q R}
  {turn : StoreTurn K V Q R}

theorem Turn.Transfers.after (events : List (Event K V)) (hturn : turn.Transfers parked s stage) :
    (turn.after events).Transfers parked s stage :=
  ⟨hturn.transfer, hturn.idle, hturn.counted⟩

/-- Only an emptied segment loses anything without a change of a slot. -/
theorem Stage.not_loses_of_map (hmap : s'.map = s.map) (hcommon : stage.IsCommon)
    (key : K) (id : Nat) : ¬ stage.Loses parked s s' key id := by
  unfold Stage.Loses
  split
  · exact hcommon.elim
  · rintro ⟨-, fault, hslot, -, hgone⟩
    rw [hmap] at hgone
    exact hgone hslot
  · rintro ⟨-, fault, hslot, -, hgone⟩
    rw [hmap] at hgone
    exact hgone hslot
  · exact False.elim

/-- A turn that leaves the slots alone and reports nothing. -/
theorem Turn.transfers_still (hmap : turn.state.map = s.map) (hdue : turn.next.due = stage.due)
    (hcommon : stage.IsCommon) (hmade : turn.next.made = none)
    (hsize : s.deadlines.size ≤ turn.state.deadlines.size)
    (hidle : ∀ frame ∈ turn.frames, frame.IsIdle)
    (hcounted : turn.state.statistics.removals = s.statistics.removals) :
    turn.Transfers parked s stage :=
  ⟨.rests (Store.standing_congr hmap) hdue hcommon hmade hsize
    (Stage.not_loses_of_map hmap hcommon), hidle, fun _ => hcounted⟩

/-- A turn that reads, whatever it goes on with. -/
theorem Turn.transfers_goTo {a : Activity K V Q R} (hmap : s'.map = s.map)
    (hdue : a.due = stage.due) (hcommon : stage.IsCommon) (hmade : a.made = none)
    (hsize : s.deadlines.size ≤ s'.deadlines.size)
    (hcounted : s'.statistics.removals = s.statistics.removals) :
    (Turn.goTo s' a).Transfers parked s stage :=
  transfers_still hmap hdue hcommon hmade hsize (by simp) hcounted

end Turn

namespace Store

variable {parked : Nat → Option Nat} {s : Store K V}
  {settings : Settings K V Q R} {key : K} {now : Instant} {retries : Nat}
  {operation : Operation K V Q R}

/-- A visit that reads. -/
theorem transfers_reads {a : Activity K V Q R} (hdue : a.due = none) (hmade : a.made = none) :
    (Turn.goTo s a : StoreTurn K V Q R).Transfers parked s (.visit operation retries now) :=
  Turn.transfers_goTo rfl hdue trivial hmade (Nat.le_refl _) rfl

/-- A slot is left with a holder or without one, and what it stood for is reported next. -/
theorem transfers_leaves {stage : Stage K V Q R} {turn : StoreTurn K V Q R}
    (left : Option (Holder V)) (hvalid : s.map.Valid) (hdue : stage.due = none)
    (hmap : turn.state.map = s.map.leave key left)
    (hsize : s.deadlines.size ≤ turn.state.deadlines.size)
    (hloses : ∀ other id, ¬ stage.Loses parked s turn.state other id)
    (hleft : ∀ h, left = some h → stage.made = some (key, h.id) ∨ s.Makes turn.state h.id)
    (hnext : turn.next.due = (s.standing parked key).map fun id => (key, id))
    (hmade : turn.next.made = none) (hidle : ∀ frame ∈ turn.frames, frame.IsIdle)
    (hcounted : turn.state.statistics.removals = s.statistics.removals) :
    turn.Transfers parked s stage := by
  refine ⟨.changes key hdue (fun other hother => ?_) hnext hmade hsize hloses ?_, hidle,
    fun _ => hcounted⟩
  · rw [standing_of_leave hvalid hmap, if_neg hother]
  · intro id hfound
    obtain ⟨h, hh, rfl, hhas⟩ := has_of_leave hvalid hmap hfound
    exact ⟨hhas, hleft h hh⟩

/-- A fault takes the place of a live holder, or of nothing. -/
theorem transfers_begins {turn : StoreTurn K V Q R} (hvalid : s.map.Valid)
    (hparked : parked s.faults.size = s.standing parked key)
    (hmap : turn.state.map = s.map.insert key (.fault s.faults.size))
    (hsize : turn.state.deadlines = s.deadlines)
    (hloses : ∀ s' : Store K V, ∀ other id,
      ¬ (Stage.visit operation retries now).Loses parked s s' other id)
    (hdue : turn.next.due = none) (hmade : turn.next.made = none) (hframes : turn.frames = [])
    (hcounted : turn.state.statistics.removals = s.statistics.removals) :
    turn.Transfers parked s (.visit operation retries now) := by
  refine ⟨.rests (fun other => ?_) hdue trivial hmade
    (Nat.le_of_eq (congrArg Array.size hsize.symm)) (hloses _), by simp [hframes],
    fun _ => hcounted⟩
  rw [standing_of_insert hvalid hmap]
  split
  · rename_i hother
    rw [hother]
    exact hparked
  · rfl

/-- A fault takes the place of a stale holder, which is reported next.  The holder may have left
the slot before. -/
theorem transfers_begins_stale {turn : StoreTurn K V Q R} {h : Holder V} {m : EntryMap K V}
    (hvalid : s.map.Valid) (hlook : s.look key now = .stale h)
    (hparked : parked s.faults.size = none) (hm : m = s.map ∨ m = s.map.erase key)
    (hmap : turn.state.map = m.insert key (.fault s.faults.size))
    (hsize : turn.state.deadlines = s.deadlines)
    (hloses : ∀ s' : Store K V, ∀ other id,
      ¬ (Stage.visit operation retries now).Loses parked s s' other id)
    (hdue : turn.next.due = some (key, h.id)) (hmade : turn.next.made = none)
    (hidle : ∀ frame ∈ turn.frames, frame.IsIdle)
    (hcounted : turn.state.statistics.removals = s.statistics.removals) :
    turn.Transfers parked s (.visit operation retries now) := by
  have hslot : s.standing parked key = some h.id := standing_of_holder (get?_of_stale hlook)
  have hafter : ∀ other, turn.state.standing parked other =
      if other = key then none else s.standing parked other := by
    intro other
    have hvalid' : m.Valid := by
      rcases hm with rfl | rfl
      · exact hvalid
      · exact hvalid.erase key
    rw [standing, hmap, hvalid'.get?_insert]
    by_cases hother : other = key
    · rw [if_pos hother, if_pos hother]
      exact hparked
    · rw [if_neg hother, if_neg hother]
      rcases hm with rfl | rfl
      · rfl
      · rw [hvalid.get?_erase, if_neg hother]
        rfl
  refine ⟨.changes key rfl (fun other hother => ?_) ?_ hmade
    (Nat.le_of_eq (congrArg Array.size hsize.symm)) (hloses _) ?_, hidle, fun _ => hcounted⟩
  · rw [hafter, if_neg hother]
  · rw [hdue, hslot]
    rfl
  · intro found hfound
    rw [hafter, if_pos rfl] at hfound
    cases hfound

/-- An operation overwrites or removes a fault. -/
theorem transfers_overtakes {turn : StoreTurn K V Q R} {fault : Nat} (left : Option (Holder V))
    (hoperation : (∃ value, operation = .put key value) ∨ operation = .remove key)
    (hvalid : s.map.Valid) (hslot : s.map.get? key = some (.fault fault))
    (hmap : turn.state.map = s.map.leave key left)
    (hsize : s.deadlines.size ≤ turn.state.deadlines.size)
    (hleft : ∀ h, left = some h → s.Makes turn.state h.id) (hdue : turn.next.due = none)
    (hmade : turn.next.made = none) (hidle : ∀ frame ∈ turn.frames, frame.IsIdle)
    (hcounted : turn.state.statistics.removals = s.statistics.removals) :
    turn.Transfers parked s (.visit operation retries now) := by
  refine ⟨.overtakes hoperation hslot ?_ (fun other hother => ?_) hdue hmade hsize ?_, hidle,
    fun _ => hcounted⟩
  · rw [hmap, hvalid.get?_leave, if_pos rfl]
    cases left <;> simp
  · rw [standing_of_leave hvalid hmap, if_neg hother]
  · intro id hfound
    obtain ⟨h, hh, rfl, hhas⟩ := has_of_leave hvalid hmap hfound
    exact ⟨hhas, hleft h hh⟩

/-- Where the slot has no fault, an operation that overwrites or removes one loses nothing. -/
theorem not_loses_of_slot {s' : Store K V} {other : K} {id : Nat}
    (hkey : operation.key? = some key)
    (hslot : ∀ fault, s.map.get? key ≠ some (.fault fault)) :
    ¬ (Stage.visit operation retries now).Loses parked s s' other id := by
  unfold Stage.Loses
  split
  · rename_i heq
    cases heq
  · rename_i heq
    obtain ⟨rfl, -, -⟩ := Stage.visit.inj heq
    rintro ⟨rfl, fault, hfault, -⟩
    obtain rfl := Option.some.inj hkey
    exact hslot fault hfault
  · rename_i heq
    obtain ⟨rfl, -, -⟩ := Stage.visit.inj heq
    rintro ⟨rfl, fault, hfault, -⟩
    obtain rfl := Option.some.inj hkey
    exact hslot fault hfault
  · exact False.elim

theorem not_fault_of_holder {h : Holder V} (hslot : s.map.get? key = some (.holder h))
    (fault : Nat) : s.map.get? key ≠ some (.fault fault) := by
  simp [hslot]

theorem makes_written (d : Draft V) : s.Makes (s.written key d) (s.newHolder d).2.id :=
  ⟨rfl, by simp [written, newHolder, fill]⟩

/-- A new holder takes the place of what the slot stood for, which is reported next. -/
theorem transfers_written {turn : StoreTurn K V Q R} {d : Draft V} (hvalid : s.map.Valid)
    (hkey : operation.key? = some key) (hslot : ∀ fault, s.map.get? key ≠ some (.fault fault))
    (hstate : turn.state = s.written key d)
    (hnext : turn.next.due = (s.standing parked key).map fun id => (key, id))
    (hmade : turn.next.made = none) (hidle : ∀ frame ∈ turn.frames, frame.IsIdle) :
    turn.Transfers parked s (.visit operation retries now) := by
  refine transfers_leaves (some (s.newHolder d).2) hvalid rfl (by rw [hstate]; rfl) ?_
    (fun _ _ => not_loses_of_slot hkey hslot) (fun h hh => ?_) hnext hmade hidle
    (by rw [hstate]; rfl)
  · rw [hstate]
    exact Nat.le_of_lt (makes_written d).size
  · rw [hstate, ← Option.some.inj hh]
    exact .inr (makes_written d)

/-- A holder leaves its slot, and is reported next. -/
theorem transfers_taken {turn : StoreTurn K V Q R} {h : Holder V} (hvalid : s.map.Valid)
    (hkey : operation.key? = some key) (hslot : s.map.get? key = some (.holder h))
    (hstate : turn.state = s.erase key) (hnext : turn.next.due = some (key, h.id))
    (hmade : turn.next.made = none) (hidle : ∀ frame ∈ turn.frames, frame.IsIdle) :
    turn.Transfers parked s (.visit operation retries now) := by
  refine transfers_leaves none hvalid rfl (by rw [hstate]; rfl)
    (by rw [hstate]; exact Nat.le_refl _)
    (fun _ _ => not_loses_of_slot hkey (not_fault_of_holder hslot)) (by simp) ?_ hmade hidle
    (by rw [hstate]; rfl)
  rw [hnext, standing_of_holder hslot]
  rfl

variable [DecidableEq V]

/-- What becomes of the holders in a visit. -/
theorem transfers_finds {turn : StoreTurn K V Q R}
    (hfinds : operation.Finds settings s retries now turn) (hvalid : s.map.Valid)
    (hparked : ∀ c progress, .computes c progress ∈ turn.ongoing →
      parked c.fault = c.previous.map Holder.id) :
    turn.Transfers parked s (.visit operation retries now) := by
  cases hfinds with
  | @puts key value d hslot hd =>
    cases hfound : s.map.get? key with
    | none =>
      exact transfers_written hvalid rfl (by simp [hfound]) rfl
        (by rw [standing_of_absent hfound]; rfl) rfl (by simp [enforcing])
    | some slot =>
      cases slot with
      | holder h => exact absurd hfound (hslot h)
      | fault fault =>
        refine transfers_overtakes (some (s.newHolder d).2) (.inl ⟨value, rfl⟩) hvalid hfound rfl
          (Nat.le_of_lt (makes_written d).size) (fun h hh => ?_) rfl rfl (by simp [enforcing]) rfl
        exact Option.some.inj hh ▸ makes_written d
  | overwrites hslot =>
    exact transfers_written hvalid rfl (not_fault_of_holder hslot) rfl
      (by rw [standing_of_holder hslot]; rfl) rfl (by simp)
  | putsAbsent hlook =>
    have hslot := get?_of_absent hlook
    exact transfers_written hvalid rfl (by simp [hslot]) rfl (by rw [standing_of_absent hslot]; rfl)
      rfl (by simp [enforcing])
  | putsStale hlook =>
    have hslot := get?_of_stale hlook
    exact transfers_written hvalid rfl (not_fault_of_holder hslot) rfl
      (by rw [standing_of_holder hslot]; rfl) rfl (by simp)
  | replaces hlook | replacesEqual hlook =>
    have hslot := get?_of_live (congrArg Look.live? hlook)
    exact transfers_written hvalid rfl (not_fault_of_holder hslot) rfl
      (by rw [standing_of_holder hslot]; rfl) rfl
      (by simp [reporting])
  | removes hslot => exact transfers_taken hvalid rfl hslot rfl rfl rfl (by simp)
  | removesFault hslot =>
    exact transfers_overtakes none (.inr rfl) hvalid hslot rfl (Nat.le_refl _) (by simp) rfl rfl
      (by simp) rfl
  | removesEqual hlook =>
    exact transfers_taken hvalid rfl (get?_of_live (congrArg Look.live? hlook)) rfl rfl rfl
      (by simp [reporting])
  | drops hkey _ _ hlook =>
    exact transfers_taken hvalid hkey (get?_of_stale hlook) rfl rfl rfl (by simp [reporting])
  | @begins _ key hkey _ hfree hfresh =>
    have hslot := get?_of_settled hfree hfresh
    have hfault : parked s.faults.size = s.standing parked key := by
      refine (hparked _ .begun List.mem_cons_self).trans ?_
      rw [standing, hslot]
      cases hlive : (s.look key now).live? <;> rfl
    refine transfers_begins hvalid hfault rfl rfl
      (fun _ _ _ => not_loses_of_slot hkey fun fault => ?_) rfl rfl rfl rfl
    rw [hslot]
    cases (s.look key now).live? <;> simp
  | @beginsStale _ key _ s' hkey _ hlook hs =>
    have hfault := hparked _ .begun List.mem_cons_self
    have hloses : ∀ s' : Store K V, ∀ other id,
        ¬ (Stage.visit operation retries now).Loses parked s s' other id := fun _ _ _ =>
      not_loses_of_slot hkey (not_fault_of_holder (get?_of_stale hlook))
    rcases hs with rfl | rfl
    · exact transfers_begins_stale hvalid hlook hfault (.inl rfl) rfl rfl hloses rfl rfl
        (by simp [reporting]) rfl
    · exact transfers_begins_stale hvalid hlook hfault (.inr rfl) rfl rfl hloses rfl rfl
        (by simp [reporting]) rfl
  | balks => exact (transfers_reads rfl rfl).after _
  | _ => exact transfers_reads rfl rfl

end Store

section Stage

variable {parked : Nat → Option Nat} {s : Store K V}
  {settings : Settings K V Q R} {stage : Stage K V Q R} {turn : StoreTurn K V Q R}
  {c : Computation K V Q R}

/-- A fault stands for the previous holder of its computation. -/
theorem Store.standing_of_pending (hparked : parked c.fault = c.previous.map Holder.id)
    (hpending : s.pendingIn c.key c.fault = true) :
    s.standing parked c.key = c.previous.map Holder.id := by
  rw [Store.standing_of_fault (Store.pendingIn_iff.mp hpending), hparked]

/-- A computation leaves its slot, and what the slot stood for is reported next. -/
theorem Store.transfers_ends (left : Option (Holder V)) {resolution : Resolution V}
    {s' : Store K V} (hvalid : s.map.Valid) (hparked : parked c.fault = c.previous.map Holder.id)
    (hpending : s.pendingIn c.key c.fault = true) (hdue : stage.due = none)
    (hloses : ∀ s' : Store K V, ∀ other id, ¬ stage.Loses parked s s' other id)
    (hstate : turn.state = s'.resolve c.fault resolution)
    (hmap : s'.map = s.map.leave c.key left) (hdeadlines : s'.deadlines = s.deadlines)
    (hstatistics : s'.statistics = s.statistics)
    (hleft : ∀ h, left = some h → stage.made = some (c.key, h.id))
    (hnext : turn.next.due = c.previous.map fun previous => (c.key, previous.id))
    (hmade : turn.next.made = none) (hidle : ∀ frame ∈ turn.frames, frame.IsIdle) :
    turn.Transfers parked s stage := by
  have hmap' : turn.state.map = s.map.leave c.key left := by
    rw [hstate, Store.map_resolve, hmap]
  refine Store.transfers_leaves left hvalid hdue hmap' ?_ (hloses _)
    (fun h hh => .inl (hleft h hh)) ?_ hmade hidle ?_
  · simp [hstate, Store.deadlines_resolve, hdeadlines]
  · rw [hnext, Store.standing_of_pending hparked hpending]
    cases c.previous <;> rfl
  · rw [hstate, Store.statistics_resolve, hstatistics]

/-- The slot stands for the previous holder before and after. -/
theorem Store.transfers_restores {resolution : Resolution V} {signal : Signal V} {s' : Store K V}
    (hvalid : s.map.Valid) (hparked : parked c.fault = c.previous.map Holder.id)
    (hpending : s.pendingIn c.key c.fault = true) (hmap : s'.map = s.map.leave c.key c.previous)
    (hdeadlines : s'.deadlines = s.deadlines) (hstatistics : s'.statistics = s.statistics) :
    (Turn.goTo (s'.resolve c.fault resolution) (.settle signal) : StoreTurn K V Q R).Transfers
      parked s (.restore c resolution signal) := by
  refine ⟨.rests (fun other => ?_) rfl trivial rfl (by simp [hdeadlines]) (fun _ _ => id), by simp,
    fun _ => by simp [hstatistics]⟩
  rw [Turn.state_goTo, Store.standing_of_leave hvalid ((Store.map_resolve _ _).trans hmap)]
  split
  · rename_i hother
    rw [hother, Store.standing_of_pending hparked hpending]
  · rfl

theorem Store.transfers_resume {operation : Operation K V Q R} {retries fault : Nat}
    (resolution : Resolution V) :
    (s.resume operation retries resolution).Transfers parked s
      (.await operation retries fault) := by
  obtain ⟨a, heq, hresumes⟩ := s.resume_eq operation retries resolution
  rw [heq]
  cases hresumes <;> exact Turn.transfers_goTo rfl rfl trivial rfl (Nat.le_refl _) rfl

/-- A holder that is found in its slot leaves it and is reported next. -/
theorem Store.transfers_expels {stage : Stage K V Q R} {key : K} {h : Holder V}
    {cause : RemovalCause} {next : Activity K V Q R} (hvalid : s.map.Valid)
    (hdue : stage.due = none) (hloses : ∀ s' : Store K V, ∀ other id,
      ¬ stage.Loses parked s s' other id)
    (hholds : s.holds key h = true) (hnext : next.due = none ∧ next.made = none) :
    (((s.erase key).reporting key h cause).andThen next).Transfers parked s stage := by
  have hstanding : s.standing parked key = some h.id := by
    obtain ⟨slot, hslot, hsame⟩ := (Option.any_eq_true _ _).mp hholds
    cases slot with
    | fault f => cases hsame
    | holder found =>
      have hid : found.id = h.id := by simpa [Slot.isHolder] using hsame
      rw [Store.standing_of_holder hslot, hid]
  exact Store.transfers_leaves none hvalid hdue rfl (Nat.le_refl _) (hloses _) (by simp)
    (by simp [Store.reporting, hstanding]) rfl (by simp [Store.reporting, Frame.IsIdle, hnext])
    rfl

variable [DecidableEq V]

/-- What becomes of the holders in any section of a store operation. -/
theorem Stage.transfers {now : Instant} {interrupted : Bool} {draws : List K}
    (hturn : stage.turn settings s now interrupted draws = some turn) (hvalid : s.map.Valid)
    (hstage : ∀ c progress, .computes c progress ∈ stage.ongoing →
      parked c.fault = c.previous.map Holder.id)
    (hnext : ∀ c progress, .computes c progress ∈ turn.ongoing →
      parked c.fault = c.previous.map Holder.id) : turn.Transfers parked s stage := by
  cases Stage.sections hturn with
  | visits => exact Store.transfers_finds (s.finds _) hvalid hnext
  | resumes => exact Store.transfers_resume _
  | moves =>
    exact Turn.transfers_still rfl rfl trivial rfl (by simp [Store.count, Store.setDeadline])
      (by simp) rfl
  | expels hholds | evicts hholds =>
    exact Store.transfers_expels hvalid rfl (fun _ _ _ => id) hholds ⟨rfl, rfl⟩
  | sweeps | sweepsLast => exact ⟨.sweeps rfl rfl rfl (Nat.le_refl _), by simp, fun _ => rfl⟩
  | counts | tells | balksAtReport =>
    exact ⟨.reports rfl rfl rfl (Nat.le_refl _), by simp, by simp⟩
  | @maps c | @unwinds c =>
    have hcounted : (s.asked c).statistics.removals = s.statistics.removals := by
      rw [Store.asked]
      split <;> rfl
    exact Turn.transfers_still s.map_asked rfl trivial rfl (by simp [Store.unwinding])
      (by simp [Store.unwinding]) hcounted
  | composes =>
    exact ⟨.composes rfl rfl rfl ⟨rfl, by simp [Store.newHolder]⟩, by simp, fun _ => rfl⟩
  | unwindsCopy =>
    exact Turn.transfers_still rfl rfl trivial rfl (by simp [Store.unwinding, Store.newHolder])
      (by simp [Store.unwinding]) rfl
  | @installs c h _ hpending hprevious | @replaces c h _ _ hpending hprevious =>
    exact Store.transfers_ends (some h) hvalid (hstage c _ List.mem_cons_self) hpending rfl
      (fun _ _ _ => id) rfl rfl rfl rfl (by simp) (by rw [hprevious]; rfl) rfl
      (by simp [Store.enforcing, Store.reporting])
  | @vacates c _ _ hpending hprevious | @removes c _ _ _ hpending hprevious =>
    exact Store.transfers_ends none hvalid (hstage c _ List.mem_cons_self) hpending rfl
      (fun _ _ _ => id) rfl rfl rfl rfl (by simp) (by rw [hprevious]; rfl) rfl
      (by simp [Store.reporting])
  | @restores c _ _ _ hpending hprevious | @restoresEmpty c _ _ hpending hprevious =>
    exact Store.transfers_restores hvalid (hstage c _ List.mem_cons_self) hpending
      (by rw [hprevious]; rfl) rfl rfl
  | installsNothing | vacatesNothing | restoresNothing =>
    exact Turn.transfers_still (Store.map_resolve _ _) rfl trivial rfl (by simp) (by simp) (by simp)
  | _ =>
    exact Turn.transfers_still rfl rfl trivial rfl (Nat.le_refl _)
      (by simp [Store.enforcing, Store.reporting, Store.unwinding]) rfl

end Stage

end SharedCache
