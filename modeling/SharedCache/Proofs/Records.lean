import SharedCache.Proofs.Reference

/-!
# Records of a store

How the slots and deadlines of a store are read as a reference map.  A holder stands for its record,
and a store represents a reference where both have the same visible records.  Every write of a slot
or a deadline is an update of the reference.
-/

namespace SharedCache

open Function

variable {K V : Type}

/-- What a holder stands for by the deadlines of a store. -/
def Holder.record (deadlines : Array Mark) (h : Holder V) : Record V :=
  ⟨h.value, h.writtenAt, (deadlines[h.id]?.getD Mark.unset).instant?⟩

/-- The records of the holders in some slots. -/
def records (deadlines : Array Mark) (slots : K → Option (Slot V)) : Reference K V :=
  fun key => ((slots key).bind Slot.holder?).map (Holder.record deadlines)

/-- No slot has a fault, and every holder in a slot has a deadline of its own. -/
structure Lodged (deadlines : Array Mark) (slots : K → Option (Slot V)) : Prop where
  settled : ∀ key fault, slots key ≠ some (.fault fault)
  allocated : ∀ key h, slots key = some (.holder h) → h.id < deadlines.size
  distinct : ∀ key key' h h', slots key = some (.holder h) → slots key' = some (.holder h') →
    h.id = h'.id → key = key'

/-- Slots and deadlines show what a reference shows from some time on. -/
structure Represents (deadlines : Array Mark) (slots : K → Option (Slot V)) (ref : Reference K V)
    (now : Instant) : Prop where
  lodged : Lodged deadlines slots
  visible : (records deadlines slots).visible now = ref.visible now

/-! ## Visible records -/

theorem Record.isVisible_of_le {r : Record V} {now later : Instant} (hle : now ≤ later)
    (hvisible : r.isVisible later = true) : r.isVisible now = true := by
  rw [isVisible] at hvisible ⊢
  cases hdeadline : r.deadline with
  | none => rfl
  | some deadline =>
    rw [hdeadline, Option.all_some, decide_eq_true_eq, Instant.lt_def] at hvisible
    rw [Option.all_some, decide_eq_true_eq, Instant.lt_def]
    exact Nat.lt_of_le_of_lt hle hvisible

namespace Reference

variable {ref ref' : Reference K V} {now later : Instant}

/-- What is visible later is visible before. -/
theorem visible_visible (hle : now ≤ later) :
    (ref.visible now).visible later = ref.visible later := by
  funext key
  change ((ref key).filter _).filter _ = (ref key).filter _
  rw [Option.filter_filter]
  congr 1
  funext r
  cases hlater : r.isVisible later with
  | false => rw [Bool.and_false]
  | true => rw [Record.isVisible_of_le hle hlater, Bool.and_self]

theorem visible_of_le (hle : now ≤ later) (hsame : ref.visible now = ref'.visible now) :
    ref.visible later = ref'.visible later := by
  calc ref.visible later = (ref.visible now).visible later := (visible_visible hle).symm
    _ = (ref'.visible now).visible later := by rw [hsame]
    _ = ref'.visible later := visible_visible hle

variable [DecidableEq K]

theorem visible_update (key : K) (r : Option (Record V)) :
    visible (update ref key r) now =
      update (ref.visible now) key (r.filter fun r => r.isVisible now) := by
  funext other
  by_cases hother : other = key
  · subst hother
    simp [visible]
  · simp [visible, update_of_ne hother]

/-- To write what is visible already changes nothing. -/
theorem visible_update_self {key : K} {r : Record V} (hvisible : ref.visible now key = some r) :
    visible (update ref key (some r)) now = ref.visible now := by
  have hr : r.isVisible now = true := (Option.filter_eq_some_iff.mp hvisible).2
  calc visible (update ref key (some r)) now
      = update (ref.visible now) key ((some r).filter fun r => r.isVisible now) :=
        visible_update key (some r)
    _ = update (ref.visible now) key (ref.visible now key) := by
        rw [hvisible, Option.filter_some, if_pos hr]
    _ = ref.visible now := update_eq_self key _

end Reference

/-! ## Updates -/

theorem EntryMap.get?_insert_eq [DecidableEq K] {m : EntryMap K V} (hm : m.Valid) (key : K)
    (slot : Slot V) : (m.insert key slot).get? = update m.get? key (some slot) := by
  funext other
  rw [hm.get?_insert, update_apply]

theorem EntryMap.get?_erase_eq [DecidableEq K] {m : EntryMap K V} (hm : m.Valid) (key : K) :
    (m.erase key).get? = update m.get? key none := by
  funext other
  rw [hm.get?_erase, update_apply]

section Updates

variable {deadlines : Array Mark} {slots : K → Option (Slot V)}
  {ref : Reference K V} {now later : Instant} {key : K} {h : Holder V}

theorem records_update [DecidableEq K] (slot : Option (Slot V)) :
    records deadlines (update slots key slot) =
      update (records deadlines slots) key
        ((slot.bind Slot.holder?).map (Holder.record deadlines)) := by
  funext other
  by_cases hother : other = key
  · subst hother
    simp [records]
  · simp [records, update_of_ne hother]

/-- A new deadline leaves the records as they are. -/
theorem Lodged.records_push (hlodged : Lodged deadlines slots) (mark : Mark) :
    records (deadlines.push mark) slots = records deadlines slots := by
  funext key
  rw [records, records]
  cases hslot : slots key with
  | none => rfl
  | some slot =>
    cases slot with
    | fault f => rfl
    | holder h =>
      have hid := hlodged.allocated key h hslot
      simp [Holder.record, Array.getElem?_push, Nat.ne_of_lt hid]

theorem Lodged.push (hlodged : Lodged deadlines slots) (mark : Mark) :
    Lodged (deadlines.push mark) slots :=
  ⟨hlodged.settled, fun key h hslot => by
    rw [Array.size_push]
    exact Nat.lt_succ_of_lt (hlodged.allocated key h hslot), hlodged.distinct⟩

theorem Represents.mono (hrepresents : Represents deadlines slots ref now) (hle : now ≤ later) :
    Represents deadlines slots ref later :=
  ⟨hrepresents.lodged, Reference.visible_of_le hle hrepresents.visible⟩

theorem Represents.push (hrepresents : Represents deadlines slots ref now) (mark : Mark) :
    Represents (deadlines.push mark) slots ref now :=
  ⟨hrepresents.lodged.push mark, by
    rw [hrepresents.lodged.records_push, hrepresents.visible]⟩

variable [DecidableEq K]

theorem Lodged.erase (hlodged : Lodged deadlines slots) (key : K) :
    Lodged deadlines (update slots key none) := by
  have hslot : ∀ other slot, update slots key none other = some slot → slots other = some slot := by
    intro other slot hother
    rw [update_apply] at hother
    split at hother
    · cases hother
    · exact hother
  exact ⟨fun other fault hfault => hlodged.settled other fault (hslot _ _ hfault),
    fun other h hholder => hlodged.allocated other h (hslot _ _ hholder),
    fun key key' h h' hholder hholder' =>
      hlodged.distinct key key' h h' (hslot _ _ hholder) (hslot _ _ hholder')⟩

/-- A holder that was not in a slot before may enter one. -/
theorem Lodged.fill (hlodged : Lodged deadlines slots) (hid : h.id < deadlines.size)
    (hfresh : ∀ other found, other ≠ key → slots other = some (.holder found) → found.id ≠ h.id) :
    Lodged deadlines (update slots key (some (.holder h))) := by
  constructor
  · intro other fault hfault
    rw [update_apply] at hfault
    split at hfault
    · cases hfault
    · exact hlodged.settled other fault hfault
  · intro other found hfound
    rw [update_apply] at hfound
    split at hfound
    · rw [← Slot.holder.inj (Option.some.inj hfound)]
      exact hid
    · exact hlodged.allocated other found hfound
  · intro first second found found' hfound hfound' hsame
    rw [update_apply] at hfound hfound'
    split at hfound <;> split at hfound'
    · simp [*]
    · rename_i hfirst hsecond
      rw [← Slot.holder.inj (Option.some.inj hfound)] at hsame
      exact absurd hsame.symm (hfresh second found' hsecond hfound')
    · rename_i hfirst hsecond
      rw [← Slot.holder.inj (Option.some.inj hfound')] at hsame
      exact absurd hsame (hfresh first found hfirst hfound)
    · exact hlodged.distinct first second found found' hfound hfound' hsame

namespace Represents

theorem erase (hrepresents : Represents deadlines slots ref now) (key : K) :
    Represents deadlines (update slots key none) (update ref key none) now :=
  ⟨hrepresents.lodged.erase key, by
    rw [records_update, Reference.visible_update, Reference.visible_update, hrepresents.visible]
    rfl⟩

/-- A slot without a visible record may as well be empty. -/
theorem drop (hrepresents : Represents deadlines slots ref now)
    (hnone : ref.visible now key = none) :
    Represents deadlines (update slots key none) ref now := by
  refine ⟨hrepresents.lodged.erase key, ?_⟩
  rw [records_update, Reference.visible_update, hrepresents.visible]
  exact update_eq_self_iff.mpr hnone.symm

/-- A new holder gets a deadline and enters a slot. -/
theorem write (hrepresents : Represents deadlines slots ref now) (key : K) (r : Record V)
    (weight : Nat) :
    Represents (deadlines.push (Mark.ofInstant? r.deadline))
      (update slots key (some (.holder ⟨deadlines.size, r.value, r.writtenAt, weight⟩)))
      (update ref key (some r)) now := by
  have hpushed := hrepresents.push (Mark.ofInstant? r.deadline)
  constructor
  · refine hpushed.lodged.fill (by simp) fun other found _ hfound => ?_
    exact Nat.ne_of_lt (hrepresents.lodged.allocated other found hfound)
  · rw [records_update, Reference.visible_update, Reference.visible_update, hpushed.visible]
    simp [Holder.record]

/-- The deadline of a holder in a slot moves. -/
theorem refresh (hrepresents : Represents deadlines slots ref now)
    (hslot : slots key = some (.holder h)) (deadline : Option Instant) :
    Represents (deadlines.setIfInBounds h.id (Mark.ofInstant? deadline)) slots
      (update ref key (some ⟨h.value, h.writtenAt, deadline⟩)) now := by
  have hid := hrepresents.lodged.allocated key h hslot
  have hrecords : records (deadlines.setIfInBounds h.id (Mark.ofInstant? deadline)) slots =
      update (records deadlines slots) key (some ⟨h.value, h.writtenAt, deadline⟩) := by
    funext other
    by_cases hother : other = key
    · subst hother
      simp [records, hslot, Holder.record, hid]
    · rw [update_of_ne hother, records, records]
      cases hfound : slots other with
      | none => rfl
      | some slot =>
        cases slot with
        | fault f => rfl
        | holder found =>
          have hne : h.id ≠ found.id := fun hsame =>
            hother (hrepresents.lodged.distinct key other h found hslot hfound hsame).symm
          simp [Holder.record, Array.getElem?_setIfInBounds_ne hne]
  refine ⟨⟨hrepresents.lodged.settled, fun other found hfound => ?_,
    hrepresents.lodged.distinct⟩, ?_⟩
  · rw [Array.size_setIfInBounds]
    exact hrepresents.lodged.allocated other found hfound
  · rw [hrecords, Reference.visible_update, Reference.visible_update, hrepresents.visible]

end Represents

end Updates

/-! ## Looking -/

namespace Store

theorem expired_eq (s : Store K V) (h : Holder V) (now : Instant) :
    s.expired h now = !(h.record s.deadlines).isVisible now := by
  rw [expired, deadline, Holder.record, Record.isVisible]
  cases (s.deadlines[h.id]?.getD Mark.unset).instant? with
  | none => rfl
  | some deadline =>
    rw [Option.all_some, Bool.eq_iff_iff]
    simp [Instant.le_def, Instant.lt_def]

variable [DecidableEq K] {s : Store K V} {ref : Reference K V} {key : K} {now : Instant}
  {h : Holder V}

/-- The store as it is represents a reference. -/
def Represents (s : Store K V) (ref : Reference K V) (now : Instant) : Prop :=
  SharedCache.Represents s.deadlines s.map.get? ref now

/-- A store without any slot represents the empty reference. -/
theorem represents_of_empty (hempty : ∀ key, s.map.get? key = none) :
    s.Represents (fun _ => none) now := by
  refine ⟨⟨by simp [hempty], by simp [hempty], by simp [hempty]⟩, ?_⟩
  funext key
  simp [Reference.visible, records, hempty]

/-- What a look at a slot finds, and what the reference shows of the key. -/
inductive Finds (s : Store K V) (ref : Reference K V) (key : K) (now : Instant) : Prop where
  | absent : s.map.get? key = none → s.look key now = .absent → ref.visible now key = none →
      Finds s ref key now
  | stale {h : Holder V} : s.map.get? key = some (.holder h) → s.expired h now = true →
      s.look key now = .stale h → ref.visible now key = none → Finds s ref key now
  | live {h : Holder V} : s.map.get? key = some (.holder h) → s.expired h now = false →
      s.look key now = .live h → ref.visible now key = some (h.record s.deadlines) →
      Finds s ref key now

/-- A look finds out whether the reference shows something. -/
theorem Represents.finds (hrepresents : s.Represents ref now) (key : K) : s.Finds ref key now := by
  have hvisible : ref.visible now key = (records s.deadlines s.map.get? key).filter
      fun r => r.isVisible now := by
    rw [← hrepresents.visible]
    rfl
  cases hslot : s.map.get? key with
  | none =>
    refine .absent hslot (by simp [look, hslot]) ?_
    rw [hvisible, records, hslot]
    rfl
  | some slot =>
    cases slot with
    | fault f => exact absurd hslot (hrepresents.lodged.settled key f)
    | holder h =>
      have hrecord : ref.visible now key =
          if (h.record s.deadlines).isVisible now then some (h.record s.deadlines) else none := by
        rw [hvisible, records, hslot]
        simp [Option.filter]
      cases hexpired : s.expired h now with
      | true =>
        refine .stale hslot hexpired (by simp [look, hslot, hexpired]) ?_
        rw [hrecord, if_neg]
        simpa [s.expired_eq] using hexpired
      | false =>
        refine .live hslot hexpired (by simp [look, hslot, hexpired]) ?_
        rw [hrecord, if_pos]
        simpa [s.expired_eq] using hexpired

end Store

end SharedCache
