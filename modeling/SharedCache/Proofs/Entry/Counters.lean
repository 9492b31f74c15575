import Mathlib.Algebra.GroupWithZero.Nat
import SharedCache.Entry.Map
import SharedCache.Proofs.Entry.Dense

/-!
# The counters of the entry map

An entry map is valid when each of its segments is and every key lies in the segment it belongs to.
Then the map behaves as one function from keys to slots, whatever the number of segments, and its
two counters can be compared with the slots: every change of a slot adjusts both counters by exactly
what the new and the old slot contribute, and no decrement exceeds what was counted.
-/

namespace SharedCache

/-- Replacing one element of a list replaces one stretch of what the list expands to. -/
theorem exists_flatMap_set {A B : Type} (f : A → List B) {l : List A} {i : Nat} {a : A}
    (ha : l[i]? = some a) :
    ∃ front back, l.flatMap f = front ++ f a ++ back ∧
      ∀ a', (l.set i a').flatMap f = front ++ f a' ++ back := by
  obtain ⟨hi, rfl⟩ := List.getElem?_eq_some_iff.mp ha
  refine ⟨(l.take i).flatMap f, (l.drop (i + 1)).flatMap f, ?_, fun a' => ?_⟩
  · conv_lhs => rw [← List.take_append_drop i l, List.drop_eq_getElem_cons hi]
    rw [List.flatMap_append, List.flatMap_cons, List.append_assoc]
  · rw [List.set_eq_take_append_cons_drop, if_pos hi]
    simp

theorem modify_const {A : Type} (l : Array A) (i : Nat) (a : A) :
    (l.modify i fun _ => a) = l.setIfInBounds i a := by
  refine Array.ext_getElem? fun j => ?_
  rw [Array.getElem?_modify, Array.getElem?_setIfInBounds]
  by_cases hij : i = j
  · subst hij
    by_cases hi : i < l.size
    · simp [hi]
    · simp [hi]
  · simp [hij]

namespace Slot

variable {V : Type}

@[simp]
theorem holder?_holder (h : Holder V) : (holder h).holder? = some h := rfl

@[simp]
theorem holder?_fault (id : Nat) : (fault id : Slot V).holder? = none := rfl

theorem holder?_eq_some_iff {slot : Slot V} {h : Holder V} :
    slot.holder? = some h ↔ slot = .holder h := by
  cases slot <;> simp

@[simp]
theorem count_holder (h : Holder V) : (holder h).count = 1 := rfl

@[simp]
theorem count_fault (id : Nat) : (fault id : Slot V).count = 0 := rfl

@[simp]
theorem weight_holder (h : Holder V) : (holder h).weight = h.weight := rfl

@[simp]
theorem weight_fault (id : Nat) : (fault id : Slot V).weight = 0 := rfl

theorem total_eq_sum (measure : Slot V → Nat) (slots : List (Slot V)) :
    total measure slots = (slots.map measure).sum := by
  induction slots with
  | nil => rfl
  | cons slot slots ih => simp [total, ih]

end Slot

namespace EntryMap

variable {K V : Type}

/-- What the slots of a map contribute to a measure. -/
def total (m : EntryMap K V) (measure : Slot V → Nat) : Nat :=
  (m.slots.map fun slot => measure slot.2).sum

/-- The counters tell the number and the weight of the slots that contain a holder. -/
structure Balanced (m : EntryMap K V) : Prop where
  entryCount : m.entryCount = m.total Slot.count
  weightedSize : m.weightedSize = m.total Slot.weight

theorem length_entries (m : EntryMap K V) : m.entries.length = m.total Slot.count := by
  rw [entries, total]
  induction m.slots with
  | nil => rfl
  | cons slot slots ih =>
    obtain ⟨key, slot⟩ := slot
    cases slot with
    | holder h => simp [ih, Nat.add_comm]
    | fault f => simp [List.filterMap_cons, ih]

theorem sum_weight_entries (m : EntryMap K V) :
    (m.entries.map fun entry => entry.2.weight).sum = m.total Slot.weight := by
  rw [entries, total]
  induction m.slots with
  | nil => rfl
  | cons slot slots ih =>
    obtain ⟨key, slot⟩ := slot
    cases slot with
    | holder h => simp [ih]
    | fault f => simp [List.filterMap_cons, ih]

theorem mem_entries_iff (m : EntryMap K V) (key : K) (h : Holder V) :
    (key, h) ∈ m.entries ↔ (key, .holder h) ∈ m.slots := by
  rw [entries]
  rw [List.mem_filterMap]
  constructor
  · rintro ⟨⟨other, slot⟩, hmem, hslot⟩
    cases slot with
    | holder h' =>
      obtain ⟨rfl, rfl⟩ : other = key ∧ h' = h := by simpa using hslot
      exact hmem
    | fault f => simp at hslot
  · intro hmem
    exact ⟨(key, .holder h), hmem, rfl⟩

theorem getElem?_segmentOf (m : EntryMap K V) (key : K) :
    m.segments[m.segmentOf key]? = some (m.segment key) :=
  Array.getElem?_eq_getElem (m.segmentOf_lt key)

section Replace

variable {m m' : EntryMap K V} {i : Nat} {segment old : Segment K (Slot V)}

theorem segmentOf_of_replace (hplace : m'.place = m.place)
    (hsegments : m'.segments = m.segments.setIfInBounds i segment) (key : K) :
    m'.segmentOf key = m.segmentOf key := by
  simp [segmentOf, hplace, hsegments]

/-- Replacing a segment changes every total by the difference of the two segments. -/
theorem total_of_replace (hsegments : m'.segments = m.segments.setIfInBounds i segment)
    (hold : m.segments[i]? = some old) (measure : Slot V → Nat) :
    m'.total measure + (old.slots.toList.map fun slot => measure slot.2).sum =
      m.total measure + (segment.slots.toList.map fun slot => measure slot.2).sum := by
  have hlist : m.segments.toList[i]? = some old := by simpa using hold
  obtain ⟨front, back, hbefore, hafter⟩ :=
    exists_flatMap_set (fun segment : Segment K (Slot V) => segment.slots.toList) hlist
  have hset : m'.slots = front ++ segment.slots.toList ++ back := by
    rw [slots, hsegments, Array.toList_setIfInBounds]
    exact hafter segment
  simp only [total]
  rw [hset, slots, hbefore]
  simp only [List.map_append, List.sum_append]
  omega

end Replace

variable [DecidableEq K]

/-- Every segment is valid and contains only keys that belong to it. -/
structure Valid (m : EntryMap K V) : Prop where
  segments : ∀ (i : Nat) (part : Segment K (Slot V)), m.segments[i]? = some part → part.Valid
  placed : ∀ (i : Nat) (part : Segment K (Slot V)), m.segments[i]? = some part →
    ∀ slot ∈ part.slots.toList, m.segmentOf slot.1 = i

theorem Valid.segment {m : EntryMap K V} (hm : m.Valid) (key : K) : (m.segment key).Valid :=
  hm.segments _ _ (m.getElem?_segmentOf key)

theorem Valid.mem_slots_iff {m : EntryMap K V} (hm : m.Valid) (key : K) (slot : Slot V) :
    (key, slot) ∈ m.slots ↔ m.get? key = some slot := by
  rw [get?, slots]
  rw [(hm.segment key).get?_eq_some_iff, List.mem_flatMap]
  constructor
  · rintro ⟨segment, hsegment, hslot⟩
    obtain ⟨i, hi⟩ := Array.mem_iff_getElem?.mp (Array.mem_toList_iff.mp hsegment)
    have hplace := hm.placed i segment hi (key, slot) hslot
    have hsame := m.getElem?_segmentOf key
    rw [hplace, hi] at hsame
    obtain rfl : segment = m.segment key := by simpa using hsame
    exact hslot
  · intro hslot
    refine ⟨m.segment key, ?_, hslot⟩
    exact Array.mem_toList_iff.mpr (Array.mem_of_getElem? (m.getElem?_segmentOf key))

theorem Valid.mem_entries {m : EntryMap K V} (hm : m.Valid) (key : K) (h : Holder V) :
    (key, h) ∈ m.entries ↔ m.get? key = some (.holder h) := by
  rw [mem_entries_iff, hm.mem_slots_iff]

theorem Valid.nodup_keys {m : EntryMap K V} (hm : m.Valid) : (m.slots.map Prod.fst).Nodup := by
  rw [slots]
  rw [List.map_flatMap, List.nodup_flatMap]
  constructor
  · intro segment hsegment
    obtain ⟨i, hi⟩ := Array.mem_iff_getElem?.mp (Array.mem_toList_iff.mp hsegment)
    exact (hm.segments i segment hi).nodup_keys
  · rw [List.pairwise_iff_getElem]
    intro i j hi hj hij key hleft hright
    obtain ⟨left, hleft, hleftKey⟩ := List.mem_map.mp hleft
    obtain ⟨right, hright, hrightKey⟩ := List.mem_map.mp hright
    have hfirst := hm.placed i _ (by simp) left hleft
    have hsecond := hm.placed j _ (by simp) right hright
    rw [hleftKey] at hfirst
    rw [hrightKey] at hsecond
    omega

/-- No key has two entries. -/
theorem Valid.nodup_entries {m : EntryMap K V} (hm : m.Valid) :
    (m.entries.map Prod.fst).Nodup := by
  refine hm.nodup_keys.sublist ?_
  rw [entries]
  rw [List.map_filterMap]
  induction m.slots with
  | nil => simp
  | cons slot slots ih =>
    obtain ⟨key, slot⟩ := slot
    cases slot with
    | holder h => simpa using ih
    | fault f => simpa [List.filterMap_cons] using ih.cons key

/-! ## Replacing a segment -/

section Replace

variable {m m' : EntryMap K V} {i : Nat} {segment : Segment K (Slot V)}

theorem Valid.of_replace (hm : m.Valid) (hplace : m'.place = m.place)
    (hsegments : m'.segments = m.segments.setIfInBounds i segment) (hsegment : segment.Valid)
    (hkeys : ∀ slot ∈ segment.slots.toList, m.segmentOf slot.1 = i) : m'.Valid := by
  constructor
  · intro j found hfound
    rw [hsegments, Array.getElem?_setIfInBounds] at hfound
    split at hfound
    · split at hfound
      · obtain rfl : segment = found := by simpa using hfound
        exact hsegment
      · cases hfound
    · exact hm.segments j found hfound
  · intro j found hfound slot hslot
    rw [segmentOf_of_replace hplace hsegments]
    rw [hsegments, Array.getElem?_setIfInBounds] at hfound
    split at hfound
    · next hij =>
      split at hfound
      · obtain rfl : segment = found := by simpa using hfound
        exact hij ▸ hkeys slot hslot
      · cases hfound
    · exact hm.placed j found hfound slot hslot

theorem get?_of_replace (hplace : m'.place = m.place)
    (hsegments : m'.segments = m.segments.setIfInBounds i segment) (hi : i < m.segments.size)
    (key : K) :
    m'.get? key = if m.segmentOf key = i then segment.get? key else m.get? key := by
  have hfound := m'.getElem?_segmentOf key
  rw [segmentOf_of_replace hplace hsegments, hsegments, Array.getElem?_setIfInBounds] at hfound
  simp only [get?]
  by_cases hkey : m.segmentOf key = i
  · rw [if_pos hkey.symm, if_pos (hkey ▸ hi)] at hfound
    rw [if_pos hkey, Option.some.inj hfound]
  · rw [if_neg (Ne.symm hkey), m.getElem?_segmentOf key] at hfound
    rw [if_neg hkey, Option.some.inj hfound]

end Replace

/-! ## Writing, removing and clearing -/

@[simp]
theorem place_insert (m : EntryMap K V) (key : K) (slot : Slot V) :
    (m.insert key slot).place = m.place := rfl

@[simp]
theorem place_erase (m : EntryMap K V) (key : K) : (m.erase key).place = m.place := rfl

theorem segments_insert (m : EntryMap K V) (key : K) (slot : Slot V) :
    (m.insert key slot).segments =
      m.segments.setIfInBounds (m.segmentOf key) ((m.segment key).insert key slot).1 := rfl

theorem segments_erase (m : EntryMap K V) (key : K) :
    (m.erase key).segments =
      m.segments.setIfInBounds (m.segmentOf key) ((m.segment key).erase key).1 := rfl

omit [DecidableEq K] in
@[simp]
theorem place_clearSegment (m : EntryMap K V) (i : Nat) : (m.clearSegment i).place = m.place := rfl

omit [DecidableEq K] in
theorem segments_clearSegment (m : EntryMap K V) (i : Nat) :
    (m.clearSegment i).segments = m.segments.setIfInBounds i Segment.empty :=
  modify_const _ _ _

/-- The keys of the slots in a key's segment all belong there. -/
theorem Valid.placed_segment {m : EntryMap K V} (hm : m.Valid) (key : K)
    {slot : K × Slot V} (hslot : slot ∈ (m.segment key).slots.toList) :
    m.segmentOf slot.1 = m.segmentOf key :=
  hm.placed _ _ (m.getElem?_segmentOf key) slot hslot

theorem Valid.insert {m : EntryMap K V} (hm : m.Valid) (key : K) (slot : Slot V) :
    (m.insert key slot).Valid := by
  refine hm.of_replace rfl (segments_insert m key slot) ((hm.segment key).insert key slot) ?_
  intro found hfound
  have hmem := ((hm.segment key).perm_insert key slot).mem_iff.mp (List.mem_append_left _ hfound)
  rcases List.mem_cons.mp hmem with hnew | hold
  · rw [hnew]
  · exact hm.placed_segment key hold

theorem Valid.erase {m : EntryMap K V} (hm : m.Valid) (key : K) : (m.erase key).Valid := by
  refine hm.of_replace rfl (segments_erase m key) ((hm.segment key).erase key) ?_
  intro found hfound
  have hmem := ((hm.segment key).perm_erase key).mem_iff.mp (List.mem_append_left _ hfound)
  exact hm.placed_segment key hmem

theorem Valid.clearSegment {m : EntryMap K V} (hm : m.Valid) (i : Nat) :
    (m.clearSegment i).Valid := by
  refine hm.of_replace rfl (segments_clearSegment m i) Segment.valid_empty ?_
  intro found hfound
  simp [Segment.empty] at hfound

theorem valid_empty (place : K → Nat) (segments : Nat) (h : 0 < segments) :
    (empty place segments h : EntryMap K V).Valid := by
  constructor
  · intro i part hpart
    obtain ⟨_, rfl⟩ := Array.getElem?_eq_some_iff.mp hpart
    simpa [empty] using Segment.valid_empty
  · intro i part hpart slot hslot
    obtain ⟨_, rfl⟩ := Array.getElem?_eq_some_iff.mp hpart
    simp [empty, Segment.empty] at hslot

theorem Valid.get?_insert {m : EntryMap K V} (hm : m.Valid) (key : K) (slot : Slot V)
    (other : K) :
    (m.insert key slot).get? other = if other = key then some slot else m.get? other := by
  rw [get?_of_replace (m.place_insert key slot) (segments_insert m key slot) (m.segmentOf_lt key)]
  by_cases hother : other = key
  · subst hother
    rw [if_pos rfl, if_pos rfl, (hm.segment other).get?_insert_self]
  · rw [if_neg hother, (hm.segment key).get?_insert_of_ne hother]
    split
    · next hsegment => simp only [get?, EntryMap.segment, hsegment]
    · rfl

theorem Valid.get?_erase {m : EntryMap K V} (hm : m.Valid) (key other : K) :
    (m.erase key).get? other = if other = key then none else m.get? other := by
  rw [get?_of_replace (m.place_erase key) (segments_erase m key) (m.segmentOf_lt key)]
  by_cases hother : other = key
  · subst hother
    rw [if_pos rfl, if_pos rfl, (hm.segment other).get?_erase_self]
  · rw [if_neg hother, (hm.segment key).get?_erase_of_ne hother]
    split
    · next hsegment => simp only [get?, EntryMap.segment, hsegment]
    · rfl

theorem get?_clearSegment (m : EntryMap K V) (i : Nat) (key : K) :
    (m.clearSegment i).get? key = if m.segmentOf key = i then none else m.get? key := by
  by_cases hi : i < m.segments.size
  · rw [get?_of_replace (m.place_clearSegment i) (segments_clearSegment m i) hi]
    rfl
  · have hkey : m.segmentOf key ≠ i := by
      have hlt := m.segmentOf_lt key
      omega
    have hsame : (m.clearSegment i).segments = m.segments := by
      rw [segments_clearSegment, Array.setIfInBounds_eq_of_size_le (by omega)]
    rw [if_neg hkey]
    simp only [get?, EntryMap.segment, segmentOf, hsame, place_clearSegment]

/-- What a write leaves of a total and what it takes away make up what it adds. -/
theorem Valid.total_insert {m : EntryMap K V} (hm : m.Valid) (key : K) (slot : Slot V)
    (measure : Slot V → Nat) :
    (m.insert key slot).total measure + (m.get? key).elim 0 measure =
      m.total measure + measure slot := by
  have hreplace := total_of_replace (segments_insert m key slot) (m.getElem?_segmentOf key) measure
  have hperm := ((hm.segment key).perm_insert key slot).map fun slot => measure slot.2
  have hsum := hperm.sum_nat
  simp only [List.map_append, List.map_cons, List.sum_append, List.sum_cons] at hsum
  have hold : ((((m.segment key).get? key).map (Prod.mk key)).toList.map
      fun slot => measure slot.2).sum = (m.get? key).elim 0 measure := by
    rw [get?]
    cases (m.segment key).get? key <;> simp
  omega

theorem Valid.total_erase {m : EntryMap K V} (hm : m.Valid) (key : K)
    (measure : Slot V → Nat) :
    (m.erase key).total measure + (m.get? key).elim 0 measure = m.total measure := by
  have hreplace := total_of_replace (segments_erase m key) (m.getElem?_segmentOf key) measure
  have hperm := ((hm.segment key).perm_erase key).map fun slot => measure slot.2
  have hsum := hperm.sum_nat
  simp only [List.map_append, List.sum_append] at hsum
  have hold : ((((m.segment key).get? key).map (Prod.mk key)).toList.map
      fun slot => measure slot.2).sum = (m.get? key).elim 0 measure := by
    rw [get?]
    cases (m.segment key).get? key <;> simp
  omega

/-- The slots of one segment. -/
def slotsOf (m : EntryMap K V) (i : Nat) : List (Slot V) :=
  (m.segments[i]?.getD Segment.empty).slots.toList.map Prod.snd

omit [DecidableEq K] in
theorem total_clearSegment (m : EntryMap K V) (i : Nat) (measure : Slot V → Nat) :
    (m.clearSegment i).total measure + Slot.total measure (m.slotsOf i) = m.total measure := by
  rw [Slot.total_eq_sum]
  rw [slotsOf]
  cases hold : m.segments[i]? with
  | none =>
    have hsame : (m.clearSegment i).segments = m.segments := by
      rw [segments_clearSegment,
        Array.setIfInBounds_eq_of_size_le (Array.getElem?_eq_none_iff.mp hold)]
    simp [total, slots, hsame, Segment.empty]
  | some old =>
    have hreplace := total_of_replace (segments_clearSegment m i) hold measure
    simpa [Segment.empty, Function.comp_def] using hreplace

/-! ## The counters follow the slots -/

omit [DecidableEq K] in
theorem slots_empty (place : K → Nat) (segments : Nat) (h : 0 < segments) :
    (empty place segments h : EntryMap K V).slots = [] := by
  simp [slots, empty, Segment.empty]

omit [DecidableEq K] in
theorem balanced_empty (place : K → Nat) (segments : Nat) (h : 0 < segments) :
    (empty place segments h : EntryMap K V).Balanced := by
  constructor
  · rw [total, slots_empty]
    rfl
  · rw [total, slots_empty]
    rfl

theorem Balanced.insert {m : EntryMap K V} (hm : m.Valid) (hb : m.Balanced) (key : K)
    (slot : Slot V) : (m.insert key slot).Balanced := by
  have hold : ((m.segment key).insert key slot).2 = m.get? key :=
    (m.segment key).insert_snd key slot
  have hcount := hm.total_insert key slot Slot.count
  have hweight := hm.total_insert key slot Slot.weight
  constructor
  · show m.entryCount + slot.count - ((m.segment key).insert key slot).2.elim 0 Slot.count = _
    rw [hold, hb.entryCount, ← hcount]
    exact Nat.add_sub_cancel _ _
  · show m.weightedSize + slot.weight - ((m.segment key).insert key slot).2.elim 0 Slot.weight = _
    rw [hold, hb.weightedSize, ← hweight]
    exact Nat.add_sub_cancel _ _

theorem Balanced.erase {m : EntryMap K V} (hm : m.Valid) (hb : m.Balanced) (key : K) :
    (m.erase key).Balanced := by
  have hold : ((m.segment key).erase key).2 = m.get? key := (hm.segment key).erase_snd key
  have hcount := hm.total_erase key Slot.count
  have hweight := hm.total_erase key Slot.weight
  constructor
  · show m.entryCount - ((m.segment key).erase key).2.elim 0 Slot.count = _
    rw [hold, hb.entryCount, ← hcount]
    exact Nat.add_sub_cancel _ _
  · show m.weightedSize - ((m.segment key).erase key).2.elim 0 Slot.weight = _
    rw [hold, hb.weightedSize, ← hweight]
    exact Nat.add_sub_cancel _ _

omit [DecidableEq K] in
theorem Balanced.clearSegment {m : EntryMap K V} (hb : m.Balanced) (i : Nat) :
    (m.clearSegment i).Balanced := by
  have hcount := total_clearSegment m i Slot.count
  have hweight := total_clearSegment m i Slot.weight
  constructor
  · show m.entryCount - Slot.total Slot.count (m.slotsOf i) = _
    rw [hb.entryCount, ← hcount]
    exact Nat.add_sub_cancel _ _
  · show m.weightedSize - Slot.total Slot.weight (m.slotsOf i) = _
    rw [hb.weightedSize, ← hweight]
    exact Nat.add_sub_cancel _ _

end EntryMap

/-! ## Edits -/

/-- One change of an entry map. -/
inductive Edit (K V : Type) where
  | put (key : K) (slot : Slot V)
  | erase (key : K)
  /-- Empties a segment. -/
  | clear (segment : Nat)

namespace EntryMap

variable {K V : Type} [DecidableEq K]

/-- Carries out a change. -/
def edit (m : EntryMap K V) : Edit K V → EntryMap K V
  | .put key slot => m.insert key slot
  | .erase key => m.erase key
  | .clear segment => m.clearSegment segment

/-- The slots that a change takes away and whose contributions it subtracts from the counters. -/
def removedBy (m : EntryMap K V) : Edit K V → List (Slot V)
  | .put key _ | .erase key => (m.get? key).toList
  | .clear segment => m.slotsOf segment

/-- No decrement of either counter goes below zero when these slots are subtracted one after
another. -/
def Covers (m : EntryMap K V) (removed : List (Slot V)) : Prop :=
  Slot.total Slot.count removed ≤ m.entryCount ∧ Slot.total Slot.weight removed ≤ m.weightedSize

/-- Carries out several changes one after another. -/
def edited (m : EntryMap K V) (edits : List (Edit K V)) : EntryMap K V := edits.foldl edit m

/-- No decrement goes below zero in any of several changes. -/
def CoversAll (m : EntryMap K V) : List (Edit K V) → Prop
  | [] => True
  | e :: edits => m.Covers (m.removedBy e) ∧ (m.edit e).CoversAll edits

theorem size_edit (m : EntryMap K V) (e : Edit K V) :
    (m.edit e).segments.size = m.segments.size := by
  cases e with
  | put key slot => rw [edit, segments_insert, Array.size_setIfInBounds]
  | erase key => rw [edit, segments_erase, Array.size_setIfInBounds]
  | clear segment => rw [edit, segments_clearSegment, Array.size_setIfInBounds]

/-- No change adds or takes a segment. -/
theorem size_edited (m : EntryMap K V) (edits : List (Edit K V)) :
    (m.edited edits).segments.size = m.segments.size := by
  induction edits generalizing m with
  | nil => rfl
  | cons e edits ih =>
    calc ((m.edit e).edited edits).segments.size = (m.edit e).segments.size := ih (m.edit e)
      _ = m.segments.size := m.size_edit e

theorem Valid.edit {m : EntryMap K V} (hm : m.Valid) (e : Edit K V) : (m.edit e).Valid := by
  cases e with
  | put key slot => exact hm.insert key slot
  | erase key => exact hm.erase key
  | clear segment => exact hm.clearSegment segment

theorem Balanced.edit {m : EntryMap K V} (hm : m.Valid) (hb : m.Balanced) (e : Edit K V) :
    (m.edit e).Balanced := by
  cases e with
  | put key slot => exact hb.insert hm key slot
  | erase key => exact hb.erase hm key
  | clear segment => exact hb.clearSegment segment

/-- What a change takes away is at most what the map contains. -/
theorem Valid.total_removedBy_le {m : EntryMap K V} (hm : m.Valid) (e : Edit K V)
    (measure : Slot V → Nat) : Slot.total measure (m.removedBy e) ≤ m.total measure := by
  have hkey : ∀ key, Slot.total measure (m.get? key).toList ≤ m.total measure := by
    intro key
    have herase := hm.total_erase key measure
    cases hget : m.get? key with
    | none => exact Nat.zero_le _
    | some slot =>
      rw [hget] at herase
      simp only [Option.elim_some] at herase
      simp only [Option.toList_some, Slot.total]
      omega
  cases e with
  | put key slot => exact hkey key
  | erase key => exact hkey key
  | clear segment =>
    have hclear := total_clearSegment m segment measure
    simp only [removedBy]
    omega

theorem Balanced.covers {m : EntryMap K V} (hm : m.Valid) (hb : m.Balanced) (e : Edit K V) :
    m.Covers (m.removedBy e) := by
  constructor
  · rw [hb.entryCount]
    exact hm.total_removedBy_le e Slot.count
  · rw [hb.weightedSize]
    exact hm.total_removedBy_le e Slot.weight

theorem Balanced.coversAll {m : EntryMap K V} (hm : m.Valid) (hb : m.Balanced)
    (edits : List (Edit K V)) : m.CoversAll edits := by
  induction edits generalizing m with
  | nil => trivial
  | cons e edits ih => exact ⟨hb.covers hm e, ih (hm.edit e) (hb.edit hm e)⟩

end EntryMap

end SharedCache
