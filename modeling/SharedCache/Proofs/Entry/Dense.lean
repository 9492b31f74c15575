import Mathlib.Data.List.Nodup
import Mathlib.Data.List.Perm.Basic
import SharedCache.Entry.Segment

/-!
# Dense segments

A segment finds its slots through an index that has to follow every move of a slot.  This file
states the one fact that ties the two parts of a segment together, shows that writing and removing
slots keep it, and derives how both operations change what is found under a key and which slots the
segment contains.
-/

namespace SharedCache

namespace Segment

variable {K S : Type} [DecidableEq K]

/-- The index gives each key the position at which its slot is stored.  Positions are unique, so the
keys of the stored slots are distinct. -/
def Valid (s : Segment K S) : Prop :=
  ∀ key i, s.position? key = some i ↔ ∃ slot, s.slots[i]? = some (key, slot)

theorem valid_empty : (empty : Segment K S).Valid := by
  intro key i
  simp [empty, position?]

/-- The indexed position is inside the array. -/
theorem Valid.position_lt {s : Segment K S} (hs : s.Valid) {key : K} {i : Nat}
    (hi : s.position? key = some i) : i < s.slots.size := by
  obtain ⟨slot, hslot⟩ := (hs key i).mp hi
  exact (Array.getElem?_eq_some_iff.mp hslot).choose

theorem Valid.get?_eq_some_iff {s : Segment K S} (hs : s.Valid) {key : K} {slot : S} :
    s.get? key = some slot ↔ (key, slot) ∈ s.slots.toList := by
  rw [get?]
  constructor
  · intro hget
    obtain ⟨i, hi, hvalue⟩ := Option.bind_eq_some_iff.mp hget
    obtain ⟨stored, hstored⟩ := (hs key i).mp hi
    rw [hstored] at hvalue
    obtain rfl : stored = slot := by simpa using hvalue
    exact Array.mem_toList_iff.mpr (Array.mem_of_getElem? hstored)
  · intro hmem
    obtain ⟨i, hi⟩ := Array.mem_iff_getElem?.mp (Array.mem_toList_iff.mp hmem)
    have hpos := (hs key i).mpr ⟨slot, hi⟩
    rw [hpos]
    simp [hi]

theorem Valid.nodup_keys {s : Segment K S} (hs : s.Valid) :
    (s.slots.toList.map Prod.fst).Nodup := by
  rw [List.nodup_iff_injective_getElem]
  rintro ⟨i, hi⟩ ⟨j, hj⟩ hkeys
  simp only [List.length_map, Array.length_toList] at hi hj
  have hfirst : s.position? s.slots[i].1 = some i :=
    (hs _ _).mpr ⟨s.slots[i].2, by simp [hi]⟩
  have hsecond : s.position? s.slots[j].1 = some j :=
    (hs _ _).mpr ⟨s.slots[j].2, by simp [hj]⟩
  have hkey : s.slots[i].1 = s.slots[j].1 := by simpa using hkeys
  rw [hkey, hsecond] at hfirst
  simpa using hfirst.symm

/-- What is found under a key depends on nothing but the stored slots. -/
theorem Valid.get?_congr {s t : Segment K S} (hs : s.Valid) (ht : t.Valid) {key : K}
    (hsame : ∀ slot, (key, slot) ∈ s.slots.toList ↔ (key, slot) ∈ t.slots.toList) :
    s.get? key = t.get? key := by
  refine Option.ext fun slot => ?_
  rw [hs.get?_eq_some_iff, ht.get?_eq_some_iff]
  exact hsame slot

/-! ## Writing a slot -/

theorem position?_insert_new {s : Segment K S} {key : K} (hnew : s.position? key = none)
    (slot : S) (other : K) :
    (s.insert key slot).1.position? other =
      if other = key then some s.slots.size else s.position? other := by
  rw [insert]
  rw [hnew]
  simp only [position?, List.lookup_cons]
  by_cases hother : other = key
  · simp [hother]
  · rw [if_neg hother, beq_false_of_ne hother]

theorem position?_insert_old {s : Segment K S} {key : K} {i : Nat}
    (hold : s.position? key = some i) (slot : S) (other : K) :
    (s.insert key slot).1.position? other = s.position? other := by
  rw [insert]
  rw [hold]
  rfl

theorem Valid.insert {s : Segment K S} (hs : s.Valid) (key : K) (slot : S) :
    (s.insert key slot).1.Valid := by
  intro other j
  cases hpos : s.position? key with
  | none =>
    rw [position?_insert_new hpos]
    have hslots : (s.insert key slot).1.slots = s.slots.push (key, slot) := by
      simp [Segment.insert, hpos]
    rw [hslots, Array.getElem?_push]
    by_cases hother : other = key
    · subst hother
      rw [if_pos rfl]
      constructor
      · rintro h
        obtain rfl : s.slots.size = j := by simpa using h
        exact ⟨slot, by simp⟩
      · rintro ⟨found, hfound⟩
        by_cases hj : j = s.slots.size
        · simp [hj]
        · rw [if_neg hj] at hfound
          have hindexed := (hs other j).mpr ⟨found, hfound⟩
          rw [hpos] at hindexed
          cases hindexed
    · rw [if_neg hother, hs other j]
      by_cases hj : j = s.slots.size
      · simp [hj, Ne.symm hother]
      · rw [if_neg hj]
  | some i =>
    rw [position?_insert_old hpos]
    have hslots : (s.insert key slot).1.slots = s.slots.setIfInBounds i (key, slot) := by
      simp [Segment.insert, hpos]
    have hi := hs.position_lt hpos
    rw [hslots, Array.getElem?_setIfInBounds]
    by_cases hj : i = j
    · subst hj
      rw [if_pos rfl, if_pos hi]
      constructor
      · intro h
        obtain ⟨found, hfound⟩ := (hs other i).mp h
        obtain ⟨stored, hstored⟩ := (hs key i).mp hpos
        rw [hfound] at hstored
        obtain ⟨rfl, rfl⟩ : other = key ∧ found = stored := by simpa using hstored
        exact ⟨slot, rfl⟩
      · rintro ⟨found, hfound⟩
        obtain ⟨rfl, rfl⟩ : key = other ∧ slot = found := by simpa using hfound
        exact hpos
    · rw [if_neg hj, hs other j]

/-- The slot that a write reports is the one that the key had. -/
theorem insert_snd (s : Segment K S) (key : K) (slot : S) :
    (s.insert key slot).2 = s.get? key := by
  rw [Segment.insert, get?]
  cases s.position? key <;> rfl

theorem Valid.get?_insert_self {s : Segment K S} (hs : s.Valid) (key : K) (slot : S) :
    (s.insert key slot).1.get? key = some slot := by
  rw [(hs.insert key slot).get?_eq_some_iff]
  cases hpos : s.position? key with
  | none => simp [Segment.insert, hpos]
  | some i =>
    have hi := hs.position_lt hpos
    simp only [Segment.insert, hpos, Array.toList_setIfInBounds]
    exact List.mem_iff_getElem?.mpr ⟨i, by simp [hi]⟩

/-- A write adds its slot to the others and takes away the one that the key had. -/
theorem Valid.perm_insert {s : Segment K S} (hs : s.Valid) (key : K) (slot : S) :
    ((s.insert key slot).1.slots.toList ++ ((s.get? key).map (Prod.mk key)).toList).Perm
      ((key, slot) :: s.slots.toList) := by
  cases hpos : s.position? key with
  | none =>
    have hget : s.get? key = none := by simp [get?, hpos]
    simp only [Segment.insert, hpos, hget, Array.toList_push, Option.map_none,
      Option.toList_none, List.append_nil]
    exact List.perm_append_singleton _ _
  | some i =>
    have hi := hs.position_lt hpos
    obtain ⟨stored, hstored⟩ := (hs key i).mp hpos
    have hget : s.get? key = some stored := by simp [get?, hpos, hstored]
    have hlist : i < s.slots.toList.length := by simpa using hi
    have hold : s.slots.toList[i] = (key, stored) := by
      simpa [hi] using hstored
    have hset := List.set_perm_cons_eraseIdx hlist (key, slot)
    have herase := List.getElem_cons_eraseIdx_perm hlist
    rw [hold] at herase
    simp only [Segment.insert, hpos, hget, Array.toList_setIfInBounds, Option.map_some,
      Option.toList_some]
    calc
      (s.slots.toList.set i (key, slot) ++ [(key, stored)]).Perm
          ((key, slot) :: s.slots.toList.eraseIdx i ++ [(key, stored)]) :=
        hset.append_right _
      List.Perm _ ((key, slot) :: (key, stored) :: s.slots.toList.eraseIdx i) :=
        (List.perm_append_singleton _ _).cons _
      List.Perm _ ((key, slot) :: s.slots.toList) := herase.cons _

theorem Valid.get?_insert_of_ne {s : Segment K S} (hs : s.Valid) {key other : K}
    (hne : other ≠ key) (slot : S) : (s.insert key slot).1.get? other = s.get? other := by
  refine (hs.insert key slot).get?_congr hs fun found => ?_
  have hmem := (hs.perm_insert key slot).mem_iff (a := (other, found))
  have hold : (other, found) ∉ ((s.get? key).map (Prod.mk key)).toList := by
    simp [Ne.symm hne]
  simpa [hold, hne] using hmem

/-! ## Removing a slot -/

/-- Removing a key makes it unknown to the index and gives the key of the last slot the freed
position. -/
theorem lookup_reindex (index : List (K × Nat)) (removed moved : K) (i : Nat) (other : K) :
    (reindex index removed moved i).lookup other =
      if other = removed then none
      else if other = moved then (index.lookup other).map fun _ => i
      else index.lookup other := by
  induction index with
  | nil => simp [reindex]
  | cons entry index ih =>
    obtain ⟨key, position⟩ := entry
    rw [reindex] at ih ⊢
    by_cases hremoved : key = removed
    · rw [List.filter_cons_of_neg (by simpa using hremoved), ih]
      by_cases hother : other = removed
      · simp [hother]
      · have hne : other ≠ key := fun h => hother (h.trans hremoved)
        simp [hother, List.lookup_cons, beq_false_of_ne hne]
    · rw [List.filter_cons_of_pos (by simpa using hremoved), List.map_cons]
      by_cases hkey : other = key
      · subst hkey
        by_cases hmoved : other = moved
        · have hne : moved ≠ removed := hmoved ▸ hremoved
          simp [hmoved, hne]
        · simp [hmoved, hremoved]
      · have hhead : ((if key = moved then (key, i) else (key, position)).1) = key := by
          split <;> rfl
        rw [List.lookup_cons, hhead, beq_false_of_ne hkey, ih]
        simp [List.lookup_cons, beq_false_of_ne hkey]

/-- What the array of slots becomes when the last slot takes the place of another one. -/
theorem getElem?_pop_setIfInBounds {A : Type} (slots : Array A) (last : A) (i j : Nat) :
    (slots.setIfInBounds i last).pop[j]? =
      if j + 1 < slots.size then if i = j then some last else slots[j]? else none := by
  rw [Array.getElem?_pop, Array.size_setIfInBounds, Array.getElem?_setIfInBounds]
  by_cases hj : j + 1 < slots.size
  · have hpop : j < slots.size - 1 := by omega
    have hsize : j < slots.size := by omega
    by_cases hij : i = j
    · subst hij
      simp [hj, hpop, hsize]
    · simp [hj, hpop, hij]
  · have hpop : ¬ j < slots.size - 1 := by omega
    simp [hj, hpop]

/-- Moving the last slot into the place of another one loses that one and nothing else. -/
theorem perm_pop_setIfInBounds {A : Type} {slots : Array A} {i : Nat} {a last : A}
    (ha : slots[i]? = some a) (hlast : slots.back? = some last) :
    ((slots.setIfInBounds i last).pop.toList ++ [a]).Perm slots.toList := by
  obtain ⟨initial, rfl⟩ : ∃ initial, slots = Array.push initial last := by
    obtain ⟨hne, -⟩ := Array.getElem?_eq_some_iff.mp (Array.back?_eq_getElem? ▸ hlast)
    obtain ⟨initial, final, rfl⟩ := Array.eq_push_of_size_ne_zero (by omega : slots.size ≠ 0)
    obtain rfl : final = last := by simpa using hlast
    exact ⟨initial, rfl⟩
  rw [Array.getElem?_push] at ha
  by_cases hi : i = initial.size
  · rw [if_pos hi] at ha
    obtain rfl : last = a := by simpa using ha
    simp [hi]
  · rw [if_neg hi] at ha
    obtain ⟨hbound, hvalue⟩ := Array.getElem?_eq_some_iff.mp ha
    have hlist : i < initial.toList.length := by simpa using hbound
    have hset := List.set_perm_cons_eraseIdx hlist last
    have herase := List.getElem_cons_eraseIdx_perm hlist
    have hmoved : ((initial.push last).setIfInBounds i last).pop.toList =
        initial.toList.set i last := by
      simp [List.set_append_left _ _ hlist]
    rw [hmoved, Array.toList_push]
    have hentry : initial.toList[i] = a := by simpa using hvalue
    rw [hentry] at herase
    calc
      (initial.toList.set i last ++ [a]).Perm (last :: initial.toList.eraseIdx i ++ [a]) :=
        hset.append_right _
      List.Perm _ (last :: a :: initial.toList.eraseIdx i) :=
        (List.perm_append_singleton _ _).cons _
      List.Perm _ (last :: initial.toList) := herase.cons _
      List.Perm _ (initial.toList ++ [last]) := (List.perm_append_singleton _ _).symm

/-- The last slot has the last position. -/
theorem Valid.position?_back {s : Segment K S} (hs : s.Valid) {last : K × S}
    (hlast : s.slots.back? = some last) : s.position? last.1 = some (s.slots.size - 1) := by
  refine (hs _ _).mpr ⟨last.2, ?_⟩
  rw [← hlast, Array.back?]

theorem erase_of_none {s : Segment K S} {key : K} (hpos : s.position? key = none) :
    s.erase key = (s, none) := by
  simp [erase, hpos]

theorem erase_of_some {s : Segment K S} {key : K} {i : Nat} {last : K × S}
    (hpos : s.position? key = some i) (hlast : s.slots.back? = some last) :
    s.erase key = (⟨reindex s.index key last.1 i, (s.slots.setIfInBounds i last).pop⟩,
      s.slots[i]?.map Prod.snd) := by
  simp [erase, hpos, hlast]

/-- A segment that knows a key has a last slot. -/
theorem Valid.exists_back {s : Segment K S} (hs : s.Valid) {key : K} {i : Nat}
    (hpos : s.position? key = some i) : ∃ last, s.slots.back? = some last := by
  have hi := hs.position_lt hpos
  exact ⟨_, Array.back?_eq_getElem? ▸ Array.getElem?_eq_getElem (by omega)⟩

theorem Valid.position?_erase {s : Segment K S} (hs : s.Valid) {key : K} {i : Nat}
    {last : K × S} (hpos : s.position? key = some i) (hlast : s.slots.back? = some last)
    (other : K) :
    (s.erase key).1.position? other =
      if other = key then none
      else if other = last.1 then some i
      else s.position? other := by
  rw [erase_of_some hpos hlast]
  simp only [position?]
  rw [lookup_reindex]
  by_cases hother : other = last.1
  · have hback : s.index.lookup last.1 = some (s.slots.size - 1) := hs.position?_back hlast
    simp [hother, hback]
  · simp [hother]

theorem Valid.erase {s : Segment K S} (hs : s.Valid) (key : K) : (s.erase key).1.Valid := by
  cases hpos : s.position? key with
  | none =>
    rw [erase_of_none hpos]
    exact hs
  | some i =>
    obtain ⟨last, hlast⟩ := hs.exists_back hpos
    have hback := hs.position?_back hlast
    have hi := hs.position_lt hpos
    obtain ⟨stored, hstored⟩ := (hs key i).mp hpos
    intro other j
    rw [hs.position?_erase hpos hlast]
    have hslots : (s.erase key).1.slots = (s.slots.setIfInBounds i last).pop := by
      rw [erase_of_some hpos hlast]
    rw [hslots, getElem?_pop_setIfInBounds]
    by_cases hkey : other = key
    · -- The removed key is stored nowhere any more.
      subst hkey
      rw [if_pos rfl]
      refine ⟨fun h => absurd h (by simp), ?_⟩
      rintro ⟨slot, hslot⟩
      split at hslot
      · next hj =>
        have hat : s.position? other = some j := by
          apply (hs other j).mpr
          split at hslot
          · next hij =>
            subst hij
            exact ⟨stored, hstored⟩
          · exact ⟨slot, hslot⟩
        obtain rfl : i = j := by simpa [hpos] using hat
        rw [if_pos rfl] at hslot
        obtain rfl : last = (other, slot) := by simpa using hslot
        have hsame : i = s.slots.size - 1 := by simpa [hpos] using hback
        omega
      · cases hslot
    · rw [if_neg hkey]
      by_cases hmoved : other = last.1
      · -- The last slot is found in the freed position and nowhere else.
        subst hmoved
        rw [if_pos rfl]
        have hne : i ≠ s.slots.size - 1 := by
          intro hsame
          rw [← hsame] at hback
          obtain ⟨found, hfound⟩ := (hs _ _).mp hback
          rw [hstored] at hfound
          exact hkey (by simpa using (congrArg (Option.map Prod.fst) hfound).symm)
        constructor
        · intro h
          obtain rfl : i = j := by simpa using h
          exact ⟨last.2, by rw [if_pos (by omega), if_pos rfl]⟩
        · rintro ⟨slot, hslot⟩
          split at hslot
          · next hj =>
            split at hslot
            · next hij => rw [hij]
            · have hat := (hs _ _).mpr ⟨slot, hslot⟩
              rw [hback] at hat
              have hend : s.slots.size - 1 = j := by simpa using hat
              omega
          · cases hslot
      · rw [if_neg hmoved, hs other j]
        have hend : j + 1 = s.slots.size → ∀ slot, s.slots[j]? ≠ some (other, slot) := by
          intro hj slot hslot
          have hat := (hs _ _).mpr ⟨slot, hslot⟩
          have hlast' : s.slots[j]? = some last := by
            rw [← hlast, Array.back?_eq_getElem?, ← hj, Nat.add_sub_cancel]
          rw [hlast'] at hslot
          exact hmoved (by simpa using congrArg (Option.map Prod.fst) hslot.symm)
        have hfreed : i = j → ∀ slot, s.slots[j]? ≠ some (other, slot) := by
          intro hij slot hslot
          subst hij
          rw [hstored] at hslot
          exact hkey (by simpa using congrArg (Option.map Prod.fst) hslot.symm)
        constructor
        · rintro ⟨slot, hslot⟩
          have hj : j < s.slots.size := (Array.getElem?_eq_some_iff.mp hslot).choose
          have hinside : j + 1 < s.slots.size := by
            rcases Nat.lt_or_eq_of_le hj with h | h
            · exact h
            · exact absurd hslot (hend h slot)
          refine ⟨slot, ?_⟩
          rw [if_pos hinside, if_neg fun hij => hfreed hij slot hslot]
          exact hslot
        · rintro ⟨slot, hslot⟩
          split at hslot
          · split at hslot
            · obtain rfl : last = (other, slot) := by simpa using hslot
              exact absurd rfl hmoved
            · exact ⟨slot, hslot⟩
          · cases hslot

/-- The slot that a removal reports is the one that the key had. -/
theorem Valid.erase_snd {s : Segment K S} (hs : s.Valid) (key : K) :
    (s.erase key).2 = s.get? key := by
  cases hpos : s.position? key with
  | none => simp [erase_of_none hpos, get?, hpos]
  | some i =>
    obtain ⟨last, hlast⟩ := hs.exists_back hpos
    simp [erase_of_some hpos hlast, get?, hpos]

theorem Valid.get?_erase_self {s : Segment K S} (hs : s.Valid) (key : K) :
    (s.erase key).1.get? key = none := by
  cases hpos : s.position? key with
  | none => simp [erase_of_none hpos, get?, hpos]
  | some i =>
    obtain ⟨last, hlast⟩ := hs.exists_back hpos
    simp [get?, hs.position?_erase hpos hlast]

/-- A removal takes away the slot that the key had. -/
theorem Valid.perm_erase {s : Segment K S} (hs : s.Valid) (key : K) :
    ((s.erase key).1.slots.toList ++ ((s.get? key).map (Prod.mk key)).toList).Perm
      s.slots.toList := by
  cases hpos : s.position? key with
  | none => simp [erase_of_none hpos, get?, hpos]
  | some i =>
    obtain ⟨last, hlast⟩ := hs.exists_back hpos
    have hi := hs.position_lt hpos
    obtain ⟨stored, hstored⟩ := (hs key i).mp hpos
    have hget : s.get? key = some stored := by simp [get?, hpos, hstored]
    rw [erase_of_some hpos hlast, hget]
    simp only [Option.map_some, Option.toList_some]
    exact perm_pop_setIfInBounds hstored hlast

theorem Valid.get?_erase_of_ne {s : Segment K S} (hs : s.Valid) {key other : K}
    (hne : other ≠ key) : (s.erase key).1.get? other = s.get? other := by
  refine (hs.erase key).get?_congr hs fun found => ?_
  have hmem := (hs.perm_erase key).mem_iff (a := (other, found))
  have hold : (other, found) ∉ ((s.get? key).map (Prod.mk key)).toList := by
    simp [Ne.symm hne]
  simpa [hold] using hmem

end Segment

end SharedCache
