import Mathlib.Data.List.Induction
import Mathlib.Data.List.Nodup
import Mathlib.Data.List.Perm.Basic
import SharedCache.Proofs.Entry.Dense

/-!
# Histories of a segment

A segment that begins empty and is changed in any way stays dense: it stores each key once, and its
index contains the stored keys, each with its position, and nothing else.  Whatever the positions
have become meanwhile, a key has what the last change of it has left there.
-/

namespace SharedCache

namespace Segment

variable {K S : Type}

/-- A change of a segment. -/
inductive Change (K S : Type) where
  | insert (key : K) (slot : S)
  | erase (key : K)
  deriving DecidableEq

namespace Change

/-- The key whose slot is changed. -/
def key : Change K S → K
  | .insert key _ => key
  | .erase key => key

/-- The slot that the key is left with. -/
def slot? : Change K S → Option S
  | .insert _ slot => some slot
  | .erase _ => none

end Change

/-- The stored keys with their positions. -/
def positions (s : Segment K S) : List (K × Nat) :=
  s.slots.toList.zipIdx.map fun stored => (stored.1.1, stored.2)

theorem mem_positions_iff {s : Segment K S} {key : K} {i : Nat} :
    (key, i) ∈ s.positions ↔ ∃ slot, s.slots[i]? = some (key, slot) := by
  rw [positions, List.mem_map]
  constructor
  · rintro ⟨⟨⟨stored, slot⟩, j⟩, hmem, heq⟩
    obtain ⟨rfl, rfl⟩ := Prod.mk.inj heq
    exact ⟨slot, by simpa using List.mem_zipIdx_iff_getElem?.mp hmem⟩
  · rintro ⟨slot, hslot⟩
    exact ⟨((key, slot), i), List.mem_zipIdx_iff_getElem?.mpr (by simpa using hslot), rfl⟩

/-- No position is listed twice. -/
theorem nodup_positions (s : Segment K S) : s.positions.Nodup := by
  have hsnd : s.positions.map Prod.snd = List.range' 0 s.slots.toList.length := by
    rw [positions, List.map_map]
    exact List.zipIdx_map_snd 0 s.slots.toList
  refine List.Nodup.of_map Prod.snd ?_
  rw [hsnd]
  exact List.nodup_range'

variable [DecidableEq K]

/-- The segment after a change, and the slot that the change returns. -/
def change (s : Segment K S) : Change K S → Segment K S × Option S
  | .insert key slot => s.insert key slot
  | .erase key => s.erase key

/-- The segment after a sequence of changes. -/
def changed (s : Segment K S) (changes : List (Change K S)) : Segment K S :=
  changes.foldl (fun s c => (s.change c).1) s

/-- What the last change of a key has left it with. -/
def leftBy (changes : List (Change K S)) (key : K) : Option S :=
  (changes.findRev? fun c => c.key = key).bind Change.slot?

theorem changed_snoc (s : Segment K S) (changes : List (Change K S)) (c : Change K S) :
    s.changed (changes ++ [c]) = ((s.changed changes).change c).1 := by
  simp [changed]

/-! ## The index -/

/-- The index names no key twice. -/
def IsIndexed (s : Segment K S) : Prop := (s.index.map Prod.fst).Nodup

theorem IsIndexed.mem_iff {s : Segment K S} (hs : s.IsIndexed) {key : K} {i : Nat} :
    (key, i) ∈ s.index ↔ s.position? key = some i := by
  rw [position?, List.lookup_eq_some_iff]
  constructor
  · intro hmem
    obtain ⟨front, back, hindex⟩ := List.append_of_mem hmem
    refine ⟨front, back, hindex, fun entry hentry => ?_⟩
    have hnodup : ((front ++ (key, i) :: back).map Prod.fst).Nodup := hindex ▸ hs
    rw [List.map_append, List.map_cons, List.nodup_middle, List.nodup_cons] at hnodup
    have hfront : entry.1 ∈ front.map Prod.fst := List.mem_map_of_mem hentry
    have hne : key ≠ entry.1 := by
      rintro rfl
      exact hnodup.1 (List.mem_append_left _ hfront)
    simpa using hne
  · rintro ⟨front, back, hindex, -⟩
    simp [hindex]

theorem IsIndexed.insert {s : Segment K S} (hs : s.IsIndexed) (key : K) (slot : S) :
    (s.insert key slot).1.IsIndexed := by
  cases hpos : s.position? key with
  | none =>
    have hnew : key ∉ s.index.map Prod.fst := by
      rintro hmem
      obtain ⟨entry, hentry, rfl⟩ := List.mem_map.mp hmem
      simpa using List.lookup_eq_none_iff.mp hpos entry hentry
    simpa [IsIndexed, Segment.insert, hpos, hnew] using hs
  | some i => simpa [IsIndexed, Segment.insert, hpos] using hs

/-- Removing a key takes its entry out of the index and keeps the other keys in their order. -/
theorem keys_reindex (index : List (K × Nat)) (removed moved : K) (i : Nat) :
    (reindex index removed moved i).map Prod.fst =
      (index.filter fun entry => entry.1 ≠ removed).map Prod.fst := by
  rw [reindex, List.map_map]
  refine List.map_congr_left fun entry _ => ?_
  simp only [Function.comp_apply]
  split <;> rfl

theorem IsIndexed.erase {s : Segment K S} (hs : s.IsIndexed) (key : K) :
    (s.erase key).1.IsIndexed := by
  rw [Segment.erase]
  split
  · exact hs
  · split
    · exact hs
    · rw [IsIndexed, keys_reindex]
      exact List.Nodup.sublist (List.filter_sublist.map Prod.fst) hs

/-- In a segment whose two parts fit together the index is the list of the positions. -/
theorem IsIndexed.perm_positions {s : Segment K S} (hindexed : s.IsIndexed) (hvalid : s.Valid) :
    s.index.Perm s.positions := by
  refine (List.perm_ext_iff_of_nodup (List.Nodup.of_map _ hindexed) s.nodup_positions).mpr ?_
  rintro ⟨key, i⟩
  rw [hindexed.mem_iff, hvalid key i, mem_positions_iff]

/-! ## Changes -/

theorem Valid.change {s : Segment K S} (hs : s.Valid) (c : Change K S) : (s.change c).1.Valid := by
  cases c with
  | insert key slot => exact hs.insert key slot
  | erase key => exact hs.erase key

theorem IsIndexed.change {s : Segment K S} (hs : s.IsIndexed) (c : Change K S) :
    (s.change c).1.IsIndexed := by
  cases c with
  | insert key slot => exact hs.insert key slot
  | erase key => exact hs.erase key

/-- A change decides about its own key and about no other one. -/
theorem Valid.get?_change {s : Segment K S} (hs : s.Valid) (c : Change K S) (key : K) :
    (s.change c).1.get? key = if key = c.key then c.slot? else s.get? key := by
  cases c with
  | insert own slot =>
    change (s.insert own slot).1.get? key = if key = own then some slot else s.get? key
    split
    · next hkey => rw [hkey, hs.get?_insert_self]
    · next hkey => exact hs.get?_insert_of_ne hkey slot
  | erase own =>
    change (s.erase own).1.get? key = if key = own then none else s.get? key
    split
    · next hkey => rw [hkey, hs.get?_erase_self]
    · next hkey => exact hs.get?_erase_of_ne hkey

/-- A removal takes the last slot to the freed position and leaves all others where they are. -/
theorem Valid.slots_erase {s : Segment K S} (hs : s.Valid) {key : K} {i : Nat}
    (hpos : s.position? key = some i) :
    (s.erase key).1.slots.size + 1 = s.slots.size ∧ ∀ j, j + 1 < s.slots.size →
      (s.erase key).1.slots[j]? = if j = i then s.slots.back? else s.slots[j]? := by
  obtain ⟨last, hlast⟩ := hs.exists_back hpos
  have hi := hs.position_lt hpos
  rw [erase_of_some hpos hlast]
  constructor
  · simp only [Array.size_pop, Array.size_setIfInBounds]
    omega
  · intro j hj
    rw [getElem?_pop_setIfInBounds, if_pos hj, hlast]
    by_cases hij : i = j
    · rw [if_pos hij, if_pos hij.symm]
    · rw [if_neg hij, if_neg (Ne.symm hij)]

theorem valid_changed (changes : List (Change K S)) :
    (changed empty changes : Segment K S).Valid := by
  induction changes using List.reverseRecOn with
  | nil => exact valid_empty
  | append_singleton changes c ih =>
    rw [changed_snoc]
    exact ih.change c

theorem isIndexed_changed (changes : List (Change K S)) :
    (changed empty changes : Segment K S).IsIndexed := by
  induction changes using List.reverseRecOn with
  | nil => exact List.nodup_nil
  | append_singleton changes c ih =>
    rw [changed_snoc]
    exact ih.change c

theorem leftBy_snoc (changes : List (Change K S)) (c : Change K S) (key : K) :
    leftBy (changes ++ [c]) key = if key = c.key then c.slot? else leftBy changes key := by
  rw [leftBy, leftBy, List.findRev?_eq_find?_reverse, List.findRev?_eq_find?_reverse,
    List.reverse_append, List.reverse_singleton, List.singleton_append, List.find?_cons]
  by_cases hkey : key = c.key
  · simp [hkey]
  · simp [hkey, Ne.symm hkey]

theorem get?_changed (changes : List (Change K S)) (key : K) :
    (changed empty changes : Segment K S).get? key = leftBy changes key := by
  induction changes using List.reverseRecOn with
  | nil => rfl
  | append_singleton changes c ih =>
    rw [changed_snoc, (valid_changed changes).get?_change, leftBy_snoc, ih]

/-! ## Dense segments -/

/-- A segment that stores its slots densely. -/
structure IsDense (s : Segment K S) : Prop where
  /-- No key is stored twice. -/
  nodup_keys : (s.slots.toList.map Prod.fst).Nodup
  /-- The index contains the stored keys, each with its position, and nothing else. -/
  index : s.index.Perm s.positions
  /-- So whoever looks a key up accesses an existing position, and finds the slot of that key. -/
  inside : ∀ key i, s.position? key = some i →
    ∃ h : i < s.slots.size, s.slots[i].1 = key ∧ s.get? key = some s.slots[i].2

/-- What a change of the segment does. -/
structure Obeys (s : Segment K S) (c : Change K S) : Prop where
  /-- The change returns what the key had. -/
  returned : (s.change c).2 = s.get? c.key
  /-- The key is left with what the change says. -/
  own : (s.change c).1.get? c.key = c.slot?
  /-- Nothing else is found under another key. -/
  others : ∀ key, key ≠ c.key → (s.change c).1.get? key = s.get? key
  /-- A removal moves the last slot into the freed position. -/
  moved : ∀ key i, c = .erase key → s.position? key = some i →
    (s.change c).1.slots.size + 1 = s.slots.size ∧ ∀ j, j + 1 < s.slots.size →
      (s.change c).1.slots[j]? = if j = i then s.slots.back? else s.slots[j]?

theorem Valid.inside {s : Segment K S} (hs : s.Valid) {key : K} {i : Nat}
    (hpos : s.position? key = some i) :
    ∃ h : i < s.slots.size, s.slots[i].1 = key ∧ s.get? key = some s.slots[i].2 := by
  obtain ⟨slot, hslot⟩ := (hs key i).mp hpos
  obtain ⟨hi, hentry⟩ := Array.getElem?_eq_some_iff.mp hslot
  refine ⟨hi, by rw [hentry], ?_⟩
  rw [get?, hpos, Option.bind_some, hslot, hentry]
  rfl

theorem Valid.obeys {s : Segment K S} (hs : s.Valid) (c : Change K S) : s.Obeys c := by
  constructor
  case returned =>
    cases c with
    | insert key slot => exact s.insert_snd key slot
    | erase key => exact hs.erase_snd key
  case own => rw [hs.get?_change, if_pos rfl]
  case others =>
    intro key hkey
    rw [hs.get?_change, if_neg hkey]
  case moved =>
    rintro key i rfl hpos
    exact hs.slots_erase hpos

/-- Whatever sequence of changes an empty segment has gone through, it is dense, obeys the next
change, and keeps under every key what the last change of that key has left there. -/
theorem staysDense (changes : List (Change K S)) :
    (changed empty changes : Segment K S).IsDense ∧
      (∀ c, (changed empty changes).Obeys c) ∧
      ∀ key, (changed empty changes).get? key = leftBy changes key := by
  have hvalid : (changed empty changes : Segment K S).Valid := valid_changed changes
  have hindexed : (changed empty changes : Segment K S).IsIndexed := isIndexed_changed changes
  refine ⟨⟨hvalid.nodup_keys, hindexed.perm_positions hvalid, ?_⟩, hvalid.obeys,
    get?_changed changes⟩
  intro key i hpos
  exact hvalid.inside hpos

/-- Of four slots the second and then the first are removed: the last and then the new last one
have moved. -/
example : (changed empty [.insert 1 'a', .insert 2 'b', .insert 3 'c', .insert 4 'd', .erase 2,
    .erase 1] : Segment Nat Char).slots = #[(3, 'c'), (4, 'd')] := by
  decide

end Segment

end SharedCache
