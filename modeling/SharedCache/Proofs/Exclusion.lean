import SharedCache.Proofs.Accounting
import SharedCache.Proofs.SingleKey

/-!
# Exclusion

Two mapping functions of one key never run at the same time, unless somebody overwrites or removes
the fault of the key while it is pending.  The fault in the slot keeps every other operation from
beginning a computation, and it stays there until its own computation ends.
-/

namespace SharedCache

variable {K V Q R : Type} [DecidableEq K]

namespace Machine

/-- The computations of a key whose mapping functions are running. -/
def running (m : Machine K V Q R) (key : K) : List (Computation K V Q R) :=
  (m.computing key).filterMap fun computation =>
    match computation.2 with
    | .running => some computation.1
    | _ => none

/-- A key has at most one computation, and the fault of that one is in its slot. -/
structure Exclusive (key : K) (m : Machine K V Q R) : Prop where
  alone : (m.computing key).length ≤ 1
  slot : ∀ c progress, (c, progress) ∈ m.computing key → m.slot? key = some (.fault c.fault)

variable {key : K} {m m' : Machine K V Q R}

theorem Exclusive.length_running (hm : m.Exclusive key) : (m.running key).length ≤ 1 :=
  le_trans (List.length_filterMap_le _ _) hm.alone

theorem exclusive_of_nil (hnone : m.computing key = []) : m.Exclusive key := by
  constructor
  · simp [hnone]
  · simp [hnone]

/-- A key without a fault has no computation. -/
theorem Exclusive.computing_eq_nil (hm : m.Exclusive key)
    (hfree : ∀ fault, m.slot? key ≠ some (.fault fault)) : m.computing key = [] := by
  apply List.eq_nil_iff_forall_not_mem.mpr
  rintro ⟨c, progress⟩ hmem
  exact hfree c.fault (hm.slot c progress hmem)

/-- Computations may go on, or be given up, while the slot stays as it is. -/
theorem Exclusive.of_sublist (hm : m.Exclusive key) (hslot : m'.slot? key = m.slot? key)
    (hsublist : ((m'.computing key).map Prod.fst).Sublist ((m.computing key).map Prod.fst)) :
    m'.Exclusive key := by
  constructor
  · have hlength := hsublist.length_le
    rw [List.length_map, List.length_map] at hlength
    exact le_trans hlength hm.alone
  · intro c progress hmem
    obtain ⟨⟨found, progress'⟩, hfound, rfl⟩ :=
      List.mem_map.mp (hsublist.subset (List.mem_map_of_mem hmem))
    rw [hslot]
    exact hm.slot found progress' hfound

end Machine

variable [DecidableEq V] {settings : Settings K V Q R} {key : K}

/-- A passage keeps the computations of a key exclusive unless it hits a pending fault. -/
theorem Passage.Lawful.exclusive {p : Passage K V Q R} (hp : p.Lawful settings)
    (hvalid : p.before.world.store.map.Valid) (hbefore : p.before.Exclusive key)
    (hspared : p.Hits key → ∀ fault, p.before.slot? key ≠ some (.fault fault)) :
    p.after.Exclusive key := by
  obtain ⟨front, old, new, back, hold, hnew, haffair⟩ := hp.affair hvalid key
  have hcomputing : p.before.computing key = front.filterMap Ongoing.computation? ++
      old.filterMap Ongoing.computation? ++ back.filterMap Ongoing.computation? := by
    simp [Machine.computing, hold]
  have hcomputing' : p.after.computing key = front.filterMap Ongoing.computation? ++
      new.filterMap Ongoing.computation? ++ back.filterMap Ongoing.computation? := by
    simp [Machine.computing, hnew]
  -- Most passages leave the slot as it is and begin no computation.
  have hgoesOn : p.after.slot? key = p.before.slot? key →
      ((new.filterMap Ongoing.computation?).map Prod.fst).Sublist
        ((old.filterMap Ongoing.computation?).map Prod.fst) → p.after.Exclusive key := by
    intro hslot hsublist
    apply hbefore.of_sublist hslot
    rw [hcomputing, hcomputing']
    simp only [List.map_append]
    exact (hsublist.append_left _).append_right _
  have hfree : (∀ fault, p.before.slot? key ≠ some (.fault fault)) →
      front.filterMap Ongoing.computation? = [] ∧ back.filterMap Ongoing.computation? = [] := by
    intro hslot
    have hnone := hbefore.computing_eq_nil hslot
    rw [hcomputing] at hnone
    obtain ⟨hfront, hback⟩ := List.append_eq_nil_iff.mp hnone
    exact ⟨(List.append_eq_nil_iff.mp hfront).1, hback⟩
  generalize p.act? settings key = act at haffair
  cases haffair with
  | idle hslot => exact hgoesOn hslot (List.Sublist.refl _)
  | looks hslot => exact hgoesOn hslot (List.Sublist.refl _)
  | called _ hslot => exact hgoesOn hslot (List.Sublist.refl _)
  | waits _ hslot => exact hgoesOn hslot (List.Sublist.refl _)
  | resumes _ _ hslot => exact hgoesOn hslot (List.Sublist.refl _)
  | shares _ _ hslot => exact hgoesOn hslot (List.Sublist.refl _)
  | givesUp _ hslot => exact hgoesOn hslot (List.Sublist.refl _)
  | crashes _ _ _ hslot => exact hgoesOn hslot (List.Sublist.refl _)
  | maps _ hslot => exact hgoesOn hslot (List.Sublist.refl _)
  | unwinds _ hslot => exact hgoesOn hslot (List.Sublist.refl _)
  | balks _ hslot => exact hgoesOn hslot (List.Sublist.refl _)
  | returns hslot => exact hgoesOn hslot (List.Sublist.refl _)
  | composes _ _ hslot => exact hgoesOn hslot (List.Sublist.refl _)
  | drops _ _ hslot => exact hgoesOn hslot (List.nil_sublist _)
  | disturbed _ hnone _ hhits =>
    obtain ⟨hfront, hback⟩ := hfree fun fault hslot => hspared (hhits ⟨fault, hslot⟩) fault hslot
    have hnothing : new.filterMap Ongoing.computation? = [] := by
      apply List.filterMap_eq_nil_iff.mpr
      intro o ho
      cases o with
      | computes c progress => exact absurd (List.mem_append_right _ ho) (hnone c progress)
      | awaits operation fault => rfl
      | seeks operation => rfl
    apply Machine.exclusive_of_nil
    rw [hcomputing', hfront, hback, hnothing]
    rfl
  | decides hslot =>
    obtain ⟨hfront, hback⟩ := hfree hslot
    apply Machine.exclusive_of_nil
    rw [hcomputing', hfront, hback]
    rfl
  | @begins operation c hkey _ hslot hslot' =>
    obtain ⟨hfront, hback⟩ := hfree hslot
    rw [hfront, hback] at hcomputing'
    have hone : p.after.computing key = [(c, .begun)] := hcomputing'
    constructor
    · simp [hone]
    · intro found progress hmem
      rw [hone] at hmem
      obtain ⟨rfl, -⟩ := Prod.mk.inj (List.mem_singleton.mp hmem)
      exact hslot'
  | @ends c left resolution signal =>
    have halone := hbefore.alone
    have hone : [Ongoing.computes c (.leaving left resolution signal)].filterMap
        Ongoing.computation? = [(c, .leaving left resolution signal)] := rfl
    rw [hcomputing, hone] at halone
    simp only [List.length_append, List.length_singleton] at halone
    have hfront : front.filterMap Ongoing.computation? = [] :=
      List.eq_nil_of_length_eq_zero (by omega)
    have hback : back.filterMap Ongoing.computation? = [] :=
      List.eq_nil_of_length_eq_zero (by omega)
    apply Machine.exclusive_of_nil
    rw [hcomputing', hfront, hback]
    rfl

/-- The computations of a key exclude each other as long as no pending fault of it is hit. -/
theorem Run.exclusive {start m : Machine K V Q R} {trace : List (Passage K V Q R)}
    (hstart : start.Fresh settings) (run : Run settings start trace m)
    (hspared : ∀ p ∈ trace, p.Hits key → ∀ fault, p.before.slot? key ≠ some (.fault fault)) :
    m.Exclusive key := by
  induction run with
  | rest =>
    apply Machine.exclusive_of_nil
    simp [Machine.computing, Machine.concerning, Machine.ongoing, hstart.threads]
  | @move trace p hrun hp ih =>
    have hvalid := (hrun.reachable hstart).accounted.map.valid
    apply hp.exclusive hvalid
    · exact ih fun q hq => hspared q (List.mem_append_left _ hq)
    · exact hspared p (by simp)

end SharedCache
