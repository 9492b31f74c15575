import SharedCache.Proofs.Deadlines
import SharedCache.Proofs.Records

/-!
# Withheld holders

Which holder a key has while a fault is in its slot.  The computation of the fault withholds the
live holder that the fault has taken the place of, and puts it back if its function fails.  So the
holder is lodged all the time, and only those sections count that write or empty the slot for good.

A fault that nobody computes any more may be left behind in a slot.  It withholds nothing, and it is
never resolved.
-/

namespace SharedCache

open Function

variable {K V Q R : Type}

section Lodgings

variable [DecidableEq K]

/-- The holder that a computation in progress has taken out of the slot of a key for its fault. -/
def withheld (ongoing : List (Ongoing K V Q R)) (key : K) (fault : Nat) : Option (Holder V) :=
  ongoing.findSome? fun o =>
    match o with
    | .computes c _ => if c.key = key ∧ c.fault = fault then c.previous else none
    | _ => none

/-- The holder that a slot of a key stands for. -/
def Slot.lodger (ongoing : List (Ongoing K V Q R)) (key : K) : Slot V → Option (Holder V)
  | .holder h => some h
  | .fault f => withheld ongoing key f

/-- Some slots with the holders in them that they stand for. -/
def lodgings (ongoing : List (Ongoing K V Q R)) (slots : K → Option (Slot V)) (key : K) :
    Option (Slot V) :=
  ((slots key).bind (Slot.lodger ongoing key)).map Slot.holder

variable {ongoing ongoing' front back : List (Ongoing K V Q R)} {slots : K → Option (Slot V)}
  {key : K} {fault : Nat}

@[simp]
theorem withheld_nil : withheld ([] : List (Ongoing K V Q R)) key fault = none := rfl

@[simp]
theorem withheld_computes (c : Computation K V Q R) (progress : Progress V) :
    withheld [.computes c progress] key fault =
      if c.key = key ∧ c.fault = fault then c.previous else none := by
  rw [withheld, List.findSome?_singleton]

@[simp]
theorem withheld_seeks (operation : Operation K V Q R) :
    withheld [.seeks operation] key fault = none := rfl

@[simp]
theorem withheld_awaits (operation : Operation K V Q R) (awaited : Nat) :
    withheld [.awaits operation awaited] key fault = none := rfl

theorem withheld_append :
    withheld (front ++ back) key fault = (withheld front key fault).or (withheld back key fault) :=
  List.findSome?_append

theorem withheld_eq_none (hnone : fault ∉ faultsOf ongoing) :
    withheld ongoing key fault = none := by
  refine List.findSome?_eq_none_iff.mpr fun o ho => ?_
  cases o with
  | computes c progress =>
    refine if_neg fun hsame => hnone ?_
    rw [← hsame.2]
    exact mem_faultsOf ho
  | _ => rfl

/-- Only the computations of a key withhold what it has. -/
theorem withheld_of_others (hothers : ∀ c progress, .computes c progress ∈ ongoing → c.key ≠ key)
    (fault : Nat) : withheld ongoing key fault = none := by
  refine List.findSome?_eq_none_iff.mpr fun o ho => ?_
  cases o with
  | computes c progress => exact if_neg fun hsame => hothers c progress ho hsame.1
  | _ => rfl

/-- A computation withholds what it has taken the place of. -/
theorem withheld_of_mem {c : Computation K V Q R} {progress : Progress V}
    (hnodup : (faultsOf ongoing).Nodup) (hmem : .computes c progress ∈ ongoing) :
    withheld ongoing c.key c.fault = c.previous := by
  obtain ⟨front, back, rfl⟩ := List.append_of_mem hmem
  rw [faultsOf_append, faultsOf_cons_computes, List.nodup_middle, List.nodup_cons,
    List.mem_append, not_or] at hnodup
  rw [← List.singleton_append, withheld_append, withheld_append, withheld_eq_none hnodup.1.1,
    withheld_eq_none hnodup.1.2, withheld_computes, if_pos ⟨rfl, rfl⟩]
  simp

/-- What counts of one stretch of what is going on is what it withholds. -/
theorem withheld_replace {old new : List (Ongoing K V Q R)}
    (hsame : withheld new key fault = withheld old key fault) :
    withheld (front ++ new ++ back) key fault = withheld (front ++ old ++ back) key fault := by
  simp only [withheld_append, hsame]

theorem lodgings_congr (hsame : ∀ key fault, slots key = some (.fault fault) →
    withheld ongoing' key fault = withheld ongoing key fault) :
    lodgings ongoing' slots = lodgings ongoing slots := by
  funext key
  rw [lodgings, lodgings]
  cases hslot : slots key with
  | none => rfl
  | some slot =>
    cases slot with
    | holder h => rfl
    | fault fault =>
      simp only [Option.bind_some, Slot.lodger]
      rw [hsame key fault hslot]

/-- One slot gets other contents, and nothing becomes of the computations of other keys. -/
theorem lodgings_update {slot : Option (Slot V)}
    (hothers : ∀ other, other ≠ key → ∀ fault,
      withheld ongoing' other fault = withheld ongoing other fault) :
    lodgings ongoing' (update slots key slot) =
      update (lodgings ongoing slots) key ((slot.bind (Slot.lodger ongoing' key)).map .holder) := by
  funext other
  by_cases hother : other = key
  · subst hother
    simp [lodgings]
  · rw [update_of_ne hother, lodgings, lodgings, update_of_ne hother]
    cases slots other with
    | none => rfl
    | some found =>
      cases found with
      | holder h => rfl
      | fault fault =>
        simp only [Option.bind_some, Slot.lodger]
        rw [hothers other hother fault]

theorem lodgings_of_holder {h : Holder V} (hslot : slots key = some (.holder h)) :
    lodgings ongoing slots key = some (.holder h) := by
  rw [lodgings, hslot]
  rfl

theorem lodgings_of_fault (hslot : slots key = some (.fault fault)) :
    lodgings ongoing slots key = (withheld ongoing key fault).map .holder := by
  rw [lodgings, hslot]
  rfl

theorem lodgings_of_none (hslot : slots key = none) : lodgings ongoing slots key = none := by
  rw [lodgings, hslot]
  rfl

/-- Where nothing is withheld the slot has its holder itself. -/
theorem lodgings_eq_some {h : Holder V}
    (hnone : ∀ fault, slots key = some (.fault fault) → withheld ongoing key fault = none) :
    lodgings ongoing slots key = some (.holder h) ↔ slots key = some (.holder h) := by
  rw [lodgings]
  cases hslot : slots key with
  | none => simp
  | some slot =>
    cases slot with
    | holder found => simp [Slot.lodger]
    | fault fault => simp [Slot.lodger, hnone fault hslot]

end Lodgings

/-! ## Faults in slots -/

section Faults

variable [DecidableEq K] [DecidableEq V] {settings : Settings K V Q R} {m : Machine K V Q R}
  {p : Passage K V Q R} {key : K} {fault : Nat}

/-- A fault that is in a slot after a passage was there before, or a computation has just put it
there. -/
theorem Passage.Lawful.fault_cases (hp : p.Lawful settings) (hm : p.before.Reachable settings)
    (hslot : p.after.slot? key = some (.fault fault)) :
    p.before.slot? key = some (.fault fault) ∨
      ∃ c, .computes c .begun ∈ p.after.ongoing ∧ c.key = key ∧ c.fault = fault := by
  obtain ⟨front, old, new, back, -, hnew, hturnover⟩ := hp.turnover
  have hspared : p.Spares → p.before.slot? key = some (.fault fault) := fun hspares => by
    rw [← hslot, Machine.slot?, Machine.slot?, hspares.map]
  cases hturnover with
  | rests _ hspares => exact .inl (hspared hspares)
  | calls _ _ hspares => exact .inl (hspared hspares)
  | drops _ _ _ hspares => exact .inl (hspared hspares)
  | moves _ _ _ hspares => exact .inl (hspared hspares)
  | acts hsection hdeed =>
    rw [Machine.slot?, hsection.store] at hslot
    cases hdeed.handed hm.accounted.map.valid hslot with
    | @begun c hmem hkey hfault =>
      refine .inr ⟨c, ?_, hkey, hfault⟩
      rw [hnew]
      exact List.mem_append_left _ (List.mem_append_right _ hmem)
    | kept hsame => exact .inl hsame

/-- The fault of a computation is in no slot but that of its key. -/
theorem Machine.Reachable.key_eq_of_fault (hm : m.Reachable settings) {c : Computation K V Q R}
    {progress : Progress V} (hmem : .computes c progress ∈ m.ongoing)
    (hslot : m.slot? key = some (.fault c.fault)) : key = c.key := by
  obtain ⟨start, trace, hstart, run⟩ := hm
  induction run generalizing progress with
  | rest =>
    rw [Machine.slot?, hstart.get?_eq_none] at hslot
    cases hslot
  | @move trace p run hp ih =>
    have hbefore := run.reachable hstart
    have hafter : p.after.Reachable settings := (run.move hp).reachable hstart
    rcases hp.fault_cases hbefore hslot with hold | ⟨c', hbegun, hkey, hfault⟩
    · rcases hp.computation_cases hmem with ⟨progress', hgoing⟩ | hnew
      · exact ih hgoing hold
      · exact absurd (hbefore.fault_lt key c.fault hold) (by omega)
    · have hone : (c', .begun) ∈ p.after.owners c.fault := Machine.mem_owners.mpr ⟨hbegun, hfault⟩
      rw [Machine.owners_eq hafter.owned hmem, List.mem_singleton] at hone
      rw [← hkey, (Prod.mk.inj hone).1]

/-- A section that resolves a fault leaves it in no slot. -/
theorem Stage.Deed.unresolved {s : Store K V} {stage : Stage K V Q R} {turn : StoreTurn K V Q R}
    (hdeed : stage.Deed settings s turn) (hvalid : s.map.Valid)
    (hkeys : ∀ c progress, .computes c progress ∈ stage.ongoing → c.fault = fault → c.key = key)
    (hlt : fault < s.faults.size) (hbefore : s.resolution? fault = none)
    (hslot : turn.state.map.get? key = some (.fault fault)) :
    turn.state.resolution? fault = none := by
  have hhanded := hdeed.handed hvalid hslot
  have hchange := hdeed.faultChange
  generalize hold : faultsOf stage.ongoing = old at hchange
  generalize hnew : faultsOf turn.ongoing = new at hchange
  cases hchange with
  | same hfaults => rwa [Store.resolution?, hfaults]
  | begins hfaults =>
    rw [Store.resolution?, hfaults, Array.getElem?_push, if_neg (Nat.ne_of_lt hlt)]
    exact hbefore
  | @ends other resolution hfaults =>
    have hother : other ≠ fault := by
      rintro rfl
      obtain ⟨c, progress, ho, rfl⟩ :=
        exists_of_mem_faultsOf (hold ▸ List.mem_singleton.mpr rfl : other ∈ faultsOf stage.ongoing)
      have hstays : ∃ c' progress', .computes c' progress' ∈ turn.ongoing := by
        cases hhanded with
        | begun hbegun => exact ⟨_, _, hbegun⟩
        | kept _ hgoesOn =>
          obtain ⟨progress', hmem⟩ := hgoesOn c progress ho (hkeys c progress ho rfl) rfl
          exact ⟨c, progress', hmem⟩
      obtain ⟨c', progress', hmem⟩ := hstays
      have hnone := mem_faultsOf hmem
      rw [hnew] at hnone
      cases hnone
    rw [Store.resolution?, hfaults, Store.resolve]
    split
    · exact hbefore
    · rw [Array.getElem?_setIfInBounds_ne hother]
      exact hbefore

/-- A fault in a slot is not resolved. -/
theorem Machine.Reachable.unresolved_of_fault (hm : m.Reachable settings)
    (hslot : m.slot? key = some (.fault fault)) : m.world.store.resolution? fault = none := by
  obtain ⟨start, trace, hstart, run⟩ := hm
  induction run with
  | rest =>
    rw [Machine.slot?, hstart.get?_eq_none] at hslot
    cases hslot
  | @move trace p run hp ih =>
    have hbefore := run.reachable hstart
    have hafter : p.after.Reachable settings := (run.move hp).reachable hstart
    rcases hp.fault_cases hbefore hslot with hold | ⟨c, hbegun, -, rfl⟩
    · obtain ⟨front, old, new, back, hgoing, -, hturnover⟩ := hp.turnover
      have hspared : p.Spares → p.after.world.store.resolution? fault = none := fun hspares => by
        rw [Store.resolution?, hspares.faults]
        exact ih hold
      cases hturnover with
      | rests _ hspares => exact hspared hspares
      | calls _ _ hspares => exact hspared hspares
      | drops _ _ _ hspares => exact hspared hspares
      | moves _ _ _ hspares => exact hspared hspares
      | acts hsection hdeed =>
        rw [Machine.slot?, hsection.store] at hslot
        rw [hsection.store]
        refine hdeed.unresolved hbefore.accounted.map.valid (fun c progress hmem hfault => ?_)
          (hbefore.fault_lt key fault hold) (ih hold) hslot
        subst hfault
        have hcomputes : .computes c progress ∈ p.before.ongoing := by
          rw [hgoing]
          exact List.mem_append_left _ (List.mem_append_right _ hmem)
        exact (hbefore.key_eq_of_fault hcomputes hold).symm
    · rw [Store.resolution?, hafter.owned.pending c.fault (mem_faultsOf hbegun)]
      rfl

end Faults

end SharedCache
