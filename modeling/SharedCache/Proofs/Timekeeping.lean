import SharedCache.Proofs.Lifetimes
import SharedCache.Proofs.WithheldHolders

/-!
# Timekeeping

How the deadlines of a store go by a lifetime.  Each value that is lodged in the store is to be
visible just as long as the lifetime goes on from when it was written and used.  A slot can be
written, emptied or swept and a deadline moved, and each of these keeps to the lifetime if the times
of the key are kept accordingly.
-/

namespace SharedCache

open Function

variable {K V : Type}

/-! ## Deadlines and usages -/

/-- The record was written when the usage says, and its deadline is the end of the lifetime. -/
def Record.GoesBy (l : Lifetime) (r : Record V) (u : Usage) : Prop :=
  r.writtenAt = u.writtenAt ∧ l.Bounds u r.deadline

/-- From some time on slots and deadlines show the values whose lifetime goes on, by when they were
written and used. -/
structure Observes (l : Lifetime) (deadlines : Array Mark) (slots : K → Option (Slot V))
    (usages : K → Option Usage) (now : Instant) : Prop where
  represents : ∃ ref, Represents deadlines slots ref now ∧
    ∀ key, Option.Rel (Record.GoesBy l) (ref key) (usages key)
  written_le : ∀ key u, usages key = some u → u.writtenAt ≤ now

namespace Observes

variable {l : Lifetime} {deadlines : Array Mark} {slots : K → Option (Slot V)}
  {usages : K → Option Usage} {now later : Instant} {key : K} {h : Holder V} {u : Usage}

theorem mono (hobserves : Observes l deadlines slots usages now) (hle : now ≤ later) :
    Observes l deadlines slots usages later := by
  obtain ⟨⟨ref, hrepresents, hrel⟩, hwritten⟩ := hobserves
  exact ⟨⟨ref, hrepresents.mono hle, hrel⟩,
    fun key u hu => Nat.le_trans (hwritten key u hu) hle⟩

theorem push (hobserves : Observes l deadlines slots usages now) (mark : Mark) :
    Observes l (deadlines.push mark) slots usages now := by
  obtain ⟨⟨ref, hrepresents, hrel⟩, hwritten⟩ := hobserves
  exact ⟨⟨ref, hrepresents.push mark, hrel⟩, hwritten⟩

/-- What is in a slot and has not expired goes by its usage. -/
theorem live (hobserves : Observes l deadlines slots usages now)
    (hslot : slots key = some (.holder h)) (hvisible : (h.record deadlines).isVisible now = true) :
    ∃ u, usages key = some u ∧ (h.record deadlines).GoesBy l u := by
  obtain ⟨⟨ref, hrepresents, hrel⟩, -⟩ := hobserves
  have hshown : ref.visible now key = some (h.record deadlines) := by
    rw [← hrepresents.visible, Reference.visible, records, hslot]
    simp [hvisible]
  have hthis := hrel key
  rw [(Option.filter_eq_some_iff.mp hshown).1] at hthis
  generalize hu : usages key = found at hthis
  cases hthis with
  | some hgoes => exact ⟨_, rfl, hgoes⟩

/-- The lifetime of a value goes on only as long as the value is visible. -/
theorem visible (hobserves : Observes l deadlines slots usages now) (hu : usages key = some u)
    (hallows : l.Allows u now) :
    ∃ h, slots key = some (.holder h) ∧ (h.record deadlines).isVisible now = true := by
  obtain ⟨⟨ref, hrepresents, hrel⟩, -⟩ := hobserves
  have hthis := hrel key
  rw [hu] at hthis
  generalize hr : ref key = found at hthis
  cases hthis with
  | @some r _ hgoes =>
    have hshown : ref.visible now key = some r :=
      Option.filter_eq_some_iff.mpr ⟨hr, (hgoes.2 now).mpr hallows⟩
    rw [← hrepresents.visible] at hshown
    obtain ⟨hrecord, hvisible⟩ := Option.filter_eq_some_iff.mp hshown
    obtain ⟨h, hh, rfl⟩ := Option.map_eq_some_iff.mp hrecord
    obtain ⟨slot, hslot, hholder⟩ := Option.bind_eq_some_iff.mp hh
    rw [Slot.holder?_eq_some_iff.mp hholder] at hslot
    exact ⟨h, hslot, hvisible⟩

/-- The lifetime of a value is over where the slot has none or it has expired. -/
theorem dead (hobserves : Observes l deadlines slots usages now)
    (hslot : ∀ h, slots key = some (.holder h) → (h.record deadlines).isVisible now = false) :
    ∀ u, usages key = some u → ¬ l.Allows u now := by
  intro u hu hallows
  obtain ⟨h, hholder, hvisible⟩ := hobserves.visible hu hallows
  rw [hslot h hholder] at hvisible
  cases hvisible

variable [DecidableEq K]

/-- Related maps stay related where both are updated alike. -/
theorem rel_update {A B : Type} {rel : A → B → Prop} {f : K → Option A} {g : K → Option B}
    (hrel : ∀ key, Option.Rel rel (f key) (g key)) {a : Option A} {b : Option B}
    (hab : Option.Rel rel a b) (key other : K) :
    Option.Rel rel (update f key a other) (update g key b other) := by
  by_cases hother : other = key
  · subst hother
    simpa using hab
  · simpa [update_of_ne hother] using hrel other

theorem written_update {now : Instant} (hwritten : ∀ key u, usages key = some u → u.writtenAt ≤ now)
    {usage : Option Usage} (husage : ∀ u, usage = some u → u.writtenAt ≤ now) (key : K) :
    ∀ other u, update usages key usage other = some u → u.writtenAt ≤ now := by
  intro other u hu
  rw [update_apply] at hu
  split at hu
  · exact husage u hu
  · exact hwritten other u hu

/-- A removed value has no usage any more. -/
theorem erase (hobserves : Observes l deadlines slots usages now) (key : K) :
    Observes l deadlines (update slots key none) (update usages key none) now := by
  obtain ⟨⟨ref, hrepresents, hrel⟩, hwritten⟩ := hobserves
  exact ⟨⟨_, hrepresents.erase key, rel_update hrel .none key⟩,
    written_update hwritten (by simp) key⟩

/-- A value whose lifetime is over may as well leave its slot. -/
theorem drop (hobserves : Observes l deadlines slots usages now)
    (hdead : ∀ u, usages key = some u → ¬ l.Allows u now) :
    Observes l deadlines (update slots key none) usages now := by
  obtain ⟨⟨ref, hrepresents, hrel⟩, hwritten⟩ := hobserves
  refine ⟨⟨ref, hrepresents.drop ?_, hrel⟩, hwritten⟩
  refine Option.filter_eq_none_iff.mpr fun r hr => ?_
  have hthis := hrel key
  rw [hr] at hthis
  generalize hu : usages key = found at hthis
  cases hthis with
  | some hgoes => exact fun hvisible => hdead _ hu ((hgoes.2 now).mp hvisible)

/-- A new holder with the deadline of a written value enters a slot. -/
theorem write (hobserves : Observes l deadlines slots usages now) (key : K) {d : Draft V}
    (hle : d.writtenAt ≤ now) (hbounds : l.Bounds ⟨d.writtenAt, d.writtenAt⟩ d.deadline) :
    Observes l (deadlines.push (Mark.ofInstant? d.deadline))
      (update slots key (some (.holder ⟨deadlines.size, d.value, d.writtenAt, d.weight⟩)))
      (update usages key (some ⟨d.writtenAt, d.writtenAt⟩)) now := by
  obtain ⟨⟨ref, hrepresents, hrel⟩, hwritten⟩ := hobserves
  refine ⟨⟨_, hrepresents.write key ⟨d.value, d.writtenAt, d.deadline⟩ d.weight,
    rel_update hrel (.some ⟨rfl, hbounds⟩) key⟩, written_update hwritten ?_ key⟩
  rintro u hu
  obtain rfl := Option.some.inj hu
  exact hle

/-- A value that is hit gets the deadline that its lifetime has from then on. -/
theorem refresh (hobserves : Observes l deadlines slots usages now)
    (hslot : slots key = some (.holder h)) {deadline : Option Instant}
    (hu : u.writtenAt = h.writtenAt) (hle : u.writtenAt ≤ now) (hbounds : l.Bounds u deadline) :
    Observes l (deadlines.setIfInBounds h.id (Mark.ofInstant? deadline)) slots
      (update usages key (some u)) now := by
  obtain ⟨⟨ref, hrepresents, hrel⟩, hwritten⟩ := hobserves
  refine ⟨⟨_, hrepresents.refresh hslot deadline, rel_update hrel (.some ⟨hu.symm, hbounds⟩) key⟩,
    written_update hwritten ?_ key⟩
  rintro u' hu'
  obtain rfl := Option.some.inj hu'
  exact hle

omit [DecidableEq K] in
/-- Cleared slots have no usages any more. -/
theorem sweep (hobserves : Observes l deadlines slots usages now) (cleared : K → Prop)
    [DecidablePred cleared] :
    Observes l deadlines (fun key => if cleared key then none else slots key)
      (fun key => if cleared key then none else usages key) now := by
  obtain ⟨⟨ref, hrepresents, hrel⟩, hwritten⟩ := hobserves
  have hkept : ∀ key slot, (if cleared key then none else slots key) = some slot →
      slots key = some slot := by
    intro key slot hslot
    split at hslot
    · cases hslot
    · exact hslot
  refine ⟨⟨fun key => if cleared key then none else ref key, ⟨⟨?_, ?_, ?_⟩, ?_⟩, fun key => ?_⟩,
    fun key u hu => ?_⟩
  · exact fun key fault hfault => hrepresents.lodged.settled key fault (hkept _ _ hfault)
  · exact fun key h hholder => hrepresents.lodged.allocated key h (hkept _ _ hholder)
  · exact fun key key' h h' hholder hholder' =>
      hrepresents.lodged.distinct key key' h h' (hkept _ _ hholder) (hkept _ _ hholder')
  · funext key
    have hsame := congrFun hrepresents.visible key
    simp only [Reference.visible, records] at hsame ⊢
    split
    · rfl
    · exact hsame
  · dsimp only
    split
    · exact .none
    · exact hrel key
  · split at hu
    · cases hu
    · exact hwritten key u hu

end Observes

end SharedCache
