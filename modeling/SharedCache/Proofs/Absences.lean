import SharedCache.Proofs.Promises

/-!
# Absences

What an operation does when it looks at its key and finds no live value, be it that the slot is
empty or that its value has expired.  It goes on in the same way in both cases, only that an expired
value is taken out of its slot first and its removal put before what comes next; two operations
overlook such a value instead.
-/

namespace SharedCache

variable {K V Q R : Type}

namespace Operation

/-- The answer of an operation that finds no value and computes none. -/
def answerOfNone : Operation K V Q R → Answer V
  | .contains _ | .replaceIfEqual .. | .removeIfEqual .. => .flag false
  | .put .. | .clear => .unit
  | _ => .value none

/-- Whether an operation leaves an expired value where it is. -/
def overlooks : Operation K V Q R → Bool
  | .contains _ | .removeIfEqual .. => true
  | _ => false

end Operation

/-- On the way to something, after the expired value that was found, if there was one, has been
reported. -/
inductive Turn.Heads (key : K) (old : Option (Holder V)) (now : Instant) (a : Activity K V Q R) :
    Activity K V Q R → List (Frame K V Q R) → Prop where
  | arrives : old = none → Heads key old now a a []
  | enforces : old = none → Heads key old now a (.keep (.enforce 0)) [.next a]
  | reports {h : Holder V} :
      old = some h → Heads key old now a (.keep (.report key h .expired)) [.next a]
  | dismisses {h : Holder V} :
      old = some h → a = .settle (.done (.value none)) →
      Heads key old now a (.keep (.dismiss key h now)) []
  | judges {h : Holder V} {answer : Answer V} :
      old = some h → a = .settle (.done answer) →
      Heads key old now a (.keep (.judge key h now)) [.next (.keep (.enforce 0)), .next a]

variable [DecidableEq K] [DecidableEq V]

/-- What a visit of an operation does that finds no live value of its key, but perhaps an old
one. -/
inductive Store.Lacks (settings : Settings K V Q R) (s : Store K V) (key : K)
    (old : Option (Holder V)) (now : Instant) (operation : Operation K V Q R) :
    StoreTurn K V Q R → Prop where
  | overlooks :
      operation.overlooks = true →
      Lacks settings s key old now operation (.answer s operation.answerOfNone)
  /-- The value that is to be written cannot be prepared. -/
  | refuses {turn : StoreTurn K V Q R} {value : V} {p : Panic} :
      operation.gives none = some value →
      (settings.draft key value now none).result = .error p → turn.state = s →
      turn.next = .settle (.raised p) → turn.frames = [] →
      Lacks settings s key old now operation turn
  | expels {h : Holder V} :
      operation = .get key → old = some h →
      Lacks settings s key old now operation (.goTo s (.keep (.expel key h)))
  | misses :
      operation = .get key → old = none →
      Lacks settings s key old now operation (.goTo s (.keep .missed))
  | begins {turn : StoreTurn K V Q R} {c : Computation K V Q R} :
      operation.computes none = true → c = operation.computation key s.faults.size none →
      turn.state.map.get? key = some (.fault c.fault) →
      Turn.Heads key old now (.keep (.own c)) turn.next turn.frames →
      Lacks settings s key old now operation turn
  | answers {turn : StoreTurn K V Q R} :
      operation.overlooks = false → operation.computes none = false →
      (∀ value, operation.gives none = some value →
        ∃ d, (settings.draft key value now none).result = .ok d) →
      (∀ h ∈ old, h.id < s.deadlines.size →
        turn.state.map.get? key ≠ some (.holder h) ∧ turn.state.expired h now = true) →
      Turn.Heads key old now (.settle (.done operation.answerOfNone)) turn.next turn.frames →
      Lacks settings s key old now operation turn

namespace Store

variable {settings : Settings K V Q R} {s : Store K V} {key : K} {old : Option (Holder V)}
  {now : Instant} {operation : Operation K V Q R}

omit [DecidableEq V] in
theorem look_of_old (hslot : s.map.get? key = old.map .holder)
    (hdead : ∀ h ∈ old, s.expired h now = true) :
    s.look key now = old.elim .absent .stale := by
  rw [look, hslot]
  cases old with
  | none => rfl
  | some h => simp [hdead h rfl]

omit [DecidableEq K] [DecidableEq V] in
/-- A new holder takes no deadline from another. -/
theorem expired_newHolder {d : Draft V} {h : Holder V} (hid : h.id < s.deadlines.size) :
    (s.newHolder d).1.expired h now = s.expired h now := by
  have hsame : (s.newHolder d).1.deadlines[h.id]? = s.deadlines[h.id]? := by
    simp [newHolder, Array.getElem?_push, Nat.ne_of_lt hid]
  rw [expired, expired, deadline, deadline, hsame]

/-- A write where there was no live value. -/
theorem lacks_write {value : V} {next : Store K V → StoreTurn K V Q R} (hvalid : s.map.Valid)
    (hdead : ∀ h ∈ old, s.expired h now = true) (hgives : operation.gives none = some value)
    (hoverlooks : operation.overlooks = false) (hcomputes : operation.computes none = false)
    (hstate : ∀ s, (next s).state = s)
    (hnext : ∀ s, Turn.Heads key old now (.settle (.done operation.answerOfNone)) (next s).next
      (next s).frames) :
    s.Lacks settings key old now operation (s.write settings key value now none next) := by
  rw [write, Turn.consulting, Option.map_none]
  cases hdraft : (settings.draft key value now none).result with
  | error p => exact .refuses hgives hdraft rfl rfl rfl
  | ok d =>
    refine .answers hoverlooks hcomputes (fun other hother => ?_) (fun h hh hid => ?_) (hnext _)
    · obtain rfl := Option.some.inj (hgives.symm.trans hother)
      exact ⟨d, hdraft⟩
    · change (next ((s.newHolder d).1.fill key (s.newHolder d).2)).state.map.get? key ≠ _ ∧
        (next ((s.newHolder d).1.fill key (s.newHolder d).2)).state.expired h now = true
      rw [hstate]
      refine ⟨fun hslot => ?_, (expired_newHolder hid).trans (hdead h hh)⟩
      have hfound : (s.map.insert key (.holder (s.newHolder d).2)).get? key = some (.holder h) :=
        hslot
      rw [hvalid.get?_insert, if_pos rfl] at hfound
      obtain rfl := Slot.holder.inj (Option.some.inj hfound)
      exact Nat.lt_irrefl _ hid

/-- An operation answers that neither writes nor computes a value, once an expired one has left its
slot. -/
theorem lacks_idle {turn : StoreTurn K V Q R} (hvalid : s.map.Valid)
    (hdead : ∀ h ∈ old, s.expired h now = true) (hoverlooks : operation.overlooks = false)
    (hcomputes : operation.computes none = false) (hgives : operation.gives none = none)
    (hstate : ∀ h ∈ old, turn.state = s.erase key)
    (hheads : Turn.Heads key old now (.settle (.done operation.answerOfNone)) turn.next
      turn.frames) : s.Lacks settings key old now operation turn := by
  refine .answers hoverlooks hcomputes (by simp [hgives]) (fun h hh _ => ?_) hheads
  have herased : (s.erase key).map.get? key = none := by
    rw [erase, hvalid.get?_erase, if_pos rfl]
  rw [hstate h hh]
  exact ⟨by simp [herased], hdead h hh⟩

section Visits

variable (hvalid : s.map.Valid) (hslot : s.map.get? key = old.map .holder)
  (hdead : ∀ h ∈ old, s.expired h now = true) {value : V} {retries : Nat}

include hslot hdead

theorem lacks_visitGet :
    s.Lacks settings key old now (.get key) (s.visitGet key retries now : StoreTurn K V Q R) := by
  have hlook := look_of_old hslot hdead
  cases old with
  | none =>
    simp only [visitGet, hlook, Option.elim_none]
    exact .misses rfl rfl
  | some h =>
    simp only [visitGet, hlook, Option.elim_some]
    exact .expels rfl rfl

theorem lacks_visitRemoveIfEqual (expected : V) :
    s.Lacks settings key old now (.removeIfEqual key expected)
      (s.visitRemoveIfEqual key expected now : StoreTurn K V Q R) := by
  have hlook := look_of_old hslot hdead
  have hleft : s.visitRemoveIfEqual key expected now =
      (.answer s (.flag false) : StoreTurn K V Q R) := by
    cases old <;> simp [visitRemoveIfEqual, hlook]
  rw [hleft]
  exact .overlooks rfl

include hvalid

theorem lacks_visitPut : s.Lacks settings key old now (.put key value)
    (s.visitPut settings key value now : StoreTurn K V Q R) := by
  have hlook := look_of_old hslot hdead
  cases old with
  | none =>
    simp only [visitPut, hlook, Option.elim_none, hslot]
    exact lacks_write hvalid hdead rfl rfl rfl (fun _ => rfl) fun _ => .enforces rfl
  | some h =>
    simp only [visitPut, hlook, Option.elim_some, hslot]
    exact lacks_write hvalid hdead rfl rfl rfl (fun _ => rfl) fun _ => .judges rfl rfl

theorem lacks_visitPutIfAbsent : s.Lacks settings key old now (.putIfAbsent key value)
    (s.visitPutIfAbsent settings key value retries now : StoreTurn K V Q R) := by
  have hlook := look_of_old hslot hdead
  cases old with
  | none =>
    simp only [visitPutIfAbsent, hlook, Option.elim_none]
    exact lacks_write hvalid hdead rfl rfl rfl (fun _ => rfl) fun _ => .enforces rfl
  | some h =>
    simp only [visitPutIfAbsent, hlook, Option.elim_some]
    exact lacks_write hvalid hdead rfl rfl rfl (fun _ => rfl) fun _ => .judges rfl rfl

variable (operation) in
theorem lacks_visitReplace {accepts : V → Bool} {replaced : Holder V → Activity K V Q R}
    (hoverlooks : operation.overlooks = false) (hcomputes : operation.computes none = false)
    (hgives : operation.gives none = none) :
    s.Lacks settings key old now operation (s.visitReplace settings operation key value retries now
      accepts operation.answerOfNone replaced) := by
  have hlook := look_of_old hslot hdead
  cases old with
  | none =>
    simp only [visitReplace, hlook, Option.elim_none]
    exact lacks_idle hvalid hdead hoverlooks hcomputes hgives (by simp) (.arrives rfl)
  | some h =>
    simp only [visitReplace, hlook, Option.elim_some]
    exact lacks_idle hvalid hdead hoverlooks hcomputes hgives (fun _ _ => rfl) (.reports rfl)

theorem lacks_visitRemove :
    s.Lacks settings key old now (.remove key) (s.visitRemove key now : StoreTurn K V Q R) := by
  cases old with
  | none =>
    simp only [visitRemove, hslot]
    exact lacks_idle hvalid hdead rfl rfl rfl (by simp) (.arrives rfl)
  | some h =>
    simp only [visitRemove, hslot]
    exact lacks_idle hvalid hdead rfl rfl rfl (fun _ _ => rfl) (.dismisses rfl rfl)

theorem lacks_visitComputeIfAbsent (mapping : K → Script K V Q R) :
    s.Lacks settings key old now (.computeIfAbsent key mapping)
      (s.visitComputeIfAbsent key mapping retries now) := by
  have hlook := look_of_old hslot hdead
  have hfault := hvalid.get?_insert key (.fault s.faults.size) key
  rw [if_pos rfl] at hfault
  cases old with
  | none =>
    simp only [visitComputeIfAbsent, hlook, Option.elim_none]
    exact .begins rfl rfl hfault (.arrives rfl)
  | some h =>
    simp only [visitComputeIfAbsent, hlook, Option.elim_some]
    exact .begins rfl rfl hfault (.reports rfl)

theorem lacks_visitCompute (remapping : K → Option V → Script K V Q R) :
    s.Lacks settings key old now (.compute key remapping)
      (s.visitCompute key remapping retries now) := by
  have hlook := look_of_old hslot hdead
  cases old with
  | none =>
    have hfault := hvalid.get?_insert key (.fault s.faults.size) key
    rw [if_pos rfl] at hfault
    simp only [visitCompute, hlook, Option.elim_none]
    exact .begins rfl rfl hfault (.arrives rfl)
  | some h =>
    have hfault := (hvalid.erase key).get?_insert key (.fault s.faults.size) key
    rw [if_pos rfl] at hfault
    simp only [visitCompute, hlook, Option.elim_some]
    exact .begins rfl rfl hfault (.reports rfl)

theorem lacks_visitComputeIfPresent (remapping : K → V → Script K V Q R) :
    s.Lacks settings key old now (.computeIfPresent key remapping)
      (s.visitComputeIfPresent key remapping retries now) := by
  have hlook := look_of_old hslot hdead
  cases old with
  | none =>
    simp only [visitComputeIfPresent, hlook, Option.elim_none]
    exact lacks_idle hvalid hdead rfl rfl rfl (by simp) (.arrives rfl)
  | some h =>
    simp only [visitComputeIfPresent, hlook, Option.elim_some]
    exact lacks_idle hvalid hdead rfl rfl rfl (fun _ _ => rfl) (.reports rfl)

/-- The visit of an operation that finds no live value. -/
theorem lacks_visit (hkey : operation.key? = some key) :
    s.Lacks settings key old now operation (s.visit settings retries now operation) := by
  cases operation with
  | clear => cases hkey
  | get other =>
    obtain rfl := Option.some.inj hkey
    exact lacks_visitGet hslot hdead
  | contains other =>
    obtain rfl := Option.some.inj hkey
    have hvisible : s.visible other now = false := by
      cases old <;> simp [visible, look_of_old hslot hdead]
    rw [visit, hvisible]
    exact .overlooks rfl
  | put other value =>
    obtain rfl := Option.some.inj hkey
    exact lacks_visitPut hvalid hslot hdead
  | putIfAbsent other value =>
    obtain rfl := Option.some.inj hkey
    exact lacks_visitPutIfAbsent hvalid hslot hdead
  | replace other value =>
    obtain rfl := Option.some.inj hkey
    rw [visit]
    exact lacks_visitReplace (.replace other value) hvalid hslot hdead rfl rfl rfl
  | replaceIfEqual other expected value =>
    obtain rfl := Option.some.inj hkey
    rw [visit]
    exact lacks_visitReplace (.replaceIfEqual other expected value) hvalid hslot hdead rfl rfl rfl
  | remove other =>
    obtain rfl := Option.some.inj hkey
    exact lacks_visitRemove hvalid hslot hdead
  | removeIfEqual other expected =>
    obtain rfl := Option.some.inj hkey
    exact lacks_visitRemoveIfEqual hslot hdead expected
  | computeIfAbsent other mapping =>
    obtain rfl := Option.some.inj hkey
    exact lacks_visitComputeIfAbsent hvalid hslot hdead mapping
  | compute other remapping =>
    obtain rfl := Option.some.inj hkey
    exact lacks_visitCompute hvalid hslot hdead remapping
  | computeIfPresent other remapping =>
    obtain rfl := Option.some.inj hkey
    exact lacks_visitComputeIfPresent hvalid hslot hdead remapping

end Visits

end Store

end SharedCache
