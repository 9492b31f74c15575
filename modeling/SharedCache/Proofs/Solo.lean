import SharedCache.Proofs.Acts
import SharedCache.Proofs.Detours

/-!
# Operations without company

An operation of a thread that has the store for itself keeps in step with the reference map.  With
the look at its key it is clear what the operation leaves and answers, or what it is going to show
to its mapping function.
-/

namespace SharedCache

open Function

variable {K V Q R : Type}

section InStep

variable [DecidableEq K] [DecidableEq V]

/-- The slot of a computation has its fault, and with what was there before in its place the store
represents the reference. -/
structure Store.Withholds (s : Store K V) (c : Computation K V Q R) (ref : Reference K V)
    (now : Instant) : Prop where
  pending : s.map.get? c.key = some (.fault c.fault)
  represents :
    SharedCache.Represents s.deadlines (update s.map.get? c.key (c.previous.map Slot.holder)) ref
      now
  shown : ref.visible now c.key = c.previous.map (Holder.record s.deadlines)

/-- An activity that gives an answer after so many steps, and changes nothing that the reference
shows. -/
inductive Store.Yields (settings : Settings K V Q R) (s : Store K V) (ref : Reference K V)
    (now : Instant) (answer : Answer V) : Nat → Activity K V Q R → Prop where
  | settles : Yields settings s ref now answer 0 (.settle (.done answer))
  | misses : answer = .value none → Yields settings s ref now answer 1 (.keep .missed)
  | handsOut {h : Holder V} {copy : V} {thenEnforce : Bool} :
      settings.copyOut h.value = .ok copy → answer = .value (some copy) →
      Yields settings s ref now answer 3 (.keep (.handOut h thenEnforce))
  | expels {key : K} {h : Holder V} :
      ref.visible now key = none → answer = .value none →
      Yields settings s ref now answer 5 (.keep (.expel key h))
  | removed {key : K} {h : Holder V} {time : Instant} {copy : V} :
      s.expired h time = false → settings.copyOut h.value = .ok copy →
      answer = .value (some copy) → Yields settings s ref now answer 7 (.keep (.dismiss key h time))
  | expired {key : K} {h : Holder V} {time : Instant} :
      s.expired h time = true → answer = .value none →
      Yields settings s ref now answer 7 (.keep (.dismiss key h time))

/-- Where an operation is on its thread, in step with the course that the reference takes, and how
many steps of its own it has still to do at most. -/
inductive InStep (settings : Settings K V Q R) (s : Store K V) (now : Instant) :
    Course K V Q R → Nat → Activity K V Q R → List (Frame K V Q R) → Prop where
  | begins {ref : Reference K V} {operation : Operation K V Q R} {course : Course K V Q R} :
      s.Represents ref now → ref.begin settings now operation = .ok course →
      InStep settings s now course (settings.blueprint.segments + 14)
        (.keep (.round (operation.stored settings) 0)) []
  | visits {ref : Reference K V} {operation : Operation K V Q R} {course : Course K V Q R} :
      s.Represents ref now → ref.begin settings now operation = .ok course →
      InStep settings s now course (settings.blueprint.segments + 13)
        (.keep (.visit (operation.stored settings) 0 now)) []
  | consults {ref : Reference K V} {key : K} {h : Holder V} {thenEnforce : Bool}
      {course : Course K V Q R} :
      s.Represents ref now → s.map.get? key = some (.holder h) →
      ref.visible now key = some (h.record s.deadlines) →
      ref.read settings now key (h.record s.deadlines) = .ok course →
      InStep settings s now course 5 (.keep (.consult key h now thenEnforce)) []
  | refreshes {ref : Reference K V} {h : Holder V} {deadline : Option (Option Instant)}
      {thenEnforce : Bool} {copy : V} :
      (deadline.elim s fun d => s.setDeadline h d).Represents ref now →
      settings.copyOut h.value = .ok copy →
      InStep settings s now (.decided ref (.value (some copy))) 4
        (.keep (.refresh h deadline thenEnforce)) []
  | sweeps {segment : Nat} :
      Lodged s.deadlines s.map.get? → segment < settings.blueprint.segments →
      (∀ key, s.map.segmentOf key < segment → s.map.get? key = none) →
      InStep settings s now (.decided (fun _ => none) .unit)
        (settings.blueprint.segments - segment) (.keep (.sweep segment)) []
  /-- What is left to do is no concern of the reference. -/
  | yields {ref : Reference K V} {answer : Answer V} {n : Nat} {a : Activity K V Q R}
      {above : List (Frame K V Q R)} :
      s.Represents ref now → Detour (s.Yields settings ref now answer) n a above →
      InStep settings s now (.decided ref answer) n a above
  | asks {ref : Reference K V} {c : Computation K V Q R} {shown : Option V} {n : Nat}
      {a : Activity K V Q R} {above : List (Frame K V Q R)} :
      s.Withholds c ref now → settings.Shows (c.previous.map Holder.value) shown →
      Detour (fun n a => n = 9 ∧ a = .keep (.own c)) n a above →
      InStep settings s now (.asking ref now c.key shown (c.code c.key shown)) n a above
  | runs {ref : Reference K V} {c : Computation K V Q R} {a : Activity K V Q R}
      {inside : List (Frame K V Q R)} :
      s.Withholds c ref now → a.IsPlain → (∀ frame ∈ inside, frame.IsPlain) →
      InStep settings s now (.mapping ref now c.key c.fault) 8 a (inside ++ [.computing c])
  | composes {ref : Reference K V} {c : Computation K V Q R} {value : V} {course : Course K V Q R} :
      s.Withholds c ref now →
      ref.conclude settings now c.key c.fault (.value (some value)) = .ok course →
      InStep settings s now course 7 (.keep (.compose c value)) []
  | installs {ref : Reference K V} {c : Computation K V Q R} {h : Holder V} {copy : V} :
      s.map.get? c.key = some (.fault c.fault) →
      SharedCache.Represents s.deadlines (update s.map.get? c.key (some (.holder h))) ref now →
      InStep settings s now (.decided ref (.value (some copy))) 6 (.keep (.install c h copy)) []
  | vacates {ref : Reference K V} {c : Computation K V Q R} {resolution : Resolution V}
      {answer : Answer V} :
      s.map.get? c.key = some (.fault c.fault) →
      SharedCache.Represents s.deadlines (update s.map.get? c.key none) ref now →
      InStep settings s now (.decided ref answer) 4 (.keep (.vacate c resolution answer)) []
  | restores {ref : Reference K V} {c : Computation K V Q R} {resolution : Resolution V}
      {answer : Answer V} :
      s.map.get? c.key = some (.fault c.fault) →
      SharedCache.Represents s.deadlines (update s.map.get? c.key (c.previous.map Slot.holder)) ref
        now →
      InStep settings s now (.decided ref answer) 1
        (.keep (.restore c resolution (.done answer))) []

end InStep

/-! ## Looking at a key -/

section Visits

variable [DecidableEq K] [DecidableEq V] {settings : Settings K V Q R} {s : Store K V}
  {ref : Reference K V} {now : Instant} {course : Course K V Q R} {key : K} {value : V}
  {answer : Answer V}

omit [DecidableEq V] in
/-- A write leaves the store with the record that the reference writes. -/
theorem Store.Represents.write (hrepresents : s.Represents ref now) (hvalid : s.map.Valid)
    (hsteady : settings.Steady) {previous : Option (Holder V)} {r : Record V}
    (hvisible : ref.visible now key = previous.map (Holder.record s.deadlines))
    (hrecord : ref.record settings now key value = .ok r) (next : Store K V → StoreTurn K V Q R) :
    ∃ s' events, s.write settings key value now previous next = (next s').after events ∧
      s'.Represents (update ref key (some r)) now := by
  obtain ⟨weight, hdraft⟩ := hsteady.draft_of_record hvisible hrecord
  refine ⟨_, _, Turn.consulting_of_ok hdraft, ?_⟩
  change SharedCache.Represents (s.deadlines.push _) (s.map.insert key _).get? _ now
  rw [EntryMap.get?_insert_eq hvalid]
  exact SharedCache.Represents.write hrepresents key r weight

omit [DecidableEq V] in
theorem Store.Represents.erase (hrepresents : s.Represents ref now) (hvalid : s.map.Valid)
    (key : K) : (s.erase key).Represents (update ref key none) now := by
  change SharedCache.Represents s.deadlines (s.map.erase key).get? _ now
  rw [EntryMap.get?_erase_eq hvalid]
  exact SharedCache.Represents.erase hrepresents key

omit [DecidableEq V] in
theorem Store.Represents.drop (hrepresents : s.Represents ref now) (hvalid : s.map.Valid)
    (hnone : ref.visible now key = none) : (s.erase key).Represents ref now := by
  change SharedCache.Represents s.deadlines (s.map.erase key).get? _ now
  rw [EntryMap.get?_erase_eq hvalid]
  exact SharedCache.Represents.drop hrepresents hnone

omit [DecidableEq V] in
/-- A computation that begins withholds what its key has. -/
theorem Store.Represents.withholds (hrepresents : s.Represents ref now) (hvalid : s.map.Valid)
    {previous : Option (Holder V)} {isRequest : Bool} {code : K → Option V → Script K V Q R}
    (hvisible : ref.visible now key = previous.map (Holder.record s.deadlines))
    (hslot : ∀ h, previous = some h → s.map.get? key = some (.holder h)) :
    (s.beginFault key).1.Withholds ⟨key, s.faults.size, previous, isRequest, code⟩ ref now := by
  have hget : (s.beginFault key).1.map.get? = update s.map.get? key (some (.fault s.faults.size)) :=
    EntryMap.get?_insert_eq hvalid key _
  refine ⟨by rw [hget, update_self], ?_, hvisible⟩
  change SharedCache.Represents s.deadlines (update (s.beginFault key).1.map.get? key _) ref now
  rw [hget, update_idem]
  cases previous with
  | none => exact SharedCache.Represents.drop hrepresents hvisible
  | some h =>
    have hsame : update s.map.get? key ((some h).map Slot.holder) = s.map.get? :=
      update_eq_self_iff.mpr (hslot h rfl).symm
    rw [hsame]
    exact hrepresents

/-- A turn keeps in step with a course, which has so many steps left at most. -/
def Turn.KeepsStep (settings : Settings K V Q R) (now : Instant) (course : Course K V Q R)
    (bound : Nat) (turn : StoreTurn K V Q R) : Prop :=
  ∃ n ≤ bound, InStep settings turn.state now course n turn.next turn.frames

namespace Turn

variable {bound : Nat} {turn : StoreTurn K V Q R}

theorem KeepsStep.after (events : List (Event K V))
    (hturn : turn.KeepsStep settings now course bound) :
    (turn.after events).KeepsStep settings now course bound := hturn

theorem KeepsStep.mono {bound' : Nat} (hturn : turn.KeepsStep settings now course bound)
    (hle : bound ≤ bound') : turn.KeepsStep settings now course bound' := by
  obtain ⟨n, hn, hinstep⟩ := hturn
  exact ⟨n, by omega, hinstep⟩

theorem keepsStep_answer (hrepresents : s.Represents ref now) :
    (Turn.answer s answer : StoreTurn K V Q R).KeepsStep settings now (.decided ref answer) 0 :=
  ⟨0, Nat.le_refl _, .yields hrepresents (.arrives .settles)⟩

theorem keepsStep_enforcing (hrepresents : s.Represents ref now) :
    (s.enforcing answer : StoreTurn K V Q R).KeepsStep settings now (.decided ref answer) 2 :=
  ⟨2, Nat.le_refl _, .yields hrepresents (.enforces (.arrives .settles))⟩

/-- A removal is reported before the answer. -/
theorem keepsStep_reporting (hrepresents : s.Represents ref now) {h : Holder V}
    {cause : RemovalCause} {a : Activity K V Q R} {n : Nat}
    (ha : s.Yields settings ref now answer n a) :
    ((s.reporting key h cause).andThen a).KeepsStep settings now (.decided ref answer) (n + 3) :=
  ⟨n + 3, Nat.le_refl _, .yields hrepresents (.reports (.arrives ha))⟩

/-- A replacement is reported and the capacity enforced before the answer. -/
theorem keepsStep_replacing (hrepresents : s.Represents ref now) {h : Holder V}
    {cause : RemovalCause} {a : Activity K V Q R} {n : Nat}
    (ha : s.Yields settings ref now answer n a) :
    (((s.reporting key h cause).andThen (.keep (.enforce 0))).andThen a).KeepsStep settings now
      (.decided ref answer) (n + 5) :=
  ⟨n + 5, Nat.le_refl _, .yields hrepresents (.reports (.enforces (.arrives ha)))⟩

/-- An overwritten holder is judged, and the capacity enforced, before the answer. -/
theorem keepsStep_judging (hrepresents : s.Represents ref now) {h : Holder V} {time : Instant} :
    (((Turn.goTo s (.keep (.judge key h time))).andThen (.keep (.enforce 0))).andThen
      (.settle (.done answer)) : StoreTurn K V Q R).KeepsStep settings now
        (.decided ref answer) 6 :=
  ⟨6, Nat.le_refl _, .yields hrepresents (.judges (.enforces (.arrives .settles)))⟩

theorem keepsStep_write (hrepresents : s.Represents ref now) (hvalid : s.map.Valid)
    (hsteady : settings.Steady) {previous : Option (Holder V)}
    {next : Store K V → StoreTurn K V Q R}
    (hvisible : ref.visible now key = previous.map (Holder.record s.deadlines))
    (hcourse : ref.write settings now key value answer = .ok course)
    (hnext : ∀ s' ref', s'.Represents ref' now →
      (next s').KeepsStep settings now (.decided ref' answer) bound) :
    (s.write settings key value now previous next).KeepsStep settings now course bound := by
  obtain ⟨r, hrecord, hwrite⟩ := hsteady.write (Q := Q) (R := R) ref now key value answer
  obtain rfl := Except.ok.inj (hwrite.symm.trans hcourse)
  obtain ⟨s', events, hturn, hwritten⟩ := hrepresents.write hvalid hsteady hvisible hrecord next
  rw [hturn]
  exact (hnext s' _ hwritten).after events

theorem keepsStep_consult (hrepresents : s.Represents ref now) {h : Holder V} {thenEnforce : Bool}
    (hslot : s.map.get? key = some (.holder h))
    (hvisible : ref.visible now key = some (h.record s.deadlines))
    (hcourse : ref.read settings now key (h.record s.deadlines) = .ok course) :
    (Turn.goTo s (.keep (.consult key h now thenEnforce))).KeepsStep settings now course 5 :=
  ⟨5, Nat.le_refl _, .consults hrepresents hslot hvisible hcourse⟩

/-- A computation begins. -/
theorem keepsStep_begins (hrepresents : s.Represents ref now) (hvalid : s.map.Valid)
    (hsteady : settings.Steady) (previous : Option (Holder V)) {isRequest : Bool}
    {code : K → Option V → Script K V Q R}
    (hvisible : ref.visible now key = previous.map (Holder.record s.deadlines))
    (hslot : ∀ h, previous = some h → s.map.get? key = some (.holder h))
    (hcourse : ref.ask settings now key code (ref.visible now key) = .ok course) :
    (Turn.goTo (s.beginning key previous isRequest code).1
      (s.beginning key previous isRequest code).2).KeepsStep settings now course 9 ∧
    ∀ h cause, (((s.beginning key previous isRequest code).1.reporting key h cause).andThen
      (s.beginning key previous isRequest code).2).KeepsStep settings now course 12 := by
  obtain ⟨shown, hshown, hask⟩ := hsteady.ask ref now key code (ref.visible now key)
  obtain rfl := Except.ok.inj (hask.symm.trans hcourse)
  have hwithholds : (s.beginFault key).1.Withholds
      ⟨key, s.faults.size, previous, isRequest, code⟩ ref now :=
    hrepresents.withholds hvalid hvisible hslot
  have hshows : settings.Shows (previous.map Holder.value) shown := by
    rw [hvisible, Option.map_map] at hshown
    exact hshown
  exact ⟨⟨9, Nat.le_refl _, .asks hwithholds hshows (.arrives ⟨rfl, rfl⟩)⟩,
    fun h cause => ⟨12, Nat.le_refl _, .asks hwithholds hshows (.reports (.arrives ⟨rfl, rfl⟩))⟩⟩

end Turn

namespace Store

theorem keepsStep_visitReplace (hrepresents : s.Represents ref now) (hvalid : s.map.Valid)
    (hsteady : settings.Steady) {operation : Operation K V Q R} {retries : Nat} {accepts : V → Bool}
    {kept : Answer V} {replaced : Holder V → Activity K V Q R}
    (hnone : ref.visible now key = none → course = .decided ref kept)
    (hkept : ∀ h : Holder V, ref.visible now key = some (h.record s.deadlines) →
      accepts h.value = false → course = .decided ref kept)
    (hreplaced : ∀ h : Holder V, ref.visible now key = some (h.record s.deadlines) →
      accepts h.value = true → ∃ answer, ref.write settings now key value answer = .ok course ∧
        ∀ (s' : Store K V) ref', ∃ n ≤ 3, s'.Yields settings ref' now answer n (replaced h)) :
    (s.visitReplace settings operation key value retries now accepts kept replaced).KeepsStep
      settings now course 8 := by
  rw [visitReplace]
  cases hrepresents.finds key with
  | absent hslot hlook hvisible =>
    rw [hlook, hnone hvisible]
    exact (Turn.keepsStep_answer hrepresents).mono (by omega)
  | stale hslot hexpired hlook hvisible =>
    rw [hlook, hnone hvisible]
    exact (Turn.keepsStep_reporting (hrepresents.drop hvalid hvisible) .settles).mono (by omega)
  | @live h hslot hexpired hlook hvisible =>
    rw [hlook]
    dsimp only
    cases haccepts : accepts h.value with
    | false =>
      rw [hkept h hvisible haccepts, if_neg (by simp)]
      exact (Turn.keepsStep_answer hrepresents).mono (by omega)
    | true =>
      obtain ⟨answer, hcourse, hyields⟩ := hreplaced h hvisible haccepts
      rw [if_pos rfl]
      refine Turn.keepsStep_write hrepresents hvalid hsteady hvisible hcourse
        fun s' ref' hwritten => ?_
      obtain ⟨n, hn, hyield⟩ := hyields s' ref'
      exact (Turn.keepsStep_replacing hwritten hyield).mono (by omega)

theorem keepsStep_visitGet (hrepresents : s.Represents ref now)
    (hbegin : ref.begin settings now (.get key : Operation K V Q R) = .ok course) :
    (s.visitGet key 0 now).KeepsStep settings now course 5 := by
  rw [Reference.begin] at hbegin
  rw [visitGet]
  cases hrepresents.finds key with
  | absent hslot hlook hvisible =>
    rw [hvisible] at hbegin
    obtain rfl := Except.ok.inj hbegin
    rw [hlook]
    exact ⟨1, by omega, .yields hrepresents (.arrives (.misses rfl))⟩
  | stale hslot hexpired hlook hvisible =>
    rw [hvisible] at hbegin
    obtain rfl := Except.ok.inj hbegin
    rw [hlook]
    exact ⟨5, by omega, .yields hrepresents (.arrives (.expels hvisible rfl))⟩
  | live hslot hexpired hlook hvisible =>
    rw [hvisible] at hbegin
    rw [hlook]
    exact Turn.keepsStep_consult hrepresents hslot hvisible hbegin

theorem keepsStep_visitContains (hrepresents : s.Represents ref now)
    (hbegin : ref.begin settings now (.contains key : Operation K V Q R) = .ok course) :
    (Turn.answer s (.flag (s.visible key now))).KeepsStep settings now course 0 := by
  obtain rfl := Except.ok.inj hbegin
  have hflag : s.visible key now = (ref.visible now key).isSome := by
    cases hrepresents.finds key with
    | absent _ hlook hvisible => simp [visible, hlook, hvisible]
    | stale _ _ hlook hvisible => simp [visible, hlook, hvisible]
    | live _ _ hlook hvisible => simp [visible, hlook, hvisible]
  rw [hflag]
  exact Turn.keepsStep_answer hrepresents

theorem keepsStep_visitPut (hrepresents : s.Represents ref now) (hvalid : s.map.Valid)
    (hsteady : settings.Steady)
    (hbegin : ref.begin settings now (.put key value : Operation K V Q R) = .ok course) :
    (s.visitPut settings (settings.copyKey key) value now).KeepsStep settings now course 6 := by
  rw [visitPut]
  refine Turn.keepsStep_write hrepresents hvalid hsteady ?_ hbegin fun s' ref' hwritten => ?_
  · cases hrepresents.finds (settings.copyKey key) with
    | absent _ hlook hvisible => rw [hlook, hvisible]; rfl
    | stale _ _ hlook hvisible => rw [hlook, hvisible]; rfl
    | live _ _ hlook hvisible => rw [hlook, hvisible]; rfl
  · split
    · exact (Turn.keepsStep_enforcing hwritten).mono (by omega)
    · exact Turn.keepsStep_judging hwritten

theorem keepsStep_visitPutIfAbsent (hrepresents : s.Represents ref now) (hvalid : s.map.Valid)
    (hsteady : settings.Steady)
    (hbegin : ref.begin settings now (.putIfAbsent key value : Operation K V Q R) = .ok course) :
    (s.visitPutIfAbsent settings (settings.copyKey key) value 0 now).KeepsStep settings now
      course 6 := by
  rw [Reference.begin] at hbegin
  rw [visitPutIfAbsent]
  cases hrepresents.finds (settings.copyKey key) with
  | absent hslot hlook hvisible =>
    rw [hvisible] at hbegin
    rw [hlook]
    exact (Turn.keepsStep_write hrepresents hvalid hsteady hvisible hbegin
      fun s' ref' hwritten => Turn.keepsStep_enforcing hwritten).mono (by omega)
  | stale hslot hexpired hlook hvisible =>
    rw [hvisible] at hbegin
    rw [hlook]
    exact Turn.keepsStep_write hrepresents hvalid hsteady hvisible hbegin
      fun s' ref' hwritten => Turn.keepsStep_judging hwritten
  | live hslot hexpired hlook hvisible =>
    rw [hvisible] at hbegin
    rw [hlook]
    exact (Turn.keepsStep_consult hrepresents hslot hvisible hbegin).mono (by omega)

theorem keepsStep_visitRemove (hrepresents : s.Represents ref now) (hvalid : s.map.Valid)
    (hsteady : settings.Steady)
    (hbegin : ref.begin settings now (.remove key : Operation K V Q R) = .ok course) :
    (s.visitRemove key now).KeepsStep settings now course 7 := by
  rw [Reference.begin] at hbegin
  rw [visitRemove]
  cases hrepresents.finds key with
  | absent hslot hlook hvisible =>
    rw [hvisible] at hbegin
    obtain rfl := Except.ok.inj hbegin
    rw [hslot]
    exact (Turn.keepsStep_answer hrepresents).mono (by omega)
  | stale hslot hexpired hlook hvisible =>
    rw [hvisible] at hbegin
    obtain rfl := Except.ok.inj hbegin
    rw [hslot]
    exact ⟨7, by omega, .yields (hrepresents.drop hvalid hvisible)
      (.arrives (.expired hexpired rfl))⟩
  | @live h hslot hexpired hlook hvisible =>
    obtain ⟨copy, hcopy⟩ := hsteady.copyOut h.value
    rw [hvisible] at hbegin
    change (settings.copyOut h.value >>= _) = _ at hbegin
    rw [hcopy] at hbegin
    obtain rfl := Except.ok.inj hbegin
    rw [hslot]
    exact ⟨7, by omega, .yields (hrepresents.erase hvalid key)
      (.arrives (.removed hexpired hcopy rfl))⟩

theorem keepsStep_visitRemoveIfEqual (hrepresents : s.Represents ref now) (hvalid : s.map.Valid)
    {expected : V}
    (hbegin : ref.begin settings now (.removeIfEqual key expected : Operation K V Q R) =
      .ok course) :
    (s.visitRemoveIfEqual key expected now).KeepsStep settings now course 3 := by
  rw [Reference.begin] at hbegin
  rw [visitRemoveIfEqual]
  cases hrepresents.finds key with
  | absent hslot hlook hvisible =>
    rw [hvisible] at hbegin
    obtain rfl := Except.ok.inj hbegin
    rw [hlook]
    exact (Turn.keepsStep_answer hrepresents).mono (by omega)
  | stale hslot hexpired hlook hvisible =>
    rw [hvisible] at hbegin
    obtain rfl := Except.ok.inj hbegin
    rw [hlook]
    exact (Turn.keepsStep_answer hrepresents).mono (by omega)
  | @live h hslot hexpired hlook hvisible =>
    rw [hvisible] at hbegin
    change (if h.value = expected then _ else _) = _ at hbegin
    rw [hlook]
    dsimp only
    by_cases hequal : h.value = expected
    · rw [if_pos hequal] at hbegin ⊢
      obtain rfl := Except.ok.inj hbegin
      exact Turn.keepsStep_reporting (hrepresents.erase hvalid key) .settles
    · rw [if_neg hequal] at hbegin ⊢
      obtain rfl := Except.ok.inj hbegin
      exact (Turn.keepsStep_answer hrepresents).mono (by omega)

section Computations

variable (hrepresents : s.Represents ref now) (hvalid : s.map.Valid) (hsteady : settings.Steady)

include hrepresents hvalid hsteady

theorem keepsStep_visitComputeIfAbsent {mapping : K → Script K V Q R}
    (hbegin : ref.begin settings now (.computeIfAbsent key mapping) = .ok course) :
    (s.visitComputeIfAbsent (settings.copyKey key) mapping 0 now).KeepsStep settings now course
      12 := by
  rw [Reference.begin] at hbegin
  rw [visitComputeIfAbsent]
  cases hrepresents.finds (settings.copyKey key) with
  | absent hslot hlook hvisible =>
    rw [hvisible] at hbegin
    rw [hlook]
    exact (Turn.keepsStep_begins hrepresents hvalid hsteady none hvisible (by simp)
      (hvisible ▸ hbegin)).1.mono (by omega)
  | stale hslot hexpired hlook hvisible =>
    rw [hvisible] at hbegin
    rw [hlook]
    exact (Turn.keepsStep_begins hrepresents hvalid hsteady none hvisible (by simp)
      (hvisible ▸ hbegin)).2 _ _
  | live hslot hexpired hlook hvisible =>
    rw [hvisible] at hbegin
    rw [hlook]
    exact (Turn.keepsStep_consult hrepresents hslot hvisible hbegin).mono (by omega)

theorem keepsStep_visitCompute {remapping : K → Option V → Script K V Q R}
    (hbegin : ref.begin settings now (.compute key remapping) = .ok course) :
    (s.visitCompute (settings.copyKey key) remapping 0 now).KeepsStep settings now course 12 := by
  rw [Reference.begin] at hbegin
  rw [visitCompute]
  cases hrepresents.finds (settings.copyKey key) with
  | absent hslot hlook hvisible =>
    rw [hlook]
    exact (Turn.keepsStep_begins hrepresents hvalid hsteady none hvisible (by simp)
      hbegin).1.mono (by omega)
  | stale hslot hexpired hlook hvisible =>
    rw [hlook]
    exact (Turn.keepsStep_begins (hrepresents.drop hvalid hvisible) (hvalid.erase _) hsteady none
      hvisible (by simp) hbegin).2 _ _
  | @live h hslot hexpired hlook hvisible =>
    rw [hlook]
    exact (Turn.keepsStep_begins hrepresents hvalid hsteady (some h) hvisible
      (fun _ hsame => Option.some.inj hsame ▸ hslot) hbegin).1.mono (by omega)

theorem keepsStep_visitComputeIfPresent {remapping : K → V → Script K V Q R}
    (hbegin : ref.begin settings now (.computeIfPresent key remapping) = .ok course) :
    (s.visitComputeIfPresent (settings.copyKey key) remapping 0 now).KeepsStep settings now
      course 9 := by
  rw [Reference.begin] at hbegin
  rw [visitComputeIfPresent]
  cases hrepresents.finds (settings.copyKey key) with
  | absent hslot hlook hvisible =>
    rw [hvisible] at hbegin
    obtain rfl := Except.ok.inj hbegin
    rw [hlook]
    exact (Turn.keepsStep_answer hrepresents).mono (by omega)
  | stale hslot hexpired hlook hvisible =>
    rw [hvisible] at hbegin
    obtain rfl := Except.ok.inj hbegin
    rw [hlook]
    exact (Turn.keepsStep_reporting (hrepresents.drop hvalid hvisible) .settles).mono (by omega)
  | @live h hslot hexpired hlook hvisible =>
    rw [hvisible] at hbegin
    rw [hlook]
    exact (Turn.keepsStep_begins hrepresents hvalid hsteady (some h) hvisible
      (fun _ hsame => Option.some.inj hsame ▸ hslot) (hvisible ▸ hbegin)).1

end Computations

/-- The look of an operation at its key is in step with the beginning of the operation in the
reference. -/
theorem keepsStep_visit (hrepresents : s.Represents ref now) (hvalid : s.map.Valid)
    (hsteady : settings.Steady) (hsegments : s.map.segments.size = settings.blueprint.segments)
    {operation : Operation K V Q R} (hbegin : ref.begin settings now operation = .ok course) :
    (s.visit settings 0 now (operation.stored settings)).KeepsStep settings now course
      (settings.blueprint.segments + 12) := by
  have hbound : ∀ {turn : StoreTurn K V Q R} {bound : Nat},
      turn.KeepsStep settings now course bound → bound ≤ 12 →
        turn.KeepsStep settings now course (settings.blueprint.segments + 12) :=
    fun hturn hle => hturn.mono (by omega)
  cases operation with
  | get key => exact hbound (keepsStep_visitGet hrepresents hbegin) (by omega)
  | contains key => exact hbound (keepsStep_visitContains hrepresents hbegin) (by omega)
  | put key value => exact hbound (keepsStep_visitPut hrepresents hvalid hsteady hbegin) (by omega)
  | putIfAbsent key value =>
    exact hbound (keepsStep_visitPutIfAbsent hrepresents hvalid hsteady hbegin) (by omega)
  | replace key value =>
    rw [Reference.begin] at hbegin
    refine hbound (keepsStep_visitReplace hrepresents hvalid hsteady (fun hvisible => ?_)
      (fun h hvisible hrefused => by cases hrefused) fun h hvisible _ => ?_) (by omega)
    · rw [hvisible] at hbegin
      exact (Except.ok.inj hbegin).symm
    · rw [hvisible] at hbegin
      obtain ⟨copy, hcopy⟩ := hsteady.copyOut h.value
      change (settings.copyOut h.value >>= _) = _ at hbegin
      rw [hcopy] at hbegin
      exact ⟨_, hbegin, fun s' ref' => ⟨3, by omega, .handsOut hcopy rfl⟩⟩
  | replaceIfEqual key expected value =>
    rw [Reference.begin] at hbegin
    refine hbound (keepsStep_visitReplace hrepresents hvalid hsteady (fun hvisible => ?_)
      (fun h hvisible hrefused => ?_) fun h hvisible haccepted => ?_) (by omega)
    · rw [hvisible] at hbegin
      exact (Except.ok.inj hbegin).symm
    · rw [hvisible] at hbegin
      have hdifferent : h.value ≠ expected := by simpa using hrefused
      change (if h.value = expected then _ else _) = _ at hbegin
      rw [if_neg hdifferent] at hbegin
      exact (Except.ok.inj hbegin).symm
    · rw [hvisible] at hbegin
      have hequal : h.value = expected := by simpa using haccepted
      change (if h.value = expected then _ else _) = _ at hbegin
      rw [if_pos hequal] at hbegin
      exact ⟨_, hbegin, fun s' ref' => ⟨0, by omega, .settles⟩⟩
  | remove key =>
    exact hbound (keepsStep_visitRemove hrepresents hvalid hsteady hbegin) (by omega)
  | removeIfEqual key expected =>
    exact hbound (keepsStep_visitRemoveIfEqual hrepresents hvalid hbegin) (by omega)
  | clear =>
    obtain rfl := Except.ok.inj hbegin
    have hpos := s.map.segments_pos
    exact ⟨settings.blueprint.segments - 0, by omega,
      .sweeps hrepresents.lodged (by omega) fun key hlt => absurd hlt (Nat.not_lt_zero _)⟩
  | computeIfAbsent key mapping =>
    exact hbound (keepsStep_visitComputeIfAbsent hrepresents hvalid hsteady hbegin) (by omega)
  | compute key remapping =>
    exact hbound (keepsStep_visitCompute hrepresents hvalid hsteady hbegin) (by omega)
  | computeIfPresent key remapping =>
    exact hbound (keepsStep_visitComputeIfPresent hrepresents hvalid hsteady hbegin) (by omega)

end Store

end Visits

end SharedCache
