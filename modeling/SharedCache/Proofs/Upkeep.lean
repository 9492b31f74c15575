import SharedCache.Proofs.Readings
import SharedCache.Proofs.Timekeeping

/-!
# Upkeep

What a thread that has the store for itself owes the store in its next section.  A read that has
found its value owes it the new deadline until the deadline is moved; one that has found a stale
value may remove it; and a computation that has made a holder owes the key the new value.  In all
other sections, and outside of them, the slots and deadlines go by what was written and used.
-/

namespace SharedCache

open Function

variable {K V Q R : Type}

/-! ## What is owed -/

/-- A section that owes nothing when it begins. -/
def Stage.isFree : Stage K V Q R → Bool
  | .round .. | .handOut .. | .missed | .sweep _ | .judge .. | .dismiss .. | .report .. => true
  | .own _ | .compose .. | .restore .. | .enforce _ => true
  | _ => false

/-- An activity that owes nothing when it begins. -/
def Activity.IsFree : Activity K V Q R → Prop
  | .keep stage => stage.isFree = true
  | .enter _ inside => inside.IsFree
  | .code _ | .settle _ | .dispatch _ => True

/-- A section that may be put off.  A computation may be if it withholds nothing. -/
def Stage.IsLater : Stage K V Q R → Prop
  | .handOut .. | .missed | .enforce _ => True
  | .own c => c.previous = none
  | _ => False

/-- An activity that may be put off. -/
def Activity.IsLater : Activity K V Q R → Prop
  | .keep stage => stage.IsLater
  | .enter _ inside => inside.IsPlain
  | .code _ | .settle _ | .dispatch _ => True

/-- What is put off in a frame may be. -/
def Frame.IsLater : Frame K V Q R → Prop
  | .next activity => activity.IsLater
  | _ => True

@[simp]
theorem Frame.isLater_next {a : Activity K V Q R} : (Frame.next a).IsLater ↔ a.IsLater := Iff.rfl

@[simp]
theorem Activity.isLater_settle (signal : Signal V) :
    (Activity.settle signal : Activity K V Q R).IsLater := trivial

@[simp]
theorem Activity.isLater_enforce (failed : Nat) :
    (Activity.keep (.enforce failed) : Activity K V Q R).IsLater := trivial

@[simp]
theorem Activity.isLater_missed : (Activity.keep .missed : Activity K V Q R).IsLater := trivial

@[simp]
theorem Activity.isLater_handOut (h : Holder V) (thenEnforce : Bool) :
    (Activity.keep (.handOut h thenEnforce) : Activity K V Q R).IsLater := trivial

/-- What the next section undertakes, by the last reading of the clock. -/
inductive Undertakes [DecidableEq K] (l : Lifetime) (s : Store K V) (slots : K → Option (Slot V))
    (usages : K → Option Usage) (since : Instant) : Activity K V Q R → Prop where
  | rests {a : Activity K V Q R} :
      a.IsFree → Observes l s.deadlines slots usages since → Undertakes l s slots usages since a
  | visits {operation : Operation K V Q R} {retries : Nat} :
      Observes l s.deadlines slots usages since →
      Undertakes l s slots usages since (.keep (.visit operation retries since))
  /-- Nobody else resolves the fault. -/
  | awaits {operation : Operation K V Q R} {retries fault : Nat} :
      s.resolution? fault = none → Observes l s.deadlines slots usages since →
      Undertakes l s slots usages since (.keep (.await operation retries fault))
  | consults {key : K} {h : Holder V} {u : Usage} {before : K → Option Usage}
      {thenEnforce : Bool} :
      Observes l s.deadlines slots before since → slots key = some (.holder h) →
      before key = some u → (h.record s.deadlines).GoesBy l u →
      (h.record s.deadlines).isVisible since = true →
      usages = update before key (some ⟨u.writtenAt, since⟩) →
      Undertakes l s slots usages since (.keep (.consult key h since thenEnforce))
  | refreshes {h : Holder V} {deadline : Option Instant} {thenEnforce : Bool} :
      Observes l (s.setDeadline h deadline).deadlines slots usages since →
      Undertakes l s slots usages since (.keep (.refresh h (some deadline) thenEnforce))
  | expels {key : K} {h : Holder V} :
      Observes l s.deadlines slots usages since →
      (∀ u, usages key = some u → ¬ l.Allows u since) →
      Undertakes l s slots usages since (.keep (.expel key h))
  | installs {c : Computation K V Q R} {h : Holder V} {value : V} :
      Observes l s.deadlines slots usages since →
      Observes l s.deadlines (update slots c.key (some (.holder h)))
        (update usages c.key (some ⟨h.writtenAt, h.writtenAt⟩)) since →
      Undertakes l s slots usages since (.keep (.install c h value))
  | vacates {c : Computation K V Q R} {resolution : Resolution V} {answer : Answer V} :
      Observes l s.deadlines slots usages since →
      resolution = .absent ∨ c.previous = none ∧ (∃ error, resolution = .failed error) →
      Undertakes l s slots usages since (.keep (.vacate c resolution answer))

/-- The turn is about to pass on a panic. -/
def Turn.raises {σ : Type} (turn : Turn σ K V Q R) : Bool :=
  match turn.next with
  | .settle (.raised _) => true
  | _ => false

/-- What a turn leaves to be owed, in the middle of what else goes on, and puts off. -/
structure Turn.Owes [DecidableEq K] (l : Lifetime) (front back : List (Ongoing K V Q R))
    (usages : K → Option Usage) (since : Instant) (turn : StoreTurn K V Q R) : Prop where
  next : Undertakes l turn.state
    (lodgings (front ++ turn.ongoing ++ back) turn.state.map.get?) usages since turn.next
  frames : ∀ frame ∈ turn.frames, frame.IsLater

theorem Activity.IsPlain.isLater {a : Activity K V Q R} (ha : a.IsPlain) : a.IsLater := by
  cases a with
  | keep stage => exact ha.elim
  | enter _ inside => exact ha
  | _ => trivial

theorem Activity.IsPlain.isFree {a : Activity K V Q R} (ha : a.IsPlain) : a.IsFree := by
  induction a with
  | enter _ inside ih => exact ih ha
  | keep stage => exact ha.elim
  | _ => trivial

/-- What may be put off owes nothing when its time has come. -/
theorem Activity.IsLater.isFree {a : Activity K V Q R} (ha : a.IsLater) : a.IsFree := by
  cases a with
  | keep stage =>
    cases stage <;> first | rfl | exact ha.elim
  | enter _ inside => exact Activity.IsPlain.isFree ha
  | _ => trivial

theorem Frame.IsPlain.isLater {frame : Frame K V Q R} (hframe : frame.IsPlain) :
    frame.IsLater := by
  cases frame with
  | next activity => exact Activity.IsPlain.isLater hframe
  | _ => trivial

variable [DecidableEq K]

/-- What may be put off withholds nothing. -/
theorem Activity.IsLater.withheld {a : Activity K V Q R} (ha : a.IsLater) (key : K) (fault : Nat) :
    withheld a.ongoing key fault = none := by
  cases a with
  | keep stage =>
    cases stage with
    | own c =>
      have hprevious : c.previous = none := ha
      simp [Stage.ongoing, hprevious]
    | handOut | missed | enforce => rfl
    | _ => exact ha.elim
  | enter _ inside =>
    have hplain : inside.IsPlain := ha
    simp [Activity.ongoing, hplain.ongoing_eq]
  | _ => rfl

/-! ## Turns -/

section Turns

variable {l : Lifetime} {s s' : Store K V} {front back old : List (Ongoing K V Q R)}
  {usages : K → Option Usage} {since : Instant} {turn : StoreTurn K V Q R} {key : K}
  {h : Holder V}

/-- No slot changes, and the same holders are withheld. -/
theorem lodgings_keep {old new : List (Ongoing K V Q R)} (hmap : s'.map = s.map)
    (hsame : ∀ key fault, withheld new key fault = withheld old key fault) :
    lodgings (front ++ new ++ back) s'.map.get? = lodgings (front ++ old ++ back) s.map.get? := by
  rw [hmap]
  exact lodgings_congr fun key fault _ => withheld_replace (hsame key fault)

/-- One slot gets a holder. -/
theorem lodgings_fill (old new : List (Ongoing K V Q R)) (hvalid : s.map.Valid)
    (hmap : s'.map = s.map.insert key (.holder h))
    (hothers : ∀ other, other ≠ key → ∀ fault,
      withheld new other fault = withheld old other fault) :
    lodgings (front ++ new ++ back) s'.map.get? =
      update (lodgings (front ++ old ++ back) s.map.get?) key (some (.holder h)) := by
  rw [hmap, EntryMap.get?_insert_eq hvalid]
  exact lodgings_update fun other hother fault => withheld_replace (hothers other hother fault)

/-- One slot is emptied. -/
theorem lodgings_empty (old new : List (Ongoing K V Q R)) (hvalid : s.map.Valid)
    (hmap : s'.map = s.map.erase key)
    (hothers : ∀ other, other ≠ key → ∀ fault,
      withheld new other fault = withheld old other fault) :
    lodgings (front ++ new ++ back) s'.map.get? =
      update (lodgings (front ++ old ++ back) s.map.get?) key none := by
  rw [hmap, EntryMap.get?_erase_eq hvalid]
  exact lodgings_update fun other hother fault => withheld_replace (hothers other hother fault)

/-- A turn that changes nothing and goes on with something free leaves nothing owed. -/
theorem Turn.owes_keep
    (hobserves : Observes l s.deadlines (lodgings (front ++ old ++ back) s.map.get?) usages since)
    (hmap : turn.state.map = s.map) (hdeadlines : turn.state.deadlines = s.deadlines)
    (hsame : ∀ key fault, withheld turn.ongoing key fault = withheld old key fault)
    (hnext : turn.next.IsFree) (hframes : ∀ frame ∈ turn.frames, frame.IsLater) :
    turn.Owes l front back usages since := by
  refine ⟨.rests hnext ?_, hframes⟩
  rw [hdeadlines, lodgings_keep hmap hsame]
  exact hobserves

end Turns

/-! ## Writing -/

section Writing

variable {settings : Settings K V Q R} {l : Lifetime}

omit [DecidableEq K] in
/-- A value that is written by a lifetime gets the deadline of that lifetime. -/
theorem Settings.bounds_draft (hexpiry : settings.expiry = some (l.expiry K V)) {key : K}
    {value : V} {now : Instant} {previous : Option (Option Duration)} {d : Draft V}
    (hresult : (settings.draft key value now previous).result = .ok d) :
    d.writtenAt = now ∧ l.Bounds ⟨d.writtenAt, d.writtenAt⟩ d.deadline := by
  obtain ⟨stored, -, hrest⟩ := Consultation.result_bind hresult
  obtain ⟨lifetime, hlifetime, hrest⟩ := Consultation.result_bind hrest
  obtain ⟨weight, -, hdraft⟩ := Consultation.result_bind hrest
  obtain rfl := Except.ok.inj hdraft
  have hthis : l.afterWrite = lifetime := by
    simp only [Settings.lifetimeOfWrite, hexpiry] at hlifetime
    cases previous <;> exact Except.ok.inj hlifetime
  rw [← hthis]
  exact ⟨rfl, l.bounds_afterWrite now⟩

omit [DecidableEq K] in
/-- A read by a lifetime moves the deadline and does not panic. -/
theorem Settings.deadlineOfRead_eq (hexpiry : settings.expiry = some (l.expiry K V)) (key : K)
    (value : V) (now : Instant) (left : Option Duration) (writtenAt : Instant) :
    (settings.deadlineOfRead key value now left writtenAt).result =
      .ok (some ((l.afterRead now left writtenAt).map now.saturatingAdd)) := by
  rw [Settings.deadlineOfRead, hexpiry]
  rfl

end Writing

/-! ## Visits -/

section Visits

variable [DecidableEq V] {settings : Settings K V Q R} {l : Lifetime} {s : Store K V}
  {front back : List (Ongoing K V Q R)} {usages : K → Option Usage} {since : Instant}
  {operation : Operation K V Q R} {key : K} {retries : Nat} {turn : StoreTurn K V Q R}
  {h : Holder V}

/-- A store whose values have a lifetime, while this is going on. -/
structure Store.Sound (settings : Settings K V Q R) (l : Lifetime) (s : Store K V)
    (ongoing : List (Ongoing K V Q R)) : Prop where
  expiry : settings.expiry = some (l.expiry K V)
  valid : s.map.Valid
  owned : Owned s ongoing
  unresolved : ∀ key fault, s.map.get? key = some (.fault fault) → s.resolution? fault = none

/-- What is known before a visit, in the middle of what else goes on. -/
structure Store.Visitable (settings : Settings K V Q R) (l : Lifetime) (s : Store K V)
    (front back : List (Ongoing K V Q R)) (usages : K → Option Usage) (since : Instant)
    (operation : Operation K V Q R) : Prop
    extends s.Sound settings l (front ++ [.seeks operation] ++ back) where
  observes : Observes l s.deadlines (lodgings (front ++ [.seeks operation] ++ back) s.map.get?)
    usages since

/-- What a visit leaves to be owed. -/
def Turn.OwesVisit (l : Lifetime) (s : Store K V) (front back : List (Ongoing K V Q R))
    (usages : K → Option Usage) (since : Instant) (operation : Operation K V Q R)
    (turn : StoreTurn K V Q R) : Prop :=
  turn.Owes l front back ((Stage.visit operation 0 since).treats s turn.raises usages) since

/-- A section that does nothing to any value. -/
theorem Stage.treats_eq_self {stage : Stage K V Q R} {raises : Bool}
    (hnone : ∀ key, stage.treatment? s raises key = none) :
    stage.treats s raises usages = usages := by
  funext key
  rw [treats, hnone]
  rfl

/-- A section that does this to the value of one key. -/
theorem Stage.treats_eq_update {stage : Stage K V Q R} {raises : Bool} {treatment : Treatment}
    (hsome : stage.treatment? s raises key = some treatment)
    (hothers : ∀ other, other ≠ key → stage.treatment? s raises other = none) :
    stage.treats s raises usages = update usages key (treatment.apply (usages key)) := by
  funext other
  by_cases hother : other = key
  · subst hother
    rw [treats, hsome, update_self]
    rfl
  · rw [treats, hothers other hother, update_of_ne hother]
    rfl

theorem Stage.treatment?_visit_of_ne (hkey : operation.key? = some key) {raises : Bool} {other : K}
    (hother : other ≠ key) :
    (Stage.visit operation retries since).treatment? s raises other = none :=
  if_neg fun hboth => hother (Option.some.inj (hkey.symm.trans hboth.1)).symm

/-- A visit whose operation does nothing to the value of its key. -/
theorem Stage.treats_visit_eq_self {raises : Bool} (hkey : operation.key? = some key)
    (hnone : raises = true ∨ s.treatment? since operation key = none) :
    (Stage.visit operation retries since).treats s raises usages = usages := by
  refine Stage.treats_eq_self fun other => ?_
  by_cases hother : other = key
  · subst hother
    rw [Stage.treatment?]
    split
    · rename_i hboth
      exact hnone.resolve_left (by simp [hboth.2])
    · rfl
  · exact Stage.treatment?_visit_of_ne hkey hother

/-- The operation does nothing to the value of its key. -/
theorem Turn.Owes.untreated (hturn : turn.Owes l front back usages since)
    (hkey : operation.key? = some key)
    (hnone : turn.raises = true ∨ s.treatment? since operation key = none) :
    turn.OwesVisit l s front back usages since operation := by
  rw [OwesVisit, Stage.treats_visit_eq_self hkey hnone]
  exact hturn

/-- The operation does this to the value of its key. -/
theorem Turn.Owes.treated {treatment : Treatment}
    (hturn : turn.Owes l front back (update usages key (treatment.apply (usages key))) since)
    (hkey : operation.key? = some key) (hraises : turn.raises = false)
    (hsome : s.treatment? since operation key = some treatment) :
    turn.OwesVisit l s front back usages since operation := by
  have hthis : (Stage.visit operation 0 since).treatment? s turn.raises key = some treatment :=
    (if_pos ⟨hkey, hraises⟩).trans hsome
  rw [OwesVisit, Stage.treats_eq_update hthis fun other => Stage.treatment?_visit_of_ne hkey]
  exact hturn

namespace Store

/-- An operation that nothing is in the way of goes by what is live. -/
theorem treatment?_of_admits (hadmits : s.Admits key since operation) :
    s.treatment? since operation key =
      operation.treatment? since ((s.look key since).live?.map Holder.value) := by
  rw [treatment?]
  split
  · rename_i fault hlook
    rw [if_neg fun hwaits => hadmits hwaits fault hlook, hlook]
    rfl
  · rfl

theorem treatment?_of_live (hlook : s.look key since = .live h) :
    s.treatment? since operation key = operation.treatment? since (some h.value) := by
  rw [treatment?, hlook]
  rfl

theorem treatment?_of_stale (hlook : s.look key since = .stale h) :
    s.treatment? since operation key = operation.treatment? since none := by
  rw [treatment?, hlook]
  rfl

theorem treatment?_of_waits {fault : Nat} (hlook : s.look key since = .pending fault)
    (hwaits : operation.waits = true) : s.treatment? since operation key = none := by
  rw [treatment?, hlook]
  exact if_pos hwaits

namespace Visitable

/-- A value is written. -/
theorem written (hvisit : Visitable settings l s front back usages since operation) {value : V}
    {d : Draft V} (hkey : operation.key? = some key) (hadmits : s.Admits key since operation)
    (hgives : operation.gives ((s.look key since).live?.map Holder.value) = some value)
    (hd : (s.drafting settings key value since).result = .ok d)
    (hstate : turn.state = s.written key d) (hongoing : turn.ongoing = [])
    (hraises : turn.raises = false) (hnext : turn.next.IsFree)
    (hframes : ∀ frame ∈ turn.frames, frame.IsLater) :
    turn.OwesVisit l s front back usages since operation := by
  have hwrites := (treatment?_of_admits hadmits).trans (Operation.treatment?_of_gives hgives)
  obtain ⟨rfl, hbounds⟩ := Settings.bounds_draft hvisit.expiry hd
  refine Turn.Owes.treated ⟨.rests hnext ?_, hframes⟩ hkey hraises hwrites
  rw [hstate, hongoing, lodgings_fill [.seeks operation] [] hvisit.valid rfl fun _ _ _ => rfl]
  exact hvisit.observes.write key (Nat.le_refl _) hbounds

omit [DecidableEq V] in
/-- The lifetime of a stale value is over. -/
theorem dead (hvisit : Visitable settings l s front back usages since operation)
    (hlook : s.look key since = .stale h) : ∀ u, usages key = some u → ¬ l.Allows u since := by
  refine hvisit.observes.dead fun h' hlodged => ?_
  have hslot := get?_of_stale hlook
  rw [lodgings_of_holder hslot] at hlodged
  obtain rfl := Slot.holder.inj (Option.some.inj hlodged)
  have hexpired : s.expired h since = true := by
    rw [look, hslot] at hlook
    by_contra hno
    simp [hno] at hlook
  rw [s.expired_eq] at hexpired
  simpa using hexpired

omit [DecidableEq V] in
/-- Looking leaves everything as it was. -/
theorem settled (hvisit : Visitable settings l s front back usages since operation) :
    Observes l s.deadlines (lodgings (front ++ [] ++ back) s.map.get?) usages since := by
  have hsame : lodgings (front ++ [] ++ back) s.map.get? =
      lodgings (front ++ [.seeks operation] ++ back) s.map.get? := lodgings_keep rfl fun _ _ => rfl
  rw [hsame]
  exact hvisit.observes

/-- A live value is read. -/
theorem read (hvisit : Visitable settings l s front back usages since operation)
    (hkey : operation.key? = some key) (hlook : s.look key since = .live h)
    (hreads : s.treatment? since operation key = some (.hit since)) (thenEnforce : Bool) :
    (Turn.goTo s (.keep (.consult key h since thenEnforce))).OwesVisit l s front back usages since
      operation := by
  obtain ⟨hslot, halive⟩ := slot_of_live hlook
  have hlodged : lodgings (front ++ [] ++ back) s.map.get? key = some (.holder h) :=
    lodgings_of_holder hslot
  have hvisible : (h.record s.deadlines).isVisible since = true := by
    rw [s.expired_eq] at halive
    simpa using halive
  obtain ⟨u, hu, hgoes⟩ := hvisit.settled.live hlodged hvisible
  have hhit : update usages key ((Treatment.hit since).apply (usages key)) =
      update usages key (some ⟨u.writtenAt, since⟩) := by
    rw [hu]
    rfl
  have hturn : (Turn.goTo s (.keep (.consult key h since thenEnforce))).Owes l front back
      (update usages key ((Treatment.hit since).apply (usages key))) since :=
    ⟨.consults hvisit.settled hlodged hu hgoes hvisible hhit, by simp⟩
  exact hturn.treated hkey rfl hreads

/-- A stale value leaves its slot. -/
theorem expire (hvisit : Visitable settings l s front back usages since operation)
    (hkey : operation.key? = some key) (hlook : s.look key since = .stale h)
    (hnone : s.treatment? since operation key = none)
    (hmap : turn.state.map = s.map.erase key) (hdeadlines : turn.state.deadlines = s.deadlines)
    (hongoing : turn.ongoing = []) (hnext : turn.next.IsFree)
    (hframes : ∀ frame ∈ turn.frames, frame.IsLater) :
    turn.OwesVisit l s front back usages since operation := by
  refine Turn.Owes.untreated ⟨.rests hnext ?_, hframes⟩ hkey (.inr hnone)
  rw [hdeadlines, hongoing,
    lodgings_empty [.seeks operation] [] hvisit.valid hmap fun _ _ _ => rfl]
  exact hvisit.observes.drop (hvisit.dead hlook)

/-- A value is removed. -/
theorem remove (hvisit : Visitable settings l s front back usages since operation)
    (hkey : operation.key? = some key)
    (hremoves : s.treatment? since operation key = some .removed)
    (hmap : turn.state.map = s.map.erase key) (hdeadlines : turn.state.deadlines = s.deadlines)
    (hongoing : turn.ongoing = []) (hraises : turn.raises = false) (hnext : turn.next.IsFree)
    (hframes : ∀ frame ∈ turn.frames, frame.IsLater) :
    turn.OwesVisit l s front back usages since operation := by
  refine Turn.Owes.treated ⟨.rests hnext ?_, hframes⟩ hkey hraises hremoves
  rw [hdeadlines, hongoing,
    lodgings_empty [.seeks operation] [] hvisit.valid hmap fun _ _ _ => rfl]
  exact hvisit.observes.erase key

omit [DecidableEq V] in
/-- The slot of a computation that has just begun stands for the holder that it withholds. -/
theorem lodgings_begun {c : Computation K V Q R}
    (howned : Owned s (front ++ [.seeks operation] ++ back)) (hfault : c.fault = s.faults.size) :
    lodgings (front ++ [.computes c .begun] ++ back)
        (update s.map.get? c.key (some (.fault c.fault))) =
      update (lodgings (front ++ [.seeks operation] ++ back) s.map.get?) c.key
        (c.previous.map Slot.holder) := by
  -- The fault is new, so nobody else withholds anything for it.
  have hnew : ∀ part ⊆ front ++ [.seeks operation] ++ back, withheld part c.key c.fault = none := by
    refine fun part hpart => withheld_eq_none fun hmem => ?_
    obtain ⟨o, ho, hof⟩ := List.mem_filterMap.mp hmem
    have hpending := howned.pending c.fault (List.mem_filterMap.mpr ⟨o, hpart ho, hof⟩)
    have hlt := (Array.getElem?_eq_some_iff.mp hpending).1
    omega
  have hwithheld : withheld (front ++ [.computes c .begun] ++ back) c.key c.fault = c.previous := by
    rw [withheld_append, withheld_append, hnew front (by simp), hnew back (by simp)]
    simp
  have hothers : ∀ other, other ≠ c.key → ∀ fault,
      withheld (front ++ [.computes c .begun] ++ back) other fault =
        withheld (front ++ [.seeks operation] ++ back) other fault := by
    refine fun other hother fault => withheld_replace ?_
    rw [withheld_computes, if_neg fun hsame => hother hsame.1.symm]
    rfl
  rw [lodgings_update hothers, Option.bind_some, Slot.lodger, hwithheld]

/-- A computation begins.  It withholds what is live, and what is stale may as well go. -/
theorem begin {c : Computation K V Q R}
    (hvisit : Visitable settings l s front back usages since operation)
    (hkey : operation.key? = some c.key) (hnone : s.treatment? since operation c.key = none)
    (hfree : ∀ fault, s.look c.key since ≠ .pending fault) (hfault : c.fault = s.faults.size)
    (hprevious : c.previous = (s.look c.key since).live?)
    (hget : turn.state.map.get? = update s.map.get? c.key (some (.fault c.fault)))
    (hdeadlines : turn.state.deadlines = s.deadlines)
    (hongoing : turn.ongoing = [.computes c .begun]) (hnext : turn.next.IsFree)
    (hframes : ∀ frame ∈ turn.frames, frame.IsLater) :
    turn.OwesVisit l s front back usages since operation := by
  refine Turn.Owes.untreated ⟨.rests hnext ?_, hframes⟩ hkey (.inr hnone)
  rw [hdeadlines, hongoing, hget, lodgings_begun hvisit.owned hfault]
  cases hlook : s.look c.key since with
  | live h =>
    have hlodged : lodgings (front ++ [.seeks operation] ++ back) s.map.get? c.key =
        some (.holder h) := lodgings_of_holder (slot_of_live hlook).1
    rw [hprevious, hlook, show (Look.live h).live?.map Slot.holder = some (.holder h) from rfl,
      ← hlodged, update_eq_self]
    exact hvisit.observes
  | absent =>
    rw [hprevious, hlook]
    refine hvisit.observes.drop (hvisit.observes.dead fun h hholder => ?_)
    rw [lodgings_of_none (get?_of_absent hlook)] at hholder
    cases hholder
  | stale h =>
    rw [hprevious, hlook]
    exact hvisit.observes.drop (hvisit.dead hlook)
  | pending fault => exact absurd hlook (hfree fault)

/-- Nothing changes, and the operation goes on with something free. -/
theorem keep (hvisit : Visitable settings l s front back usages since operation)
    (hkey : operation.key? = some key) (hnone : s.treatment? since operation key = none)
    (hstate : turn.state = s) (hongoing : turn.ongoing = []) (hnext : turn.next.IsFree)
    (hframes : ∀ frame ∈ turn.frames, frame.IsLater) :
    turn.OwesVisit l s front back usages since operation :=
  (Turn.owes_keep hvisit.observes (congrArg Store.map hstate) (congrArg Store.deadlines hstate)
    (fun _ _ => by rw [hongoing]; rfl) hnext hframes).untreated hkey (.inr hnone)

theorem answer (hvisit : Visitable settings l s front back usages since operation)
    (hkey : operation.key? = some key) (hnone : s.treatment? since operation key = none)
    (answer : Answer V) :
    (Turn.answer s answer : StoreTurn K V Q R).OwesVisit l s front back usages since operation :=
  hvisit.keep hkey hnone rfl rfl trivial (by simp)

/-- An operation that has to wait waits for a fault that nobody resolves meanwhile. -/
theorem wait (hvisit : Visitable settings l s front back usages since operation)
    (hkey : operation.key? = some key) {fault : Nat} (hlook : s.look key since = .pending fault)
    (hwaits : operation.waits = true) (retries : Nat) :
    (Turn.goTo s (.keep (.await operation retries fault))).OwesVisit l s front back usages since
      operation := by
  have hsame : lodgings (front ++ [.awaits operation fault] ++ back) s.map.get? =
      lodgings (front ++ [.seeks operation] ++ back) s.map.get? := lodgings_keep rfl fun _ _ => rfl
  have hobserves := hvisit.observes
  rw [← hsame] at hobserves
  have hturn : (Turn.goTo s (.keep (.await operation retries fault))).Owes l front back usages
      since :=
    ⟨.awaits (hvisit.unresolved key fault (get?_of_pending hlook)) hobserves, by simp⟩
  exact hturn.untreated hkey (.inr (treatment?_of_waits hlook hwaits))

/-- Nothing is removed where there is nothing. -/
theorem remove_nothing (hvisit : Visitable settings l s front back usages since operation)
    (hkey : operation.key? = some key)
    (hremoves : s.treatment? since operation key = some .removed)
    (hslot : s.map.get? key = none) (answer : Answer V) :
    (Turn.answer s answer : StoreTurn K V Q R).OwesVisit l s front back usages since operation := by
  have hlodged : lodgings (front ++ [] ++ back) s.map.get? key = none := lodgings_of_none hslot
  have hsame : update (lodgings (front ++ [] ++ back) s.map.get?) key none =
      lodgings (front ++ [] ++ back) s.map.get? := update_eq_self_iff.mpr hlodged.symm
  have herased := hvisit.settled.erase key
  rw [hsame] at herased
  have hturn : (Turn.answer s answer : StoreTurn K V Q R).Owes l front back
      (update usages key (Treatment.removed.apply (usages key))) since :=
    ⟨.rests trivial herased, by simp⟩
  exact hturn.treated hkey rfl hremoves

/-- An operation that declines changes nothing. -/
theorem decline (hvisit : Visitable settings l s front back usages since operation)
    (hkey : operation.key? = some key) {answer : Answer V}
    (hdeclined : operation.declined = some answer) (hadmits : s.Admits key since operation)
    (hgives : operation.gives ((s.look key since).live?.map Holder.value) = none)
    (htakes : operation.takes ((s.look key since).live?.map Holder.value) = true →
      s.map.get? key = none) :
    (Turn.answer s answer : StoreTurn K V Q R).OwesVisit l s front back usages since operation := by
  have htreatment := treatment?_of_admits hadmits
  cases htake : operation.takes ((s.look key since).live?.map Holder.value) with
  | false =>
    exact hvisit.answer hkey
      (htreatment.trans (Operation.treatment?_of_declined hdeclined hgives htake)) answer
  | true =>
    refine hvisit.remove_nothing hkey (htreatment.trans ?_) (htakes htake) answer
    rw [Operation.treatment?, hgives, htake]
    rfl

end Visitable

/-- After every visit slots and deadlines go by what the operation has done. -/
theorem owes_finds (hvisit : Visitable settings l s front back usages since operation)
    (hfinds : operation.Finds settings s retries since turn) :
    turn.OwesVisit l s front back usages since operation := by
  cases hfinds with
  | waits hkey hwaits hlook => exact hvisit.wait hkey hlook hwaits retries
  | reads hkey hreads hlook =>
    exact hvisit.read hkey hlook
      ((treatment?_of_live hlook).trans (Operation.treatment?_of_reads hreads _)) _
  | @misses key hlook =>
    have hadmits : s.Admits key since (.get key : Operation K V Q R) :=
      admits_of_look hlook (by simp)
    have hnone := treatment?_of_admits hadmits
    rw [hlook] at hnone
    exact hvisit.keep rfl hnone rfl rfl (by rfl) (by simp)
  | @expels key h hlook =>
    have hturn : (Turn.goTo s (.keep (.expel key h)) : StoreTurn K V Q R).Owes l front back usages
        since :=
      ⟨.expels hvisit.settled (hvisit.dead hlook), by simp⟩
    exact hturn.untreated rfl (.inr (treatment?_of_stale hlook))
  | tells =>
    refine hvisit.answer rfl ((treatment?_of_admits (admits_of_not_waits rfl)).trans ?_) _
    simp [Operation.treatment?, Operation.gives, Operation.takes, Operation.reads]
  | clears =>
    exact Turn.owes_keep hvisit.observes rfl rfl (fun _ _ => rfl) (by rfl) (by simp)
  | declines hkey hdeclined hadmits hgives htakes =>
    exact hvisit.decline hkey hdeclined hadmits hgives htakes
  | drops hkey hdeclined hwaits hlook =>
    refine hvisit.expire hkey hlook ((treatment?_of_stale hlook).trans ?_) rfl rfl rfl (by rfl)
      (by simp [reporting])
    cases operation with
    | replace | replaceIfEqual | computeIfPresent => rfl
    | remove | removeIfEqual => cases hwaits
    | _ => cases hdeclined
  | balks hkey =>
    refine Turn.Owes.untreated ?_ hkey (.inl rfl)
    exact Turn.owes_keep hvisit.observes rfl rfl (fun _ _ => rfl) trivial (by simp)
  | puts _ hd =>
    exact hvisit.written rfl (admits_of_not_waits rfl) rfl hd rfl rfl rfl (by rfl)
      (by simp [enforcing])
  | overwrites _ hd =>
    exact hvisit.written rfl (admits_of_not_waits rfl) rfl hd rfl rfl rfl (by rfl) (by simp)
  | putsAbsent hlook hd =>
    exact hvisit.written rfl (admits_of_look hlook (by simp)) (by rw [hlook]; rfl) hd rfl rfl rfl
      (by rfl) (by simp [enforcing])
  | putsStale hlook hd =>
    exact hvisit.written rfl (admits_of_look hlook (by simp)) (by rw [hlook]; rfl) hd rfl rfl rfl
      (by rfl) (by simp)
  | replaces hlook hd | replacesEqual hlook hd =>
    exact hvisit.written rfl (admits_of_look hlook (by simp))
      (by simp [hlook, Look.live?, Operation.gives]) hd rfl rfl rfl (by rfl) (by simp [reporting])
  | removes =>
    exact hvisit.remove rfl (treatment?_of_admits (admits_of_not_waits rfl)) rfl rfl rfl rfl
      (by rfl) (by simp)
  | removesFault =>
    exact hvisit.remove rfl (treatment?_of_admits (admits_of_not_waits rfl)) rfl rfl rfl rfl trivial
      (by simp)
  | removesEqual hlook =>
    refine hvisit.remove rfl ((treatment?_of_live hlook).trans ?_) rfl rfl rfl rfl (by rfl)
      (by simp [reporting])
    simp [Operation.treatment?, Operation.gives, Operation.takes]
  | @begins _ key hkey hcomputes hfree =>
    have hget := EntryMap.get?_insert_eq hvisit.valid key (.fault s.faults.size)
    have hnone : s.treatment? since operation key = none :=
      (treatment?_of_admits fun _ => hfree).trans (Operation.treatment?_of_computes hcomputes)
    exact hvisit.begin (c := operation.computation key s.faults.size (s.look key since).live?) hkey
      hnone hfree rfl rfl hget rfl rfl (by rfl) (by simp)
  | @beginsStale _ key h s' hkey hcomputes hlook hs =>
    have hnone : s.treatment? since operation key = none :=
      (treatment?_of_stale hlook).trans (Operation.treatment?_of_computes hcomputes)
    have hget : (s'.beginFault key).1.map.get? =
        update s.map.get? key (some (.fault s.faults.size)) := by
      rcases hs with rfl | rfl
      · exact EntryMap.get?_insert_eq hvisit.valid key _
      · calc ((s.erase key).beginFault key).1.map.get?
            = update (s.map.erase key).get? key (some (.fault s.faults.size)) :=
              EntryMap.get?_insert_eq (hvisit.valid.erase key) key _
          _ = update s.map.get? key (some (.fault s.faults.size)) := by
              rw [EntryMap.get?_erase_eq hvisit.valid, update_idem]
    have hdeadlines : s'.deadlines = s.deadlines := by rcases hs with rfl | rfl <;> rfl
    have hfree : ∀ fault, s.look key since ≠ .pending fault := by simp [hlook]
    exact hvisit.begin (c := operation.computation key s.faults.size none) hkey hnone hfree rfl
      (congrArg Look.live? hlook).symm hget hdeadlines rfl (by rfl)
      (by simp [reporting, Activity.IsLater, Stage.IsLater, Operation.computation])

end Store

end Visits

end SharedCache
