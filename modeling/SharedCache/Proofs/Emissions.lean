import SharedCache.Proofs.SectionEffects
import SharedCache.Proofs.Victims

/-!
# Emissions

Which events a step can bring about.  Every collaborator is consulted in few sections: the expiry
about reads in one only, the veto and the comparison of entries in the one that picks a victim, and
there only about entries of the sample.  `Stage.Emits` says for each section what it may emit, and
`Passage.Lawful.emitted` that a passage emits nothing else.
-/

namespace SharedCache

variable {K V Q R : Type}

/-- Whether an event is part of preparing a value for being written. -/
def Event.isOfWrite : Event K V → Bool
  | .copiedIn _ | .askedOnCreate .. | .askedOnUpdate .. | .weighed .. => true
  | _ => false

/-- Whether an event is part of choosing a victim among the entries of a sample. -/
def Event.IsOfChoice (sample : List (K × Holder V)) : Event K V → Prop
  | .vetoAsked key value => ∃ h, (key, h) ∈ sample ∧ h.value = value
  | .ranked key value key' value' =>
    (∃ h, (key, h) ∈ sample ∧ h.value = value) ∧ ∃ h, (key', h) ∈ sample ∧ h.value = value'
  | _ => False

/-- What a section of a store operation may emit. -/
def Stage.Emits (s : Store K V) : Stage K V Q R → Event K V → Prop
  | .visit .., event => event.isOfWrite = true
  | .consult key h now _, event =>
    event = .askedOnRead key h.value now (s.timeLeft h now) h.writtenAt
  | .handOut h _, event => event = .copiedOut h.value
  | .report key h cause, event =>
    event = .reported h.id cause ∨ event = .copiedOut h.value ∨
      ∃ value, event = .listened key value cause
  | .own c, event =>
    (∃ value, event = .copiedOut value) ∨ ∃ current, event = .mapped c.key c.fault current
  | .compose .., event => event.isOfWrite = true ∨ ∃ value, event = .copiedOut value
  | .enforce _, event => ∃ message, event = .logged message
  | .pick _ sample, event => event.IsOfChoice sample
  | _, _ => False

/-- The expiry is asked about reads in one section only. -/
theorem Stage.Emits.of_askedOnRead {s : Store K V} {stage : Stage K V Q R} {key : K} {value : V}
    {now : Instant} {left : Option Duration} {writtenAt : Instant}
    (hemits : stage.Emits s (.askedOnRead key value now left writtenAt)) :
    ∃ h thenEnforce, stage = .consult key h now thenEnforce ∧ h.value = value ∧
      h.writtenAt = writtenAt ∧ s.timeLeft h now = left := by
  cases stage with
  | consult other h time thenEnforce =>
    obtain ⟨rfl, rfl, rfl, rfl, rfl⟩ := Event.askedOnRead.inj hemits
    exact ⟨h, thenEnforce, rfl, rfl, rfl, rfl⟩
  | visit => cases hemits
  | handOut => cases hemits
  | report => obtain hevent | hevent | ⟨_, hevent⟩ := hemits <;> cases hevent
  | own => obtain ⟨_, hevent⟩ | ⟨_, hevent⟩ := hemits <;> cases hevent
  | compose =>
    obtain hevent | ⟨_, hevent⟩ := hemits
    · cases hevent
    · cases hevent
  | enforce =>
    obtain ⟨_, hevent⟩ := hemits
    cases hevent
  | _ => exact hemits.elim

/-! ## Consultations -/

/-- Every call of the consultation is one of these events. -/
def Consultation.Emits {α : Type} (P : Event K V → Prop) (c : Consultation K V α) : Prop :=
  ∀ event ∈ c.events, P event

namespace Consultation

variable {α β : Type} {P P' : Event K V → Prop}

theorem emits_answer (a : α) : (answer a : Consultation K V α).Emits P := by
  simp [Emits, answer]

theorem emits_pure (a : α) : (pure a : Consultation K V α).Emits P := emits_answer a

theorem emits_call {event : Event K V} (hevent : P event) (result : Except Panic α) :
    (call event result).Emits P := by
  simpa [Emits, call] using hevent

theorem emits_bind {c : Consultation K V α} {next : α → Consultation K V β} (hc : c.Emits P)
    (hnext : ∀ a, (next a).Emits P) : (c >>= next).Emits P := by
  change (c.andThen next).Emits P
  rw [andThen]
  cases c.result with
  | error panic => exact hc
  | ok a =>
    intro event hevent
    rcases List.mem_append.mp hevent with hfirst | hrest
    · exact hc event hfirst
    · exact hnext a event hrest

theorem Emits.imp {c : Consultation K V α} (hc : c.Emits P) (himp : ∀ event, P event → P' event) :
    c.Emits P' :=
  fun event hevent => himp event (hc event hevent)

end Consultation

namespace Settings

variable (s : Settings K V Q R)

theorem emits_lifetimeOfWrite (key : K) (value : V) (now : Instant)
    (previous : Option (Option Duration)) :
    (s.lifetimeOfWrite key value now previous).Emits fun event => event.isOfWrite = true := by
  unfold lifetimeOfWrite
  split
  · exact Consultation.emits_answer _
  · exact Consultation.emits_call (by rfl) _
  · exact Consultation.emits_call (by rfl) _

theorem emits_weigh (key : K) (value : V) :
    (s.weigh key value).Emits fun event => event.isOfWrite = true := by
  rw [weigh]
  split
  · exact Consultation.emits_answer _
  · split <;> exact Consultation.emits_call (by rfl) _

theorem emits_draft (key : K) (value : V) (now : Instant) (previous : Option (Option Duration)) :
    (s.draft key value now previous).Emits fun event => event.isOfWrite = true := by
  rw [draft]
  refine Consultation.emits_bind (Consultation.emits_call (by rfl) _) fun stored => ?_
  refine Consultation.emits_bind (s.emits_lifetimeOfWrite key stored now previous) fun _ => ?_
  exact Consultation.emits_bind (s.emits_weigh key stored) fun _ => Consultation.emits_pure _

theorem emits_giveOut (value : V) : (s.giveOut value).Emits fun event => event = .copiedOut value :=
  Consultation.emits_call (by rfl) _

theorem emits_deadlineOfRead (key : K) (value : V) (now : Instant) (left : Option Duration)
    (writtenAt : Instant) :
    (s.deadlineOfRead key value now left writtenAt).Emits fun event =>
      event = .askedOnRead key value now left writtenAt := by
  rw [deadlineOfRead]
  split
  · exact Consultation.emits_answer _
  · exact Consultation.emits_bind (Consultation.emits_call (by rfl) _) fun _ =>
      Consultation.emits_pure _

variable {sample : List (K × Holder V)}

theorem emits_spares {entry : K × Holder V} (hentry : entry ∈ sample) :
    (s.spares entry).Emits fun event => event.IsOfChoice sample := by
  rw [spares]
  split
  · exact Consultation.emits_answer _
  · exact Consultation.emits_call ⟨entry.2, hentry, rfl⟩ _

theorem emits_firstUnspared {rest : List (K × Holder V)} (hrest : rest ⊆ sample) :
    (s.firstUnspared rest).Emits fun event => event.IsOfChoice sample := by
  induction rest with
  | nil => exact Consultation.emits_answer _
  | cons entry rest ih =>
    rw [firstUnspared]
    refine Consultation.emits_bind (s.emits_spares (hrest List.mem_cons_self)) fun spared => ?_
    cases spared with
    | true => exact ih (List.cons_subset.mp hrest).2
    | false => exact Consultation.emits_pure _

/-- Two entries of a sample are compared, and one of them is the smaller one. -/
theorem emits_smaller {rank : K → V → K → V → Ordering} {a b : K × Holder V} (ha : a ∈ sample)
    (hb : b ∈ sample) : (smaller rank a b).Emits fun event => event.IsOfChoice sample :=
  Consultation.emits_call ⟨⟨a.2, ha, rfl⟩, ⟨b.2, hb, rfl⟩⟩ _

theorem emits_smallestUnspared {rank : K → V → K → V → Ordering} {rest : List (K × Holder V)}
    (hrest : rest ⊆ sample) {best : Option (K × Holder V)} (hbest : ∀ b ∈ best, b ∈ sample) :
    (s.smallestUnspared rank best rest).Emits fun event => event.IsOfChoice sample := by
  induction rest generalizing best with
  | nil => exact Consultation.emits_answer _
  | cons entry rest ih =>
    obtain ⟨hentry, hrest⟩ := List.cons_subset.mp hrest
    unfold smallestUnspared
    refine Consultation.emits_bind (s.emits_spares hentry) fun spared => ?_
    cases spared with
    | true => exact ih hrest hbest
    | false =>
      cases best with
      | none => exact ih hrest (by simpa using hentry)
      | some b =>
        have hb : b ∈ sample := hbest b rfl
        intro event hevent
        -- The comparison answers one of the two entries, so the search goes on within the sample.
        rcases List.mem_append.mp hevent with hcompared | hlater
        · exact emits_smaller hb hentry event hcompared
        · refine ih hrest (fun least hleast => ?_) event hlater
          exact mem_of_smaller (by rw [← Option.some.inj hleast]; rfl) hb hentry

end Settings

/-- Only the veto and the comparison are consulted about a victim, about entries of the sample. -/
theorem Store.emits_victim (settings : Settings K V Q R) (s : Store K V) (now : Instant)
    (sample : List (K × Holder V)) :
    (s.victim settings now sample).Emits fun event => event.IsOfChoice sample := by
  rw [victim]
  split
  · exact Consultation.emits_answer _
  · dsimp only
    split
    · exact Consultation.emits_bind (settings.emits_firstUnspared (List.Subset.refl _)) fun _ =>
        Consultation.emits_pure _
    · exact Consultation.emits_bind
        (settings.emits_smallestUnspared (List.Subset.refl _) (by simp)) fun _ =>
        Consultation.emits_pure _

/-! ## Turns -/

/-- Every event of the turn is one of these. -/
def Turn.Emits {σ : Type} (P : Event K V → Prop) (turn : Turn σ K V Q R) : Prop :=
  ∀ event ∈ turn.events, P event

namespace Turn

variable {σ : Type} {turn : Turn σ K V Q R} {P : Event K V → Prop}

theorem emits_of_nil (hnone : turn.events = []) : turn.Emits P := by simp [Emits, hnone]

theorem emits_after {events : List (Event K V)} (hevents : ∀ event ∈ events, P event)
    (hturn : turn.Emits P) : (turn.after events).Emits P := by
  intro event hevent
  rcases List.mem_append.mp hevent with hnew | hold
  · exact hevents event hnew
  · exact hturn event hold

end Turn

/-! ## Sections -/

theorem Computation.emits_shown (settings : Settings K V Q R) (c : Computation K V Q R) :
    (c.shown settings).Emits fun event => ∃ value, event = .copiedOut value := by
  cases hprevious : c.previous with
  | none =>
    rw [shown_of_none hprevious]
    exact Consultation.emits_answer _
  | some h =>
    rw [shown_of_some hprevious]
    simp [Consultation.Emits]

section Step

variable [DecidableEq K] [DecidableEq V] {settings : Settings K V Q R} {s : Store K V}
  {turn : StoreTurn K V Q R} {now : Instant}

/-- A visit consults nobody unless it writes. -/
theorem Operation.Finds.emits {operation : Operation K V Q R} {retries : Nat}
    (hfinds : operation.Finds settings s retries now turn) :
    turn.Emits fun event => event.isOfWrite = true := by
  cases hfinds with
  | balks | puts | overwrites | putsAbsent | putsStale | replaces | replacesEqual =>
    exact Turn.emits_after (settings.emits_draft _ _ _ _) (Turn.emits_of_nil rfl)
  | _ => exact Turn.emits_of_nil rfl

/-- A section emits nothing but what it may. -/
theorem Stage.emits {stage : Stage K V Q R} {interrupted : Bool} {draws : List K}
    (hturn : stage.turn settings s now interrupted draws = some turn) :
    turn.Emits (stage.Emits s) := by
  cases Stage.sections hturn with
  | visits => exact (s.finds _).emits
  | @resumes operation retries _ resolution =>
    obtain ⟨a, heq, -⟩ := s.resume_eq operation retries resolution
    exact heq ▸ Turn.emits_of_nil rfl
  | consults | balksAtRead =>
    exact Turn.emits_after (settings.emits_deadlineOfRead _ _ _ _ _) (Turn.emits_of_nil rfl)
  | handsOut | handsOutFirst | balksAtCopy =>
    exact Turn.emits_after (settings.emits_giveOut _) (Turn.emits_of_nil rfl)
  | counts => exact Turn.emits_after (by simp [Stage.Emits]) (Turn.emits_of_nil rfl)
  | tells =>
    refine Turn.emits_after (by simp [Stage.Emits]) (Turn.emits_after ?_ ?_)
    · exact (settings.emits_giveOut _).imp fun event hevent => .inr (.inl hevent)
    · exact Turn.emits_after (by simp [Stage.Emits]) (Turn.emits_of_nil rfl)
  | balksAtReport =>
    refine Turn.emits_after (by simp [Stage.Emits]) (Turn.emits_after ?_ (Turn.emits_of_nil rfl))
    exact (settings.emits_giveOut _).imp fun event hevent => .inr (.inl hevent)
  | @maps c =>
    refine Turn.emits_after ((c.emits_shown settings).imp fun event hevent => .inl hevent) ?_
    exact Turn.emits_after (by simp [Stage.Emits]) (Turn.emits_of_nil rfl)
  | @unwinds c =>
    exact Turn.emits_after ((c.emits_shown settings).imp fun event hevent => .inl hevent)
      (Turn.emits_of_nil rfl)
  | unwindsDraft =>
    exact Turn.emits_after ((settings.emits_draft _ _ _ _).imp fun event hevent => .inl hevent)
      (Turn.emits_of_nil rfl)
  | composes | unwindsCopy =>
    refine Turn.emits_after ((settings.emits_draft _ _ _ _).imp fun event hevent => .inl hevent) ?_
    exact Turn.emits_after ((settings.emits_giveOut _).imp fun event hevent => .inr ⟨_, hevent⟩)
      (Turn.emits_of_nil rfl)
  | givesUp => exact Turn.emits_after (by simp [Stage.Emits]) (Turn.emits_of_nil rfl)
  | picks | picksNothing | balksAtPick =>
    exact Turn.emits_after (s.emits_victim settings _ _) (Turn.emits_of_nil rfl)
  | _ => exact Turn.emits_of_nil rfl

omit [DecidableEq K] [DecidableEq V] in
/-- Taking the end of a mapping function emits nothing. -/
theorem Store.events_mapped (s : Store K V) (c : Computation K V Q R) (signal : Signal V) :
    (s.mapped c signal).events = [] := by
  obtain ⟨key, fault, previous, isRequest, code⟩ := c
  cases signal with
  | raised p => rfl
  | done answer =>
    cases answer with
    | complaint text => cases previous <;> rfl
    | value v => cases v <;> rfl
    | _ => rfl

omit [DecidableEq K] [DecidableEq V] in
/-- The panic of a listener is logged. -/
theorem Store.events_listened (s : Store K V) {signal : Signal V} {event : Event K V}
    (hevent : event ∈ (s.listened signal : StoreTurn K V Q R).events) :
    ∃ message, event = .logged message := by
  cases signal with
  | done answer => cases hevent
  | raised p => exact ⟨_, List.mem_singleton.mp hevent⟩

/-- A step emits events of the executor, or what the section may emit that it is. -/
theorem Thread.Stride.emitted {w : World K V Q R} {t : Thread K V Q R} {step : Step K V Q R}
    (hstride : t.Stride settings w step) {event : Event K V} (hevent : event ∈ step.events) :
    event.isExecutors = true ∨ ∃ stage, t.activity = .keep stage ∧ stage.Emits w.store event := by
  cases hstride with
  | works _ _ _ _ _ _ hevents => exact .inl (hevents event hevent)
  | returns _ _ _ _ _ _ hevents => exact .inl (hevents event hevent)
  | @mapped signal c =>
    have hmem : event ∈ (w.store.mapped c signal).events := hevent
    rw [Store.events_mapped] at hmem
    cases hmem
  | @listened signal =>
    obtain ⟨message, rfl⟩ := w.store.events_listened (Q := Q) (R := R) hevent
    exact .inl rfl
  | keeps hactivity hturn => exact .inr ⟨_, hactivity, Stage.emits hturn event hevent⟩
  | calls => cases hevent
  | enters => cases hevent
  | proceeds => cases hevent
  | unwinds => cases hevent

/-- So does a passage. -/
theorem Passage.Lawful.emitted {p : Passage K V Q R} (hp : p.Lawful settings) {event : Event K V}
    (hevent : event ∈ p.events) :
    event.isExecutors = true ∨
      ∃ stage, p.stage? = some stage ∧ stage.Emits p.before.world.store event := by
  cases hp.course with
  | outside _ _ hnone =>
    rw [hnone] at hevent
    cases hevent
  | step hmover ht hstride _ hevents =>
    rcases hstride.emitted (hevents ▸ hevent) with hexecutors | ⟨stage, hactivity, hemits⟩
    · exact .inl hexecutors
    · exact .inr ⟨stage, Passage.stage?_of_keep hmover ht hactivity, hemits⟩

end Step

end SharedCache
