import SharedCache.Proofs.Emissions

/-!
# Calls of mapping functions and reports of removals

A mapping function is called in one section only, the one in which a computation has its turn to do
so, and a removal is counted and the listener called in one section only, the report of the removal.
No collaborator that is consulted elsewhere is a mapping function or a listener.
-/

namespace SharedCache

variable {K V Q R : Type}

/-- Whether an event is the call of a mapping function or a part of the report of a removal. -/
def Event.isMarked : Event K V → Bool
  | .mapped .. | .reported .. | .listened .. => true
  | _ => false

/-- The calls of mapping functions and the reports of removals among some events. -/
def marked (events : List (Event K V)) : List (Event K V) := events.filter Event.isMarked

theorem mappings_eq_nil {events : List (Event K V)}
    (hnone : ∀ key fault current, .mapped key fault current ∉ events) : mappings events = [] := by
  refine List.filterMap_eq_nil_iff.mpr fun event hevent => ?_
  cases event with
  | mapped key fault current => exact absurd hevent (hnone key fault current)
  | _ => rfl

/-- A mapping function is called by a computation that has its turn to do so. -/
theorem Stage.Emits.of_mapped {s : Store K V} {stage : Stage K V Q R} {key : K} {fault : Nat}
    {current : Option V} (hemits : stage.Emits s (.mapped key fault current)) :
    ∃ c, stage = .own c := by
  cases stage with
  | own c => exact ⟨c, rfl⟩
  | report => obtain hevent | hevent | ⟨_, hevent⟩ := hemits <;> cases hevent
  | compose => obtain hevent | ⟨_, hevent⟩ := hemits <;> cases hevent
  | enforce =>
    obtain ⟨_, hevent⟩ := hemits
    cases hevent
  | visit | consult | handOut => cases hemits
  | _ => exact hemits.elim

/-- A removal is counted, and the listener is called, in a report. -/
theorem Stage.Emits.report_or_mapped {s : Store K V} {stage : Stage K V Q R} {event : Event K V}
    (hemits : stage.Emits s event) (hmarked : event.isMarked = true) :
    (∃ key h cause, stage = .report key h cause) ∨
      ∃ key fault current, event = .mapped key fault current := by
  cases event with
  | mapped key fault current => exact .inr ⟨key, fault, current, rfl⟩
  | reported | listened =>
    left
    cases stage with
    | report key h cause => exact ⟨key, h, cause, rfl⟩
    | own => obtain ⟨_, hevent⟩ | ⟨_, hevent⟩ := hemits <;> cases hevent
    | compose => obtain hevent | ⟨_, hevent⟩ := hemits <;> cases hevent
    | enforce =>
      obtain ⟨_, hevent⟩ := hemits
      cases hevent
    | visit | consult | handOut => cases hemits
    | _ => exact hemits.elim
  | _ => cases hmarked

/-- A report counts the removal, and then calls the listener with a copy of the value, unless there
is none, it is not called any more, or the copying panics. -/
theorem Store.marked_report {settings : Settings K V Q R} {s : Store K V} (key : K) (h : Holder V)
    (cause : RemovalCause) :
    marked (s.report settings key h cause).events =
      .reported h.id cause ::
        match settings.listener, s.listening, settings.copyOut h.value with
        | some _, true, .ok copy => [.listened key copy cause]
        | _, _, _ => [] := by
  rw [Store.report]
  cases hlistener : settings.listener with
  | none => rfl
  | some listener =>
    cases hlistening : s.listening with
    | false => simp [Store.count, hlistening, marked, Event.isMarked]
    | true =>
      cases hcopy : settings.copyOut h.value with
      | error p =>
        simp [Store.count, hlistening, hcopy, Turn.consulting, Settings.giveOut, Consultation.call,
          marked, Event.isMarked, List.filter_cons]
      | ok copy =>
        simp [Store.count, hlistening, hcopy, Turn.consulting, Settings.giveOut, Consultation.call,
          marked, Event.isMarked, List.filter_cons]

/-- A report changes no slot and no deadline. -/
theorem Store.state_report (settings : Settings K V Q R) (s : Store K V) (key : K) (h : Holder V)
    (cause : RemovalCause) : (s.report settings key h cause).state.map = s.map ∧
      (s.report settings key h cause).state.deadlines = s.deadlines := by
  rw [Store.report]
  cases settings.listener with
  | none => exact ⟨rfl, rfl⟩
  | some listener =>
    dsimp only
    split
    · rw [Turn.consulting]
      split <;> exact ⟨rfl, rfl⟩
    · exact ⟨rfl, rfl⟩

/-- A report is over at once, or the listener runs above a frame of its own.  It panics only where
the value cannot be copied. -/
theorem Store.report_cases (settings : Settings K V Q R) (s : Store K V) (key : K) (h : Holder V)
    (cause : RemovalCause) :
    (∃ signal, (s.report settings key h cause).next = .settle signal ∧
        ∀ p, signal = .raised p →
          settings.listener.isSome ∧ settings.copyOut h.value = .error p) ∧
        (s.report settings key h cause).frames = [] ∨
      (∃ script, (s.report settings key h cause).next = .code script) ∧
        (s.report settings key h cause).frames = [.listening] := by
  rw [Store.report]
  cases settings.listener with
  | none => exact .inl ⟨⟨_, rfl, by simp⟩, rfl⟩
  | some listener =>
    dsimp only
    split
    · rw [Turn.consulting]
      cases hresult : (settings.giveOut h.value).result with
      | ok value => exact .inr ⟨⟨_, rfl⟩, rfl⟩
      | error p => exact .inl ⟨⟨_, rfl, fun q hq => ⟨rfl, Signal.raised.inj hq ▸ hresult⟩⟩, rfl⟩
    · exact .inl ⟨⟨_, rfl, by simp⟩, rfl⟩

/-- A report ends in a panic just when there is a listener to tell about the removal and the value
cannot be copied for it. -/
theorem Store.report_raised_iff {settings : Settings K V Q R} {s : Store K V} {key : K}
    {h : Holder V} {cause : RemovalCause} {p : Panic} :
    (s.report settings key h cause).next = .settle (.raised p) ↔
      settings.listener.isSome ∧ s.listening = true ∧ settings.copyOut h.value = .error p := by
  rw [Store.report]
  cases settings.listener with
  | none => simp [Turn.answer, Turn.goTo, Turn.after]
  | some listener =>
    cases hlistening : s.listening with
    | false => simp [Store.count, hlistening, Turn.answer, Turn.goTo, Turn.after]
    | true =>
      cases hcopy : settings.copyOut h.value with
      | error q =>
        simp [Store.count, hlistening, hcopy, Turn.consulting, Settings.giveOut, Consultation.call,
          Turn.after, Turn.panic, Turn.goTo]
      | ok copy =>
        simp [Store.count, hlistening, hcopy, Turn.consulting, Settings.giveOut, Consultation.call,
          Turn.after, Turn.above, Turn.goTo]

section Step

variable [DecidableEq K] [DecidableEq V] {settings : Settings K V Q R}

/-- No section but the first one of a computation calls a mapping function. -/
theorem Stage.mappings_eq_nil {s : Store K V} {stage : Stage K V Q R} {now : Instant}
    {interrupted : Bool} {draws : List K} {turn : StoreTurn K V Q R}
    (hturn : stage.turn settings s now interrupted draws = some turn)
    (hstage : ∀ c, stage ≠ .own c) : mappings turn.events = [] := by
  refine SharedCache.mappings_eq_nil fun key fault current hevent => ?_
  obtain ⟨c, hown⟩ := (Stage.emits hturn _ hevent).of_mapped
  exact hstage c hown

/-- A step calls a mapping function only on behalf of a computation that has its turn to do so. -/
theorem Thread.Stride.mappings_eq_nil {w : World K V Q R} {t : Thread K V Q R}
    {step : Step K V Q R} (hstride : t.Stride settings w step)
    (hactivity : ∀ c, t.activity ≠ .keep (.own c)) : mappings step.events = [] := by
  refine SharedCache.mappings_eq_nil fun key fault current hevent => ?_
  rcases hstride.emitted hevent with hexecutors | ⟨stage, hstage, hemits⟩
  · cases hexecutors
  · obtain ⟨c, rfl⟩ := hemits.of_mapped
    exact hactivity c hstage

end Step

end SharedCache
