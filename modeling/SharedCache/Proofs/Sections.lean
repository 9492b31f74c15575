import SharedCache.Store.Turn

/-!
# Sections

What a section of a store operation can be.  `Stage.turn` is a function of many branches, most of
them behind a condition or a consultation; `Stage.Section` lists the branches together with what
leads to them, and `Stage.sections` says that there are no others.  What is true of every section is
proved by cases of this list.
-/

namespace SharedCache

variable {K V Q R : Type}

/-- What the mapping function of a computation is shown of the value that its key had. -/
def Computation.shown (settings : Settings K V Q R) (c : Computation K V Q R) :
    Consultation K V (Option V) :=
  match c.previous with
  | none => .answer none
  | some h => do
    let value ← settings.giveOut h.value
    return some value

/-- The store when the mapping function of a computation is called. -/
def Store.asked (s : Store K V) (c : Computation K V Q R) : Store K V :=
  if c.isRequest then s.count Statistics.recordMiss else s

section Shown

variable {settings : Settings K V Q R} {c : Computation K V Q R}

theorem Computation.shown_of_none (hprevious : c.previous = none) :
    c.shown settings = .answer none := by
  rw [shown, hprevious]

/-- A copy of the previous value is shown. -/
theorem Computation.shown_of_some {h : Holder V} (hprevious : c.previous = some h) :
    c.shown settings = ⟨[.copiedOut h.value], (settings.copyOut h.value).map some⟩ := by
  rw [shown, hprevious]
  change Consultation.andThen _ _ = _
  rw [Consultation.andThen, Settings.giveOut, Consultation.call]
  cases settings.copyOut h.value <;> rfl

@[simp]
theorem Store.map_asked (s : Store K V) : (s.asked c).map = s.map := by
  rw [asked]
  split <;> rfl

@[simp]
theorem Store.faults_asked (s : Store K V) : (s.asked c).faults = s.faults := by
  rw [asked]
  split <;> rfl

@[simp]
theorem Store.deadlines_asked (s : Store K V) : (s.asked c).deadlines = s.deadlines := by
  rw [asked]
  split <;> rfl

theorem Store.own_eq (s : Store K V) : s.own settings c =
    .consulting (c.shown settings) ((s.asked c).unwinding c) fun current =>
      ((Turn.goTo (s.asked c) (.code (c.code c.key current))).above (.computing c)).after
        [.mapped c.key c.fault current] := rfl

end Shown

variable [DecidableEq K] [DecidableEq V]

/-- The sections of a store operation. -/
inductive Stage.Section (settings : Settings K V Q R) (s : Store K V) (now : Instant)
    (interrupted : Bool) (draws : List K) : Stage K V Q R → StoreTurn K V Q R → Prop where
  | looks {operation : Operation K V Q R} {retries : Nat} :
      Section settings s now interrupted draws (.round operation retries)
        (.goTo s (.keep (.visit operation retries now)))
  | visits {operation : Operation K V Q R} {retries : Nat} {time : Instant} :
      Section settings s now interrupted draws (.visit operation retries time)
        (s.visit settings retries time operation)
  | resumes {operation : Operation K V Q R} {retries fault : Nat} {resolution : Resolution V} :
      s.resolution? fault = some resolution →
      Section settings s now interrupted draws (.await operation retries fault)
        (s.resume operation retries resolution)
  | interrupts {operation : Operation K V Q R} {retries fault : Nat} :
      s.resolution? fault = none → interrupted = true →
      Section settings s now interrupted draws (.await operation retries fault)
        (.answer s (.failed .interrupted))
  | receives {key : K} {h : Holder V} :
      Section settings s now interrupted draws (.receive key h)
        (.goTo s (.keep (.consult key h now false)))
  /-- The expiry answers. -/
  | consults {key : K} {h : Holder V} {time : Instant} {thenEnforce : Bool}
      {deadline : Option (Option Instant)} :
      (settings.deadlineOfRead key h.value time (s.timeLeft h time) h.writtenAt).result =
        .ok deadline →
      Section settings s now interrupted draws (.consult key h time thenEnforce)
        ((Turn.goTo s (.keep (.refresh h deadline thenEnforce))).after
          (settings.deadlineOfRead key h.value time (s.timeLeft h time) h.writtenAt).events)
  | balksAtRead {key : K} {h : Holder V} {time : Instant} {thenEnforce : Bool} {p : Panic} :
      (settings.deadlineOfRead key h.value time (s.timeLeft h time) h.writtenAt).result =
        .error p →
      Section settings s now interrupted draws (.consult key h time thenEnforce)
        ((Turn.panic s p).after
          (settings.deadlineOfRead key h.value time (s.timeLeft h time) h.writtenAt).events)
  | hits {h : Holder V} {thenEnforce : Bool} :
      Section settings s now interrupted draws (.refresh h none thenEnforce)
        (.goTo (s.count Statistics.recordHit) (.keep (.handOut h thenEnforce)))
  | moves {h : Holder V} {deadline : Option Instant} {thenEnforce : Bool} :
      Section settings s now interrupted draws (.refresh h (some deadline) thenEnforce)
        (.goTo ((s.setDeadline h deadline).count Statistics.recordHit)
          (.keep (.handOut h thenEnforce)))
  | handsOut {h : Holder V} {value : V} :
      (settings.giveOut h.value).result = .ok value →
      Section settings s now interrupted draws (.handOut h false)
        ((Turn.answer s (.value (some value))).after (settings.giveOut h.value).events)
  | handsOutFirst {h : Holder V} {value : V} :
      (settings.giveOut h.value).result = .ok value →
      Section settings s now interrupted draws (.handOut h true)
        ((s.enforcing (.value (some value))).after (settings.giveOut h.value).events)
  | balksAtCopy {h : Holder V} {thenEnforce : Bool} {p : Panic} :
      (settings.giveOut h.value).result = .error p →
      Section settings s now interrupted draws (.handOut h thenEnforce)
        ((Turn.panic s p).after (settings.giveOut h.value).events)
  | misses :
      Section settings s now interrupted draws .missed
        (.answer (s.count Statistics.recordMiss) (.value none))
  | expels {key : K} {h : Holder V} :
      s.holds key h = true →
      Section settings s now interrupted draws (.expel key h)
        (((s.erase key).reporting key h .expired).andThen (.keep .missed))
  | expelsNothing {key : K} {h : Holder V} :
      s.holds key h = false →
      Section settings s now interrupted draws (.expel key h) (.goTo s (.keep .missed))
  | sweeps {segment : Nat} :
      segment + 1 < (s.map.clearSegment segment).segments.size →
      Section settings s now interrupted draws (.sweep segment)
        (.goTo { s with map := s.map.clearSegment segment } (.keep (.sweep (segment + 1))))
  | sweepsLast {segment : Nat} :
      ¬ segment + 1 < (s.map.clearSegment segment).segments.size →
      Section settings s now interrupted draws (.sweep segment)
        (.answer { s with map := s.map.clearSegment segment } .unit)
  | judges {key : K} {h : Holder V} {time : Instant} :
      Section settings s now interrupted draws (.judge key h time)
        (s.reporting key h (if s.expired h time then .expired else .replaced))
  | dismissesStale {key : K} {h : Holder V} {time : Instant} :
      s.expired h time = true →
      Section settings s now interrupted draws (.dismiss key h time)
        ((s.reporting key h .expired).andThen (.settle (.done (.value none))))
  | dismisses {key : K} {h : Holder V} {time : Instant} :
      s.expired h time = false →
      Section settings s now interrupted draws (.dismiss key h time)
        ((s.reporting key h .explicit).andThen (.keep (.handOut h false)))
  /-- A removal is counted that no listener is told. -/
  | counts {key : K} {h : Holder V} {cause : RemovalCause} :
      settings.listener = none ∨ s.listening = false →
      Section settings s now interrupted draws (.report key h cause)
        ((Turn.answer (s.count fun statistics => statistics.recordRemoval h.weight cause)
          .unit).after [.reported h.id cause])
  | tells {key : K} {h : Holder V} {cause : RemovalCause}
      {listener : K → V → RemovalCause → Script K V Q R} {value : V} :
      settings.listener = some listener → s.listening = true →
      (settings.giveOut h.value).result = .ok value →
      Section settings s now interrupted draws (.report key h cause)
        (((((Turn.goTo (s.count fun statistics => statistics.recordRemoval h.weight cause)
          (.code (listener key value cause))).above .listening).after
            [.listened key value cause]).after (settings.giveOut h.value).events).after
              [.reported h.id cause])
  | balksAtReport {key : K} {h : Holder V} {cause : RemovalCause} {p : Panic}
      {listener : K → V → RemovalCause → Script K V Q R} :
      settings.listener = some listener → s.listening = true →
      (settings.giveOut h.value).result = .error p →
      Section settings s now interrupted draws (.report key h cause)
        (((Turn.panic (s.count fun statistics => statistics.recordRemoval h.weight cause) p).after
          (settings.giveOut h.value).events).after [.reported h.id cause])
  /-- The mapping function is called. -/
  | maps {c : Computation K V Q R} {current : Option V} :
      (c.shown settings).result = .ok current →
      Section settings s now interrupted draws (.own c)
        ((((Turn.goTo (s.asked c) (.code (c.code c.key current))).above (.computing c)).after
          [.mapped c.key c.fault current]).after (c.shown settings).events)
  | unwinds {c : Computation K V Q R} {p : Panic} :
      (c.shown settings).result = .error p →
      Section settings s now interrupted draws (.own c)
        (((s.asked c).unwinding c p).after (c.shown settings).events)
  | composes {c : Computation K V Q R} {value copy : V} {d : Draft V} :
      (settings.draft c.key value now (c.previous.map fun h => s.timeLeft h now)).result = .ok d →
      (settings.giveOut d.value).result = .ok copy →
      Section settings s now interrupted draws (.compose c value)
        (((Turn.goTo (s.newHolder d).1 (.keep (.install c (s.newHolder d).2 copy))).after
          (settings.giveOut d.value).events).after
            (settings.draft c.key value now (c.previous.map fun h => s.timeLeft h now)).events)
  | unwindsDraft {c : Computation K V Q R} {value : V} {p : Panic} :
      (settings.draft c.key value now (c.previous.map fun h => s.timeLeft h now)).result =
        .error p →
      Section settings s now interrupted draws (.compose c value)
        ((s.unwinding c p).after
          (settings.draft c.key value now (c.previous.map fun h => s.timeLeft h now)).events)
  | unwindsCopy {c : Computation K V Q R} {value : V} {d : Draft V} {p : Panic} :
      (settings.draft c.key value now (c.previous.map fun h => s.timeLeft h now)).result = .ok d →
      (settings.giveOut d.value).result = .error p →
      Section settings s now interrupted draws (.compose c value)
        ((((s.newHolder d).1.unwinding c p).after (settings.giveOut d.value).events).after
          (settings.draft c.key value now (c.previous.map fun h => s.timeLeft h now)).events)
  | installs {c : Computation K V Q R} {h : Holder V} {value : V} :
      s.pendingIn c.key c.fault = true → c.previous = none →
      Section settings s now interrupted draws (.install c h value)
        (((s.fill c.key h).resolve c.fault (.ready h)).enforcing (.value (some value)))
  | replaces {c : Computation K V Q R} {h previous : Holder V} {value : V} :
      s.pendingIn c.key c.fault = true → c.previous = some previous →
      Section settings s now interrupted draws (.install c h value)
        (((((s.fill c.key h).resolve c.fault (.ready h)).reporting c.key previous .replaced).andThen
          (.keep (.enforce 0))).andThen (.settle (.done (.value (some value)))))
  /-- Somebody else has written the slot meanwhile. -/
  | installsNothing {c : Computation K V Q R} {h : Holder V} {value : V} :
      s.pendingIn c.key c.fault = false →
      Section settings s now interrupted draws (.install c h value)
        (.answer (s.resolve c.fault (.ready h)) (.value (some value)))
  | vacates {c : Computation K V Q R} {resolution : Resolution V} {answer : Answer V} :
      s.pendingIn c.key c.fault = true → c.previous = none →
      Section settings s now interrupted draws (.vacate c resolution answer)
        (.answer ((s.erase c.key).resolve c.fault resolution) answer)
  | removes {c : Computation K V Q R} {resolution : Resolution V} {answer : Answer V}
      {previous : Holder V} :
      s.pendingIn c.key c.fault = true → c.previous = some previous →
      Section settings s now interrupted draws (.vacate c resolution answer)
        ((((s.erase c.key).resolve c.fault resolution).reporting c.key previous .explicit).andThen
          (.settle (.done answer)))
  | vacatesNothing {c : Computation K V Q R} {resolution : Resolution V} {answer : Answer V} :
      s.pendingIn c.key c.fault = false →
      Section settings s now interrupted draws (.vacate c resolution answer)
        (.answer (s.resolve c.fault resolution) answer)
  | restores {c : Computation K V Q R} {resolution : Resolution V} {signal : Signal V}
      {previous : Holder V} :
      s.pendingIn c.key c.fault = true → c.previous = some previous →
      Section settings s now interrupted draws (.restore c resolution signal)
        (.goTo ((s.fill c.key previous).resolve c.fault resolution) (.settle signal))
  | restoresEmpty {c : Computation K V Q R} {resolution : Resolution V} {signal : Signal V} :
      s.pendingIn c.key c.fault = true → c.previous = none →
      Section settings s now interrupted draws (.restore c resolution signal)
        (.goTo ((s.erase c.key).resolve c.fault resolution) (.settle signal))
  | restoresNothing {c : Computation K V Q R} {resolution : Resolution V} {signal : Signal V} :
      s.pendingIn c.key c.fault = false →
      Section settings s now interrupted draws (.restore c resolution signal)
        (.goTo (s.resolve c.fault resolution) (.settle signal))
  /-- The store has no capacity, or is within it. -/
  | fits {failed : Nat} :
      (∀ capacity, settings.blueprint.capacity = some capacity → s.map.weightedSize ≤ capacity) →
      Section settings s now interrupted draws (.enforce failed) (.answer s .unit)
  | givesUp {failed capacity : Nat} :
      settings.blueprint.capacity = some capacity → capacity < s.map.weightedSize →
      settings.blueprint.sampling.attempts ≤ failed →
      Section settings s now interrupted draws (.enforce failed)
        ((Turn.answer s .unit).after [.logged (.gaveUp failed s.map.weightedSize capacity)])
  | exceeds {failed capacity : Nat} :
      settings.blueprint.capacity = some capacity → capacity < s.map.weightedSize →
      failed < settings.blueprint.sampling.attempts →
      Section settings s now interrupted draws (.enforce failed)
        (.goTo s (.keep (.draw failed [] settings.blueprint.sampling.size)))
  | draws {failed left : Nat} {sample : List (K × Holder V)} :
      (draws.take left).isEmpty = false → (draws.take left).length < left →
      Section settings s now interrupted draws (.draw failed sample left)
        (.goTo s (.keep (.draw failed (sample ++ s.map.sample (draws.take left))
          (left - (draws.take left).length))))
  | drawsLast {failed left : Nat} {sample : List (K × Holder V)} :
      (draws.take left).isEmpty = true ∨ left ≤ (draws.take left).length →
      Section settings s now interrupted draws (.draw failed sample left)
        (.goTo s (.keep (.pick failed (sample ++ s.map.sample (draws.take left)))))
  | picks {failed : Nat} {sample : List (K × Holder V)} {key : K} {h : Holder V}
      {cause : RemovalCause} :
      (s.victim settings now sample).result = .ok (some ((key, h), cause)) →
      Section settings s now interrupted draws (.pick failed sample)
        ((Turn.goTo s (.keep (.evict failed key h cause))).after
          (s.victim settings now sample).events)
  | picksNothing {failed : Nat} {sample : List (K × Holder V)} :
      (s.victim settings now sample).result = .ok none →
      Section settings s now interrupted draws (.pick failed sample)
        ((Turn.goTo s (.keep (.enforce (failed + 1)))).after (s.victim settings now sample).events)
  | balksAtPick {failed : Nat} {sample : List (K × Holder V)} {p : Panic} :
      (s.victim settings now sample).result = .error p →
      Section settings s now interrupted draws (.pick failed sample)
        ((Turn.panic s p).after (s.victim settings now sample).events)
  | evicts {failed : Nat} {key : K} {h : Holder V} {cause : RemovalCause} :
      s.holds key h = true →
      Section settings s now interrupted draws (.evict failed key h cause)
        (((s.erase key).reporting key h cause).andThen (.keep (.enforce 0)))
  | evictsNothing {failed : Nat} {key : K} {h : Holder V} {cause : RemovalCause} :
      s.holds key h = false →
      Section settings s now interrupted draws (.evict failed key h cause)
        (.goTo s (.keep (.enforce (failed + 1))))

variable {settings : Settings K V Q R} {s : Store K V} {now : Instant} {interrupted : Bool}
  {draws : List K}

/-- There are no other sections. -/
theorem Stage.sections {stage : Stage K V Q R} {turn : StoreTurn K V Q R}
    (hturn : stage.turn settings s now interrupted draws = some turn) :
    stage.Section settings s now interrupted draws turn := by
  cases stage with
  | round operation retries => exact Option.some.inj hturn ▸ .looks
  | visit operation retries time => exact Option.some.inj hturn ▸ .visits
  | await operation retries fault =>
    simp only [Stage.turn] at hturn
    split at hturn
    · exact Option.some.inj hturn ▸ .resumes ‹_›
    · split at hturn
      · exact Option.some.inj hturn ▸ .interrupts ‹_› ‹_›
      · cases hturn
  | receive key h => exact Option.some.inj hturn ▸ .receives
  | consult key h time thenEnforce =>
    obtain rfl := Option.some.inj hturn
    rw [Store.consult, Turn.consulting]
    split
    · exact .consults ‹_›
    · exact .balksAtRead ‹_›
  | refresh h deadline thenEnforce =>
    obtain rfl := Option.some.inj hturn
    cases deadline with
    | none => exact .hits
    | some deadline => exact .moves
  | handOut h thenEnforce =>
    obtain rfl := Option.some.inj hturn
    rw [Store.handOut, Turn.consulting]
    split
    · cases thenEnforce with
      | false => exact .handsOut ‹_›
      | true => exact .handsOutFirst ‹_›
    · exact .balksAtCopy ‹_›
  | missed => exact Option.some.inj hturn ▸ .misses
  | expel key h =>
    obtain rfl := Option.some.inj hturn
    rw [Store.expel]
    split
    · exact .expels ‹_›
    · exact .expelsNothing (Bool.eq_false_iff.mpr ‹_›)
  | sweep segment =>
    obtain rfl := Option.some.inj hturn
    rw [Store.sweep]
    dsimp only
    split
    · exact .sweeps ‹_›
    · exact .sweepsLast ‹_›
  | judge key h time => exact Option.some.inj hturn ▸ .judges
  | dismiss key h time =>
    obtain rfl := Option.some.inj hturn
    rw [Store.dismiss]
    split
    · exact .dismissesStale ‹_›
    · exact .dismisses (Bool.eq_false_iff.mpr ‹_›)
  | report key h cause =>
    obtain rfl := Option.some.inj hturn
    rw [Store.report]
    split
    · exact .counts (.inl ‹_›)
    · split
      · rw [Turn.consulting]
        split
        · exact .tells ‹_› ‹_› ‹_›
        · exact .balksAtReport ‹_› ‹_› ‹_›
      · exact .counts (.inr (Bool.eq_false_iff.mpr ‹_›))
  | own c =>
    obtain rfl := Option.some.inj hturn
    rw [Store.own_eq, Turn.consulting]
    split
    · exact .maps ‹_›
    · exact .unwinds ‹_›
  | compose c value =>
    obtain rfl := Option.some.inj hturn
    rw [Store.compose, Turn.consulting]
    split
    · dsimp only
      rw [Turn.consulting]
      split
      · exact .composes ‹_› ‹_›
      · exact .unwindsCopy ‹_› ‹_›
    · exact .unwindsDraft ‹_›
  | install c h value =>
    obtain rfl := Option.some.inj hturn
    rw [Store.install]
    dsimp only
    split
    · split
      · exact .installs ‹_› ‹_›
      · exact .replaces ‹_› ‹_›
    · exact .installsNothing (Bool.eq_false_iff.mpr ‹_›)
  | vacate c resolution answer =>
    obtain rfl := Option.some.inj hturn
    rw [Store.vacate]
    dsimp only
    split
    · split
      · exact .vacates ‹_› ‹_›
      · exact .removes ‹_› ‹_›
    · exact .vacatesNothing (Bool.eq_false_iff.mpr ‹_›)
  | restore c resolution signal =>
    obtain rfl := Option.some.inj hturn
    rw [Store.restore]
    split
    · split
      · exact .restores ‹_› ‹_›
      · exact .restoresEmpty ‹_› ‹_›
    · exact .restoresNothing (Bool.eq_false_iff.mpr ‹_›)
  | enforce failed =>
    obtain rfl := Option.some.inj hturn
    rw [Store.enforce]
    split
    · exact .fits (by simp [*])
    · split
      · exact .fits (by simp [*])
      · split
        · exact .givesUp ‹_› (Nat.not_le.mp ‹_›) ‹_›
        · exact .exceeds ‹_› (Nat.not_le.mp ‹_›) (Nat.not_le.mp ‹_›)
  | draw failed sample left =>
    obtain rfl := Option.some.inj hturn
    rw [Store.draw]
    split <;> rename_i hdone <;>
      simp only [Bool.or_eq_true, decide_eq_true_eq, Nat.sub_eq_zero_iff_le, not_or, Nat.not_le,
        Bool.not_eq_true] at hdone
    · exact .drawsLast hdone
    · exact .draws hdone.1 hdone.2
  | pick failed sample =>
    obtain rfl := Option.some.inj hturn
    rw [Store.pick, Turn.consulting]
    split
    · rename_i choice hchoice
      cases choice with
      | none => exact .picksNothing hchoice
      | some victim => exact .picks hchoice
    · exact .balksAtPick ‹_›
  | evict failed key h cause =>
    obtain rfl := Option.some.inj hturn
    rw [Store.evict]
    split
    · exact .evicts ‹_›
    · exact .evictsNothing (Bool.eq_false_iff.mpr ‹_›)

end SharedCache
