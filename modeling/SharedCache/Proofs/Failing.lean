import SharedCache.Proofs.Detours
import SharedCache.Proofs.Prospects
import SharedCache.Proofs.Removals

/-!
# Failing calls

How a call on a key fails: a collaborator panics over the value that is to be written, or the
mapping function of the call returns an error or panics.  If the fault of the call is in the slot
already, the computation is going to be undone: the slot gets back what the fault has taken the
place of, and those who wait for the computation look at the key again or take over the failure.
-/

namespace SharedCache

variable {K V Q R : Type}

/-- A call in progress: its thread, the frames that wait for its end, its operation and its key. -/
structure Call (K V Q R : Type) where
  thread : Nat
  base : List (Frame K V Q R)
  operation : Operation K V Q R
  key : K
  key_eq : operation.key? = some key

namespace Call

variable (call : Call K V Q R)

/-- The passage is a step of the call, and not of anything that the call has called back. -/
def isOwn (p : Passage K V Q R) : Bool :=
  p.mover = some call.thread && p.thread?.any (Thread.attends call.base.length)

/-- The call fails in a step of its thread and is going to end like this. -/
inductive Strikes (settings : Settings K V Q R) (p : Passage K V Q R) (t : Thread K V Q R) :
    Signal V → Prop where
  /-- The value that is to be written cannot be prepared. -/
  | visits {retries : Nat} {now : Instant} {panic : Panic} :
      t.activity = .keep (.visit call.operation retries now) → t.stack = call.base →
      p.next? = some (.settle (.raised panic)) → Strikes settings p t (.raised panic)
  /-- The mapping function returns an error. -/
  | complains {c : Computation K V Q R} {text : String} :
      t.activity = .settle (.done (.complaint text)) → t.stack = .computing c :: call.base →
      Strikes settings p t (.done (.failed (.computation ⟨c.fault, text⟩)))
  /-- The mapping function panics. -/
  | panics {c : Computation K V Q R} {panic : Panic} :
      t.activity = .settle (.raised panic) → t.stack = .computing c :: call.base →
      Strikes settings p t (.raised panic)
  /-- The value that the mapping function gave cannot be prepared. -/
  | composes {c : Computation K V Q R} {value : V} {panic : Panic} :
      t.activity = .keep (.compose c value) → t.stack = call.base →
      (settings.draft c.key value p.before.world.clock.now (c.previous.map fun h =>
        p.before.world.store.timeLeft h p.before.world.clock.now)).result = .error panic →
      Strikes settings p t (.raised panic)

/-- The call fails in this passage and is going to end like this. -/
def Fails (settings : Settings K V Q R) (p : Passage K V Q R) (signal : Signal V) : Prop :=
  p.mover = some call.thread ∧
    ∃ t, p.before.threads[call.thread]? = some t ∧ call.Strikes settings p t signal

section Own

variable {call} {p : Passage K V Q R} {t : Thread K V Q R} {above inside : List (Frame K V Q R)}
  {frame : Frame K V Q R}

theorem isOwn_eq (hmover : p.mover = some call.thread)
    (ht : p.before.threads[call.thread]? = some t) :
    call.isOwn p = t.attends call.base.length := by
  simp [isOwn, hmover, Passage.thread?_eq hmover ht]

theorem isOwn_of_stack (hmover : p.mover = some call.thread)
    (ht : p.before.threads[call.thread]? = some t) (hstack : t.stack = above ++ call.base)
    (habove : ∀ frame ∈ above, frame.callsBack = false) : call.isOwn p = true := by
  rw [isOwn_eq hmover ht, Thread.attends_of_stack hstack habove]

/-- The call learns how what it has called back has ended. -/
theorem isOwn_of_settle {signal : Signal V} (hmover : p.mover = some call.thread)
    (ht : p.before.threads[call.thread]? = some t)
    (hstack : t.stack = (frame :: above) ++ call.base) (hactivity : t.activity = .settle signal)
    (habove : ∀ frame ∈ above, frame.callsBack = false) : call.isOwn p = true := by
  rw [isOwn_eq hmover ht, Thread.attends_of_settle hstack hactivity habove]

theorem not_isOwn_of_mover (hmover : p.mover ≠ some call.thread) : call.isOwn p = false := by
  simp [isOwn, hmover]

/-- What runs above a frame that has called back is no step of the call. -/
theorem not_isOwn_of_runs (hmover : p.mover = some call.thread)
    (ht : p.before.threads[call.thread]? = some t)
    (hstack : t.stack = (inside ++ frame :: above) ++ call.base)
    (hframe : frame.callsBack = true)
    (hruns : ¬ (inside = [] ∧ ∃ signal, t.activity = .settle signal)) : call.isOwn p = false := by
  rw [isOwn_eq hmover ht, Thread.not_attends_of_runs hstack hframe hruns]

end Own

end Call

/-! ## Sections of a failing call -/

/-- A computation is going to be undone: its fault is resolved, and the slot gets back what the
fault has taken the place of. -/
inductive Computation.Undoes (c : Computation K V Q R) (resolution : Resolution V) :
    Signal V → Stage K V Q R → Prop where
  | restores {signal : Signal V} : Undoes c resolution signal (.restore c resolution signal)
  | vacates {answer : Answer V} :
      c.previous = none → Undoes c resolution (.done answer) (.vacate c resolution answer)

/-- A resolution tells those who wait that there is nothing to share but the failure with which the
call of the computation ends. -/
def Resolution.IsFailure (signal : Signal V) : Resolution V → Prop
  | .retry | .restored => True
  | .failed error => signal = .done (.failed (.computation error))
  | .ready _ | .absent => False

/-- How an operation goes on when the computation that it waited for has failed: it looks at the key
again, unless it has done so too often, or takes over the failure.  `get` then finds nothing. -/
inductive Operation.TakesFailure (operation : Operation K V Q R) (retries : Nat)
    (signal : Signal V) : Activity K V Q R → Prop where
  | again {retries' : Nat} :
      TakesFailure operation retries signal (.keep (.round operation retries'))
  | abandons :
      maxAbandoned ≤ retries + 1 →
      TakesFailure operation retries signal (.settle (.done (.failed (.abandoned (retries + 1)))))
  | fails {key : K} {mapping : K → Script K V Q R} :
      operation = .computeIfAbsent key mapping →
      TakesFailure operation retries signal (.settle signal)
  | misses {key : K} :
      operation = .get key → TakesFailure operation retries signal (.keep .missed)

/-- Nothing changes but the slot of one key. -/
inductive EntryMap.ChangesAt [DecidableEq K] (key : K) (m : EntryMap K V) :
    EntryMap K V → Prop where
  | same : ChangesAt key m m
  | puts (slot : Slot V) : ChangesAt key m (m.insert key slot)
  | drops : ChangesAt key m (m.erase key)

namespace Store

variable {settings : Settings K V Q R} {s : Store K V} {c : Computation K V Q R}
  {operation : Operation K V Q R} {retries fault : Nat} {signal : Signal V}

theorem takesFailure {resolution : Resolution V} (hfailure : resolution.IsFailure signal) :
    operation.TakesFailure retries signal
      (s.resume operation retries resolution : StoreTurn K V Q R).next := by
  obtain ⟨a, heq, hresumes⟩ := s.resume_eq operation retries resolution
  rw [heq]
  cases hresumes with
  | tries | again => exact .again
  | abandons habandoned => exact .abandons habandoned
  | receives | misses => exact hfailure.elim
  | missesFailed => exact .misses rfl
  | fails =>
    obtain rfl : signal = _ := hfailure
    exact .fails rfl

/-- A wait ends with another look at the key, or leaves its call spent. -/
theorem resume_outcome (s : Store K V) (operation : Operation K V Q R) (retries : Nat)
    (resolution : Resolution V) :
    (s.resume operation retries resolution : StoreTurn K V Q R).state = s ∧
      (s.resume operation retries resolution : StoreTurn K V Q R).frames = [] ∧
        ((∃ retries', (s.resume operation retries resolution : StoreTurn K V Q R).next =
          .keep (.round operation retries')) ∨
        (s.resume operation retries resolution : StoreTurn K V Q R).next.IsSpent) := by
  obtain ⟨a, heq, hresumes⟩ := s.resume_eq operation retries resolution
  rw [heq]
  cases hresumes with
  | tries | again => exact ⟨rfl, rfl, .inl ⟨_, rfl⟩⟩
  | _ => exact ⟨rfl, rfl, .inr trivial⟩

/-- The call of the mapping function changes no slot.  If copying the previous value panics, the
call is spent. -/
theorem own_outcome (settings : Settings K V Q R) (s : Store K V) (c : Computation K V Q R) :
    (s.own settings c).state.map = s.map ∧ (s.own settings c).state.deadlines = s.deadlines ∧
      ((s.own settings c).frames = [.computing c] ∨
        (s.own settings c).frames = [] ∧ (s.own settings c).next.IsSpent) := by
  rw [own_eq, Turn.consulting]
  split
  · exact ⟨s.map_asked, s.deadlines_asked, .inl rfl⟩
  · exact ⟨s.map_asked, s.deadlines_asked, .inr ⟨rfl, trivial⟩⟩

/-- When the mapping function ends, the call is going to be undone, or prepares a value, or is
spent. -/
theorem mapped_outcome (s : Store K V) (c : Computation K V Q R) (signal : Signal V) :
    (∃ p, signal = .raised p ∧ (s.mapped c signal).next = .keep (.restore c .retry signal)) ∨
      (∃ text resolution stage, signal = .done (.complaint text) ∧
        (s.mapped c signal).next = .keep stage ∧
        c.Undoes resolution (.done (.failed (.computation ⟨c.fault, text⟩))) stage ∧
        resolution.IsFailure (.done (.failed (.computation ⟨c.fault, text⟩)))) ∨
      ((∀ p, signal ≠ .raised p) ∧ (∀ text, signal ≠ .done (.complaint text)) ∧
        ((∃ value, (s.mapped c signal).next = .keep (.compose c value)) ∨
          (s.mapped c signal).next.IsSpent)) := by
  have hothers : ∀ answer : Answer V, (∀ text, answer ≠ .complaint text) →
      (∃ value, (s.mapped c (.done answer)).next = .keep (.compose c value)) ∨
        (s.mapped c (.done answer)).next.IsSpent := by
    intro answer hanswer
    cases answer with
    | complaint text => exact absurd rfl (hanswer text)
    | value v =>
      cases v with
      | none => exact .inr trivial
      | some value => exact .inl ⟨value, rfl⟩
    | _ => exact .inr trivial
  cases signal with
  | raised p => exact .inl ⟨p, rfl, rfl⟩
  | done answer =>
    by_cases hcomplaint : ∃ text, answer = .complaint text
    · obtain ⟨text, rfl⟩ := hcomplaint
      obtain ⟨key, fault, previous, isRequest, code⟩ := c
      cases previous with
      | none =>
        exact .inr (.inl ⟨text, .failed ⟨fault, text⟩, _, rfl, rfl, .vacates rfl, rfl⟩)
      | some h => exact .inr (.inl ⟨text, .restored, _, rfl, rfl, .restores, trivial⟩)
    · have hanswer : ∀ text, answer ≠ .complaint text := fun text heq => hcomplaint ⟨text, heq⟩
      exact .inr (.inr ⟨by simp, by simpa using hanswer, hothers answer hanswer⟩)

/-- A value that cannot be prepared is dropped.  After that its call is spent. -/
theorem compose_outcome (settings : Settings K V Q R) (s : Store K V) (c : Computation K V Q R)
    (value : V) (now : Instant) :
    (∃ p, (settings.draft c.key value now (c.previous.map fun h => s.timeLeft h now)).result =
        .error p ∧ (s.compose settings c value now).state = s ∧
        (s.compose settings c value now).frames = [] ∧
        (s.compose settings c value now).next = .keep (.restore c .retry (.raised p))) ∨
      (∃ d, (settings.draft c.key value now (c.previous.map fun h => s.timeLeft h now)).result =
        .ok d) ∧ (s.compose settings c value now).frames = [] ∧
        (s.compose settings c value now).next.IsSpent := by
  unfold compose
  cases hdraft :
      (settings.draft c.key value now (c.previous.map fun h => s.timeLeft h now)).result with
  | error p =>
    refine .inl ⟨p, rfl, ?_⟩
    rw [Turn.consulting, hdraft]
    exact ⟨rfl, rfl, rfl⟩
  | ok d =>
    refine .inr ⟨⟨d, rfl⟩, ?_⟩
    rw [Turn.consulting_of_ok hdraft]
    refine Turn.consulting_induction
      (P := fun turn : StoreTurn K V Q R => turn.frames = [] ∧ turn.next.IsSpent)
      (fun _ _ => id) (fun _ _ => ⟨rfl, trivial⟩) fun _ _ => ⟨rfl, trivial⟩

end Store

namespace EntryMap

variable [DecidableEq K] {key : K} {m m' : EntryMap K V}

theorem ChangesAt.get? (hchange : m.ChangesAt key m') (hvalid : m.Valid) {other : K}
    (hother : other ≠ key) : m'.get? other = m.get? other := by
  cases hchange with
  | same => rfl
  | puts slot => rw [hvalid.get?_insert, if_neg hother]
  | drops => rw [hvalid.get?_erase, if_neg hother]

/-- A total changes by as much as the slot contributes more or less. -/
theorem ChangesAt.total (hchange : m.ChangesAt key m') (hvalid : m.Valid)
    (measure : Slot V → Nat) :
    m'.total measure + (m.get? key).elim 0 measure =
      m.total measure + (m'.get? key).elim 0 measure := by
  cases hchange with
  | same => rfl
  | puts slot =>
    rw [hvalid.get?_insert, if_pos rfl]
    exact hvalid.total_insert key slot measure
  | drops =>
    rw [hvalid.get?_erase, if_pos rfl]
    exact hvalid.total_erase key measure

end EntryMap

section Undoing

variable [DecidableEq K] [DecidableEq V] {settings : Settings K V Q R} {s : Store K V}
  {c : Computation K V Q R} {resolution : Resolution V} {signal : Signal V}
  {stage : Stage K V Q R} {turn : StoreTurn K V Q R} {now : Instant} {interrupted : Bool}
  {draws : List K}

/-- Where the slot has the fault, it gets back what it had. -/
theorem Computation.Undoes.turn_spec (hstage : c.Undoes resolution signal stage)
    (hturn : stage.turn settings s now interrupted draws = some turn)
    (hpending : s.pendingIn c.key c.fault = true) :
    turn.state.map = s.map.leave c.key c.previous ∧ turn.state.deadlines = s.deadlines ∧
      turn.state.faults = (s.resolve c.fault resolution).faults ∧ turn.next = .settle signal ∧
        turn.frames = [] := by
  cases hstage with
  | restores =>
    obtain rfl := Option.some.inj hturn
    rw [Store.restore, if_pos hpending]
    cases hprevious : c.previous with
    | none =>
      exact ⟨Store.map_resolve _ _, Store.deadlines_resolve _ _ _,
        Store.faults_resolve_congr s (s.erase c.key) rfl _ _, rfl, rfl⟩
    | some h =>
      exact ⟨Store.map_resolve _ _, Store.deadlines_resolve _ _ _,
        Store.faults_resolve_congr s (s.fill c.key h) rfl _ _, rfl, rfl⟩
  | vacates hprevious =>
    obtain rfl := Option.some.inj hturn
    rw [Store.vacate, if_pos hpending, hprevious]
    exact ⟨Store.map_resolve _ _, Store.deadlines_resolve _ _ _,
      Store.faults_resolve_congr s (s.erase c.key) rfl _ _, rfl, rfl⟩

end Undoing

end SharedCache
