import SharedCache.Proofs.Absences
import SharedCache.Proofs.Deadlines
import SharedCache.Proofs.Detours
import SharedCache.Proofs.Failing
import SharedCache.Proofs.Readings

/-!
# Where a call stands that finds no live value

After its look a call is on its way to one of a few aims.  How far it still is from there, what it
has done and what it has made known can be told from its activity and its frames.  Nothing of that
changes while other threads move, or what the call has called back.
-/

namespace SharedCache

variable {K V Q R : Type}

/-- The passage counts the expiration of a holder and makes it known, to the listener as well if
there is one that is still called and the value can be copied for it. -/
structure Passage.Expires (settings : Settings K V Q R) (p : Passage K V Q R) (key : K)
    (h : Holder V) : Prop where
  statistics : p.after.world.store.statistics = { p.before.world.store.statistics with
    expirations := p.before.world.store.statistics.expirations + 1 }
  events : marked p.events = .reported h.id .expired ::
    match settings.listener, p.before.world.store.listening, settings.copyOut h.value with
    | some _, true, .ok copy => [.listened key copy .expired]
    | _, _, _ => []

/-- How an operation that computes nothing ends where it finds no value. -/
def Operation.endOfNone [DecidableEq V] (settings : Settings K V Q R) (key : K) (now : Instant)
    (operation : Operation K V Q R) : Signal V :=
  match operation.gives none with
  | none => .done operation.answerOfNone
  | some value =>
    match (settings.draft key value now none).result with
    | .ok _ => .done operation.answerOfNone
    | .error p => .raised p

/-- How a computation ends whose mapping function has given a value for a key that had none. -/
def Settings.endOfValue (settings : Settings K V Q R) (key : K) (value : V) (now : Instant) :
    Signal V :=
  match (settings.draft key value now none).result with
  | .error p => .raised p
  | .ok d =>
    match settings.copyOut d.value with
    | .error p => .raised p
    | .ok copy => .done (.value (some copy))

section EndOfNone

variable [DecidableEq V] {settings : Settings K V Q R} {key : K} {now : Instant}
  {operation : Operation K V Q R} {value : V}

theorem Operation.endOfNone_of_idle (hgives : operation.gives none = none) :
    operation.endOfNone settings key now = .done operation.answerOfNone := by
  rw [endOfNone, hgives]

theorem Operation.endOfNone_of_drafts (hdrafts : ∀ value, operation.gives none = some value →
    ∃ d, (settings.draft key value now none).result = .ok d) :
    operation.endOfNone settings key now = .done operation.answerOfNone := by
  cases hgives : operation.gives none with
  | none => exact endOfNone_of_idle hgives
  | some value =>
    obtain ⟨d, hdraft⟩ := hdrafts value hgives
    rw [endOfNone, hgives]
    simp only [hdraft]

/-- An operation that overlooks an expired value neither writes nor computes one. -/
theorem Operation.idle_of_overlooks (hoverlooks : operation.overlooks = true) :
    operation.gives none = none ∧ operation.computes none = false := by
  cases operation with
  | contains | removeIfEqual => exact ⟨rfl, rfl⟩
  | _ => cases hoverlooks

theorem Operation.computes_of_gives (hgives : operation.gives none = some value) :
    operation.computes none = false := by
  cases operation with
  | computeIfAbsent | compute => cases hgives
  | _ => rfl

end EndOfNone

namespace Call

variable (call : Call K V Q R)

/-! ## What a call has done -/

/-- The number of steps of the call itself. -/
def steps (trace : List (Passage K V Q R)) : Nat := (trace.filter call.isOwn).length

/-- There is such a step of the call. -/
def Did (trace : List (Passage K V Q R)) (P : Passage K V Q R → Prop) : Prop :=
  ∃ p ∈ trace, call.isOwn p = true ∧ P p

/-- The call has looked at its key at this reading of the clock. -/
def Looks (trace : List (Passage K V Q R)) (now : Instant) : Prop :=
  call.Did trace fun p => p.stage? = some (.visit call.operation 0 now)

/-- The call has called the mapping function of a computation, and given it no value. -/
def Asks (trace : List (Passage K V Q R)) (c : Computation K V Q R) : Prop :=
  call.Did trace fun p =>
    p.stage? = some (.own c) ∧ p.next? = some (.code (c.code c.key none))

/-- The mapping function of a computation has ended like this. -/
def Hears (trace : List (Passage K V Q R)) (c : Computation K V Q R) (signal : Signal V) : Prop :=
  call.Did trace fun p => ∃ t, p.thread? = some t ∧ t.activity = .settle signal ∧
    t.stack = .computing c :: call.base

/-- The call has prepared a value that the mapping function gave, at this reading of the clock. -/
def Prepares (trace : List (Passage K V Q R)) (c : Computation K V Q R) (value : V)
    (now : Instant) : Prop :=
  call.Did trace fun p =>
    p.stage? = some (.compose c value) ∧ p.before.world.clock.now = now

/-- The computation ends like this, by what the mapping function has given. -/
inductive Concludes (settings : Settings K V Q R) (trace : List (Passage K V Q R))
    (c : Computation K V Q R) : Signal V → Prop where
  | panics {p : Panic} :
      call.Hears trace c (.raised p) → Concludes settings trace c (.raised p)
  | complains {text : String} :
      call.Hears trace c (.done (.complaint text)) →
      Concludes settings trace c (.done (.failed (.computation ⟨c.fault, text⟩)))
  | nothing {answer : Answer V} :
      call.Hears trace c (.done answer) → (∀ text, answer ≠ .complaint text) →
      answer.value? = none → Concludes settings trace c (.done (.value none))
  | value {answer : Answer V} {value : V} {now : Instant} :
      call.Hears trace c (.done answer) → answer.value? = some value →
      call.Prepares trace c value now →
      Concludes settings trace c (settings.endOfValue c.key value now)

/-- The call computes a value where it has found none. -/
def Begins (c : Computation K V Q R) : Prop :=
  call.operation.computes none = true ∧
    c = call.operation.computation call.key c.fault none

/-- The call ends like this where it finds no value of its key. -/
inductive Misses [DecidableEq V] (settings : Settings K V Q R) (trace : List (Passage K V Q R)) :
    Signal V → Prop where
  | answers {now : Instant} :
      call.operation.computes none = false → call.Looks trace now →
      Misses settings trace (call.operation.endOfNone settings call.key now)
  | concludes {c : Computation K V Q R} {signal : Signal V} :
      call.Begins c → call.Asks trace c → call.Concludes settings trace c signal →
      Misses settings trace signal

/-- No step of the call has counted a removal or called the listener. -/
def Silent (trace : List (Passage K V Q R)) : Prop :=
  ∀ p ∈ trace, call.isOwn p = true → p.IsSilent

/-- One step of the call has made known that the old value has expired, if there was one, and no
other step has counted a removal or called the listener. -/
def Tells (settings : Settings K V Q R) (trace : List (Passage K V Q R)) :
    Option (Holder V) → Prop
  | none => call.Silent trace
  | some h => ∃ front p back, trace = front ++ p :: back ∧ call.isOwn p = true ∧
    p.Expires settings call.key h ∧ call.Silent (front ++ back)

/-- The value of the old holder cannot be copied for the listener. -/
def Unheard (settings : Settings K V Q R) (old : Option (Holder V)) (signal : Signal V) : Prop :=
  ∃ h ∈ old, ∃ p, settings.listener.isSome ∧ settings.copyOut h.value = .error p ∧
    signal = .raised p

variable [DecidableEq K] [DecidableEq V]

/-- How a call ends that has found no live value of its key, but perhaps an old one. -/
inductive Ends (settings : Settings K V Q R) (old : Option (Holder V))
    (trace : List (Passage K V Q R)) (s : Store K V) (signal : Signal V) : Prop where
  /-- The old value is still there, and nobody was told that it has expired. -/
  | overlooks :
      call.operation.overlooks = true → call.Misses settings trace signal →
      s.map.get? call.key = old.map .holder → call.Silent trace →
      Ends settings old trace s signal
  /-- A collaborator panics over the value that was to be written, before anything has changed. -/
  | refuses {p : Panic} :
      (call.operation.gives none).isSome → signal = .raised p →
      call.Misses settings trace signal → s.map.get? call.key = old.map .holder →
      call.Silent trace → Ends settings old trace s signal
  /-- The old value is gone, and it was made known once that it has expired. -/
  | expires :
      call.operation.overlooks = false →
      call.Misses settings trace signal ∨ Unheard settings old signal →
      (∀ h ∈ old, s.map.get? call.key ≠ some (.holder h)) → call.Tells settings trace old →
      Ends settings old trace s signal

/-! ## Where a call stands -/

/-- The fault of a computation is in the slot. -/
structure Occupies (c : Computation K V Q R) (s : Store K V) : Prop where
  begins : call.Begins c
  slot : s.map.get? call.key = some (.fault c.fault)

/-- What a call is on its way to after its look, and how many steps of its own it takes at most from
there to its end. -/
inductive Aims (settings : Settings K V Q R) (old : Option (Holder V))
    (trace : List (Passage K V Q R)) (s : Store K V) : Nat → Activity K V Q R → Prop where
  | missed {now : Instant} :
      call.operation = .get call.key → call.Looks trace now →
      (∀ h ∈ old, s.map.get? call.key ≠ some (.holder h)) →
      Aims settings old trace s 1 (.keep .missed)
  | own {c : Computation K V Q R} :
      call.Occupies c s → Aims settings old trace s 6 (.keep (.own c))
  | composes {c : Computation K V Q R} {answer : Answer V} {value : V} :
      call.Occupies c s → call.Asks trace c → call.Hears trace c (.done answer) →
      answer.value? = some value → Aims settings old trace s 4 (.keep (.compose c value))
  | installs {c : Computation K V Q R} {h' : Holder V} {value : V} :
      call.Occupies c s → call.Asks trace c → (∀ h ∈ old, h'.id ≠ h.id) →
      call.Concludes settings trace c (.done (.value (some value))) →
      Aims settings old trace s 3 (.keep (.install c h' value))
  | vacates {c : Computation K V Q R} {resolution : Resolution V} {answer : Answer V} :
      call.Occupies c s → call.Asks trace c → call.Concludes settings trace c (.done answer) →
      Aims settings old trace s 1 (.keep (.vacate c resolution answer))
  | restores {c : Computation K V Q R} {resolution : Resolution V} {signal : Signal V} :
      call.Occupies c s → call.Asks trace c → call.Concludes settings trace c signal →
      Aims settings old trace s 1 (.keep (.restore c resolution signal))
  | settles {signal : Signal V} :
      call.operation.overlooks = false →
      (∀ h ∈ old, s.map.get? call.key ≠ some (.holder h)) → call.Misses settings trace signal →
      Aims settings old trace s 0 (.settle signal)

/-- An activity waits for the report of an expiration, so many steps after it at most. -/
inductive Waits (a : Activity K V Q R) : Nat → List (Frame K V Q R) → Prop where
  | next : Waits a 1 [.next a]
  | enforce : Waits a 3 [.next (.keep (.enforce 0)), .next a]

/-- Where a call stands that finds no live value of its key, and how many steps of its own it still
has to do at most. -/
inductive Nears (settings : Settings K V Q R) (old : Option (Holder V)) (since : Instant)
    (trace : List (Passage K V Q R)) (s : Store K V) :
    Nat → Activity K V Q R → List (Frame K V Q R) → Prop where
  | rounds :
      s.map.get? call.key = old.map .holder → (∀ h ∈ old, s.expired h since = true) →
      call.Silent trace →
      Nears settings old since trace s 11 (.keep (.round call.operation 0)) []
  | visits {now : Instant} :
      s.map.get? call.key = old.map .holder → (∀ h ∈ old, s.expired h now = true) →
      call.Silent trace →
      Nears settings old since trace s 10 (.keep (.visit call.operation 0 now)) []
  | expels {h : Holder V} {now : Instant} :
      old = some h → s.map.get? call.key = some (.holder h) → call.Silent trace →
      call.operation = .get call.key → call.Looks trace now →
      Nears settings old since trace s 5 (.keep (.expel call.key h)) []
  | judges {h : Holder V} {now : Instant} {a : Activity K V Q R} {j : Nat}
      {frames : List (Frame K V Q R)} :
      old = some h → s.expired h now = true → call.Silent trace →
      call.Aims settings old trace s 0 a → Waits a j frames →
      Nears settings old since trace s (j + 3) (.keep (.judge call.key h now)) frames
  | dismisses {h : Holder V} {now : Instant} :
      old = some h → s.expired h now = true → call.Silent trace →
      call.Aims settings old trace s 0 (.settle (.done (.value none))) →
      Nears settings old since trace s 4 (.keep (.dismiss call.key h now)) []
  | reports {h : Holder V} {a : Activity K V Q R} {k j : Nat} {frames : List (Frame K V Q R)} :
      old = some h → call.Silent trace → call.Aims settings old trace s k a → Waits a j frames →
      Nears settings old since trace s (k + j + 2) (.keep (.report call.key h .expired)) frames
  | listens {now a : Activity K V Q R} {k j : Nat} {inside frames : List (Frame K V Q R)} :
      call.Tells settings trace old → call.Aims settings old trace s k a → Waits a j frames →
      Nears settings old since trace s (k + j + 1) now (inside ++ .listening :: frames)
  | passes {answer : Answer V} {a : Activity K V Q R} {k j : Nat}
      {frames : List (Frame K V Q R)} :
      call.Tells settings trace old → call.Aims settings old trace s k a → Waits a j frames →
      Nears settings old since trace s (k + j) (.settle (.done answer)) frames
  | enforces {a : Activity K V Q R} {k : Nat} :
      call.Tells settings trace old → call.Aims settings old trace s k a →
      Nears settings old since trace s (k + 2) (.keep (.enforce 0)) [.next a]
  | arrives {a : Activity K V Q R} {k : Nat} :
      call.Tells settings trace old → call.Aims settings old trace s k a →
      Nears settings old since trace s k a []
  | runs {c : Computation K V Q R} {now : Activity K V Q R} {inside : List (Frame K V Q R)} :
      call.Tells settings trace old → call.Occupies c s → call.Asks trace c →
      Nears settings old since trace s 5 now (inside ++ [.computing c])
  | unwinds {p : Panic} {frames : List (Frame K V Q R)} :
      call.operation.overlooks = false → Unheard settings old (.raised p) →
      (∀ h ∈ old, s.map.get? call.key ≠ some (.holder h)) → call.Tells settings trace old →
      (∀ frame ∈ frames, ∃ a, frame = .next a) →
      Nears settings old since trace s frames.length (.settle (.raised p)) frames
  | ends {signal : Signal V} :
      call.Ends settings old trace s signal → Nears settings old since trace s 0 (.settle signal) []

/-- No one else, nor anything that the call has called back, changes the slot of its key or moves
the deadline of the old value, and the call is not over before the last passage. -/
structure Unmeddled (old : Option (Holder V)) (trace : List (Passage K V Q R)) : Prop where
  calm : ∀ p ∈ trace, call.isOwn p = false → p.after.slot? call.key = p.before.slot? call.key
  still : ∀ p ∈ trace, call.isOwn p = false → ∀ h ∈ old,
    p.after.world.store.deadline h = p.before.world.store.deadline h
  within : ∀ p ∈ trace, p.mover = some call.thread → ∀ t, p.before.threads[call.thread]? = some t →
    t.stack = call.base → ∀ signal, t.activity ≠ .settle signal

section Facts

variable {call} {settings : Settings K V Q R} {old : Option (Holder V)} {since : Instant}
  {trace : List (Passage K V Q R)} {p : Passage K V Q R} {above : List (Frame K V Q R)} {n : Nat}
  {a : Activity K V Q R} {c : Computation K V Q R} {signal : Signal V} {s s' : Store K V}

/-! ## Growing traces -/

omit [DecidableEq K] [DecidableEq V] in
theorem Did.snoc {P : Passage K V Q R → Prop} (hdid : call.Did trace P) :
    call.Did (trace ++ [p]) P := by
  obtain ⟨q, hq, hown, hP⟩ := hdid
  exact ⟨q, List.mem_append_left _ hq, hown, hP⟩

omit [DecidableEq K] [DecidableEq V] in
theorem did_last {P : Passage K V Q R → Prop} (hown : call.isOwn p = true) (hP : P p) :
    call.Did (trace ++ [p]) P :=
  ⟨p, by simp, hown, hP⟩

omit [DecidableEq K] [DecidableEq V] in
theorem Concludes.snoc (hconcludes : call.Concludes settings trace c signal) :
    call.Concludes settings (trace ++ [p]) c signal := by
  cases hconcludes with
  | panics hhears => exact .panics (Did.snoc hhears)
  | complains hhears => exact .complains (Did.snoc hhears)
  | nothing hhears hanswer hnone => exact .nothing (Did.snoc hhears) hanswer hnone
  | value hhears hsome hprepares => exact .value (Did.snoc hhears) hsome (Did.snoc hprepares)

omit [DecidableEq K] in
theorem Misses.snoc (hmisses : call.Misses settings trace signal) :
    call.Misses settings (trace ++ [p]) signal := by
  cases hmisses with
  | answers hoccupies hlooks => exact .answers hoccupies (Did.snoc hlooks)
  | concludes hbegins hasks hconcludes => exact .concludes hbegins (Did.snoc hasks) hconcludes.snoc

omit [DecidableEq K] [DecidableEq V] in
theorem Silent.snoc (hsilent : call.Silent trace) (hp : call.isOwn p = true → p.IsSilent) :
    call.Silent (trace ++ [p]) :=
  List.forall_mem_append.mpr ⟨hsilent, List.forall_mem_singleton.mpr hp⟩

omit [DecidableEq K] [DecidableEq V] in
theorem Tells.snoc (htells : call.Tells settings trace old)
    (hp : call.isOwn p = true → p.IsSilent) : call.Tells settings (trace ++ [p]) old := by
  cases old with
  | none => exact Silent.snoc htells hp
  | some h =>
    obtain ⟨front, q, back, rfl, hown, hexpires, hsilent⟩ := htells
    exact ⟨front, q, back ++ [p], by simp, hown, hexpires,
      by rw [← List.append_assoc]; exact hsilent.snoc hp⟩

omit [DecidableEq V] in
theorem Occupies.congr (hoccupies : call.Occupies c s)
    (hslot : s'.map.get? call.key = s.map.get? call.key) : call.Occupies c s' :=
  ⟨hoccupies.begins, hslot.trans hoccupies.slot⟩

/-- An aim depends on the slot of the key only, and on what has been done. -/
theorem Aims.snoc (haims : call.Aims settings old trace s n a)
    (hslot : s'.map.get? call.key = s.map.get? call.key) :
    call.Aims settings old (trace ++ [p]) s' n a := by
  have hgone : (∀ h ∈ old, s.map.get? call.key ≠ some (.holder h)) →
      ∀ h ∈ old, s'.map.get? call.key ≠ some (.holder h) := fun hgone => by rwa [hslot]
  cases haims with
  | missed hget hlooks hold => exact .missed hget (Did.snoc hlooks) (hgone hold)
  | own hoccupies => exact .own (hoccupies.congr hslot)
  | composes hoccupies hasks hhears hvalue =>
    exact .composes (hoccupies.congr hslot) (Did.snoc hasks) (Did.snoc hhears) hvalue
  | installs hoccupies hasks hnew hconcludes =>
    exact .installs (hoccupies.congr hslot) (Did.snoc hasks) hnew hconcludes.snoc
  | vacates hoccupies hasks hconcludes =>
    exact .vacates (hoccupies.congr hslot) (Did.snoc hasks) hconcludes.snoc
  | restores hoccupies hasks hconcludes =>
    exact .restores (hoccupies.congr hslot) (Did.snoc hasks) hconcludes.snoc
  | settles hmeets hold hmisses => exact .settles hmeets (hgone hold) hmisses.snoc

theorem Ends.snoc_other (hends : call.Ends settings old trace s signal)
    (hslot : s'.map.get? call.key = s.map.get? call.key) (hother : call.isOwn p = false) :
    call.Ends settings old (trace ++ [p]) s' signal := by
  have hno : call.isOwn p = true → p.IsSilent := by simp [hother]
  cases hends with
  | overlooks hoverlooks hmisses hkept hsilent =>
    exact .overlooks hoverlooks hmisses.snoc (hslot.trans hkept) (hsilent.snoc hno)
  | refuses hgives hraised hmisses hkept hsilent =>
    exact .refuses hgives hraised hmisses.snoc (hslot.trans hkept) (hsilent.snoc hno)
  | expires hmeets hresult hgone htells =>
    exact .expires hmeets (hresult.imp_left Misses.snoc) (by rwa [hslot]) (htells.snoc hno)

/-- A call stays where it is while others move. -/
theorem Nears.snoc_other (hnears : call.Nears settings old since trace s n a above)
    (hslot : s'.map.get? call.key = s.map.get? call.key)
    (hexpired : ∀ h ∈ old, ∀ now, s'.expired h now = s.expired h now)
    (hother : call.isOwn p = false) :
    call.Nears settings old since (trace ++ [p]) s' n a above := by
  have hno : call.isOwn p = true → p.IsSilent := by simp [hother]
  have hdead : ∀ now, (∀ h ∈ old, s.expired h now = true) →
      ∀ h ∈ old, s'.expired h now = true := fun now hold h hh =>
    (hexpired h hh now).trans (hold h hh)
  cases hnears with
  | rounds hkept hold hsilent =>
    exact .rounds (hslot.trans hkept) (hdead _ hold) (hsilent.snoc hno)
  | visits hkept hold hsilent =>
    exact .visits (hslot.trans hkept) (hdead _ hold) (hsilent.snoc hno)
  | expels hsome hkept hsilent hget hlooks =>
    exact .expels hsome (hslot.trans hkept) (hsilent.snoc hno) hget (Did.snoc hlooks)
  | judges hsome hold hsilent haims hwaits =>
    exact .judges hsome ((hexpired _ hsome _).trans hold) (hsilent.snoc hno) (haims.snoc hslot)
      hwaits
  | dismisses hsome hold hsilent haims =>
    exact .dismisses hsome ((hexpired _ hsome _).trans hold) (hsilent.snoc hno) (haims.snoc hslot)
  | reports hsome hsilent haims hwaits =>
    exact .reports hsome (hsilent.snoc hno) (haims.snoc hslot) hwaits
  | listens htells haims hwaits =>
    exact .listens (htells.snoc hno) (haims.snoc hslot) hwaits
  | passes htells haims hwaits => exact .passes (htells.snoc hno) (haims.snoc hslot) hwaits
  | enforces htells haims => exact .enforces (htells.snoc hno) (haims.snoc hslot)
  | arrives htells haims => exact .arrives (htells.snoc hno) (haims.snoc hslot)
  | runs htells hoccupies hasks =>
    exact .runs (htells.snoc hno) (hoccupies.congr hslot) (Did.snoc hasks)
  | unwinds hmeets hunheard hgone htells hframes =>
    exact .unwinds hmeets hunheard (by rwa [hslot]) (htells.snoc hno) hframes
  | ends hends => exact .ends (hends.snoc_other hslot hother)

end Facts

end Call

end SharedCache
