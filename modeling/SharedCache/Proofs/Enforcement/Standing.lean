import SharedCache.Proofs.Detours
import SharedCache.Proofs.Samples

/-!
# Where an enforcement stands

An enforcement of the capacity takes one round after another until the store fits, or until too many
rounds in a row have removed nothing.  Two measures bound it: the weight, which falls with every
removal because no entry weighs nothing, and the number of rounds that may still fail, which a
removal sets back.
-/

namespace SharedCache

variable {K V Q R : Type}

/-- The entries weigh more than the capacity allows. -/
def Settings.Overweight (settings : Settings K V Q R) (m : EntryMap K V) : Prop :=
  ∃ capacity, settings.blueprint.capacity = some capacity ∧ capacity < m.weightedSize

/-- The thread is busy with an enforcement that so many frames wait for, and not with a listener
that the enforcement has called. -/
def Thread.enforces (depth : Nat) (t : Thread K V Q R) : Bool :=
  t.stack.length ≤ depth + 1 ||
    match t.activity, t.stack with
    | .settle _, .listening :: below => below.length = depth + 1
    | _, _ => false

namespace Passage

/-- Whether a victim is picked in the passage. -/
def isPick (p : Passage K V Q R) : Bool :=
  match p.stage? with
  | some (.pick ..) => true
  | _ => false

/-- The victim that leaves its slot in the passage, with the cause. -/
def evicted? [DecidableEq K] (p : Passage K V Q R) : Option ((K × Holder V) × RemovalCause) :=
  match p.stage? with
  | some (.evict _ key h cause) =>
    if p.before.world.store.holds key h then some ((key, h), cause) else none
  | _ => none

/-- Whether the passage tells the log that an enforcement gave up. -/
def LogsGivingUp (p : Passage K V Q R) : Prop :=
  ∃ attempts weight capacity, .logged (.gaveUp attempts weight capacity) ∈ p.events

end Passage

/-- An enforcement of the capacity: its thread, and the frames that wait for its end. -/
structure Enforcement (K V Q R : Type) where
  thread : Nat
  base : List (Frame K V Q R)

namespace Enforcement

variable (e : Enforcement K V Q R)

/-- The passage is a step of the enforcement itself. -/
def isOwn (p : Passage K V Q R) : Bool :=
  p.mover = some e.thread && p.thread?.any (Thread.enforces e.base.length)

/-- The number of steps of the enforcement itself. -/
def steps (trace : List (Passage K V Q R)) : Nat := (trace.filter e.isOwn).length

variable [DecidableEq K]

/-- What a passage does to the number of rounds in a row that have removed nothing. -/
def tally (rounds : Nat) (p : Passage K V Q R) : Nat :=
  if e.isOwn p then
    if p.evicted?.isSome then 0 else if p.isPick then rounds + 1 else rounds
  else
    rounds

/-- So many rounds in a row, up to the last one, have removed nothing. -/
def fruitless (trace : List (Passage K V Q R)) : Nat := trace.foldl e.tally 0

/-- The entries have been drawn by the thread, which has done nothing but draw since. -/
def Drawn (trace : List (Passage K V Q R)) (sample : List (K × Holder V)) : Prop :=
  ∀ entry ∈ sample, ∃ front q round, trace = front ++ q :: round ∧ q.mover = some e.thread ∧
    q.Draws entry.1 entry.2 ∧ ∀ r ∈ round, r.mover = some e.thread → r.IsDraw

/-- In this passage, to which these lead, a round of an enforcement that still has to go on picks a
victim: one of the entries that were drawn in the round, which are not too many and all in their
slots. -/
structure Picks (settings : Settings K V Q R) (front : List (Passage K V Q R))
    (q : Passage K V Q R) (entry : K × Holder V) (cause : RemovalCause) : Prop where
  own : e.isOwn q = true
  sample : ∃ failed sample, q.stage? = some (.pick failed sample) ∧
    sample.length ≤ settings.blueprint.sampling.size ∧ e.Drawn front sample ∧
    (∀ drawn ∈ sample, q.before.world.store.map.get? drawn.1 = some (.holder drawn.2)) ∧
    (q.before.world.store.victim settings q.before.world.clock.now sample).result =
      .ok (some (entry, cause))

/-- The enforcement has picked this victim in its last step. -/
def HasPicked (settings : Settings K V Q R) (trace : List (Passage K V Q R)) (entry : K × Holder V)
    (cause : RemovalCause) : Prop :=
  ∃ front q round, trace = front ++ q :: round ∧ e.Picks settings front q entry cause ∧
    ∀ r ∈ round, e.isOwn r = false

/-- The last round has found no victim, and nothing has been removed since. -/
def Barren (settings : Settings K V Q R) (trace : List (Passage K V Q R)) : Prop :=
  ∃ front q round, trace = front ++ q :: round ∧ e.isOwn q = true ∧
    (∃ failed sample, q.stage? = some (.pick failed sample) ∧
      (q.before.world.store.victim settings q.before.world.clock.now sample).result = .ok none) ∧
    ∀ r ∈ round, e.isOwn r = true → r.evicted? = none

/-- What a step of the enforcement, to which these passages lead, does to the entries.  Unless it
removes a victim it leaves the slots as they are. -/
structure Treats (settings : Settings K V Q R) (front : List (Passage K V Q R))
    (p : Passage K V Q R) : Prop where
  removes : ∀ entry cause, p.evicted? = some (entry, cause) →
    settings.Overweight p.before.world.store.map ∧ e.HasPicked settings front entry cause ∧
      p.after.world.store.map = p.before.world.store.map.erase entry.1 ∧
      p.next? = some (.keep (.report entry.1 entry.2 cause))
  spares : p.evicted? = none → p.after.world.store.map = p.before.world.store.map
  deadlines : p.after.world.store.deadlines = p.before.world.store.deadlines

/-- Every step of the enforcement has treated the entries in this way. -/
def HasTreated (settings : Settings K V Q R) (trace : List (Passage K V Q R)) : Prop :=
  ∀ front p back, trace = front ++ p :: back → e.isOwn p = true → e.Treats settings front p

/-- No step of the enforcement has told the log that it gave up. -/
def Quiet (trace : List (Passage K V Q R)) : Prop :=
  ∀ p ∈ trace, e.isOwn p = true → ¬ p.LogsGivingUp

/-- How many steps are left at most to an enforcement with entries of this weight, of which so many
rounds in a row have failed. -/
def cost (settings : Settings K V Q R) (weight failed : Nat) : Nat :=
  (settings.blueprint.sampling.size + 6) *
    (settings.blueprint.sampling.attempts * weight +
      (settings.blueprint.sampling.attempts - failed))

/-- How an enforcement ends. -/
inductive Ends (settings : Settings K V Q R) (trace : List (Passage K V Q R)) (m : EntryMap K V) :
    Signal V → Prop where
  | fits : ¬ settings.Overweight m → e.Quiet trace → Ends settings trace m (.done .unit)
  | givesUp {p : Passage K V Q R} : settings.Overweight m →
      e.fruitless trace = settings.blueprint.sampling.attempts → e.Barren settings trace →
      p ∈ trace → e.isOwn p = true → p.LogsGivingUp → Ends settings trace m (.done .unit)
  | panics {p : Panic} :
      settings.VetoPanics ∨ (∃ value, settings.copyOut value = .error p) → e.Quiet trace →
      Ends settings trace m (.raised p)

/-- Where an enforcement stands, and how many steps of its own it still has to do at most. -/
inductive At (settings : Settings K V Q R) (trace : List (Passage K V Q R)) (m : EntryMap K V) :
    Nat → Activity K V Q R → List (Frame K V Q R) → Prop where
  | enforces {failed : Nat} :
      failed ≤ settings.blueprint.sampling.attempts → e.fruitless trace = failed →
      (0 < failed → e.Barren settings trace) → e.Quiet trace →
      At settings trace m (cost settings m.weightedSize failed + 1) (.keep (.enforce failed)) []
  | draws {failed left : Nat} {sample : List (K × Holder V)} :
      settings.Overweight m → failed < settings.blueprint.sampling.attempts →
      e.fruitless trace = failed → (0 < failed → e.Barren settings trace) → e.Quiet trace →
      0 < left →
      sample.length + left ≤ settings.blueprint.sampling.size → e.Drawn trace sample →
      (∀ entry ∈ sample, m.get? entry.1 = some (.holder entry.2)) →
      At settings trace m (cost settings m.weightedSize (failed + 1) + left + 6)
        (.keep (.draw failed sample left)) []
  | picks {failed : Nat} {sample : List (K × Holder V)} :
      settings.Overweight m → failed < settings.blueprint.sampling.attempts →
      e.fruitless trace = failed → e.Quiet trace →
      sample.length ≤ settings.blueprint.sampling.size → e.Drawn trace sample →
      (∀ entry ∈ sample, m.get? entry.1 = some (.holder entry.2)) →
      At settings trace m (cost settings m.weightedSize (failed + 1) + 6)
        (.keep (.pick failed sample)) []
  | evicts {failed : Nat} {key : K} {h : Holder V} {cause : RemovalCause} :
      settings.Overweight m → failed < settings.blueprint.sampling.attempts →
      e.fruitless trace = failed + 1 → e.Quiet trace →
      e.HasPicked settings trace (key, h) cause → m.get? key = some (.holder h) →
      At settings trace m (cost settings m.weightedSize (failed + 1) + 5)
        (.keep (.evict failed key h cause)) []
  | reports {key : K} {h : Holder V} {cause : RemovalCause} :
      e.fruitless trace = 0 → e.Quiet trace →
      At settings trace m (cost settings m.weightedSize 0 + 4) (.keep (.report key h cause))
        [.next (.keep (.enforce 0))]
  | listens {a : Activity K V Q R} {inside : List (Frame K V Q R)} :
      e.fruitless trace = 0 → e.Quiet trace →
      At settings trace m (cost settings m.weightedSize 0 + 3) a
        (inside ++ [.listening, .next (.keep (.enforce 0))])
  | reported {answer : Answer V} :
      e.fruitless trace = 0 → e.Quiet trace →
      At settings trace m (cost settings m.weightedSize 0 + 2) (.settle (.done answer))
        [.next (.keep (.enforce 0))]
  /-- The value of a victim cannot be copied for the listener. -/
  | unwinds {p : Panic} :
      (∃ value, settings.copyOut value = .error p) → e.Quiet trace →
      At settings trace m 1 (.settle (.raised p)) [.next (.keep (.enforce 0))]
  | ends {signal : Signal V} :
      e.Ends settings trace m signal → At settings trace m 0 (.settle signal) []

/-- The enforcement has the entries for itself and is not over before the last passage: neither the
listener, nor anyone else, changes a slot. -/
structure Undisturbed (trace : List (Passage K V Q R)) : Prop where
  calm : ∀ p ∈ trace, e.isOwn p = false → p.after.world.store.map = p.before.world.store.map
  within : ∀ p ∈ trace, p.mover = some e.thread → ∀ t, p.before.threads[e.thread]? = some t →
    t.stack = e.base → ∀ signal, t.activity ≠ .settle signal

/-! ## Steps that are not its own -/

section Others

variable {e} {settings : Settings K V Q R} {trace : List (Passage K V Q R)}
  {p : Passage K V Q R} {t : Thread K V Q R} {above inside : List (Frame K V Q R)} {n : Nat}
  {m : EntryMap K V} {a : Activity K V Q R}

omit [DecidableEq K] in
theorem isOwn_of_stack (hmover : p.mover = some e.thread)
    (ht : p.before.threads[e.thread]? = some t) (hstack : t.stack = above ++ e.base)
    (habove : above.length ≤ 1) : e.isOwn p = true := by
  have hlength : t.stack.length ≤ e.base.length + 1 := by
    rw [hstack, List.length_append]
    omega
  simp [isOwn, Passage.thread?, hmover, ht, Thread.enforces, hlength]

omit [DecidableEq K] in
theorem isOwn_of_listened (hmover : p.mover = some e.thread)
    (ht : p.before.threads[e.thread]? = some t) {signal : Signal V}
    (hactivity : t.activity = .settle signal)
    (hstack : t.stack = .listening :: .next a :: e.base) : e.isOwn p = true := by
  simp [isOwn, Passage.thread?, hmover, ht, Thread.enforces, hactivity, hstack]

omit [DecidableEq K] in
theorem not_isOwn_of_mover (hmover : p.mover ≠ some e.thread) : e.isOwn p = false := by
  simp [isOwn, hmover]

omit [DecidableEq K] in
/-- What a listener does is no step of the enforcement. -/
theorem not_isOwn_of_listens (hmover : p.mover = some e.thread)
    (ht : p.before.threads[e.thread]? = some t)
    (hstack : t.stack = inside ++ .listening :: .next a :: e.base)
    (hruns : ¬ (inside = [] ∧ ∃ signal, t.activity = .settle signal)) : e.isOwn p = false := by
  have hthread : p.thread? = some t := by simp [Passage.thread?, hmover, ht]
  simp only [isOwn, hthread, Option.any_some, Bool.and_eq_false_iff, Thread.enforces,
    Bool.or_eq_false_iff]
  refine .inr ⟨?_, ?_⟩
  · simp only [hstack, List.length_append, List.length_cons, decide_eq_false_iff_not]
    omega
  · split
    · rename_i signal below hactivity hbelow
      cases inside with
      | nil => exact absurd ⟨rfl, signal, hactivity⟩ hruns
      | cons first rest =>
        rw [hstack, List.cons_append] at hbelow
        obtain ⟨-, rfl⟩ := List.cons.inj hbelow
        simp only [List.length_append, List.length_cons, decide_eq_false_iff_not]
        omega
    · rfl

theorem fruitless_snoc : e.fruitless (trace ++ [p]) = e.tally (e.fruitless trace) p := by
  simp [fruitless]

theorem fruitless_snoc_other (hother : e.isOwn p = false) :
    e.fruitless (trace ++ [p]) = e.fruitless trace := by
  simp [fruitless_snoc, tally, hother]

omit [DecidableEq K] in
theorem Quiet.snoc (hquiet : e.Quiet trace) (hp : e.isOwn p = true → ¬ p.LogsGivingUp) :
    e.Quiet (trace ++ [p]) := by
  intro q hq
  rcases List.mem_append.mp hq with hold | hnew
  · exact hquiet q hold
  · rwa [List.mem_singleton.mp hnew]

omit [DecidableEq K] in
theorem Quiet.snoc_other (hquiet : e.Quiet trace) (hother : e.isOwn p = false) :
    e.Quiet (trace ++ [p]) :=
  hquiet.snoc fun hown => by simp [hother] at hown

omit [DecidableEq K] in
theorem Quiet.snoc_silent (hquiet : e.Quiet trace) (hnone : p.events = []) :
    e.Quiet (trace ++ [p]) :=
  hquiet.snoc fun _ => by simp [Passage.LogsGivingUp, hnone]

omit [DecidableEq K] in
theorem Drawn.snoc {sample : List (K × Holder V)} (hdrawn : e.Drawn trace sample)
    (hp : p.mover = some e.thread → p.IsDraw) : e.Drawn (trace ++ [p]) sample := by
  intro entry hentry
  obtain ⟨front, q, round, rfl, hmover, hdraws, hround⟩ := hdrawn entry hentry
  refine ⟨front, q, round ++ [p], by simp, hmover, hdraws, fun r hr => ?_⟩
  rcases List.mem_append.mp hr with hold | hnew
  · exact hround r hold
  · rwa [List.mem_singleton.mp hnew]

theorem HasPicked.snoc_other {entry : K × Holder V} {cause : RemovalCause}
    (hpicked : e.HasPicked settings trace entry cause) (hother : e.isOwn p = false) :
    e.HasPicked settings (trace ++ [p]) entry cause := by
  obtain ⟨front, q, round, rfl, hpicks, hround⟩ := hpicked
  refine ⟨front, q, round ++ [p], by simp, hpicks, fun r hr => ?_⟩
  rcases List.mem_append.mp hr with hold | hnew
  · exact hround r hold
  · rwa [List.mem_singleton.mp hnew]

theorem Barren.snoc (hbarren : e.Barren settings trace)
    (hp : e.isOwn p = true → p.evicted? = none) : e.Barren settings (trace ++ [p]) := by
  obtain ⟨front, q, round, rfl, hown, hpick, hround⟩ := hbarren
  refine ⟨front, q, round ++ [p], by simp, hown, hpick, fun r hr => ?_⟩
  rcases List.mem_append.mp hr with hold | hnew
  · exact hround r hold
  · rwa [List.mem_singleton.mp hnew]

theorem Barren.snoc_other (hbarren : e.Barren settings trace) (hother : e.isOwn p = false) :
    e.Barren settings (trace ++ [p]) :=
  hbarren.snoc fun hown => by simp [hother] at hown

theorem Ends.snoc_other {signal : Signal V} (hends : e.Ends settings trace m signal)
    (hother : e.isOwn p = false) : e.Ends settings (trace ++ [p]) m signal := by
  cases hends with
  | fits hfits hquiet => exact .fits hfits (hquiet.snoc_other hother)
  | givesUp hover hfruitless hbarren hmem hown hlogs =>
    exact .givesUp hover ((fruitless_snoc_other hother).trans hfruitless)
      (hbarren.snoc_other hother) (List.mem_append_left _ hmem) hown hlogs
  | panics hcause hquiet => exact .panics hcause (hquiet.snoc_other hother)

/-- An enforcement stays where it is while others move. -/
theorem At.snoc_other (hat : e.At settings trace m n a above) (hmover : p.mover ≠ some e.thread) :
    e.At settings (trace ++ [p]) m n a above := by
  have hother := not_isOwn_of_mover (e := e) hmover
  have hsame : e.fruitless (trace ++ [p]) = e.fruitless trace := fruitless_snoc_other hother
  have hdrawn : ∀ {sample}, e.Drawn trace sample → e.Drawn (trace ++ [p]) sample :=
    fun hdrawn => hdrawn.snoc fun hown => absurd hown hmover
  cases hat with
  | enforces hfailed hfruitless hbarren hquiet =>
    exact .enforces hfailed (hsame.trans hfruitless)
      (fun hsome => (hbarren hsome).snoc_other hother) (hquiet.snoc_other hother)
  | draws hover hfailed hfruitless hbarren hquiet hleft hsize hsample hlive =>
    exact .draws hover hfailed (hsame.trans hfruitless)
      (fun hsome => (hbarren hsome).snoc_other hother) (hquiet.snoc_other hother) hleft hsize
      (hdrawn hsample) hlive
  | picks hover hfailed hfruitless hquiet hsize hsample hlive =>
    exact .picks hover hfailed (hsame.trans hfruitless) (hquiet.snoc_other hother) hsize
      (hdrawn hsample) hlive
  | evicts hover hfailed hfruitless hquiet hpicked hslot =>
    exact .evicts hover hfailed (hsame.trans hfruitless) (hquiet.snoc_other hother)
      (hpicked.snoc_other hother) hslot
  | reports hfruitless hquiet =>
    exact .reports (hsame.trans hfruitless) (hquiet.snoc_other hother)
  | listens hfruitless hquiet =>
    exact .listens (hsame.trans hfruitless) (hquiet.snoc_other hother)
  | reported hfruitless hquiet =>
    exact .reported (hsame.trans hfruitless) (hquiet.snoc_other hother)
  | unwinds hcopy hquiet => exact .unwinds hcopy (hquiet.snoc_other hother)
  | ends hends => exact .ends (hends.snoc_other hother)

end Others

end Enforcement

end SharedCache
