import SharedCache.Proofs.Acts
import SharedCache.Proofs.Footsteps
import SharedCache.Proofs.Records

/-!
# Lifetimes

How long a value lives by a time to live and a time to idle: until it has been there for the one
since it was written, and until it has not been used for the other.  A store keeps a single deadline
for each value, and a read computes a new one from what is left of the old one.  However often that
happens, the deadline is the earlier of the two ends.

When a value was written and used is read off the course of a run: off what the operations do to the
value when they look at its key, off the ends of its computations, and off the clearing of its
segment.
-/

namespace SharedCache

variable {K V Q R : Type}

/-- When a value was written, and when it was last written or hit. -/
structure Usage where
  writtenAt : Instant
  usedAt : Instant
  deriving DecidableEq

namespace Lifetime

/-- At this time neither the time to live of a value is over nor its time to idle.  Both end at the
horizon at the latest. -/
def Allows (l : Lifetime) (u : Usage) (t : Instant) : Prop :=
  (∀ live, l.timeToLive = some live → t.nanos < min (u.writtenAt.nanos + live.nanos) horizon) ∧
    ∀ idle, l.timeToIdle = some idle → t.nanos < min (u.usedAt.nanos + idle.nanos) horizon

/-- The deadline is the end of the lifetime of a value that was used like this. -/
def Bounds (l : Lifetime) (u : Usage) (deadline : Option Instant) : Prop :=
  ∀ t, (deadline.all fun deadline => t < deadline) = true ↔ l.Allows u t

variable {l : Lifetime} {u : Usage} {now t t' : Instant}

/-- Lifetimes have no gaps. -/
theorem Allows.mono (hallows : l.Allows u t) (hle : t' ≤ t) : l.Allows u t' :=
  ⟨fun live hlive => Nat.lt_of_le_of_lt hle (hallows.1 live hlive),
    fun idle hidle => Nat.lt_of_le_of_lt hle (hallows.2 idle hidle)⟩

/-- A deadline lies ahead until it is reached. -/
theorem all_lt_some {deadline : Instant} :
    ((some deadline).all fun deadline => t < deadline) = true ↔ t.nanos < deadline.nanos :=
  decide_eq_true_iff

/-- A written value gets the deadline that its lifetime has from then on. -/
theorem bounds_afterWrite (l : Lifetime) (now : Instant) :
    l.Bounds ⟨now, now⟩ (l.afterWrite.map now.saturatingAdd) := by
  intro t
  obtain ⟨live, idle⟩ := l
  cases live with
  | none =>
    cases idle with
    | none => simp [Allows, afterWrite]
    | some idle => simp [Allows, afterWrite, all_lt_some, -Option.all_some]
  | some live =>
    cases idle with
    | none => simp [Allows, afterWrite, all_lt_some, -Option.all_some]
    | some idle =>
      simp only [Allows, afterWrite, Option.map_some, all_lt_some, Instant.nanos_saturatingAdd,
        Duration.nanos_min, Option.some.injEq, forall_eq']
      omega

/-- Without a time to idle the time that is left at a read ends where it ended before. -/
theorem saturatingAdd_saturatingSince {deadline : Instant} (hle : now ≤ deadline) :
    now.saturatingAdd (deadline.saturatingSince now) = deadline := by
  apply Instant.ext
  rw [Instant.nanos_saturatingAdd_saturatingSince]
  exact Nat.max_eq_right hle

/-- A value that is read gets the deadline that its lifetime has from then on. -/
theorem Bounds.afterRead {deadline : Option Instant} (hbounds : l.Bounds u deadline)
    (hle : u.writtenAt ≤ now) (halive : l.Allows u now) :
    l.Bounds ⟨u.writtenAt, now⟩ ((l.afterRead now
      (deadline.map fun deadline => deadline.saturatingSince now) u.writtenAt).map
        now.saturatingAdd) := by
  intro t
  obtain ⟨live, idle⟩ := l
  cases idle with
  | none =>
    have hsame : (deadline.map fun deadline => deadline.saturatingSince now).map
        now.saturatingAdd = deadline := by
      cases deadline with
      | none => rfl
      | some deadline =>
        have hbefore : now < deadline := by simpa using (hbounds now).mpr halive
        exact congrArg some (saturatingAdd_saturatingSince (Nat.le_of_lt hbefore))
    have hold := hbounds t
    simp only [Allows, reduceCtorEq, false_implies, implies_true, and_true] at hold ⊢
    rw [← hold, Lifetime.afterRead, hsame]
  | some idle =>
    cases live with
    | none => simp [Allows, Lifetime.afterRead, all_lt_some, -Option.all_some]
    | some live =>
      have hwritten : u.writtenAt.nanos ≤ now.nanos := hle
      have hlive : now.nanos < min (u.writtenAt.nanos + live.nanos) horizon := halive.1 live rfl
      simp only [Allows, Lifetime.afterRead, Option.map_some, all_lt_some,
        Instant.nanos_saturatingAdd, Instant.nanos_saturatingSince, Duration.nanos_min,
        Duration.nanos_saturatingSub, Option.some.injEq, forall_eq']
      omega

end Lifetime

/-! ## What becomes of a value -/

/-- What is done to the value of a key, as far as its lifetime goes by it. -/
inductive Treatment where
  | written (now : Instant)
  | hit (now : Instant)
  | removed
  deriving DecidableEq

/-- The usage of a value after a treatment. -/
def Treatment.apply : Treatment → Option Usage → Option Usage
  | .written now, _ => some ⟨now, now⟩
  | .hit now, usage => usage.map fun u => ⟨u.writtenAt, now⟩
  | .removed, _ => none

/-- The usage of a value after a treatment, or without one. -/
def treated (treatment : Option Treatment) (usage : Option Usage) : Option Usage :=
  treatment.elim usage fun treatment => treatment.apply usage

/-- What an operation does to the value of its key where it finds this live value. -/
def Operation.treatment? [DecidableEq V] (operation : Operation K V Q R) (now : Instant)
    (found : Option V) : Option Treatment :=
  if (operation.gives found).isSome then some (.written now)
  else if operation.takes found then some .removed
  else if operation.reads && found.isSome then some (.hit now)
  else none

namespace Operation

variable [DecidableEq V] {operation : Operation K V Q R} {now : Instant} {found : Option V}

theorem treatment?_of_gives {value : V} (hgives : operation.gives found = some value) :
    operation.treatment? now found = some (.written now) := by
  rw [treatment?, hgives]
  rfl

theorem treatment?_of_reads (hreads : operation.reads = true) (value : V) :
    operation.treatment? now (some value) = some (.hit now) := by
  cases operation with
  | get | putIfAbsent | computeIfAbsent => rfl
  | _ => cases hreads

/-- The beginning of a computation does nothing to the value. -/
theorem treatment?_of_computes (hcomputes : operation.computes found = true) :
    operation.treatment? now found = none := by
  cases operation with
  | computeIfAbsent =>
    obtain rfl := Option.isNone_iff_eq_none.mp hcomputes
    rfl
  | compute | computeIfPresent => rfl
  | _ => cases hcomputes

/-- An operation that declines does nothing to the value. -/
theorem treatment?_of_declined {answer : Answer V} (hdeclined : operation.declined = some answer)
    (hgives : operation.gives found = none) (htakes : operation.takes found = false) :
    operation.treatment? now found = none := by
  rw [treatment?, hgives, htakes]
  cases operation with
  | replace | replaceIfEqual | remove | removeIfEqual | computeIfPresent => rfl
  | _ => cases hdeclined

end Operation

section Treatments

variable [DecidableEq K] [DecidableEq V]

/-- What an operation does to the value of a key when it looks at its slot.  It does nothing if it
has to wait. -/
def Store.treatment? (s : Store K V) (now : Instant) (operation : Operation K V Q R) (key : K) :
    Option Treatment :=
  match s.look key now with
  | .pending _ => if operation.waits then none else operation.treatment? now none
  | found => operation.treatment? now (found.live?.map Holder.value)

/-- What a section does to the value of a key.  An operation does nothing if a collaborator panics
before it has written, and a computation nothing if its slot has been written meanwhile, or if its
function has failed. -/
def Stage.treatment? (s : Store K V) (raises : Bool) (key : K) :
    Stage K V Q R → Option Treatment
  | .visit operation _ now =>
    if operation.key? = some key ∧ raises = false then s.treatment? now operation key else none
  | .sweep segment => if s.map.segmentOf key = segment then some .removed else none
  | .install c h _ =>
    if c.key = key ∧ s.pendingIn c.key c.fault then some (.written h.writtenAt) else none
  | .vacate c .absent _ => if c.key = key ∧ s.pendingIn c.key c.fault then some .removed else none
  | _ => none

/-- The usage of the value of a key after a section. -/
def Stage.treats (s : Store K V) (raises : Bool) (stage : Stage K V Q R)
    (usages : K → Option Usage) (key : K) : Option Usage :=
  treated (stage.treatment? s raises key) (usages key)

/-- The usages of all values after a passage. -/
def Passage.treats (p : Passage K V Q R) (usages : K → Option Usage) : K → Option Usage :=
  match p.stage? with
  | some stage => stage.treats p.before.world.store p.isRaising usages
  | none => usages

/-- When the values of the keys were written and used in the course of a trace.  A key has no usage
if it was never written, or was removed or cleared since. -/
def usages (trace : List (Passage K V Q R)) : K → Option Usage :=
  trace.foldl (fun before p => p.treats before) fun _ => none

theorem usages_snoc (trace : List (Passage K V Q R)) (p : Passage K V Q R) :
    usages (trace ++ [p]) = p.treats (usages trace) := by
  rw [usages, List.foldl_append]
  rfl

end Treatments

end SharedCache
