import SharedCache.Machine

/-!
# Runs

A run is a sequence of passages: in each of them one thread takes one step, whatever chance decides
in it, or something happens outside the threads.  Nothing restricts which thread moves next, so what
is shown for every run holds for every interleaving.  A trace keeps both ends of every passage, so
that statements about the course of a run can refer to all that was the case on the way.
-/

namespace SharedCache

variable {K V Q R : Type}

namespace Machine

/-- What happens between two steps: the clock moves on, an interrupter is tripped, or another thread
begins to run a script. -/
inductive Outside (m : Machine K V Q R) : Machine K V Q R → Prop where
  | clock {d : Duration} {w : World K V Q R} :
      m.world.advance? d = some w → Outside m { m with world := w }
  | trip (i : Interrupter) : Outside m { m with world := m.world.trip i }
  | spawn (script : Script K V Q R) : Outside m (m.spawn (.running script))

/-- A machine that nobody has used: a new store and a new executor, and no thread. -/
structure Fresh (settings : Settings K V Q R) (m : Machine K V Q R) : Prop where
  store : Store.of settings = .ok m.world.store
  executor : ∃ partitions pool, Executor.of partitions pool = .ok m.world.executor
  tripped : m.world.tripped = []
  threads : m.threads = #[]

/-- Whatever happens between two steps leaves the threads alone that are there already. -/
theorem Outside.threads_eq {m m' : Machine K V Q R} (hm : m.Outside m') (i : Nat) :
    m'.threads[i]? = m.threads[i]? ∨
      ∃ script, m.threads[i]? = none ∧ m'.threads[i]? = some (.running script) := by
  cases hm with
  | clock => exact .inl rfl
  | trip => exact .inl rfl
  | spawn script =>
    have hpush : (m.spawn (.running script)).threads[i]? =
        if i = m.threads.size then some (.running script) else m.threads[i]? :=
      Array.getElem?_push
    by_cases hi : i = m.threads.size
    · exact .inr ⟨script, by simp [hi], by rw [hpush, if_pos hi]⟩
    · exact .inl (by rw [hpush, if_neg hi])

end Machine

/-- One move of a machine.  It has no mover where it comes from outside the threads. -/
structure Passage (K V Q R : Type) where
  before : Machine K V Q R
  mover : Option Nat
  events : List (Event K V)
  after : Machine K V Q R

/-- The thread that moves, before it does. -/
def Passage.thread? (p : Passage K V Q R) : Option (Thread K V Q R) :=
  p.mover.bind fun i => p.before.threads[i]?

/-- The section of a store operation that a passage is, if it is one. -/
def Passage.stage? (p : Passage K V Q R) : Option (Stage K V Q R) :=
  match p.thread? with
  | some ⟨.keep stage, _, _⟩ => some stage
  | _ => none

namespace Passage

variable {p : Passage K V Q R} {i : Nat} {t : Thread K V Q R}

theorem thread?_eq (hmover : p.mover = some i) (ht : p.before.threads[i]? = some t) :
    p.thread? = some t := by
  rw [thread?, hmover, Option.bind_some, ht]

theorem stage?_of_keep (hmover : p.mover = some i) (ht : p.before.threads[i]? = some t)
    {stage : Stage K V Q R} (hactivity : t.activity = .keep stage) : p.stage? = some stage := by
  obtain ⟨activity, stack, binding⟩ := t
  obtain rfl : activity = .keep stage := hactivity
  simp [stage?, thread?, hmover, ht]

theorem keep_of_stage? {stage : Stage K V Q R} (hstage : p.stage? = some stage) :
    ∃ i t, p.mover = some i ∧ p.before.threads[i]? = some t ∧ t.activity = .keep stage := by
  rw [stage?] at hstage
  split at hstage
  · rename_i found stack binding hthread
    obtain ⟨i, hmover, ht⟩ := Option.bind_eq_some_iff.mp hthread
    obtain rfl := Option.some.inj hstage
    exact ⟨i, _, hmover, ht, rfl⟩
  · cases hstage

theorem stage?_of_apart (hmover : p.mover = some i) (ht : p.before.threads[i]? = some t)
    (hactivity : ∀ stage, t.activity ≠ .keep stage) : p.stage? = none := by
  have hthread : p.thread? = some t := by simp [thread?, hmover, ht]
  rw [stage?, hthread]
  split
  · rename_i heq
    obtain rfl := Option.some.inj heq
    exact absurd rfl (hactivity _)
  · rfl

end Passage

variable [DecidableEq K] [DecidableEq V]

/-- Whether the machine can move like this. -/
def Passage.Lawful (settings : Settings K V Q R) (p : Passage K V Q R) : Prop :=
  match p.mover with
  | some i => ∃ chance, p.before.step settings chance i = some (p.after, p.events)
  | none => p.before.Outside p.after ∧ p.events = []

/-- The runs from a machine on, with all passages on the way. -/
inductive Run (settings : Settings K V Q R) (start : Machine K V Q R) :
    List (Passage K V Q R) → Machine K V Q R → Prop where
  | rest : Run settings start [] start
  | move {trace : List (Passage K V Q R)} {p : Passage K V Q R} :
      Run settings start trace p.before → p.Lawful settings →
        Run settings start (trace ++ [p]) p.after

/-- The machines that a run from an unused machine comes to. -/
def Machine.Reachable (settings : Settings K V Q R) (m : Machine K V Q R) : Prop :=
  ∃ start trace, start.Fresh settings ∧ Run settings start trace m

namespace Run

variable {settings : Settings K V Q R} {start m m' : Machine K V Q R}
variable {trace trace' : List (Passage K V Q R)}

/-- What every passage keeps holds to the end of a run. -/
theorem invariant {P : Machine K V Q R → Prop} (run : Run settings start trace m)
    (hstart : P start)
    (hmove : ∀ p : Passage K V Q R, p.Lawful settings → P p.before → P p.after) : P m := by
  induction run with
  | rest => exact hstart
  | move _ hp ih => exact hmove _ hp ih

/-- What no passage changes is at the end of a run what it was at its start. -/
theorem kept {α : Type} (f : Machine K V Q R → α) (run : Run settings start trace m)
    (hkept : ∀ p ∈ trace, f p.after = f p.before) : f m = f start := by
  induction run with
  | rest => rfl
  | @move trace p _ _ ih =>
    calc f p.after = f p.before := hkept p (by simp)
      _ = f start := ih fun q hq => hkept q (List.mem_append_left _ hq)

theorem append (run : Run settings start trace m) (run' : Run settings m trace' m') :
    Run settings start (trace ++ trace') m' := by
  induction run' with
  | rest => simpa using run
  | move _ hp ih =>
    rw [← List.append_assoc]
    exact ih.move hp

/-- A run passes through both ends of each of its passages. -/
theorem split {front back : List (Passage K V Q R)} {p : Passage K V Q R}
    (run : Run settings start trace m) (htrace : trace = front ++ p :: back) :
    Run settings start front p.before ∧ p.Lawful settings ∧ Run settings p.after back m := by
  induction run generalizing back with
  | rest => simp at htrace
  | @move trace q hrun hq ih =>
    rcases List.eq_nil_or_concat back with rfl | ⟨back, last, rfl⟩
    · obtain ⟨rfl, hlast⟩ := List.append_inj' htrace rfl
      obtain rfl : q = p := by simpa using hlast
      exact ⟨hrun, hq, .rest⟩
    · rw [List.concat_eq_append, ← List.cons_append, ← List.append_assoc] at htrace
      obtain ⟨hfront, hlast⟩ := List.append_inj' htrace rfl
      obtain rfl : q = last := by simpa using hlast
      obtain ⟨hbefore, hp, hafter⟩ := ih hfront
      rw [List.concat_eq_append]
      exact ⟨hbefore, hp, hafter.move hq⟩

/-- A run has no passages but those that its machine can take. -/
theorem lawful {p : Passage K V Q R} (run : Run settings start trace m) (hp : p ∈ trace) :
    p.Lawful settings := by
  obtain ⟨front, back, htrace⟩ := List.append_of_mem hp
  exact (run.split htrace).2.1

/-- A run ends where the last passage of any of its later stretches does. -/
theorem exists_last {front back : List (Passage K V Q R)} {p : Passage K V Q R}
    (run : Run settings start trace m) (htrace : trace = front ++ p :: back) :
    ∃ q ∈ p :: back, q.after = m := by
  obtain ⟨-, -, hback⟩ := run.split htrace
  cases hback with
  | rest => exact ⟨p, List.mem_cons_self, rfl⟩
  | @move back q _ _ => exact ⟨q, by simp, rfl⟩

theorem reachable (hstart : start.Fresh settings) (run : Run settings start trace m) :
    m.Reachable settings :=
  ⟨start, trace, hstart, run⟩

theorem reachable_of_reachable (hstart : start.Reachable settings)
    (run : Run settings start trace m) : m.Reachable settings := by
  obtain ⟨origin, before, hfresh, hbefore⟩ := hstart
  exact ⟨origin, before ++ trace, hfresh, hbefore.append run⟩

end Run

/-- What holds of unused machines and is kept by every passage holds of all reachable machines. -/
theorem Machine.Reachable.invariant {settings : Settings K V Q R} {m : Machine K V Q R}
    {P : Machine K V Q R → Prop} (hm : m.Reachable settings)
    (hfresh : ∀ start : Machine K V Q R, start.Fresh settings → P start)
    (hmove : ∀ p : Passage K V Q R, p.Lawful settings → P p.before → P p.after) : P m := by
  obtain ⟨start, trace, hstart, run⟩ := hm
  exact run.invariant (hfresh start hstart) hmove

/-- A step of a machine is a step of one of its threads. -/
theorem Machine.step_eq_some {settings : Settings K V Q R} {chance : Chance K R} {i : Nat}
    {m m' : Machine K V Q R} {events : List (Event K V)}
    (hstep : m.step settings chance i = some (m', events)) :
    ∃ t s, m.threads[i]? = some t ∧ t.step settings chance m.world = some s ∧
      m' = ⟨s.world, m.threads.setIfInBounds i s.thread⟩ ∧ events = s.events := by
  rw [Machine.step] at hstep
  cases ht : m.threads[i]? with
  | none => simp [ht] at hstep
  | some t =>
    cases hs : t.step settings chance m.world with
    | none => simp [ht, hs] at hstep
    | some s =>
      obtain ⟨rfl, rfl⟩ : _ = m' ∧ s.events = events := by simpa [ht, hs] using hstep
      exact ⟨t, s, rfl, hs, rfl, rfl⟩

/-! ## The clock -/

section Clock

variable {settings : Settings K V Q R} {start m m' : Machine K V Q R} {p : Passage K V Q R}
  {trace : List (Passage K V Q R)} {w : World K V Q R} {t : Thread K V Q R} {s : Step K V Q R}

omit [DecidableEq K] [DecidableEq V] in
theorem Script.clock_of_step {script : Script K V Q R} {reply : Option R}
    (hstep : script.step settings reply w t = some s) : s.world.clock = w.clock := by
  cases script with
  | ask question code =>
    obtain ⟨r, -, rfl⟩ := Option.map_eq_some_iff.mp hstep
    rfl
  | _ => exact Option.some.inj hstep ▸ rfl

omit [DecidableEq K] [DecidableEq V] in
theorem Frame.clock_receive (frame : Frame K V Q R) (signal : Signal V) :
    (frame.receive w t signal).world.clock = w.clock := by
  cases frame <;> cases signal <;> rfl

/-- No step moves the clock. -/
theorem Thread.clock_of_step {chance : Chance K R} (hstep : t.step settings chance w = some s) :
    s.world.clock = w.clock := by
  rw [Thread.step] at hstep
  split at hstep
  · exact Script.clock_of_step hstep
  · exact Option.some.inj hstep ▸ rfl
  · split at hstep
    · cases hstep
    · exact Option.some.inj hstep ▸ Frame.clock_receive _ _
  · obtain ⟨turn, -, rfl⟩ := Option.map_eq_some_iff.mp hstep
    rfl
  · obtain ⟨turn, -, rfl⟩ := Option.map_eq_some_iff.mp hstep
    rfl

omit [DecidableEq K] [DecidableEq V] in
theorem Machine.Outside.now_le_now (hm : m.Outside m') :
    m.world.clock.now ≤ m'.world.clock.now := by
  cases hm with
  | clock hclock =>
    obtain ⟨clock, hadvance, rfl⟩ := Option.map_eq_some_iff.mp hclock
    exact Clock.now_le_now_of_advance? hadvance
  | trip i => exact Nat.le_refl _
  | spawn script => exact Nat.le_refl _

theorem Passage.Lawful.now_le_now (hp : p.Lawful settings) :
    p.before.world.clock.now ≤ p.after.world.clock.now := by
  rw [Passage.Lawful] at hp
  split at hp
  · obtain ⟨chance, hstep⟩ := hp
    obtain ⟨t, s, -, hs, hafter, -⟩ := Machine.step_eq_some hstep
    rw [hafter, Thread.clock_of_step hs]
    exact Nat.le_refl _
  · exact hp.1.now_le_now

/-- The clock never goes back in the course of a run. -/
theorem Run.now_le_now (run : Run settings start trace m) :
    start.world.clock.now ≤ m.world.clock.now := by
  induction run with
  | rest => exact Nat.le_refl _
  | move _ hp ih => exact Nat.le_trans ih hp.now_le_now

end Clock

/-! ## Following a schedule -/

/-- The unused machine of some settings, if there is one. -/
def Machine.fresh? (settings : Settings K V Q R) (partitions : Nat) (pool : PoolKind) :
    Option (Machine K V Q R) :=
  match Store.of settings, Executor.of partitions pool with
  | .ok store, .ok executor => some ⟨⟨store, executor, Clock.start, []⟩, #[]⟩
  | _, _ => none

/-- One entry of a schedule. -/
inductive Move (K V Q R : Type) where
  /-- Another thread begins to run a script. -/
  | spawn (script : Script K V Q R)
  | step (thread : Nat) (chance : Chance K R)
  /-- The clock moves on. -/
  | advance (d : Duration)

/-- The passage that an entry of a schedule stands for. -/
def Machine.passage? (settings : Settings K V Q R) (m : Machine K V Q R) :
    Move K V Q R → Option (Passage K V Q R)
  | .spawn script => some ⟨m, none, [], m.spawn (.running script)⟩
  | .step i chance => (m.step settings chance i).map fun next => ⟨m, some i, next.2, next.1⟩
  | .advance d => (m.world.advance? d).map fun w => ⟨m, none, [], { m with world := w }⟩

/-- The run that a schedule prescribes, if every step of it can be taken. -/
def Machine.follow (settings : Settings K V Q R) :
    List (Move K V Q R) → Machine K V Q R → Option (List (Passage K V Q R) × Machine K V Q R)
  | [], m => some ([], m)
  | move :: moves, m =>
    match m.passage? settings move with
    | none => none
    | some p => (follow settings moves p.after).map fun run => (p :: run.1, run.2)

omit [DecidableEq K] [DecidableEq V] in
theorem Machine.fresh_of_fresh? {settings : Settings K V Q R} {partitions : Nat} {pool : PoolKind}
    {m : Machine K V Q R} (hm : Machine.fresh? settings partitions pool = some m) :
    m.Fresh settings := by
  rw [Machine.fresh?] at hm
  split at hm
  · rename_i store executor hstore hexecutor
    obtain rfl := Option.some.inj hm
    exact ⟨hstore, ⟨partitions, pool, hexecutor⟩, rfl, rfl⟩
  · cases hm

theorem Machine.lawful_of_passage? {settings : Settings K V Q R} {m : Machine K V Q R}
    {move : Move K V Q R} {p : Passage K V Q R} (hp : m.passage? settings move = some p) :
    p.before = m ∧ p.Lawful settings := by
  cases move with
  | spawn script =>
    obtain rfl := Option.some.inj hp
    exact ⟨rfl, .spawn script, rfl⟩
  | step i chance =>
    obtain ⟨⟨after, events⟩, hstep, rfl⟩ := Option.map_eq_some_iff.mp hp
    exact ⟨rfl, chance, hstep⟩
  | advance d =>
    obtain ⟨w, hadvance, rfl⟩ := Option.map_eq_some_iff.mp hp
    exact ⟨rfl, .clock hadvance, rfl⟩

/-- What a schedule prescribes is a run. -/
theorem Machine.run_of_follow {settings : Settings K V Q R} {moves : List (Move K V Q R)}
    {m m' : Machine K V Q R} {trace : List (Passage K V Q R)}
    (hfollow : m.follow settings moves = some (trace, m')) : Run settings m trace m' := by
  induction moves generalizing m trace with
  | nil =>
    obtain ⟨rfl, rfl⟩ := Prod.mk.inj (Option.some.inj hfollow)
    exact .rest
  | cons move moves ih =>
    rw [Machine.follow] at hfollow
    split at hfollow
    · cases hfollow
    · rename_i p hp
      obtain ⟨⟨rest, last⟩, hrest, hpair⟩ := Option.map_eq_some_iff.mp hfollow
      obtain ⟨rfl, rfl⟩ := Prod.mk.inj hpair
      obtain ⟨rfl, hlawful⟩ := Machine.lawful_of_passage? hp
      exact (Run.rest.move hlawful).append (ih hrest)

/-- The run that a schedule prescribes for a new machine with one partition. -/
def Machine.replay (settings : Settings K V Q R) (moves : List (Move K V Q R)) :
    Option (List (Passage K V Q R) × Machine K V Q R) :=
  match Machine.fresh? settings 1 .deferred with
  | none => none
  | some m => m.follow settings moves

theorem Machine.run_of_replay {settings : Settings K V Q R} {moves : List (Move K V Q R)}
    {m : Machine K V Q R} {trace : List (Passage K V Q R)}
    (hreplay : Machine.replay settings moves = some (trace, m)) :
    ∃ start, start.Fresh settings ∧ Run settings start trace m := by
  rw [Machine.replay] at hreplay
  split at hreplay
  · cases hreplay
  · rename_i start hstart
    exact ⟨start, Machine.fresh_of_fresh? hstart, Machine.run_of_follow hreplay⟩

/-- The machine that the first moves lead to from a new one, and the run that the later moves
prescribe from there. -/
def Machine.replayFrom (settings : Settings K V Q R) (first later : List (Move K V Q R)) :
    Option (Machine K V Q R × List (Passage K V Q R) × Machine K V Q R) :=
  (Machine.replay settings first).bind fun opening =>
    (opening.2.follow settings later).map fun run => (opening.2, run)

theorem Machine.run_of_replayFrom {settings : Settings K V Q R} {first later : List (Move K V Q R)}
    {start m : Machine K V Q R} {trace : List (Passage K V Q R)}
    (hreplay : Machine.replayFrom settings first later = some (start, trace, m)) :
    start.Reachable settings ∧ Run settings start trace m := by
  obtain ⟨⟨opening, reached⟩, hopening, hfollow⟩ := Option.bind_eq_some_iff.mp hreplay
  obtain ⟨_, hfollow, heq⟩ := Option.map_eq_some_iff.mp hfollow
  obtain ⟨rfl, rfl⟩ := Prod.mk.inj heq
  obtain ⟨fresh, hfresh, run⟩ := Machine.run_of_replay hopening
  exact ⟨run.reachable hfresh, Machine.run_of_follow hfollow⟩

/-- A store without any collaborator. -/
def plainSettings : Settings Nat Nat Unit Unit :=
  .plain ⟨none, none, none, 1, Sampling.standard⟩ id

/-- A store whose entries live for ten nanoseconds, with a listener that does nothing. -/
def tellingSettings : Settings Nat Nat Unit Unit :=
  { plainSettings with
    expiry := some ((Lifetime.mk (some (.ofNanos 10)) none).expiry Nat Nat)
    listener := some fun _ _ _ => .finish .unit }

end SharedCache
