import SharedCache.Proofs.Aftermath
import SharedCache.Proofs.Rules

/-!
# Detours

What lies between the sections of an operation that matter: a removal is reported, the listener
runs, an enforcement finds that there is no bound.  A detour changes no slot and no deadline, and it
is over after a few steps of the operation itself; how long a listener takes is its own affair.
-/

namespace SharedCache

variable {K V Q R : Type}

/-! ## Code that is called back -/

theorem Frame.IsPlain.not_callsBack {frame : Frame K V Q R} (hframe : frame.IsPlain) :
    frame.callsBack = false := by
  cases frame with
  | computing c => exact hframe.elim
  | listening => exact hframe.elim
  | _ => rfl

/-- While what a frame has called back runs, the thread is in the middle of it. -/
theorem Thread.isCalledBack_of_frame {t : Thread K V Q R} {inside below : List (Frame K V Q R)}
    {frame : Frame K V Q R} (hstack : t.stack = inside ++ frame :: below)
    (hframe : frame.callsBack = true) (hinside : ∀ frame ∈ inside, frame.IsPlain)
    (hruns : ¬ (inside = [] ∧ ∃ signal, t.activity = .settle signal)) : t.isCalledBack = true := by
  have hany : (inside ++ frame :: below).any Frame.callsBack = true := by simp [hframe]
  rw [Thread.isCalledBack, hstack]
  cases inside with
  | nil =>
    split
    · rename_i signal _ _ hactivity _
      exact absurd ⟨rfl, signal, hactivity⟩ hruns
    · exact hany
  | cons first rest =>
    have hfirst := (hinside first List.mem_cons_self).not_callsBack
    split
    · rename_i top others _ hcons
      obtain ⟨rfl, rfl⟩ := List.cons.inj hcons
      simp [hfirst, hframe]
    · exact hany

/-- The thread is busy with a call that so many frames wait for, and not with anything that the call
has called back. -/
def Thread.attends (depth : Nat) (t : Thread K V Q R) : Bool :=
  match t.activity with
  | .settle _ => !(t.stack.take (t.stack.length - depth)).tail.any Frame.callsBack
  | _ => !(t.stack.take (t.stack.length - depth)).any Frame.callsBack

section Attends

variable {t : Thread K V Q R} {above inside base : List (Frame K V Q R)} {frame : Frame K V Q R}

theorem Thread.attends_eq (hstack : t.stack = above ++ base) :
    t.attends base.length = match t.activity with
      | .settle _ => !above.tail.any Frame.callsBack
      | _ => !above.any Frame.callsBack := by
  have habove : t.stack.take (t.stack.length - base.length) = above := by simp [hstack]
  rw [attends, habove]

theorem Thread.attends_of_stack (hstack : t.stack = above ++ base)
    (habove : ∀ frame ∈ above, frame.callsBack = false) : t.attends base.length = true := by
  have hnone : above.any Frame.callsBack = false := by simpa using habove
  have htail : above.tail.any Frame.callsBack = false := by
    simpa using fun frame hframe => habove frame (List.mem_of_mem_tail hframe)
  rw [attends_eq hstack]
  split <;> simp [hnone, htail]

/-- The thread learns how what it has called back has ended. -/
theorem Thread.attends_of_settle {signal : Signal V} (hstack : t.stack = (frame :: above) ++ base)
    (hactivity : t.activity = .settle signal) (habove : ∀ frame ∈ above, frame.callsBack = false) :
    t.attends base.length = true := by
  rw [attends_eq hstack, hactivity]
  simpa using habove

/-- What runs above a frame that has called back is no concern of the call below. -/
theorem Thread.not_attends_of_runs (hstack : t.stack = (inside ++ frame :: above) ++ base)
    (hframe : frame.callsBack = true)
    (hruns : ¬ (inside = [] ∧ ∃ signal, t.activity = .settle signal)) :
    t.attends base.length = false := by
  rw [attends_eq hstack]
  split
  · rename_i signal hactivity
    cases inside with
    | nil => exact absurd ⟨rfl, signal, hactivity⟩ hruns
    | cons first inside => simp [hframe]
  · simp [hframe]

end Attends

section Steps

variable [DecidableEq K] [DecidableEq V] {settings : Settings K V Q R} {chance : Chance K R}
  {w : World K V Q R} {t : Thread K V Q R} {step : Step K V Q R}

/-- Plain code that calls no operation stays plain until it ends, and leaves the store alone. -/
theorem Thread.Stride.of_plain {inside below : List (Frame K V Q R)}
    (hstride : t.Stride settings w step) (hactivity : t.activity.IsPlain)
    (hstack : t.stack = inside ++ below) (hinside : ∀ frame ∈ inside, frame.IsPlain)
    (hflat : ∀ operation next, t.activity ≠ .code (.call operation next)) :
    (inside = [] ∧ ∃ signal, t.activity = .settle signal) ∨
      step.world.store = w.store ∧ step.thread.activity.IsPlain ∧ ∃ inside',
        (∀ frame ∈ inside', frame.IsPlain) ∧ step.thread.stack = inside' ++ below := by
  have hpopped : ∀ signal frame rest, t.activity = .settle signal → t.stack = frame :: rest →
      (inside = [] ∧ ∃ signal, t.activity = .settle signal) ∨
        frame.IsPlain ∧ ∃ inside', (∀ frame ∈ inside', frame.IsPlain) ∧
          rest = inside' ++ below := by
    intro signal frame rest hsettled htop
    cases inside with
    | nil => exact .inl ⟨rfl, signal, hsettled⟩
    | cons first inside' =>
      rw [hstack, List.cons_append] at htop
      obtain ⟨rfl, rfl⟩ := List.cons.inj htop
      exact .inr ⟨hinside first List.mem_cons_self, inside',
        fun frame hframe => hinside frame (List.mem_cons_of_mem _ hframe), rfl⟩
  cases hstride with
  | @works w' a frames binding events _ _ _ hstore ha hframes =>
    refine .inr ⟨hstore, ha, frames ++ inside, fun frame hframe => ?_, by simp [hstack]⟩
    exact (List.mem_append.mp hframe).elim (hframes frame) (hinside frame)
  | calls hcall => exact absurd hcall (hflat _ _)
  | @enters i inner henter =>
    refine .inr ⟨rfl, ?_, .scoped t.binding :: inside, fun frame hframe => ?_, by simp [hstack]⟩
    · rw [henter] at hactivity
      exact hactivity
    · rcases List.mem_cons.mp hframe with rfl | hold
      · trivial
      · exact hinside frame hold
  | returns hsettled htop _ _ hstore ha =>
    rcases hpopped _ _ _ hsettled htop with hover | ⟨-, hrest⟩
    · exact .inl hover
    · exact .inr ⟨hstore, ha, hrest⟩
  | proceeds hsettled htop =>
    rcases hpopped _ _ _ hsettled htop with hover | ⟨hframe, hrest⟩
    · exact .inl hover
    · exact .inr ⟨rfl, hframe, hrest⟩
  | unwinds hsettled htop =>
    rcases hpopped _ _ _ hsettled htop with hover | ⟨-, hrest⟩
    · exact .inl hover
    · exact .inr ⟨rfl, trivial, hrest⟩
  | mapped hsettled htop =>
    rcases hpopped _ _ _ hsettled htop with hover | ⟨hframe, -⟩
    · exact .inl hover
    · exact hframe.elim
  | listened hsettled htop =>
    rcases hpopped _ _ _ hsettled htop with hover | ⟨hframe, -⟩
    · exact .inl hover
    · exact hframe.elim
  | keeps hkeep =>
    rw [hkeep] at hactivity
    exact hactivity.elim

/-- Only sections change slots. -/
theorem Passage.Lawful.map_of_apart {p : Passage K V Q R} (hp : p.Lawful settings)
    (hstage : p.stage? = none) : p.after.world.store.map = p.before.world.store.map := by
  cases hp.course with
  | outside _ houtside => rw [houtside.store_eq]
  | step hmover ht hstride hafter =>
    rw [hafter]
    cases hstride.effect with
    | rests _ _ _ hmap => exact hmap
    | calls _ hmap => exact hmap
    | drops _ _ hmap => exact hmap
    | moves _ _ hmap => exact hmap
    | acts hactivity =>
      rw [Passage.stage?_of_keep hmover ht hactivity] at hstage
      cases hstage

/-- A section that waits for nothing can always be taken. -/
theorem Stage.isSome_turn {s : Store K V} {stage : Stage K V Q R} {now : Instant}
    {interrupted : Bool} {draws : List K}
    (hstage : ∀ operation retries fault, stage ≠ .await operation retries fault) :
    (stage.turn settings s now interrupted draws).isSome := by
  cases stage with
  | await operation retries fault => exact absurd rfl (hstage operation retries fault)
  | _ => rfl

theorem Thread.isSome_step_of_keep {stage : Stage K V Q R} (hactivity : t.activity = .keep stage)
    (hstage : ∀ operation retries fault, stage ≠ .await operation retries fault)
    (chance : Chance K R) : (t.step settings chance w).isSome := by
  rw [Thread.step, hactivity, Option.isSome_map]
  exact Stage.isSome_turn hstage

theorem Thread.isSome_step_of_settle {signal : Signal V} {frame : Frame K V Q R}
    {rest : List (Frame K V Q R)} (hactivity : t.activity = .settle signal)
    (hstack : t.stack = frame :: rest) (chance : Chance K R) :
    (t.step settings chance w).isSome := by
  simp [Thread.step, hactivity, hstack]

end Steps

/-! ## Detours -/

/-- On the way to something that is put off, so many steps away at most. -/
inductive Detour (P : Nat → Activity K V Q R → Prop) :
    Nat → Activity K V Q R → List (Frame K V Q R) → Prop where
  | arrives {n : Nat} {a : Activity K V Q R} : P n a → Detour P n a []
  | passes {n : Nat} {answer : Answer V} {a : Activity K V Q R} {rest : List (Frame K V Q R)} :
      Detour P n a rest → Detour P (n + 1) (.settle (.done answer)) (.next a :: rest)
  | enforces {n failed : Nat} {a : Activity K V Q R} {rest : List (Frame K V Q R)} :
      Detour P n a rest → Detour P (n + 2) (.keep (.enforce failed)) (.next a :: rest)
  | reports {n : Nat} {key : K} {h : Holder V} {cause : RemovalCause} {a : Activity K V Q R}
      {rest : List (Frame K V Q R)} :
      Detour P n a rest → Detour P (n + 3) (.keep (.report key h cause)) (.next a :: rest)
  | judges {n : Nat} {key : K} {h : Holder V} {now : Instant} {a : Activity K V Q R}
      {rest : List (Frame K V Q R)} :
      Detour P n a rest → Detour P (n + 4) (.keep (.judge key h now)) (.next a :: rest)
  | listens {n : Nat} {now a : Activity K V Q R} {inside rest : List (Frame K V Q R)} :
      now.IsPlain → (∀ frame ∈ inside, frame.IsPlain) → Detour P n a rest →
      Detour P (n + 2) now (inside ++ .listening :: .next a :: rest)

namespace Detour

variable {P P' : Nat → Activity K V Q R → Prop} {n : Nat} {a : Activity K V Q R}
  {above base : List (Frame K V Q R)}

theorem imp (hdetour : Detour P n a above) (himp : ∀ n a, P n a → P' n a) :
    Detour P' n a above := by
  induction hdetour with
  | arrives ha => exact .arrives (himp _ _ ha)
  | passes _ ih => exact .passes ih
  | enforces _ ih => exact .enforces ih
  | reports _ ih => exact .reports ih
  | judges _ ih => exact .judges ih
  | listens hnow hinside _ ih => exact .listens hnow hinside ih

/-- A detour has no computation on top. -/
theorem above_ne_computing (hdetour : Detour P n a above) (c : Computation K V Q R) :
    above ≠ [.computing c] := by
  rintro rfl
  generalize habove : [Frame.computing c] = above at hdetour
  cases hdetour with
  | @listens _ _ _ inside rest hnow hinside =>
    cases inside with
    | nil => cases habove
    | cons first inside =>
      obtain ⟨rfl, -⟩ := List.cons.inj habove
      exact hinside _ List.mem_cons_self
  | arrives => cases habove
  | passes => cases habove
  | enforces => cases habove
  | reports => cases habove
  | judges => cases habove

variable [DecidableEq K] [DecidableEq V] {settings : Settings K V Q R} {chance : Chance K R}
  {w : World K V Q R} {t : Thread K V Q R} {step : Step K V Q R}

omit [DecidableEq K] [DecidableEq V] in
/-- A report leaves the slots and the deadlines alone and may call the listener. -/
theorem report (hsteady : settings.Steady) (s : Store K V) (key : K) (h : Holder V)
    (cause : RemovalCause) {rest : List (Frame K V Q R)} (hdetour : Detour P n a rest) :
    (s.report settings key h cause).state.map = s.map ∧
      (s.report settings key h cause).state.deadlines = s.deadlines ∧
      ∃ n' ≤ n + 2, Detour P n' (s.report settings key h cause).next
        ((s.report settings key h cause).frames ++ .next a :: rest) := by
  obtain ⟨copy, hcopy⟩ := hsteady.copyOut h.value
  have hgiven : (settings.giveOut h.value).result = .ok copy := hcopy
  rw [Store.report]
  cases settings.listener with
  | none => exact ⟨rfl, rfl, n + 1, by omega, .passes hdetour⟩
  | some listener =>
    dsimp only
    split
    · rw [Turn.consulting_of_ok hgiven]
      have hlistens : Detour P (n + 2) (.code (listener key copy cause))
          ([] ++ .listening :: .next a :: rest) := .listens trivial (by simp) hdetour
      exact ⟨rfl, rfl, n + 2, by omega, hlistens⟩
    · exact ⟨rfl, rfl, n + 1, by omega, .passes hdetour⟩

/-- A step of a detour changes no slot and no deadline, and brings the end of the detour nearer
unless a listener runs. -/
theorem step_cases (hdetour : Detour P n t.activity above) (hsteady : settings.Steady)
    (hcapacity : settings.blueprint.capacity = none) (hstack : t.stack = above ++ base)
    (hflat : ∀ operation next, t.activity = .code (.call operation next) → t.IsPlain)
    (hstep : t.step settings chance w = some step) :
    above = [] ∧ P n t.activity ∨
      step.world.store.map = w.store.map ∧ step.world.store.deadlines = w.store.deadlines ∧
        ∃ n' above', step.thread.stack = above' ++ base ∧ Detour P n' step.thread.activity above' ∧
          (n' + 1 ≤ n ∨ n' ≤ n ∧ t.isCalledBack = true) := by
  obtain ⟨activity, stack, binding⟩ := t
  obtain rfl : stack = above ++ base := hstack
  have hstride := Thread.stride hstep
  cases hdetour with
  | arrives ha => exact .inl ⟨rfl, ha⟩
  | @passes n answer b rest hrest =>
    obtain rfl := Thread.receive_of_step rfl rfl hstep
    exact .inr ⟨rfl, rfl, n, rest, rfl, hrest, .inl (by omega)⟩
  | @enforces n failed b rest hrest =>
    obtain ⟨turn, draws, hturn, rfl⟩ := hstride.turn_of_keep rfl
    obtain rfl := Option.some.inj hturn
    have henforce : w.store.enforce settings failed =
        (.answer w.store .unit : StoreTurn K V Q R) := by
      rw [Store.enforce, hcapacity]
    refine .inr ?_
    rw [henforce]
    exact ⟨rfl, rfl, n + 1, .next b :: rest, rfl, .passes hrest, .inl (by omega)⟩
  | @reports n key h cause b rest hrest =>
    obtain ⟨turn, draws, hturn, rfl⟩ := hstride.turn_of_keep rfl
    obtain rfl := Option.some.inj hturn
    obtain ⟨hmap, hdeadlines, n', hn', hdetour'⟩ := report hsteady w.store key h cause hrest
    refine .inr ⟨hmap, hdeadlines, n', _, ?_, hdetour', .inl (by omega)⟩
    simp [Step.ofStore, Thread.goOn]
  | @judges n key h at' b rest hrest =>
    obtain ⟨turn, draws, hturn, rfl⟩ := hstride.turn_of_keep rfl
    obtain rfl := Option.some.inj hturn
    exact .inr ⟨rfl, rfl, n + 3, .next b :: rest, rfl, .reports hrest, .inl (by omega)⟩
  | @listens n _ b inside rest hnow hinside hrest =>
    have hstack : (inside ++ .listening :: .next b :: rest) ++ base =
        inside ++ .listening :: (.next b :: rest ++ base) := by simp
    by_cases hover : inside = [] ∧ ∃ signal, activity = .settle signal
    · obtain ⟨rfl, signal, rfl⟩ := hover
      obtain rfl := Thread.receive_of_step rfl rfl hstep
      refine .inr ?_
      cases signal with
      | done answer =>
        exact ⟨rfl, rfl, n + 1, .next b :: rest, rfl, .passes hrest, .inl (by omega)⟩
      | raised panic =>
        exact ⟨rfl, rfl, n + 1, .next b :: rest, rfl, .passes hrest, .inl (by omega)⟩
    · have hcalled : ∀ operation next, activity ≠ .code (.call operation next) := by
        intro operation next hcall
        exact ((hflat operation next hcall).2 .listening (by simp)).elim
      rcases hstride.of_plain hnow hstack hinside hcalled with
        hended | ⟨hstore, hplain, inside', hinside', hstack'⟩
      · exact absurd hended hover
      · refine .inr ⟨by rw [hstore], by rw [hstore], n + 2,
          inside' ++ .listening :: .next b :: rest, by simp [hstack'],
          .listens hplain hinside' hrest, .inr ⟨by omega, ?_⟩⟩
        exact Thread.isCalledBack_of_frame hstack rfl hinside hover

end Detour

end SharedCache
