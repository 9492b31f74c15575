import SharedCache.Proofs.Turnover

/-!
# Deferral

What threads put off.  A computation is put off in one case only: where the value that it replaces
has expired, the expiration is reported first, and the fault is in the slot already.  So nothing is
put off about a key whose value is never found expired.
-/

namespace SharedCache

variable {K V Q R : Type}

/-- What is put off in a frame. -/
def Frame.deferred : Frame K V Q R → List (Ongoing K V Q R)
  | .next activity => activity.ongoing
  | _ => []

/-- What is put off in a stack. -/
def stackDeferred (stack : List (Frame K V Q R)) : List (Ongoing K V Q R) :=
  stack.flatMap Frame.deferred

/-- What the threads of a machine have put off. -/
def Machine.deferred (m : Machine K V Q R) : List (Ongoing K V Q R) :=
  m.threads.toList.flatMap fun t => stackDeferred t.stack

@[simp]
theorem stackDeferred_nil : stackDeferred ([] : List (Frame K V Q R)) = [] := rfl

@[simp]
theorem stackDeferred_cons (frame : Frame K V Q R) (stack : List (Frame K V Q R)) :
    stackDeferred (frame :: stack) = frame.deferred ++ stackDeferred stack :=
  List.flatMap_cons

@[simp]
theorem stackDeferred_append (front back : List (Frame K V Q R)) :
    stackDeferred (front ++ back) = stackDeferred front ++ stackDeferred back :=
  List.flatMap_append

theorem Frame.deferred_subset (frame : Frame K V Q R) : frame.deferred ⊆ frame.ongoing := by
  cases frame with
  | next a => exact List.Subset.refl _
  | _ => exact List.nil_subset _

theorem stackDeferred_subset (stack : List (Frame K V Q R)) :
    stackDeferred stack ⊆ stackOngoing stack := by
  induction stack with
  | nil => exact List.nil_subset _
  | cons frame rest ih =>
    rw [stackDeferred_cons, stackOngoing_cons]
    apply List.append_subset.mpr
    exact ⟨fun o ho => List.mem_append_left _ (frame.deferred_subset ho),
      fun o ho => List.mem_append_right _ (ih ho)⟩

theorem stackDeferred_eq_nil {stack : List (Frame K V Q R)} (hstack : stackOngoing stack = []) :
    stackDeferred stack = [] := by
  have hsubset := stackDeferred_subset stack
  rw [hstack] at hsubset
  exact List.subset_nil.mp hsubset

/-- A turn that engages its thread in nothing puts nothing off. -/
theorem Turn.deferred_eq_nil {σ : Type} {turn : Turn σ K V Q R} (hnone : turn.ongoing = []) :
    stackDeferred turn.frames = [] := by
  apply stackDeferred_eq_nil
  exact (List.append_eq_nil_iff.mp hnone).2

variable [DecidableEq K] [DecidableEq V]

section Deferred

variable {settings : Settings K V Q R} {s : Store K V} {stage : Stage K V Q R}
  {turn : StoreTurn K V Q R} {w : World K V Q R} {t : Thread K V Q R} {step : Step K V Q R}

/-- The section finds a value of the key that has expired, on behalf of an operation that is about
the key. -/
def Stage.FindsStale (s : Store K V) (key : K) (stage : Stage K V Q R) : Prop :=
  ∃ operation retries now h, stage = .visit operation retries now ∧
    operation.key? = some key ∧ s.look key now = .stale h

/-- A section puts off at most a computation of a key whose value it has found expired. -/
theorem Stage.Deed.deferred (hdeed : stage.Deed settings s turn) :
    ∀ o ∈ stackDeferred turn.frames, ∃ c, o = .computes c .begun ∧ stage.FindsStale s c.key := by
  intro o ho
  have hnever : turn.ongoing = [] → False := fun hnone => by
    rw [Turn.deferred_eq_nil hnone] at ho
    cases ho
  have hframes : turn.frames = [] → False := fun hnone => by
    rw [hnone] at ho
    cases ho
  cases hdeed with
  | @visits operation retries now _ hvisit =>
    cases hvisit with
    | keeps _ _ hstill => exact (hnever hstill.ongoing).elim
    | waits _ _ _ _ hnone => exact (hframes hnone).elim
    | writes _ _ _ _ _ _ _ hnone => exact (hnever hnone).elim
    | removes _ _ _ _ hnone => exact (hnever hnone).elim
    | @begins c m hkey _ _ _ _ _ _ _ hthread =>
      rcases hthread with ⟨-, hnone⟩ | ⟨⟨h, hstale, -⟩, hone⟩
      · exact (hframes hnone).elim
      · rw [hone] at ho
        obtain rfl : o = .computes c .begun := by
          simpa [Frame.deferred, Stage.ongoing] using ho
        exact ⟨c, rfl, operation, retries, now, h, rfl, hkey, hstale⟩
  | keeps _ hstill => exact (hnever hstill.ongoing).elim
  | looks _ hnone => exact (hframes hnone).elim
  | resumes _ _ _ hnone => exact (hframes hnone).elim
  | shares _ _ hstill => exact (hnever hstill.ongoing).elim
  | givesUp _ _ hstill => exact (hnever hstill.ongoing).elim
  | expels _ _ _ _ hnone => exact (hnever hnone).elim
  | sweeps _ _ hnone => exact (hnever hnone).elim
  | calls _ _ hone =>
    rw [hone] at ho
    cases ho
  | unwinds _ _ _ hnone => exact (hframes hnone).elim
  | composes _ _ _ _ hnone => exact (hframes hnone).elim
  | ends _ _ _ hnone => exact (hnever hnone).elim

/-- A step puts off nothing else. -/
theorem Thread.Stride.deferred (hstride : t.Stride settings w step) :
    ∀ o ∈ stackDeferred step.thread.stack, o ∈ stackDeferred t.stack ∨
      ∃ c stage, o = .computes c .begun ∧ t.activity = .keep stage ∧
        stage.FindsStale w.store c.key := by
  intro o ho
  cases hstride with
  | works _ _ _ _ _ hframes =>
    refine .inl ?_
    rw [stackDeferred_append, stackDeferred_eq_nil (stackOngoing_eq_nil hframes)] at ho
    exact ho
  | calls => exact .inl ho
  | enters => exact .inl ho
  | returns _ hstack =>
    rw [hstack, stackDeferred_cons]
    exact .inl (List.mem_append_right _ ho)
  | proceeds _ hstack =>
    rw [hstack, stackDeferred_cons]
    exact .inl (List.mem_append_right _ ho)
  | unwinds _ hstack =>
    rw [hstack, stackDeferred_cons]
    exact .inl (List.mem_append_right _ ho)
  | @mapped signal c rest _ hstack =>
    obtain ⟨-, hframes, -⟩ := w.store.mapped_spec c signal
    rw [hstack, stackDeferred_cons]
    refine .inl (List.mem_append_right _ ?_)
    simpa [Step.ofStore, Thread.goOn, Thread.popped, hframes, hstack] using ho
  | @listened signal rest _ hstack =>
    obtain ⟨-, hframes⟩ := w.store.listened_spec (Q := Q) (R := R) signal
    rw [hstack, stackDeferred_cons]
    refine .inl (List.mem_append_right _ ?_)
    simpa [Step.ofStore, Thread.goOn, Thread.popped, hframes, hstack] using ho
  | @keeps stage draws turn hactivity hturn =>
    change o ∈ stackDeferred (turn.frames ++ t.stack) at ho
    rw [stackDeferred_append] at ho
    rcases List.mem_append.mp ho with hnew | hold
    · obtain ⟨c, rfl, hstale⟩ := (Stage.deed hturn).deferred o hnew
      exact .inr ⟨c, stage, rfl, hactivity, hstale⟩
    · exact .inl hold

theorem Passage.Lawful.deferred {p : Passage K V Q R} (hp : p.Lawful settings) :
    ∀ o ∈ p.after.deferred, o ∈ p.before.deferred ∨
      ∃ c stage, o = .computes c .begun ∧ p.stage? = some stage ∧
        stage.FindsStale p.before.world.store c.key := by
  intro o ho
  obtain ⟨t', ht', hmem⟩ := List.mem_flatMap.mp ho
  obtain ⟨j, hj⟩ := List.mem_iff_getElem?.mp ht'
  have hj : p.after.threads[j]? = some t' := by simpa using hj
  have hstay : p.before.threads[j]? = some t' → o ∈ p.before.deferred := fun hbefore =>
    List.mem_flatMap.mpr ⟨t', by
      simpa using Array.mem_of_getElem? hbefore, hmem⟩
  cases hp.course with
  | outside _ houtside _ =>
    rcases houtside.threads_eq j with hsame | ⟨script, -, hnew⟩
    · exact .inl (hstay (hsame ▸ hj))
    · obtain rfl := Option.some.inj (hj.symm.trans hnew)
      cases hmem
  | @step i t s hmover ht hstride hafter _ =>
    rw [hafter, Array.getElem?_setIfInBounds] at hj
    split at hj
    · rename_i hsame
      split at hj
      · obtain rfl := Option.some.inj hj
        rcases hstride.deferred o hmem with hold | ⟨c, stage, rfl, hactivity, hstale⟩
        · refine .inl (List.mem_flatMap.mpr ⟨t, ?_, hold⟩)
          simpa using Array.mem_of_getElem? ht
        · exact .inr ⟨c, stage, rfl, Passage.stage?_of_keep hmover ht hactivity, hstale⟩
      · cases hj
    · exact .inl (hstay hj)

/-- Threads put off nothing but computations that have just begun. -/
theorem Machine.Reachable.deferred {m : Machine K V Q R} (hm : m.Reachable settings) :
    ∀ o ∈ m.deferred, ∃ c, o = .computes c .begun := by
  apply hm.invariant (P := fun m => ∀ o ∈ m.deferred, ∃ c, o = .computes c .begun)
  · intro start hstart
    simp [Machine.deferred, hstart.threads]
  · intro p hp hbefore o ho
    rcases hp.deferred o ho with hold | ⟨c, stage, rfl, -⟩
    · exact hbefore o hold
    · exact ⟨c, rfl⟩

end Deferred

end SharedCache
