import SharedCache.Proofs.Stride

/-!
# What is going on

A computation is in progress from the section that puts its fault into a slot to the section that
resolves the fault.  In between exactly one thread carries it, in its activity or in one of its
frames, and how far the computation has come can be read off there.  Other threads that want its
key wait for its fault.  An operation seeks its key from its call to the section that settles what
becomes of it, except while it waits.
-/

namespace SharedCache

variable {K V Q R : Type}

/-- How far a computation has come. -/
inductive Progress (V : Type) where
  /-- Its mapping function has not been called. -/
  | begun
  /-- Its mapping function runs. -/
  | running
  /-- Its mapping function gave a value, which has no holder yet. -/
  | given (value : V)
  /-- It is about to leave the slot like this, to resolve its fault and to end like this. -/
  | leaving (left : Option (Holder V)) (resolution : Resolution V) (signal : Signal V)

/-- What a thread is engaged in. -/
inductive Ongoing (K V Q R : Type) where
  | computes (c : Computation K V Q R) (progress : Progress V)
  | awaits (operation : Operation K V Q R) (fault : Nat)
  | seeks (operation : Operation K V Q R)

/-- What a stage is a part of. -/
def Stage.ongoing : Stage K V Q R → List (Ongoing K V Q R)
  | .round operation _ => [.seeks operation]
  | .visit operation _ _ => [.seeks operation]
  | .await operation _ fault => [.awaits operation fault]
  | .own c => [.computes c .begun]
  | .compose c value => [.computes c (.given value)]
  | .install c h value => [.computes c (.leaving (some h) (.ready h) (.done (.value (some value))))]
  | .vacate c resolution answer => [.computes c (.leaving none resolution (.done answer))]
  | .restore c resolution signal => [.computes c (.leaving c.previous resolution signal)]
  | _ => []

/-- What an activity is a part of. -/
def Activity.ongoing : Activity K V Q R → List (Ongoing K V Q R)
  | .keep stage => stage.ongoing
  | .enter _ inside => inside.ongoing
  | .code _ | .settle _ | .dispatch _ => []

/-- What waits in a frame. -/
def Frame.ongoing : Frame K V Q R → List (Ongoing K V Q R)
  | .computing c => [.computes c .running]
  | .next activity => activity.ongoing
  | _ => []

/-- What waits in a stack, from the innermost frame on. -/
def stackOngoing (stack : List (Frame K V Q R)) : List (Ongoing K V Q R) :=
  stack.flatMap Frame.ongoing

/-- What a thread is engaged in, from the innermost on. -/
def Thread.ongoing (t : Thread K V Q R) : List (Ongoing K V Q R) :=
  t.activity.ongoing ++ stackOngoing t.stack

/-- What a turn engages its thread in. -/
def Turn.ongoing {σ : Type} (t : Turn σ K V Q R) : List (Ongoing K V Q R) :=
  t.next.ongoing ++ stackOngoing t.frames

/-- What is going on in a machine. -/
def Machine.ongoing (m : Machine K V Q R) : List (Ongoing K V Q R) :=
  m.threads.toList.flatMap Thread.ongoing

theorem Machine.mem_ongoing_of_thread {m : Machine K V Q R} {i : Nat} {t : Thread K V Q R}
    (ht : m.threads[i]? = some t) {o : Ongoing K V Q R} (ho : o ∈ t.ongoing) : o ∈ m.ongoing :=
  List.mem_flatMap.mpr ⟨t, by simpa using Array.mem_of_getElem? ht, ho⟩

theorem Machine.exists_thread {m : Machine K V Q R} {o : Ongoing K V Q R} (ho : o ∈ m.ongoing) :
    ∃ (i : Nat) (t : Thread K V Q R), m.threads[i]? = some t ∧ o ∈ t.ongoing := by
  obtain ⟨t, ht, hthread⟩ := List.mem_flatMap.mp ho
  obtain ⟨i, hi⟩ := List.mem_iff_getElem?.mp ht
  exact ⟨i, t, by simpa using hi, hthread⟩

@[simp]
theorem stackOngoing_nil : stackOngoing ([] : List (Frame K V Q R)) = [] := rfl

@[simp]
theorem stackOngoing_cons (frame : Frame K V Q R) (stack : List (Frame K V Q R)) :
    stackOngoing (frame :: stack) = frame.ongoing ++ stackOngoing stack :=
  List.flatMap_cons

@[simp]
theorem stackOngoing_append (front back : List (Frame K V Q R)) :
    stackOngoing (front ++ back) = stackOngoing front ++ stackOngoing back :=
  List.flatMap_append

namespace Turn

variable {σ : Type} (s : σ) (a : Activity K V Q R) (t : Turn σ K V Q R) (answer : Answer V)
  (p : Panic) (frame : Frame K V Q R) (events : List (Event K V))

@[simp]
theorem ongoing_goTo : (goTo s a).ongoing = a.ongoing := List.append_nil _

@[simp]
theorem ongoing_answer :
    (Turn.answer s answer : Turn σ K V Q R).ongoing = [] := rfl

@[simp]
theorem ongoing_panic : (Turn.panic s p : Turn σ K V Q R).ongoing = [] := rfl

@[simp]
theorem ongoing_after : (t.after events).ongoing = t.ongoing := rfl

@[simp]
theorem ongoing_above :
    (t.above frame).ongoing = t.ongoing ++ frame.ongoing := by
  simp [ongoing, above]

@[simp]
theorem ongoing_andThen :
    (t.andThen a).ongoing = t.ongoing ++ a.ongoing :=
  ongoing_above t (.next a)

end Turn

@[simp]
theorem Activity.ongoing_keep (stage : Stage K V Q R) :
    (Activity.keep stage).ongoing = stage.ongoing := rfl

@[simp]
theorem Activity.ongoing_settle (signal : Signal V) :
    (Activity.settle signal : Activity K V Q R).ongoing = [] := rfl

@[simp]
theorem Activity.ongoing_code (script : Script K V Q R) :
    (Activity.code script).ongoing = [] := rfl

@[simp]
theorem Frame.ongoing_computing (c : Computation K V Q R) :
    (Frame.computing c).ongoing = [.computes c .running] := rfl

@[simp]
theorem Frame.ongoing_next (a : Activity K V Q R) :
    (Frame.next a).ongoing = a.ongoing := rfl

/-! ## Plain parts of a thread -/

theorem Activity.IsPlain.ongoing_eq {a : Activity K V Q R} (ha : a.IsPlain) :
    a.ongoing = [] := by
  induction a with
  | enter _ inside ih => exact ih ha
  | keep stage => exact ha.elim
  | code script => rfl
  | settle signal => rfl
  | dispatch stage => rfl

theorem Frame.IsPlain.ongoing_eq {frame : Frame K V Q R} (hframe : frame.IsPlain) :
    frame.ongoing = [] := by
  cases frame with
  | next activity => exact Activity.IsPlain.ongoing_eq hframe
  | computing c => exact hframe.elim
  | _ => rfl

theorem stackOngoing_eq_nil {stack : List (Frame K V Q R)}
    (hstack : ∀ frame ∈ stack, frame.IsPlain) : stackOngoing stack = [] :=
  List.flatMap_eq_nil_iff.mpr fun frame hframe => (hstack frame hframe).ongoing_eq

theorem Thread.IsPlain.ongoing_eq {t : Thread K V Q R} (ht : t.IsPlain) : t.ongoing = [] := by
  rw [Thread.ongoing, ht.1.ongoing_eq, stackOngoing_eq_nil ht.2]
  rfl

end SharedCache
