import SharedCache.Proofs.Stride

/-!
# Duties

What the threads of a machine are going to do to the executor before they go on with code of their
own: the operation that a thread is in, and those that it has put off.
-/

namespace SharedCache

variable {K V Q R : Type}

/-- One thing that a thread is going to do to the executor. -/
inductive Duty (K V Q R : Type) where
  | act (stage : Dispatch K V Q R)
  /-- Delivers the outcome of a task, once its code has ended. -/
  | deliver (task : Nat)

/-- What an activity does to the executor in its next step. -/
def Activity.duties : Activity K V Q R → List (Duty K V Q R)
  | .dispatch stage => [.act stage]
  | .enter _ inside => inside.duties
  | .code _ | .settle _ | .keep _ => []

/-- What is done to the executor when a frame is reached. -/
def Frame.duties : Frame K V Q R → List (Duty K V Q R)
  | .next activity => activity.duties
  | .tasking task => [.deliver task]
  | _ => []

/-- The duties of a thread, from the next one on. -/
def Thread.duties (t : Thread K V Q R) : List (Duty K V Q R) :=
  t.activity.duties ++ t.stack.flatMap Frame.duties

/-- The duties that a turn puts on its thread. -/
def Turn.duties {σ : Type} (t : Turn σ K V Q R) : List (Duty K V Q R) :=
  t.next.duties ++ t.frames.flatMap Frame.duties

/-- The duties of the threads, one list for each of them. -/
def Machine.rosters (m : Machine K V Q R) : List (List (Duty K V Q R)) :=
  m.threads.toList.map Thread.duties

/-- The duties of all threads. -/
def Machine.duties (m : Machine K V Q R) : List (Duty K V Q R) := m.rosters.flatten

section Laws

variable {σ : Type} (s : σ) (a : Activity K V Q R) (t : Turn σ K V Q R) (answer : Answer V)
  (frame : Frame K V Q R) (events : List (Event K V))

@[simp]
theorem Activity.duties_dispatch (stage : Dispatch K V Q R) :
    (Activity.dispatch stage).duties = [.act stage] := rfl

@[simp]
theorem Activity.duties_enter (i : Interrupter) (inside : Activity K V Q R) :
    (Activity.enter i inside).duties = inside.duties := rfl

@[simp]
theorem Activity.duties_code (script : Script K V Q R) : (Activity.code script).duties = [] := rfl

@[simp]
theorem Activity.duties_settle (signal : Signal V) :
    (Activity.settle signal : Activity K V Q R).duties = [] := rfl

@[simp]
theorem Activity.duties_keep (stage : Stage K V Q R) : (Activity.keep stage).duties = [] := rfl

@[simp]
theorem Frame.duties_next : (Frame.next a).duties = a.duties := rfl

@[simp]
theorem Frame.duties_tasking (task : Nat) :
    (Frame.tasking task : Frame K V Q R).duties = [.deliver task] := rfl

@[simp]
theorem Turn.duties_goTo : (goTo s a).duties = a.duties := List.append_nil _

@[simp]
theorem Turn.duties_answer : (Turn.answer s answer : Turn σ K V Q R).duties = [] := rfl

@[simp]
theorem Turn.duties_after : (t.after events).duties = t.duties := rfl

@[simp]
theorem Turn.duties_above : (t.above frame).duties = t.duties ++ frame.duties := by
  simp [duties, above]

@[simp]
theorem Turn.duties_andThen : (t.andThen a).duties = t.duties ++ a.duties :=
  t.duties_above (.next a)

@[simp]
theorem Thread.duties_running (script : Script K V Q R) : (Thread.running script).duties = [] := rfl

/-- A thread that goes on takes the duties of the turn on itself. -/
theorem Thread.duties_goOn (thread : Thread K V Q R) :
    (thread.goOn t.next t.frames).duties = t.duties ++ thread.stack.flatMap Frame.duties := by
  simp [duties, goOn, Turn.duties]

end Laws

/-! ## Kinds of duties -/

/-- The partition that a thread is about to hand to the pool. -/
def Duty.handsOver? : Duty K V Q R → Option Nat
  | .act (.activate p _) | .act (.unlock p _ true) | .act (.schedule p) => some p
  | _ => none

/-- The partition that a job runs, until it has marked the partition as not scheduled or has decided
to hand it back. -/
def Duty.executes? : Duty K V Q R → Option Nat
  | .act (.start p) | .act (.finish p) => some p
  | _ => none

/-- The partition that a duty carries. -/
def Duty.carries? (d : Duty K V Q R) : Option Nat := d.handsOver?.or d.executes?

/-- Whether a duty belongs to a submission that holds the phase. -/
def Duty.holds : Duty K V Q R → Bool
  | .act (.enqueue ..) | .act (.activate ..) | .act (.unlock ..) => true
  | _ => false

/-- Whether a partition is counted as active on account of a duty. -/
def Duty.isCounted : Duty K V Q R → Bool
  | .act (.unlock _ _ true) | .act (.schedule _) | .act (.start _) | .act (.finish _)
  | .act .idle => true
  | _ => false

/-- The partition that a duty puts a task into. -/
def Duty.fills? : Duty K V Q R → Option Nat
  | .act (.accept p _) | .act (.enqueue p _) => some p
  | _ => none

/-- Whether a duty is the end of a job. -/
def Duty.retires : Duty K V Q R → Bool
  | .act .retire => true
  | _ => false

/-- The task whose code a duty is about to begin, or has begun. -/
def Duty.runs? : Duty K V Q R → Option Nat
  | .act (.run task) | .deliver task => some task
  | _ => none

/-- Whether a duty is a look whether the executor can terminate. -/
def Duty.looks : Duty K V Q R → Bool
  | .act .conclude | .act .terminate => true
  | _ => false

/-- A duty is an errand when it concerns no partition that is on its way, no count and no task that
is run. -/
def Duty.isErrand : Duty K V Q R → Bool
  | .act (.hangUp _) | .act .conclude | .act .terminate | .act .announce | .act .shutdown => true
  | .act (.takeJob _) | .act (.loseJob _) | .act (.takeBack _) | .act (.cancel _) => true
  | .act .await | .act (.join _) => true
  | _ => false

/-- Whether a duty is what the owner does after a shutdown. -/
def Duty.closes : Duty K V Q R → Bool
  | .act (.drain ..) | .act .release => true
  | _ => false

/-- A duty is bare when it has to do with no partition and no task, and no count waits for it. -/
structure Duty.IsBare (d : Duty K V Q R) : Prop where
  fills : d.fills? = none
  carries : d.carries? = none
  holds : d.holds = false
  isCounted : d.isCounted = false
  retires : d.retires = false
  runs : d.runs? = none

theorem Duty.isBare_of_isErrand {d : Duty K V Q R} (hd : d.isErrand = true) : d.IsBare := by
  cases d with
  | act stage => cases stage <;> first | exact ⟨rfl, rfl, rfl, rfl, rfl, rfl⟩ | cases hd
  | deliver => cases hd

theorem Duty.isBare_of_closes {d : Duty K V Q R} (hd : d.closes = true) : d.IsBare := by
  cases d with
  | act stage => cases stage <;> first | exact ⟨rfl, rfl, rfl, rfl, rfl, rfl⟩ | cases hd
  | deliver => cases hd

/-! ## Shutdowns -/

/-- Whatever the owner does after a shutdown stands directly below one.  `shut` tells whether what
is above the duties is a shutdown. -/
def ShutsFirst (shut : Prop) : List (Duty K V Q R) → Prop
  | [] => True
  | d :: rest => (d.closes = true → shut) ∧ ShutsFirst (d = .act .shutdown) rest

section ShutsFirst

variable {shut shut' : Prop} {d : Duty K V Q R} {given base : List (Duty K V Q R)}

theorem ShutsFirst.mono (h : shut → shut') (hbase : ShutsFirst shut base) :
    ShutsFirst shut' base := by
  cases base with
  | nil => trivial
  | cons d base => exact ⟨h ∘ hbase.1, hbase.2⟩

theorem ShutsFirst.append (hgiven : ShutsFirst shut given) (hbase : ShutsFirst False base) :
    ShutsFirst shut (given ++ base) := by
  induction given generalizing shut with
  | nil => exact hbase.mono False.elim
  | cons d given ih => exact ⟨hgiven.1, ih hgiven.2⟩

theorem ShutsFirst.of_append (hnone : .act .shutdown ∉ given)
    (h : ShutsFirst False (given ++ base)) : ShutsFirst False base := by
  induction given with
  | nil => exact h
  | cons d given ih =>
    obtain ⟨hd, hrest⟩ := List.forall_mem_cons.mp (List.forall_mem_ne'.mpr hnone)
    exact ih (List.forall_mem_ne'.mp hrest) (h.2.mono fun heq => hd heq)

theorem shutsFirst_of_not_closes (hgiven : ∀ d ∈ given, d.closes = false) :
    ShutsFirst shut given := by
  induction given generalizing shut with
  | nil => trivial
  | cons d given ih =>
    have hd := hgiven d List.mem_cons_self
    exact ⟨by simp [hd], ih fun other hother => hgiven other (List.mem_cons_of_mem d hother)⟩

theorem Duty.closes_of_isErrand (hd : d.isErrand = true) : d.closes = false := by
  cases d with
  | act stage => cases stage <;> first | rfl | cases hd
  | deliver => rfl

end ShutsFirst

end SharedCache
