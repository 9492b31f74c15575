import SharedCache.Proofs.Aftermath

/-!
# Prospects

What a call can still come to.  A call that looks at its key waits, or begins a computation, or ends
at once because a collaborator has panicked, or does what it is there for.  In the last case it is
spent: from then on it computes nothing and prepares no value any more, so neither can fail.  What a
listener does on the same thread is no part of the call.
-/

namespace SharedCache

variable {K V Q R : Type}

/-- A call in this stage has neither a value to prepare nor a function to call. -/
def Stage.IsSpent : Stage K V Q R → Prop
  | .round .. | .visit .. | .await .. | .own _ | .compose .. => False
  | _ => True

/-- A call is spent in what it does next. -/
def Activity.IsSpent : Activity K V Q R → Prop
  | .keep stage => stage.IsSpent
  | .settle _ => True
  | _ => False

/-- What is put off in a frame is spent. -/
def Frame.IsSpent : Frame K V Q R → Prop
  | .next activity => activity.IsSpent
  | _ => False

/-- A turn leaves its call spent, or calls the listener. -/
def Turn.IsSpent (turn : StoreTurn K V Q R) : Prop :=
  turn.next.IsSpent ∧ (∀ frame ∈ turn.frames, frame.IsSpent) ∨ turn.frames = [.listening]

/-- What a spent call may have on its thread above the frames that wait for it. -/
inductive Spent (a : Activity K V Q R) (above : List (Frame K V Q R)) : Prop where
  | goesOn : a.IsSpent → (∀ frame ∈ above, frame.IsSpent) → Spent a above
  | listens {inside frames : List (Frame K V Q R)} :
      above = inside ++ .listening :: frames → (∀ frame ∈ frames, frame.IsSpent) → Spent a above

@[simp]
theorem Frame.isSpent_next (a : Activity K V Q R) : (Frame.next a).IsSpent ↔ a.IsSpent := Iff.rfl

@[simp]
theorem Activity.isSpent_keep (stage : Stage K V Q R) :
    (Activity.keep stage).IsSpent ↔ stage.IsSpent := Iff.rfl

@[simp]
theorem Activity.isSpent_settle (signal : Signal V) :
    (Activity.settle signal : Activity K V Q R).IsSpent := trivial

@[simp]
theorem Stage.isSpent_enforce (failed : Nat) : (Stage.enforce failed : Stage K V Q R).IsSpent :=
  trivial

@[simp]
theorem Stage.isSpent_missed : (Stage.missed : Stage K V Q R).IsSpent := trivial

@[simp]
theorem Stage.isSpent_handOut (h : Holder V) (thenEnforce : Bool) :
    (Stage.handOut h thenEnforce : Stage K V Q R).IsSpent := trivial

section Turns

variable [DecidableEq K] [DecidableEq V] {settings : Settings K V Q R} {s : Store K V}
  {stage : Stage K V Q R} {turn : StoreTurn K V Q R} {now : Instant} {interrupted : Bool}
  {draws : List K}

/-- A spent call stays spent. -/
theorem Stage.IsSpent.isSpent_turn (hstage : stage.IsSpent)
    (hturn : stage.turn settings s now interrupted draws = some turn) : turn.IsSpent := by
  cases Stage.sections hturn with
  | looks | visits | resumes | interrupts | maps | unwinds | composes | unwindsDraft |
      unwindsCopy => exact hstage.elim
  | tells => exact .inr rfl
  | _ => exact .inl ⟨trivial, by simp [Store.enforcing, Store.reporting]⟩

end Turns

/-! ## Looking at a key -/

/-- What comes of a visit that finds nothing stale. -/
inductive Store.Outcome [DecidableEq K] (s : Store K V) (operation : Operation K V Q R)
    (retries : Nat) (key : K) (turn : StoreTurn K V Q R) : Prop where
  | awaits {fault : Nat} :
      turn.state = s → turn.next = .keep (.await operation retries fault) → turn.frames = [] →
      Outcome s operation retries key turn
  /-- A collaborator panicked while the value was prepared. -/
  | panics {p : Panic} :
      turn.state = s → turn.next = .settle (.raised p) → turn.frames = [] →
      Outcome s operation retries key turn
  /-- The slot has a fault instead of what the computation takes the place of. -/
  | begins {c : Computation K V Q R} :
      c.key = key → c.fault = s.faults.size → s.map.get? key = c.previous.map Slot.holder →
      turn.state = (s.beginFault key).1 → turn.next = .keep (.own c) → turn.frames = [] →
      Outcome s operation retries key turn
  | spends :
      (∀ p, turn.next ≠ .settle (.raised p)) → turn.next.IsSpent →
      (∀ frame ∈ turn.frames, frame.IsSpent) → Outcome s operation retries key turn

namespace Store

variable [DecidableEq K] {s : Store K V} {operation : Operation K V Q R} {retries : Nat} {key : K}
  {now : Instant} {settings : Settings K V Q R} {turn : StoreTurn K V Q R}

variable [DecidableEq V]

/-- What a visit can come to, for every operation. -/
theorem outcome_finds (hfinds : operation.Finds settings s retries now turn)
    (hkey : operation.key? = some key) (hfresh : ∀ h, s.look key now ≠ .stale h) :
    s.Outcome operation retries key turn := by
  cases hfinds with
  | waits => exact .awaits rfl rfl rfl
  | balks => exact .panics rfl rfl rfl
  | begins hbegun _ hfree hsettled =>
    obtain rfl := Option.some.inj (hkey.symm.trans hbegun)
    exact .begins rfl rfl (get?_of_settled hfree hsettled) rfl rfl rfl
  | beginsStale hbegun _ hlook =>
    obtain rfl := Option.some.inj (hkey.symm.trans hbegun)
    exact absurd hlook (hfresh _)
  | _ => exact .spends (by simp [enforcing, reporting]) trivial (by simp [enforcing, reporting])

end Store

end SharedCache
