import SharedCache.Proofs.Ongoing

/-!
# Replies

What the caller of an operation is going to be told.  It is settled in one section, after which the
call may still have to report a removal, to enforce the capacity or to copy a value, but looks at
its key no more.  `Operation.tells` says what an operation tells that finds a value in the slot of
its key, and `Operation.heeds` what it tells after a computation that it has waited for.
-/

namespace SharedCache

variable {K V Q R : Type}

/-- What a call is going to come to, unless a collaborator panics. -/
inductive Reply (V : Type) where
  /-- It ends like this. -/
  | ends (signal : Signal V)
  /-- It answers a copy of this value. -/
  | copies (value : V)
  deriving DecidableEq

/-- The reply that says that there is no value. -/
def Reply.nothing : Reply V := .ends (.done (.value none))

/-- The reply that an activity of a call leads to, once it is settled. -/
def Activity.reply? : Activity K V Q R → Option (Reply V)
  | .settle signal => some (.ends signal)
  | .keep (.receive _ h) | .keep (.consult _ h _ _) | .keep (.refresh h _ _)
  | .keep (.handOut h _) => some (.copies h.value)
  | .keep .missed | .keep (.expel ..) => some .nothing
  | _ => none

/-- What is left to do of a stretch of work in the end: what it has put off until last, or what it
does next if it has put off nothing. -/
def upshot? (next : Activity K V Q R) (frames : List (Frame K V Q R)) :
    Option (Activity K V Q R) :=
  match frames.getLast? with
  | none => some next
  | some (.next a) => some a
  | some _ => none

/-- What a turn leaves to do in the end. -/
def Turn.upshot? {σ : Type} (t : Turn σ K V Q R) : Option (Activity K V Q R) :=
  SharedCache.upshot? t.next t.frames

namespace Turn

variable {σ : Type} (s : σ) (a : Activity K V Q R) (t : Turn σ K V Q R) (answer : Answer V)
  (p : Panic) (events : List (Event K V))

@[simp]
theorem upshot?_goTo : (goTo s a).upshot? = some a := rfl

@[simp]
theorem upshot?_answer :
    (Turn.answer s answer : Turn σ K V Q R).upshot? = some (.settle (.done answer)) := rfl

@[simp]
theorem upshot?_panic :
    (Turn.panic s p : Turn σ K V Q R).upshot? = some (.settle (.raised p)) := rfl

@[simp]
theorem upshot?_after : (t.after events).upshot? = t.upshot? := rfl

@[simp]
theorem upshot?_andThen : (t.andThen a).upshot? = some a := by
  simp [upshot?, SharedCache.upshot?, andThen]

variable {t} in
theorem upshot?_of_frames (hframes : t.frames = []) : t.upshot? = some t.next := by
  rw [upshot?, hframes]
  rfl

end Turn

/-! ## What operations tell -/

/-- What the end of a computation tells those who have waited for it. -/
inductive Verdict (V : Type) where
  | gave (value : V)
  | nothing
  | failed (error : ErrorObject)
  /-- The key has again the value that it had. -/
  | restored
  /-- The computation panicked. -/
  | abandoned
  deriving DecidableEq

/-- What a resolution tells. -/
def Resolution.verdict : Resolution V → Verdict V
  | .ready h => .gave h.value
  | .absent => .nothing
  | .failed error => .failed error
  | .restored => .restored
  | .retry => .abandoned

namespace Operation

/-- What an operation tells that finds this live value and computes nothing. -/
def tells [DecidableEq V] (found : Option V) : Operation K V Q R → Reply V
  | .get _ | .putIfAbsent .. | .replace .. | .computeIfAbsent .. => found.elim .nothing .copies
  | .replaceIfEqual _ expected _ => .ends (.done (.flag (found = some expected)))
  | _ => .nothing

/-- What an operation tells after a computation that it has waited for.  There is no such thing
where it looks at its key again. -/
def heeds : Verdict V → Operation K V Q R → Option (Reply V)
  | .gave value, .get _ | .gave value, .putIfAbsent .. | .gave value, .computeIfAbsent .. =>
    some (.copies value)
  | .nothing, .get _ | .nothing, .computeIfAbsent .. | .failed _, .get _ => some .nothing
  | .failed error, .computeIfAbsent .. => some (.ends (.done (.failed (.computation error))))
  | _, _ => none

end Operation

end SharedCache
