import SharedCache.Proofs.Turnover

/-!
# Acts

What a passage does about one key.  Of all that goes on only the computations of the key and the
operations that would wait for one of them concern the key, and what a passage does about them can
be told from its section, from the slot after it and from what it leaves its thread to do in the
end.
-/

namespace SharedCache

variable {K V Q R : Type}

/-- Whether an operation may write or empty the slot of its key without waiting for a
computation. -/
def Operation.intrudes : Operation K V Q R → Bool
  | .put .. | .remove _ | .removeIfEqual .. => true
  | _ => false

/-- What is done about a key. -/
inductive Act (K V Q R : Type) where
  /-- An operation that waits for computations is called. -/
  | called (operation : Operation K V Q R)
  /-- An operation finds a computation in progress and waits for it. -/
  | waited (operation : Operation K V Q R) (fault : Nat)
  /-- The computation that an operation waited for settles nothing for it, and it looks again. -/
  | again (operation : Operation K V Q R) (fault : Nat)
  /-- An operation decides at once, leaves this value and replies. -/
  | decided (operation : Operation K V Q R) (left : Option V) (reply : Reply V)
  /-- A collaborator panics before an operation has changed anything. -/
  | crashed (operation : Operation K V Q R) (panic : Panic)
  /-- An operation replies by the end of the computation that it waited for. -/
  | shared (operation : Operation K V Q R) (fault : Nat) (reply : Reply V)
  /-- An operation that waits fails because it was interrupted or its computations kept
  panicking. -/
  | gaveUp (operation : Operation K V Q R) (fault : Nat) (error : StoreError)
  /-- An operation begins a computation. -/
  | began (operation : Operation K V Q R) (fault : Nat)
  /-- The mapping function is called and shown this value. -/
  | mapped (fault : Nat) (current : Option V)
  /-- The mapping function ends. -/
  | returned (fault : Nat) (signal : Signal V)
  /-- A collaborator panics in the course of a computation. -/
  | unwound (fault : Nat) (panic : Panic)
  /-- The value that the function gave is ready to be stored and told. -/
  | composed (fault : Nat) (stored told : V)
  /-- A computation leaves this value, and its operation replies. -/
  | ended (fault : Nat) (left : Option V) (signal : Signal V)

/-- What the caller of an operation is going to be told according to an act. -/
def Act.reply? : Act K V Q R → Option (Reply V)
  | .decided _ _ reply | .shared _ _ reply => some reply
  | .crashed _ panic => some (.ends (.raised panic))
  | .gaveUp _ _ error => some (.ends (.done (.failed error)))
  | .ended _ _ signal => some (.ends signal)
  | _ => none

/-- The computation that something is a part of. -/
def Ongoing.computation? : Ongoing K V Q R → Option (Computation K V Q R × Progress V)
  | .computes c progress => some (c, progress)
  | _ => none

variable [DecidableEq K]

/-- Whether an operation is about a key and waits for its computations. -/
def Operation.concerns (key : K) (operation : Operation K V Q R) : Bool :=
  operation.waits && decide (operation.key? = some key)

/-- Whether something that is going on is about a key. -/
def Ongoing.concerns (key : K) : Ongoing K V Q R → Bool
  | .computes c _ => c.key = key
  | .awaits operation _ | .seeks operation => operation.concerns key

namespace Machine

/-- What is in the slot of a key. -/
def slot? (m : Machine K V Q R) (key : K) : Option (Slot V) := m.world.store.map.get? key

/-- The value that is in the slot of a key. -/
def content? (m : Machine K V Q R) (key : K) : Option V :=
  ((m.slot? key).bind Slot.holder?).map Holder.value

/-- What is going on about a key. -/
def concerning (m : Machine K V Q R) (key : K) : List (Ongoing K V Q R) :=
  m.ongoing.filter (Ongoing.concerns key)

/-- The computations of a key. -/
def computing (m : Machine K V Q R) (key : K) : List (Computation K V Q R × Progress V) :=
  (m.concerning key).filterMap Ongoing.computation?

theorem mem_ongoing {m : Machine K V Q R} {key : K} {front back : List (Ongoing K V Q R)}
    {o : Ongoing K V Q R} (hconcerning : m.concerning key = front ++ [o] ++ back) :
    o ∈ m.ongoing := by
  have hmem : o ∈ m.concerning key := by simp [hconcerning]
  exact (List.mem_filter.mp hmem).1

end Machine

namespace Passage

/-- The thread that moved is about to pass on a panic. -/
def isRaising (p : Passage K V Q R) : Bool :=
  match p.next? with
  | some (.settle (.raised _)) => true
  | _ => false

/-- The reply that the passage leads to. -/
def reply? (p : Passage K V Q R) : Option (Reply V) := p.upshot?.bind Activity.reply?

/-- What a visit does for its operation. -/
def visited? (key : K) (operation : Operation K V Q R) (p : Passage K V Q R) :
    Option (Act K V Q R) :=
  match p.upshot? with
  | some (.keep (.await _ _ fault)) => some (.waited operation fault)
  | some (.keep (.own c)) => some (.began operation c.fault)
  | some (.settle (.raised panic)) => some (.crashed operation panic)
  | _ => p.reply?.map fun reply => .decided operation (p.after.content? key) reply

/-- What the end of a wait does for its operation. -/
def resumed? (operation : Operation K V Q R) (fault : Nat) (p : Passage K V Q R) :
    Option (Act K V Q R) :=
  match p.upshot? with
  | some (.keep (.round ..)) => some (.again operation fault)
  | some (.settle (.done (.failed .interrupted))) => some (.gaveUp operation fault .interrupted)
  | some (.settle (.done (.failed (.abandoned n)))) =>
    some (.gaveUp operation fault (.abandoned n))
  | _ => p.reply?.map fun reply => .shared operation fault reply

/-- What a section of a computation does. -/
def carried? (key : K) (fault : Nat) (p : Passage K V Q R) : Option (Act K V Q R) :=
  match p.upshot? with
  | some (.keep (.restore _ _ (.raised panic))) => some (.unwound fault panic)
  | some (.keep (.install _ h told)) => some (.composed fault h.value told)
  | some (.settle signal) => some (.ended fault (p.after.content? key) signal)
  | _ => (mappings p.events).head?.map fun call => .mapped fault call.2.2

/-- What a section does about a key. -/
def sectionAct? (key : K) (p : Passage K V Q R) : Stage K V Q R → Option (Act K V Q R)
  | .visit operation _ _ => if operation.concerns key then p.visited? key operation else none
  | .await operation _ fault => if operation.concerns key then p.resumed? operation fault else none
  | .own c | .compose c _ | .install c _ _ | .vacate c _ _ | .restore c _ _ =>
    if c.key = key then p.carried? key c.fault else none
  | _ => none

/-- What a passage does about a key. -/
def act? (settings : Settings K V Q R) (key : K) (p : Passage K V Q R) : Option (Act K V Q R) :=
  match p.thread? with
  | some ⟨.code (.call operation _), _, _⟩ =>
    if (operation.stored settings).concerns key then some (.called (operation.stored settings))
    else none
  | some ⟨.settle signal, .computing c :: _, _⟩ =>
    if c.key = key then some (.returned c.fault signal) else none
  | some ⟨.keep stage, _, _⟩ => p.sectionAct? key stage
  | _ => none

/-- The passage changes the slot of a key in a way that does not wait for computations, or finds a
value there that has expired. -/
def Disturbs (key : K) (p : Passage K V Q R) : Prop :=
  match p.stage? with
  | some (.visit operation _ now) => operation.key? = some key ∧
      (operation.intrudes = true ∨ ∃ h, p.before.world.store.look key now = .stale h)
  | some (.sweep segment) => p.before.world.store.map.segmentOf key = segment
  | some (.expel other h) | some (.evict _ other h _) =>
    other = key ∧ p.before.world.store.holds key h = true
  | _ => False

/-- The passage overwrites or removes whatever is in the slot of a key, even a fault. -/
def Hits (key : K) (p : Passage K V Q R) : Prop :=
  match p.stage? with
  | some (.visit (.put other _) _ _) | some (.visit (.remove other) _ _) => other = key
  | some (.sweep segment) => p.before.world.store.map.segmentOf key = segment
  | _ => False

/-- A passage that is none of the sections that could disturb a key. -/
def isCalm (key : K) (p : Passage K V Q R) : Bool :=
  match p.stage? with
  | some (.visit operation _ now) => !operation.intrudes &&
      match p.before.world.store.look key now with
      | .stale _ => false
      | _ => true
  | some (.sweep _) | some (.expel ..) | some (.evict ..) => false
  | _ => true

theorem not_disturbs {key : K} {p : Passage K V Q R} (hcalm : p.isCalm key = true) :
    ¬ p.Disturbs key := by
  rw [isCalm] at hcalm
  rw [Disturbs]
  split at hcalm
  · obtain ⟨hintrudes, hlook⟩ := Bool.and_eq_true_iff.mp hcalm
    rintro ⟨-, hyes | ⟨h, hstale⟩⟩
    · simp [hyes] at hintrudes
    · simp [hstale] at hlook
  · cases hcalm
  · cases hcalm
  · cases hcalm
  · exact id

/-- To overwrite a fault is one way to disturb its key. -/
theorem Hits.disturbs {key : K} {p : Passage K V Q R} (hhits : p.Hits key) : p.Disturbs key := by
  rw [Hits] at hhits
  rw [Disturbs]
  split at hhits
  · rename_i hstage
    rw [hstage]
    exact ⟨congrArg some hhits, .inl rfl⟩
  · rename_i hstage
    rw [hstage]
    exact ⟨congrArg some hhits, .inl rfl⟩
  · rename_i hstage
    rw [hstage]
    exact hhits
  · exact hhits.elim

end Passage

/-! ## Slots and looks -/

namespace Store

variable {s : Store K V} {key : K} {now : Instant}

theorem get?_of_pending {fault : Nat} (hlook : s.look key now = .pending fault) :
    s.map.get? key = some (.fault fault) := by
  rw [look] at hlook
  split at hlook
  · cases hlook
  · rename_i hslot
    rw [hslot, Look.pending.inj hlook]
  · split at hlook <;> cases hlook

theorem look_of_fault {fault : Nat} (hslot : s.map.get? key = some (.fault fault)) :
    s.look key now = .pending fault := by
  rw [look, hslot]

theorem pendingIn_iff {fault : Nat} :
    s.pendingIn key fault = true ↔ s.map.get? key = some (.fault fault) := by
  rw [pendingIn]
  cases s.map.get? key with
  | none => simp
  | some slot => cases slot <;> simp [Slot.isFault]

/-- A look that finds nothing stale finds what is in the slot. -/
theorem live?_of_not_stale (hstale : ∀ h, s.look key now ≠ .stale h) :
    (s.look key now).live? = (s.map.get? key).bind Slot.holder? := by
  rw [look]
  split
  · rename_i hslot
    rw [hslot]
    rfl
  · rename_i hslot
    rw [hslot]
    rfl
  · rename_i h hslot
    rw [hslot]
    split
    · rename_i hexpired
      refine absurd ?_ (hstale h)
      rw [look, hslot]
      exact if_pos hexpired
    · rfl

end Store

/-- A slot that is left with a holder or without one. -/
theorem EntryMap.Valid.get?_leave {m : EntryMap K V} (hm : m.Valid) (key : K)
    (left : Option (Holder V)) (other : K) :
    (m.leave key left).get? other = if other = key then left.map Slot.holder else m.get? other := by
  cases left with
  | none => exact hm.get?_erase key other
  | some h => exact hm.get?_insert key (.holder h) other

namespace Operation

variable [DecidableEq V] {operation : Operation K V Q R} {found : Option V}

omit [DecidableEq K] [DecidableEq V] in
theorem waits_of_computes (hcomputes : operation.computes found = true) :
    operation.waits = true := by
  cases operation <;> simp_all [computes, waits]

omit [DecidableEq K] in
theorem intrudes_of_takes (htakes : operation.takes found = true) :
    operation.intrudes = true ∧ operation.waits = false := by
  cases operation <;> simp_all [takes, waits, intrudes]

omit [DecidableEq K] in
theorem intrudes_of_gives {value : V} (hgives : operation.gives found = some value)
    (hwaits : operation.waits = false) : operation.intrudes = true := by
  cases operation <;> simp_all [gives, waits, intrudes]

omit [DecidableEq V] in
theorem concerns_eq_true {key : K} :
    operation.concerns key = true ↔ operation.waits = true ∧ operation.key? = some key := by
  simp [concerns]

end Operation

end SharedCache
