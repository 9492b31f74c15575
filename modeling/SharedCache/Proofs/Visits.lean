import SharedCache.Proofs.Replies

/-!
# Visits

The section in which an operation looks at its key's slot.  What the operation does there depends
only on the live value that it finds: `Operation.gives`, `Operation.takes` and `Operation.computes`
say what it is meant to do, and `Store.visit_spec` that the section does it.
-/

namespace SharedCache

variable {K V Q R : Type}

/-! ## Consultations and drafts -/

theorem Consultation.result_bind_of_ok {α β : Type} {c : Consultation K V α} {a : α}
    (hc : c.result = .ok a) (next : α → Consultation K V β) :
    (c >>= next).result = (next a).result := by
  change (c.andThen next).result = (next a).result
  rw [Consultation.andThen]
  rw [hc]

/-- A consultation that goes on with an answer has one only if both parts have. -/
theorem Consultation.result_bind {α β : Type} {c : Consultation K V α}
    {next : α → Consultation K V β} {b : β} (hresult : (c >>= next).result = .ok b) :
    ∃ a, c.result = .ok a ∧ (next a).result = .ok b := by
  change (c.andThen next).result = .ok b at hresult
  rw [Consultation.andThen] at hresult
  cases hc : c.result with
  | ok a => exact ⟨a, rfl, by simpa [hc] using hresult⟩
  | error panic => simp [hc] at hresult

namespace Settings

variable (s : Settings K V Q R)

/-- The weigher, the expiry and the copiers never panic. -/
structure Steady : Prop where
  weigher : ∀ weigher, s.weigher = some weigher → ∀ key value, ∃ raw, weigher key value = .ok raw
  onCreate : ∀ e, s.expiry = some e → ∀ key value now, ∃ lifetime,
    e.onCreate key value now = .ok lifetime
  onRead : ∀ e, s.expiry = some e → ∀ key value now left writtenAt, ∃ lifetime,
    e.onRead key value now left writtenAt = .ok lifetime
  onUpdate : ∀ e, s.expiry = some e → ∀ key value now left, ∃ lifetime,
    e.onUpdate key value now left = .ok lifetime
  copyIn : ∀ value, ∃ copy, s.copyIn value = .ok copy
  copyOut : ∀ value, ∃ copy, s.copyOut value = .ok copy

/-- The weight of a stored value: what the weigher gives but at least one, and one without a
weigher. -/
def Weighs (key : K) (value : V) (weight : Nat) : Prop :=
  match s.weigher with
  | none => weight = 1
  | some weigher => ∃ raw, weigher key value = .ok raw ∧ weight = max 1 raw

variable {s}

theorem weigh_eq_ok {key : K} {value : V} {weight : Nat}
    (hresult : (s.weigh key value).result = .ok weight) : s.Weighs key value weight := by
  rw [weigh] at hresult
  rw [Weighs]
  cases hweigher : s.weigher with
  | none => simpa [hweigher, Consultation.answer, eq_comm] using hresult
  | some weigher =>
    cases hraw : weigher key value with
    | error panic => simp [hweigher, hraw, Consultation.call] at hresult
    | ok raw =>
      have hweight : max raw 1 = weight := by
        simpa [hweigher, hraw, Consultation.call] using hresult
      exact ⟨raw, hraw, by rw [← hweight, Nat.max_comm]⟩

theorem Steady.weigh (hs : s.Steady) (key : K) (value : V) :
    ∃ weight, (s.weigh key value).result = .ok weight := by
  rw [Settings.weigh]
  cases hweigher : s.weigher with
  | none => exact ⟨1, rfl⟩
  | some weigher =>
    obtain ⟨raw, hraw⟩ := hs.weigher weigher hweigher key value
    exact ⟨max raw 1, by simp [hraw, Consultation.call]⟩

theorem Steady.lifetimeOfWrite (hs : s.Steady) (key : K) (value : V) (now : Instant)
    (previous : Option (Option Duration)) :
    ∃ lifetime, (s.lifetimeOfWrite key value now previous).result = .ok lifetime := by
  cases hexpiry : s.expiry with
  | none => exact ⟨none, by simp [Settings.lifetimeOfWrite, hexpiry, Consultation.answer]⟩
  | some e =>
    cases previous with
    | none =>
      simpa [Settings.lifetimeOfWrite, hexpiry, Consultation.call] using
        hs.onCreate e hexpiry key value now
    | some left =>
      simpa [Settings.lifetimeOfWrite, hexpiry, Consultation.call] using
        hs.onUpdate e hexpiry key value now left

/-- Steady collaborators prepare every value. -/
theorem Steady.draft (hs : s.Steady) (key : K) (value : V) (now : Instant)
    (previous : Option (Option Duration)) :
    ∃ d, (s.draft key value now previous).result = .ok d := by
  obtain ⟨stored, hstored⟩ := hs.copyIn value
  obtain ⟨lifetime, hlifetime⟩ := hs.lifetimeOfWrite key stored now previous
  obtain ⟨weight, hweight⟩ := hs.weigh key stored
  have htake : (s.takeIn value).result = .ok stored := hstored
  refine ⟨⟨stored, now, lifetime.map now.saturatingAdd, weight⟩, ?_⟩
  rw [Settings.draft, Consultation.result_bind_of_ok htake,
    Consultation.result_bind_of_ok hlifetime, Consultation.result_bind_of_ok hweight]
  rfl

/-- Steady collaborators let every value be read. -/
theorem Steady.deadlineOfRead (hs : s.Steady) (key : K) (value : V) (now : Instant)
    (left : Option Duration) (writtenAt : Instant) :
    ∃ deadline, (s.deadlineOfRead key value now left writtenAt).result = .ok deadline := by
  rw [Settings.deadlineOfRead]
  cases hexpiry : s.expiry with
  | none => exact ⟨none, rfl⟩
  | some e =>
    obtain ⟨lifetime, hlifetime⟩ := hs.onRead e hexpiry key value now left writtenAt
    have hcall : (Consultation.call (.askedOnRead key value now left writtenAt)
        (e.onRead key value now left writtenAt)).result = .ok lifetime := hlifetime
    exact ⟨some (lifetime.map now.saturatingAdd), Consultation.result_bind_of_ok hcall _⟩

variable (s) in
/-- A value cannot be written under a key: preparing it panics at some time. -/
def BalksAtWriting (key : K) (value : V) (p : Panic) : Prop :=
  ∃ now left, (s.draft key value now left).result = .error p

/-- A draft holds the copy that the store keeps and the weight of that copy. -/
theorem draft_eq_ok {key : K} {value : V} {now : Instant} {previous : Option (Option Duration)}
    {d : Draft V} (hresult : (s.draft key value now previous).result = .ok d) :
    s.copyIn value = .ok d.value ∧ s.Weighs key d.value d.weight := by
  obtain ⟨stored, hstored, hrest⟩ := Consultation.result_bind hresult
  obtain ⟨lifetime, -, hrest⟩ := Consultation.result_bind hrest
  obtain ⟨weight, hweight, hdraft⟩ := Consultation.result_bind hrest
  obtain rfl := Except.ok.inj hdraft
  exact ⟨hstored, weigh_eq_ok hweight⟩

end Settings

/-! ## What an operation is meant to do -/

/-- The live holder that a look finds. -/
def Look.live? : Look V → Option (Holder V)
  | .live h => some h
  | _ => none

namespace Operation

/-- The key of an operation. -/
def key? : Operation K V Q R → Option K
  | .get key | .contains key | .put key _ | .putIfAbsent key _ | .replace key _
  | .replaceIfEqual key _ _ | .remove key | .removeIfEqual key _ | .computeIfAbsent key _
  | .compute key _ | .computeIfPresent key _ => some key
  | .clear => none

/-- Whether an operation waits where it finds a computation of its key. -/
def waits : Operation K V Q R → Bool
  | .get _ | .putIfAbsent .. | .replace .. | .replaceIfEqual .. | .computeIfAbsent .. | .compute ..
  | .computeIfPresent .. => true
  | _ => false

/-- What an operation takes its key to have, if the computation that it waited for settles that for
it. -/
def shares : Resolution V → Operation K V Q R → Option (Option V)
  | .ready h, .get _ | .ready h, .putIfAbsent .. | .ready h, .computeIfAbsent .. =>
    some (some h.value)
  | .absent, .get _ | .absent, .computeIfAbsent .. => some none
  | .failed _, .get _ | .failed _, .computeIfAbsent .. => some none
  | _, _ => none

/-- Whether an operation may answer a value that another call has written. -/
def reads : Operation K V Q R → Bool
  | .get _ | .putIfAbsent .. | .computeIfAbsent .. => true
  | _ => false

/-- The value that an operation writes at once where it finds this live value. -/
def gives [DecidableEq V] (found : Option V) : Operation K V Q R → Option V
  | .put _ value => some value
  | .putIfAbsent _ value => if found.isNone then some value else none
  | .replace _ value => if found.isSome then some value else none
  | .replaceIfEqual _ expected value => if found = some expected then some value else none
  | _ => none

/-- Whether an operation empties the slot where it finds this live value. -/
def takes [DecidableEq V] (found : Option V) : Operation K V Q R → Bool
  | .remove _ => true
  | .removeIfEqual _ expected => found = some expected
  | _ => false

/-- Whether an operation begins a computation where it finds this live value. -/
def computes (found : Option V) : Operation K V Q R → Bool
  | .computeIfAbsent .. => found.isNone
  | .compute .. => true
  | .computeIfPresent .. => found.isSome
  | _ => false

/-- What an operation answers that leaves everything as it is. -/
def declined : Operation K V Q R → Option (Answer V)
  | .replace .. | .remove _ | .computeIfPresent .. => some (.value none)
  | .replaceIfEqual .. | .removeIfEqual .. => some (.flag false)
  | _ => none

/-- An operation that writes nothing tells by its answer what it has found. -/
theorem tells_of_declined [DecidableEq V] {operation : Operation K V Q R} {found : Option V}
    {answer : Answer V} (hwaits : operation.waits = true)
    (hdeclined : operation.declined = some answer) (hgives : operation.gives found = none) :
    operation.tells found = .ends (.done answer) := by
  cases operation with
  | replace =>
    obtain rfl := Option.some.inj hdeclined
    cases found with
    | none => rfl
    | some value => cases hgives
  | replaceIfEqual key expected value =>
    obtain rfl := Option.some.inj hdeclined
    have hother : ¬ found = some expected := fun hsame => by simp [gives, hsame] at hgives
    simp [tells, hother]
  | computeIfPresent => exact Option.some.inj hdeclined ▸ rfl
  | remove | removeIfEqual => cases hwaits
  | _ => cases hdeclined

/-- No operation is told of a panic by what it finds. -/
theorem tells_ne_raised [DecidableEq V] (operation : Operation K V Q R) (found : Option V)
    (panic : Panic) : operation.tells found ≠ .ends (.raised panic) := by
  cases operation <;> cases found <;> simp [tells, Reply.nothing]

/-- An operation looks at its key again just when the end of the computation settles nothing for
it. -/
theorem heeds_eq_none {operation : Operation K V Q R} {resolution : Resolution V} :
    operation.heeds resolution.verdict = none ↔ operation.shares resolution = none := by
  cases resolution <;> cases operation <;> simp [heeds, shares, Resolution.verdict]

/-- The mapping function of an operation. -/
def code : Operation K V Q R → K → Option V → Script K V Q R
  | .computeIfAbsent _ mapping => fun key _ => mapping key
  | .compute _ remapping => remapping
  | .computeIfPresent _ remapping => fun key current =>
    match current with
    | none => .finish (.value none)
    | some value => remapping key value
  | _ => fun _ _ => .finish .unit

/-- Whether the operation asks for a value and computes it only where there is none. -/
def isRequest : Operation K V Q R → Bool
  | .computeIfAbsent .. => true
  | _ => false

/-- The computation that an operation begins. -/
def computation (operation : Operation K V Q R) (key : K) (fault : Nat)
    (previous : Option (Holder V)) : Computation K V Q R :=
  ⟨key, fault, previous, operation.isRequest, operation.code⟩

end Operation

/-! ## What a wait comes to -/

/-- What an operation does next when the computation that it waited for has ended. -/
inductive Operation.Resumes (retries : Nat) :
    Operation K V Q R → Resolution V → Activity K V Q R → Prop where
  /-- A computation that panicked uses up patience. -/
  | tries {operation : Operation K V Q R} :
      retries + 1 < maxAbandoned →
      Resumes retries operation .retry (.keep (.round operation (retries + 1)))
  | abandons {operation : Operation K V Q R} :
      maxAbandoned ≤ retries + 1 →
      Resumes retries operation .retry (.settle (.done (.failed (.abandoned (retries + 1)))))
  /-- The end of the computation settles nothing for the operation. -/
  | again {operation : Operation K V Q R} {resolution : Resolution V} :
      resolution ≠ .retry → operation.shares resolution = none →
      Resumes retries operation resolution (.keep (.round operation retries))
  | receives {operation : Operation K V Q R} {key : K} {h : Holder V} :
      operation.key? = some key → operation.shares (.ready h) = some (some h.value) →
      Resumes retries operation (.ready h) (.keep (.receive key h))
  | misses {operation : Operation K V Q R} :
      operation.shares .absent = some none → Resumes retries operation .absent (.keep .missed)
  | missesFailed {key : K} {error : ErrorObject} :
      Resumes retries (.get key) (.failed error) (.keep .missed)
  | fails {key : K} {mapping : K → Script K V Q R} {error : ErrorObject} :
      Resumes retries (.computeIfAbsent key mapping) (.failed error)
        (.settle (.done (.failed (.computation error))))

/-- A wait that is over leaves the store alone. -/
theorem Store.resume_eq (s : Store K V) (operation : Operation K V Q R) (retries : Nat)
    (resolution : Resolution V) :
    ∃ a, s.resume operation retries resolution = .goTo s a ∧
      operation.Resumes retries resolution a := by
  cases resolution with
  | retry =>
    change ∃ a, s.abandoned operation retries = .goTo s a ∧ _
    rw [abandoned]
    split
    · exact ⟨_, rfl, .tries ‹_›⟩
    · exact ⟨_, rfl, .abandons (Nat.le_of_not_lt ‹_›)⟩
  | restored => exact ⟨_, rfl, .again (by simp) (by cases operation <;> rfl)⟩
  | ready h =>
    cases operation with
    | get | putIfAbsent | computeIfAbsent => exact ⟨_, rfl, .receives rfl rfl⟩
    | _ => exact ⟨_, rfl, .again (by simp) rfl⟩
  | absent =>
    cases operation with
    | get | computeIfAbsent => exact ⟨_, rfl, .misses rfl⟩
    | _ => exact ⟨_, rfl, .again (by simp) rfl⟩
  | failed error =>
    cases operation with
    | get => exact ⟨_, rfl, .missesFailed⟩
    | computeIfAbsent => exact ⟨_, rfl, .fails⟩
    | _ => exact ⟨_, rfl, .again (by simp) rfl⟩

theorem Operation.shares_retry (operation : Operation K V Q R) :
    operation.shares .retry = none := by
  cases operation <;> rfl

/-! ## What a visit does -/

/-- The turn changes neither a slot nor a fault, and engages its thread in nothing. -/
structure Turn.Still (s : Store K V) (turn : StoreTurn K V Q R) : Prop where
  map : turn.state.map = s.map
  faults : turn.state.faults = s.faults
  ongoing : turn.ongoing = []

/-- The turn changes neither a slot nor a fault. -/
structure Turn.Spares (s : Store K V) (turn : StoreTurn K V Q R) : Prop where
  map : turn.state.map = s.map
  faults : turn.state.faults = s.faults

/-- The turn leads to what its operation tells that finds this live value, if it is one of those
that wait for computations. -/
def Turn.Replies [DecidableEq V] (operation : Operation K V Q R) (found : Option V)
    (turn : StoreTurn K V Q R) : Prop :=
  operation.waits = true → turn.upshot?.bind Activity.reply? = some (operation.tells found)

/-- The turn sees to it that the capacity is enforced before its operation ends. -/
structure Turn.Enforces (turn : StoreTurn K V Q R) : Prop where
  next : ∃ stage, turn.next = .keep stage
  owes : turn.next = .keep (.enforce 0) ∨ .next (.keep (.enforce 0)) ∈ turn.frames

namespace Store

variable [DecidableEq K]

/-- What is live lies in the slot. -/
theorem get?_of_live {s : Store K V} {key : K} {now : Instant} {h : Holder V}
    (hlive : (s.look key now).live? = some h) : s.map.get? key = some (.holder h) := by
  rw [look] at hlive
  split at hlive
  · cases hlive
  · cases hlive
  · rename_i found hslot
    split at hlive
    · cases hlive
    · rw [hslot, Option.some.inj hlive]

theorem get?_of_absent {s : Store K V} {key : K} {now : Instant}
    (hlook : s.look key now = .absent) : s.map.get? key = none := by
  rw [look] at hlook
  split at hlook
  · assumption
  · cases hlook
  · split at hlook <;> cases hlook

theorem get?_of_stale {s : Store K V} {key : K} {now : Instant} {h : Holder V}
    (hlook : s.look key now = .stale h) : s.map.get? key = some (.holder h) := by
  rw [look] at hlook
  split at hlook
  · cases hlook
  · cases hlook
  · rename_i found hslot
    split at hlook
    · rw [hslot, Look.stale.inj hlook]
    · cases hlook

/-- What is in a slot that holds neither a fault nor a stale value. -/
theorem get?_of_settled {s : Store K V} {key : K} {now : Instant}
    (hfree : ∀ fault, s.look key now ≠ .pending fault) (hfresh : ∀ h, s.look key now ≠ .stale h) :
    s.map.get? key = (s.look key now).live?.map .holder := by
  cases hlook : s.look key now with
  | absent => exact get?_of_absent hlook
  | live h => exact get?_of_live (congrArg Look.live? hlook)
  | pending fault => exact absurd hlook (hfree fault)
  | stale h => exact absurd hlook (hfresh h)

variable [DecidableEq V]

/-- No computation of the key is in the way of the operation. -/
def Admits (s : Store K V) (key : K) (now : Instant) (operation : Operation K V Q R) : Prop :=
  operation.waits = true → ∀ fault, s.look key now ≠ .pending fault

end Store

variable [DecidableEq K] [DecidableEq V]

/-- The consultation about a value that an operation is to write into the slot of its key. -/
def Store.drafting (settings : Settings K V Q R) (s : Store K V) (key : K) (value : V)
    (now : Instant) : Consultation K V (Draft V) :=
  settings.draft key value now ((s.look key now).live?.map fun h => s.timeLeft h now)

/-- The store with a new holder in the slot of a key. -/
def Store.written (s : Store K V) (key : K) (d : Draft V) : Store K V :=
  (s.newHolder d).1.fill key (s.newHolder d).2

/-- What an operation does with what it finds in the slot of its key. -/
inductive Operation.Finds (settings : Settings K V Q R) (s : Store K V) (retries : Nat)
    (now : Instant) : Operation K V Q R → StoreTurn K V Q R → Prop where
  | waits {operation : Operation K V Q R} {key : K} {fault : Nat} :
      operation.key? = some key → operation.waits = true → s.look key now = .pending fault →
      Finds settings s retries now operation (.goTo s (.keep (.await operation retries fault)))
  | reads {operation : Operation K V Q R} {key : K} {h : Holder V} :
      operation.key? = some key → operation.reads = true → s.look key now = .live h →
      Finds settings s retries now operation
        (.goTo s (.keep (.consult key h now operation.isRequest)))
  | misses {key : K} :
      s.look key now = .absent →
      Finds settings s retries now (.get key) (.goTo s (.keep .missed))
  | expels {key : K} {h : Holder V} :
      s.look key now = .stale h →
      Finds settings s retries now (.get key) (.goTo s (.keep (.expel key h)))
  | tells {key : K} :
      Finds settings s retries now (.contains key) (.answer s (.flag (s.visible key now)))
  | clears : Finds settings s retries now .clear (.goTo s (.keep (.sweep 0)))
  /-- It is not meant to do anything. -/
  | declines {operation : Operation K V Q R} {key : K} {answer : Answer V} :
      operation.key? = some key → operation.declined = some answer → s.Admits key now operation →
      operation.gives ((s.look key now).live?.map Holder.value) = none →
      (operation.takes ((s.look key now).live?.map Holder.value) = true → s.map.get? key = none) →
      operation.computes ((s.look key now).live?.map Holder.value) = false →
      Finds settings s retries now operation (.answer s answer)
  /-- Neither is it here, but the value has expired. -/
  | drops {operation : Operation K V Q R} {key : K} {h : Holder V} {answer : Answer V} :
      operation.key? = some key → operation.declined = some answer → operation.waits = true →
      s.look key now = .stale h →
      Finds settings s retries now operation
        (((s.erase key).reporting key h .expired).andThen (.settle (.done answer)))
  /-- A collaborator panics while the value is prepared. -/
  | balks {operation : Operation K V Q R} {key : K} {value : V} {p : Panic} :
      operation.key? = some key → s.Admits key now operation →
      operation.gives ((s.look key now).live?.map Holder.value) = some value →
      (s.drafting settings key value now).result = .error p →
      Finds settings s retries now operation
        ((Turn.panic s p).after (s.drafting settings key value now).events)
  | puts {key : K} {value : V} {d : Draft V} :
      (∀ h, s.map.get? key ≠ some (.holder h)) →
      (s.drafting settings key value now).result = .ok d →
      Finds settings s retries now (.put key value)
        (((s.written key d).enforcing .unit).after (s.drafting settings key value now).events)
  | overwrites {key : K} {value : V} {h : Holder V} {d : Draft V} :
      s.map.get? key = some (.holder h) → (s.drafting settings key value now).result = .ok d →
      Finds settings s retries now (.put key value)
        ((((Turn.goTo (s.written key d) (.keep (.judge key h now))).andThen
          (.keep (.enforce 0))).andThen (.settle (.done .unit))).after
            (s.drafting settings key value now).events)
  | putsAbsent {key : K} {value : V} {d : Draft V} :
      s.look key now = .absent → (s.drafting settings key value now).result = .ok d →
      Finds settings s retries now (.putIfAbsent key value)
        (((s.written key d).enforcing (.value none)).after
          (s.drafting settings key value now).events)
  | putsStale {key : K} {value : V} {h : Holder V} {d : Draft V} :
      s.look key now = .stale h → (s.drafting settings key value now).result = .ok d →
      Finds settings s retries now (.putIfAbsent key value)
        ((((Turn.goTo (s.written key d) (.keep (.judge key h now))).andThen
          (.keep (.enforce 0))).andThen (.settle (.done (.value none)))).after
            (s.drafting settings key value now).events)
  | replaces {key : K} {value : V} {h : Holder V} {d : Draft V} :
      s.look key now = .live h → (s.drafting settings key value now).result = .ok d →
      Finds settings s retries now (.replace key value)
        (((((s.written key d).reporting key h .replaced).andThen (.keep (.enforce 0))).andThen
          (.keep (.handOut h false))).after (s.drafting settings key value now).events)
  | replacesEqual {key : K} {value : V} {h : Holder V} {d : Draft V} :
      s.look key now = .live h → (s.drafting settings key value now).result = .ok d →
      Finds settings s retries now (.replaceIfEqual key h.value value)
        (((((s.written key d).reporting key h .replaced).andThen (.keep (.enforce 0))).andThen
          (.settle (.done (.flag true)))).after (s.drafting settings key value now).events)
  | removes {key : K} {h : Holder V} :
      s.map.get? key = some (.holder h) →
      Finds settings s retries now (.remove key)
        (.goTo (s.erase key) (.keep (.dismiss key h now)))
  | removesFault {key : K} {fault : Nat} :
      s.map.get? key = some (.fault fault) →
      Finds settings s retries now (.remove key) (.answer (s.erase key) (.value none))
  | removesEqual {key : K} {h : Holder V} :
      s.look key now = .live h →
      Finds settings s retries now (.removeIfEqual key h.value)
        (((s.erase key).reporting key h .explicit).andThen (.settle (.done (.flag true))))
  | begins {operation : Operation K V Q R} {key : K} :
      operation.key? = some key →
      operation.computes ((s.look key now).live?.map Holder.value) = true →
      (∀ fault, s.look key now ≠ .pending fault) → (∀ h, s.look key now ≠ .stale h) →
      Finds settings s retries now operation
        (.goTo (s.beginFault key).1
          (.keep (.own (operation.computation key s.faults.size (s.look key now).live?))))
  /-- The value has expired.  Its report comes before the call of the function. -/
  | beginsStale {operation : Operation K V Q R} {key : K} {h : Holder V} {s' : Store K V} :
      operation.key? = some key → operation.computes none = true → s.look key now = .stale h →
      s' = s ∨ s' = s.erase key →
      Finds settings s retries now operation
        (((s'.beginFault key).1.reporting key h .expired).andThen
          (.keep (.own (operation.computation key s.faults.size none))))

namespace Store

variable {settings : Settings K V Q R} {s : Store K V} {now : Instant}
  {operation : Operation K V Q R} {key : K} {retries : Nat}

omit [DecidableEq V] in
theorem admits_of_look {look : Look V} (hlook : s.look key now = look)
    (hfree : ∀ fault, look ≠ .pending fault) : s.Admits key now operation := by
  intro _ fault
  rw [hlook]
  exact hfree fault

omit [DecidableEq V] in
/-- Nothing is in the way of an operation that never waits. -/
theorem admits_of_not_waits (hwaits : operation.waits = false) :
    s.Admits key now operation := by
  intro hyes
  rw [hwaits] at hyes
  cases hyes

/-- A write goes on with the new holder in its slot, or panics. -/
theorem finds_write {value : V} {previous : Option (Holder V)}
    {next : Store K V → StoreTurn K V Q R} (hprevious : (s.look key now).live? = previous)
    (hkey : operation.key? = some key) (hadmits : s.Admits key now operation)
    (hgives : operation.gives (previous.map Holder.value) = some value)
    (hnext : ∀ d, (s.drafting settings key value now).result = .ok d →
      operation.Finds settings s retries now
        ((next (s.written key d)).after (s.drafting settings key value now).events)) :
    operation.Finds settings s retries now
      (s.write settings key value now previous next) := by
  subst hprevious
  change operation.Finds settings s retries now
    (.consulting (s.drafting settings key value now) (fun p => .panic s p)
      fun d => next (s.written key d))
  rw [Turn.consulting]
  split
  · exact hnext _ ‹_›
  · exact .balks hkey hadmits hgives ‹_›

theorem finds_put (value : V) : (Operation.put key value).Finds settings s retries now
    (s.visitPut settings key value now) := by
  rw [visitPut]
  refine finds_write rfl rfl (admits_of_not_waits rfl) rfl fun d hd => ?_
  cases hslot : s.map.get? key with
  | none => exact .puts (by simp [hslot]) hd
  | some slot =>
    cases slot with
    | fault fault => exact .puts (by simp [hslot]) hd
    | holder h => exact .overwrites hslot hd

theorem finds_putIfAbsent (value : V) : (Operation.putIfAbsent key value).Finds settings s retries
    now (s.visitPutIfAbsent settings key value retries now) := by
  rw [visitPutIfAbsent]
  split <;> rename_i hlook
  · exact .reads rfl rfl hlook
  · exact .waits rfl rfl hlook
  · exact finds_write (congrArg Look.live? hlook) rfl (admits_of_look hlook (by simp)) rfl
      fun d hd => .putsAbsent hlook hd
  · exact finds_write (congrArg Look.live? hlook) rfl (admits_of_look hlook (by simp)) rfl
      fun d hd => .putsStale hlook hd

/-- Both replacing operations. -/
theorem finds_replace {value : V} {accepts : V → Bool} {kept : Answer V}
    {replaced : Holder V → Activity K V Q R} (hkey : operation.key? = some key)
    (hdeclined : operation.declined = some kept) (hwaits : operation.waits = true)
    (hnone : operation.gives none = none)
    (hsome : ∀ v, operation.gives (some v) = if accepts v then some value else none)
    (hothers : ∀ found, operation.takes found = false ∧ operation.computes found = false)
    (hreplaced : ∀ h d, s.look key now = .live h → accepts h.value = true →
      (s.drafting settings key value now).result = .ok d →
      operation.Finds settings s retries now
        (((((s.written key d).reporting key h .replaced).andThen (.keep (.enforce 0))).andThen
          (replaced h)).after (s.drafting settings key value now).events)) :
    operation.Finds settings s retries now
      (s.visitReplace settings operation key value retries now accepts kept replaced) := by
  rw [visitReplace]
  split <;> rename_i hlook
  · exact .declines hkey hdeclined (admits_of_look hlook (by simp))
      (by simpa [hlook, Look.live?] using hnone) (by simp [hothers]) (hothers _).2
  · exact .waits hkey hwaits hlook
  · exact .drops hkey hdeclined hwaits hlook
  · rename_i h
    have hadmits : s.Admits key now operation := admits_of_look hlook (by simp)
    have hgives : operation.gives (some h.value) = if accepts h.value then some value else none :=
      hsome h.value
    split <;> rename_i haccepts
    · exact finds_write (congrArg Look.live? hlook) hkey hadmits (by simpa [haccepts] using hgives)
        fun d hd => hreplaced h d hlook haccepts hd
    · refine .declines hkey hdeclined hadmits ?_ (by simp [hothers]) (hothers _).2
      simpa [hlook, Look.live?, haccepts] using hgives

theorem finds_remove : (Operation.remove key).Finds settings s retries now
    (s.visitRemove key now) := by
  rw [visitRemove]
  split
  · exact .declines rfl rfl (admits_of_not_waits rfl) rfl (fun _ => ‹_›) rfl
  · exact .removesFault ‹_›
  · exact .removes ‹_›

theorem finds_removeIfEqual (expected : V) : (Operation.removeIfEqual key expected).Finds settings s
    retries now (s.visitRemoveIfEqual key expected now) := by
  rw [visitRemoveIfEqual]
  split
  · rename_i h hlook
    split <;> rename_i hvalue
    · exact hvalue ▸ .removesEqual hlook
    · refine .declines rfl rfl (admits_of_not_waits rfl) rfl (fun htakes => ?_) rfl
      simp [hlook, Operation.takes, Look.live?, hvalue] at htakes
  · rename_i hlook
    refine .declines rfl rfl (admits_of_not_waits rfl) rfl (fun htakes => ?_) rfl
    cases hfound : s.look key now with
    | live h => exact absurd hfound (hlook h)
    | _ => simp [hfound, Operation.takes, Look.live?] at htakes

theorem finds_begins {previous : Option (Holder V)} (hprevious : (s.look key now).live? = previous)
    (hkey : operation.key? = some key)
    (hcomputes : operation.computes (previous.map Holder.value) = true)
    (hfree : ∀ fault, s.look key now ≠ .pending fault) (hfresh : ∀ h, s.look key now ≠ .stale h) :
    operation.Finds settings s retries now (.goTo (s.beginFault key).1
      (.keep (.own (operation.computation key s.faults.size previous)))) :=
  hprevious ▸ .begins hkey (hprevious ▸ hcomputes) hfree hfresh

theorem finds_computeIfAbsent (mapping : K → Script K V Q R) :
    (Operation.computeIfAbsent key mapping).Finds settings s retries now
      (s.visitComputeIfAbsent key mapping retries now) := by
  rw [visitComputeIfAbsent]
  split <;> rename_i hlook
  · exact .reads rfl rfl hlook
  · exact .waits rfl rfl hlook
  · exact finds_begins (congrArg Look.live? hlook) rfl rfl (by simp [hlook]) (by simp [hlook])
  · exact .beginsStale rfl rfl hlook (.inl rfl)

theorem finds_compute (remapping : K → Option V → Script K V Q R) :
    (Operation.compute key remapping).Finds settings s retries now
      (s.visitCompute key remapping retries now) := by
  rw [visitCompute]
  split <;> rename_i hlook
  · exact .waits rfl rfl hlook
  · exact finds_begins (congrArg Look.live? hlook) rfl rfl (by simp [hlook]) (by simp [hlook])
  · exact finds_begins (congrArg Look.live? hlook) rfl rfl (by simp [hlook]) (by simp [hlook])
  · exact .beginsStale rfl rfl hlook (.inr rfl)

theorem finds_computeIfPresent (remapping : K → V → Script K V Q R) :
    (Operation.computeIfPresent key remapping).Finds settings s retries now
      (s.visitComputeIfPresent key remapping retries now) := by
  rw [visitComputeIfPresent]
  split <;> rename_i hlook
  · exact .waits rfl rfl hlook
  · exact finds_begins (congrArg Look.live? hlook) rfl rfl (by simp [hlook]) (by simp [hlook])
  · exact .declines rfl rfl (admits_of_look hlook (by simp)) rfl nofun
      (by simp [hlook, Operation.computes, Look.live?])
  · exact .drops rfl rfl rfl hlook

/-- A visit does nothing else. -/
theorem finds (operation : Operation K V Q R) :
    operation.Finds settings s retries now (s.visit settings retries now operation) := by
  cases operation with
  | get key =>
    rw [visit, visitGet]
    split <;> rename_i hlook
    · exact .misses hlook
    · exact .waits rfl rfl hlook
    · exact .expels hlook
    · exact .reads rfl rfl hlook
  | contains key => exact .tells
  | put key value => exact finds_put value
  | putIfAbsent key value => exact finds_putIfAbsent value
  | replace key value =>
    rw [visit]
    exact finds_replace rfl rfl rfl rfl (fun v => rfl) (fun found => ⟨rfl, rfl⟩)
      fun h d hlook _ hd => .replaces hlook hd
  | replaceIfEqual key expected value =>
    rw [visit]
    refine finds_replace rfl rfl rfl rfl (fun v => ?_) (fun found => ⟨rfl, rfl⟩)
      fun h d hlook haccepts hd => ?_
    · simp [Operation.gives]
    · obtain rfl := of_decide_eq_true haccepts
      exact .replacesEqual hlook hd
  | remove key => exact finds_remove
  | removeIfEqual key expected => exact finds_removeIfEqual expected
  | clear => exact .clears
  | computeIfAbsent key mapping => exact finds_computeIfAbsent mapping
  | compute key remapping => exact finds_compute remapping
  | computeIfPresent key remapping => exact finds_computeIfPresent remapping

/-- What a visit of an operation does to the slot of its key. -/
inductive Visit (settings : Settings K V Q R) (s : Store K V) (now : Instant)
    (operation : Operation K V Q R) : StoreTurn K V Q R → Prop where
  /-- Nothing: it is not meant to do more than read, or finds nothing to take, or a collaborator
  panicked. -/
  | keeps {turn : StoreTurn K V Q R} :
      (∀ key, operation.key? = some key → s.Admits key now operation) →
      (∀ key, operation.key? = some key →
        (operation.gives ((s.look key now).live?.map Holder.value) = none ∧
          (operation.takes ((s.look key now).live?.map Holder.value) = true →
            s.map.get? key = none) ∧
          operation.computes ((s.look key now).live?.map Holder.value) = false ∧
          turn.Replies operation ((s.look key now).live?.map Holder.value)) ∨
        ∃ value p, operation.gives ((s.look key now).live?.map Holder.value) = some value ∧
          (s.drafting settings key value now).result = .error p ∧
          turn.upshot? = some (.settle (.raised p))) →
      turn.Still s → Visit settings s now operation turn
  | waits {turn : StoreTurn K V Q R} {key : K} {retries fault : Nat} :
      operation.key? = some key → s.look key now = .pending fault → turn.Spares s →
      turn.next = .keep (.await operation retries fault) → turn.frames = [] →
      Visit settings s now operation turn
  | writes {turn : StoreTurn K V Q R} {key : K} {value : V} {h : Holder V} :
      operation.key? = some key → s.Admits key now operation →
      operation.gives ((s.look key now).live?.map Holder.value) = some value →
      settings.copyIn value = .ok h.value → settings.Weighs key h.value h.weight →
      turn.state.map = s.map.insert key (.holder h) → turn.state.faults = s.faults →
      turn.ongoing = [] → turn.Enforces →
      turn.Replies operation ((s.look key now).live?.map Holder.value) →
      Visit settings s now operation turn
  /-- It is meant to remove the value, or the value has expired. -/
  | removes {turn : StoreTurn K V Q R} {key : K} :
      operation.key? = some key →
      operation.takes ((s.look key now).live?.map Holder.value) = true ∨
        (∃ h, s.look key now = .stale h) →
      turn.state.map = s.map.erase key → turn.state.faults = s.faults →
      turn.ongoing = [] → Visit settings s now operation turn
  /-- A stale value leaves its slot before the fault enters it, or by that. -/
  | begins {turn : StoreTurn K V Q R} {c : Computation K V Q R} {m : EntryMap K V} :
      operation.key? = some c.key →
      operation.computes ((s.look c.key now).live?.map Holder.value) = true →
      (∀ fault, s.look c.key now ≠ .pending fault) →
      c = operation.computation c.key s.faults.size (s.look c.key now).live? →
      m = s.map ∨ (∃ h, s.look c.key now = .stale h) ∧ m = s.map.erase c.key →
      turn.state.map = m.insert c.key (.fault c.fault) →
      turn.state.faults = s.faults.push none →
      turn.ongoing = [.computes c .begun] →
      (turn.next = .keep (.own c) ∧ turn.frames = [] ∨
        (∃ h, s.look c.key now = .stale h ∧ turn.next = .keep (.report c.key h .expired)) ∧
          turn.frames = [.next (.keep (.own c))]) →
      Visit settings s now operation turn

/-- A write puts a holder of the value into the slot. -/
theorem Visit.of_written {value : V} {d : Draft V} {turn : StoreTurn K V Q R}
    (hkey : operation.key? = some key) (hadmits : s.Admits key now operation)
    (hgives : operation.gives ((s.look key now).live?.map Holder.value) = some value)
    (hd : (s.drafting settings key value now).result = .ok d)
    (hstate : turn.state = s.written key d) (hnone : turn.ongoing = [])
    (henforces : turn.Enforces)
    (hreplies : turn.Replies operation ((s.look key now).live?.map Holder.value)) :
    s.Visit settings now operation turn := by
  obtain ⟨hvalue, hweight⟩ := Settings.draft_eq_ok hd
  exact .writes (h := (s.newHolder d).2) hkey hadmits hgives hvalue hweight (by rw [hstate]; rfl)
    (by rw [hstate]; rfl) hnone henforces hreplies

/-- A visit that begins a computation.  The map is `m` before the fault enters the slot. -/
theorem visit_begins {turn : StoreTurn K V Q R} {m : EntryMap K V} {previous : Option (Holder V)}
    (hkey : operation.key? = some key) (hlive : (s.look key now).live? = previous)
    (hfree : ∀ fault, s.look key now ≠ .pending fault)
    (hcomputes : operation.computes (previous.map Holder.value) = true)
    (hm : m = s.map ∨ (∃ h, s.look key now = .stale h) ∧ m = s.map.erase key)
    (hmap : turn.state.map = m.insert key (.fault s.faults.size))
    (hfaults : turn.state.faults = s.faults.push none)
    {c : Computation K V Q R} (hc : c = operation.computation key s.faults.size previous)
    (hthread : turn.next = .keep (.own c) ∧ turn.frames = [] ∨
      (∃ h, s.look key now = .stale h ∧ turn.next = .keep (.report key h .expired)) ∧
        turn.frames = [.next (.keep (.own c))]) :
    s.Visit settings now operation turn := by
  subst hlive
  have hckey : c.key = key := by rw [hc]; rfl
  have hcfault : c.fault = s.faults.size := by rw [hc]; rfl
  rw [← hckey] at hkey hcomputes hfree hc hm hthread
  rw [← hckey, ← hcfault] at hmap
  rcases hthread with ⟨hnext, hframes⟩ | ⟨⟨h, hstale, hnext⟩, hframes⟩
  · exact .begins hkey hcomputes hfree hc hm hmap hfaults
      (by simp [Turn.ongoing, hnext, hframes, Stage.ongoing]) (.inl ⟨hnext, hframes⟩)
  · exact .begins hkey hcomputes hfree hc hm hmap hfaults
      (by simp [Turn.ongoing, hnext, hframes, Stage.ongoing]) (.inr ⟨⟨h, hstale, hnext⟩, hframes⟩)

/-- A visit that only reads. -/
theorem Visit.of_reads {turn : StoreTurn K V Q R} (hkey : operation.key? = some key)
    (hadmits : s.Admits key now operation)
    (hwhy : operation.gives ((s.look key now).live?.map Holder.value) = none ∧
      (operation.takes ((s.look key now).live?.map Holder.value) = true →
        s.map.get? key = none) ∧
      operation.computes ((s.look key now).live?.map Holder.value) = false ∧
      turn.Replies operation ((s.look key now).live?.map Holder.value))
    (hstill : turn.Still s) : s.Visit settings now operation turn := by
  have hsame : ∀ other, operation.key? = some other → key = other := fun other hother =>
    Option.some.inj (hkey.symm.trans hother)
  exact .keeps (fun other hother => hsame other hother ▸ hadmits)
    (fun other hother => .inl (hsame other hother ▸ hwhy)) hstill

/-- Every operation does in its visit what it is meant to do. -/
theorem visit_spec (operation : Operation K V Q R) :
    s.Visit settings now operation (s.visit settings retries now operation) := by
  have hfinds : operation.Finds settings s retries now _ := s.finds operation
  generalize s.visit settings retries now operation = turn at hfinds
  cases hfinds with
  | waits hkey _ hlook => exact .waits hkey hlook ⟨rfl, rfl⟩ rfl rfl
  | @reads _ key h hkey hreads hlook =>
    refine .of_reads hkey (admits_of_look hlook (by simp)) ?_ ⟨rfl, rfl, rfl⟩
    rw [hlook]
    cases operation with
    | get | putIfAbsent | computeIfAbsent => exact ⟨rfl, nofun, rfl, fun _ => rfl⟩
    | _ => cases hreads
  | misses hlook | expels hlook =>
    refine .of_reads rfl (admits_of_look hlook (by simp)) ⟨rfl, nofun, rfl, fun _ => ?_⟩
      ⟨rfl, rfl, rfl⟩
    rw [hlook]
    rfl
  | tells =>
    exact .of_reads rfl (admits_of_not_waits rfl) ⟨rfl, nofun, rfl, nofun⟩
      ⟨rfl, rfl, rfl⟩
  | clears =>
    exact .keeps (fun key hkey => nomatch hkey) (fun key hkey => nomatch hkey) ⟨rfl, rfl, rfl⟩
  | declines hkey hdeclined hadmits hgives htakes hcomputes =>
    refine .of_reads hkey hadmits ⟨hgives, htakes, hcomputes, fun hwaits => ?_⟩
      ⟨rfl, rfl, rfl⟩
    exact congrArg some (Operation.tells_of_declined hwaits hdeclined hgives).symm
  | drops hkey _ _ hlook => exact .removes hkey (.inr ⟨_, hlook⟩) rfl rfl rfl
  | @balks _ key value p hkey hadmits hgives hdraft =>
    have hsame : ∀ other, operation.key? = some other → key = other := fun other hother =>
      Option.some.inj (hkey.symm.trans hother)
    exact .keeps (fun other hother => hsame other hother ▸ hadmits)
      (fun other hother => .inr (hsame other hother ▸ ⟨value, p, hgives, hdraft, rfl⟩))
      ⟨rfl, rfl, rfl⟩
  | puts _ hd =>
    exact .of_written rfl (admits_of_not_waits rfl) rfl hd rfl rfl ⟨⟨_, rfl⟩, .inl rfl⟩ nofun
  | overwrites _ hd =>
    exact .of_written rfl (admits_of_not_waits rfl) rfl hd rfl rfl
      ⟨⟨_, rfl⟩, .inr List.mem_cons_self⟩ nofun
  | putsAbsent hlook hd =>
    refine .of_written rfl (admits_of_look hlook (by simp))
      (by simp [hlook, Operation.gives, Look.live?]) hd rfl rfl ⟨⟨_, rfl⟩, .inl rfl⟩ fun _ => ?_
    rw [hlook]
    rfl
  | putsStale hlook hd | replaces hlook hd | replacesEqual hlook hd =>
    refine .of_written rfl (admits_of_look hlook (by simp))
      (by simp [hlook, Operation.gives, Look.live?]) hd rfl rfl
      ⟨⟨_, rfl⟩, .inr List.mem_cons_self⟩ fun _ => ?_
    simp [hlook, Operation.tells, Look.live?, Activity.reply?, Reply.nothing]
  | removes | removesFault => exact .removes rfl (.inl rfl) rfl rfl rfl
  | removesEqual hlook =>
    exact .removes rfl (.inl (by simp [hlook, Operation.takes, Look.live?])) rfl rfl rfl
  | begins hkey hcomputes hfree =>
    exact visit_begins hkey rfl hfree hcomputes (.inl rfl) rfl rfl rfl (.inl ⟨rfl, rfl⟩)
  | beginsStale hkey hcomputes hlook hs =>
    rcases hs with rfl | rfl
    · exact visit_begins hkey (congrArg Look.live? hlook) (by simp [hlook]) hcomputes (.inl rfl) rfl
        rfl rfl (.inr ⟨⟨_, hlook, rfl⟩, rfl⟩)
    · exact visit_begins hkey (congrArg Look.live? hlook) (by simp [hlook]) hcomputes
        (.inr ⟨⟨_, hlook⟩, rfl⟩) rfl rfl rfl (.inr ⟨⟨_, hlook, rfl⟩, rfl⟩)

end Store

end SharedCache
