import SharedCache.Proofs.Bookkeeping
import SharedCache.Proofs.PostponedWork

/-!
# Outlook

What a call that has looked at its key can still come to, and what that has to do with the requests
it has counted so far.  Each section of a call foretells how the call may end from there: the way to
an answer counts one hit, one miss or nothing, and no way leads back to the look at the key.  What
runs above a call, the code of a listener or of a mapping function, has no part in this.
-/

namespace SharedCache

variable {K V Q R : Type}

/-! ## What a call counts -/

/-- What a call has counted, and whether it has called its mapping function. -/
structure Tally where
  hits : Nat
  misses : Nat
  asked : Bool
  deriving DecidableEq

namespace Tally

/-- The tally of a call that has counted nothing. -/
def zero : Tally := ⟨0, 0, false⟩

/-- A tally with another hit. -/
def hit (tally : Tally) : Tally := { tally with hits := tally.hits + 1 }

/-- A tally with another miss. -/
def miss (tally : Tally) : Tally := { tally with misses := tally.misses + 1 }

/-- The tally after a step of the call with this activity and these events. -/
def next (tally : Tally) (a : Activity K V Q R) (events : List (Event K V)) : Tally :=
  ⟨tally.hits + a.hits, tally.misses + a.misses, tally.asked || !(mappings events).isEmpty⟩

theorem next_of_quiet (tally : Tally) {a : Activity K V Q R} {events : List (Event K V)}
    (hquiet : mappings events = []) :
    tally.next a events = ⟨tally.hits + a.hits, tally.misses + a.misses, tally.asked⟩ := by
  simp [next, hquiet]

/-- Steps that neither count a request nor call a mapping function leave the tally as it is. -/
theorem next_eq_self (tally : Tally) {a : Activity K V Q R} {events : List (Event K V)}
    (hhits : a.hits = 0) (hmisses : a.misses = 0) (hquiet : mappings events = []) :
    tally.next a events = tally := by
  rw [tally.next_of_quiet hquiet, hhits, hmisses]
  rfl

end Tally

/-- The call was interrupted, or has seen too many computations end in a panic. -/
def Signal.givesUp : Signal V → Bool
  | .done (.failed .interrupted) | .done (.failed (.abandoned _)) => true
  | _ => false

/-- The hits and misses that a call counts by how it ends, and by whether it has called its mapping
function.  Where `computeIfAbsent` panics without having called one, the veto has panicked over the
value that it was about to answer. -/
def Operation.requests (asked : Bool) (signal : Signal V) : Operation K V Q R → Nat × Nat
  | .get _ =>
    match signal with
    | .done (.value (some _)) => (1, 0)
    | .done (.value none) => (0, 1)
    | _ => (0, 0)
  | .putIfAbsent .. =>
    match signal with
    | .done (.value (some _)) => (1, 0)
    | _ => (0, 0)
  | .computeIfAbsent .. =>
    if asked then (0, 1)
    else
      match signal with
      | .done (.value (some _)) | .raised _ => (1, 0)
      | .done (.value none) => (0, 1)
      | _ => (0, 0)
  | _ => (0, 0)

/-- The expiry panics like this about a read. -/
def Settings.ReadRaises (settings : Settings K V Q R) (p : Panic) : Prop :=
  ∃ e key value now left writtenAt, settings.expiry = some e ∧
    e.onRead key value now left writtenAt = .error p

/-- A collaborator panics that a read consults: the expiry, or the copying of a value that leaves
the store. -/
def Settings.BalksAtReads (settings : Settings K V Q R) : Prop :=
  (∃ e key value now left writtenAt p, settings.expiry = some e ∧
    e.onRead key value now left writtenAt = .error p) ∨
  ∃ value p, settings.copyOut value = .error p

/-- A call with this tally may end like this. -/
def Operation.AccountsFor (settings : Settings K V Q R) (operation : Operation K V Q R)
    (tally : Tally) (signal : Signal V) : Prop :=
  signal.givesUp = false ∧
    (settings.BalksAtReads ∨
      operation.requests tally.asked signal = (tally.hits, tally.misses))

/-- A call with this tally may end in any way but by giving up. -/
def Operation.AccountsForAll (settings : Settings K V Q R) (operation : Operation K V Q R)
    (tally : Tally) : Prop :=
  ∀ signal : Signal V, signal.givesUp = false → operation.AccountsFor settings tally signal

/-! ## What a section foretells -/

section Foretells

variable (settings : Settings K V Q R) (operation : Operation K V Q R) (tally : Tally)

/-- The call may answer a value.  If the capacity is to be enforced before, the veto may panic. -/
def Operation.AccountsForValue (thenEnforce : Bool) : Prop :=
  (∀ value, operation.AccountsFor settings tally (.done (.value (some value)))) ∧
    (thenEnforce = true → ∀ p, operation.AccountsFor settings tally (.raised p))

/-- Whatever the call comes to from this stage on accounts for its tally. -/
def Stage.Foretells : Stage K V Q R → Prop
  | .receive .. => operation.AccountsForValue settings tally.hit false
  | .consult _ _ _ thenEnforce => operation.AccountsForValue settings tally.hit thenEnforce
  | .refresh _ _ thenEnforce => operation.AccountsForValue settings tally.hit thenEnforce
  | .handOut _ thenEnforce => operation.AccountsForValue settings tally thenEnforce
  | .missed => operation.AccountsFor settings tally.miss (.done (.value none))
  | .expel .. => operation.AccountsFor settings tally.miss (.done (.value none))
  | .sweep _ => operation.AccountsFor settings tally (.done .unit)
  | .dismiss .. =>
    operation.AccountsFor settings tally (.done (.value none)) ∧
      operation.AccountsForValue settings tally false
  | .own c => operation.AccountsForAll settings ⟨tally.hits, tally.misses + c.isRequest.toNat, true⟩
  | .compose .. => operation.AccountsForAll settings tally
  | .install .. => operation.AccountsForAll settings tally
  | .vacate _ _ answer => operation.AccountsFor settings tally (.done answer)
  | .restore _ _ signal => operation.AccountsFor settings tally signal
  | _ => False

/-- Whatever the call comes to from this activity on accounts for its tally. -/
def Activity.Foretells : Activity K V Q R → Prop
  | .keep stage => stage.Foretells settings operation tally
  | .settle signal => operation.AccountsFor settings tally signal
  | _ => False

/-- What a call may have on its thread after it has looked at its key: its activity, and the frames
above those that wait for the call. -/
inductive Outlook : Activity K V Q R → List (Frame K V Q R) → Prop where
  | arrives {a : Activity K V Q R} : a.Foretells settings operation tally → Outlook a []
  /-- It has put off what it foretells. -/
  | postpones {enforces : Prop} {a later : Activity K V Q R} {above : List (Frame K V Q R)} :
      Postponed settings enforces later a above → later.Foretells settings operation tally →
      (enforces → ∀ p, operation.AccountsFor settings tally (.raised p)) → Outlook a above
  /-- The mapping function runs. -/
  | runs {a : Activity K V Q R} {inside : List (Frame K V Q R)} {c : Computation K V Q R} :
      operation.AccountsForAll settings tally → Outlook a (inside ++ [.computing c])

/-- What a turn leaves on the thread accounts for the tally. -/
def Turn.Foretells (turn : StoreTurn K V Q R) : Prop :=
  Outlook settings operation tally turn.next turn.frames

end Foretells

section Turns

variable {settings : Settings K V Q R} {operation : Operation K V Q R} {tally : Tally}
  {s : Store K V} {a : Activity K V Q R} {answer : Answer V}

theorem Store.foretells_enforcing (s : Store K V)
    (hanswer : operation.AccountsFor settings tally (.done answer))
    (hraised : ∀ p, operation.AccountsFor settings tally (.raised p)) :
    (s.enforcing answer : StoreTurn K V Q R).Foretells settings operation tally :=
  .postpones (.sees (.enforces trivial trivial : Errand settings True (.keep (.enforce 0)) []))
    hanswer fun _ => hraised

theorem Store.foretells_reporting (s : Store K V) (key : K) (h : Holder V) (cause : RemovalCause)
    (ha : a.Foretells settings operation tally) :
    ((s.reporting key h cause).andThen a).Foretells settings operation tally :=
  .postpones (.sees (.reports (.inl rfl) : Errand settings False _ [])) ha False.elim

theorem Store.foretells_replacing (s : Store K V) (key : K) (h : Holder V) (cause : RemovalCause)
    (ha : a.Foretells settings operation tally)
    (hraised : ∀ p, operation.AccountsFor settings tally (.raised p)) :
    (((s.reporting key h cause).andThen (.keep (.enforce 0))).andThen a).Foretells settings
      operation tally :=
  .postpones (.sees (.reports (.inr ⟨trivial, rfl⟩) : Errand settings True _ _)) ha fun _ => hraised

theorem Store.foretells_judging (s : Store K V) (key : K) (h : Holder V) (now : Instant)
    (ha : a.Foretells settings operation tally)
    (hraised : ∀ p, operation.AccountsFor settings tally (.raised p)) :
    (((Turn.goTo s (.keep (.judge key h now))).andThen (.keep (.enforce 0))).andThen a :
      StoreTurn K V Q R).Foretells settings operation tally :=
  .postpones (.judges trivial) ha fun _ => hraised

/-- A panic of a collaborator that a read consults accounts for any tally. -/
theorem Operation.accountsFor_of_balks (operation : Operation K V Q R) (tally : Tally)
    (hbalks : settings.BalksAtReads) (p : Panic) :
    operation.AccountsFor settings tally (.raised p) := ⟨rfl, .inl hbalks⟩

theorem Settings.balksAtReads_of_giveOut {value : V} {p : Panic}
    (hresult : (settings.giveOut value).result = .error p) : settings.BalksAtReads :=
  .inr ⟨value, p, hresult⟩

/-- Only the expiry panics where a read consults it. -/
theorem Settings.readRaises_of_deadlineOfRead {key : K} {value : V} {now writtenAt : Instant}
    {left : Option Duration} {p : Panic}
    (hresult : (settings.deadlineOfRead key value now left writtenAt).result = .error p) :
    settings.ReadRaises p := by
  rw [deadlineOfRead] at hresult
  split at hresult
  · cases hresult
  · rename_i e hexpiry
    rcases Consultation.error_bind hresult with hread | ⟨lifetime, hnone⟩
    · exact ⟨e, key, value, now, left, writtenAt, hexpiry, hread⟩
    · cases hnone

theorem Settings.ReadRaises.balksAtReads {p : Panic} (hraises : settings.ReadRaises p) :
    settings.BalksAtReads := by
  obtain ⟨e, key, value, now, left, writtenAt, hexpiry, hread⟩ := hraises
  exact .inl ⟨e, key, value, now, left, writtenAt, p, hexpiry, hread⟩

end Turns

/-! ## Looking at the key and waiting -/

section Seeking

variable [DecidableEq K] [DecidableEq V] {settings : Settings K V Q R}

/-- The look at the key leads to a wait for the fault in its slot, or to sections that account for
what the call counts from then on. -/
inductive Store.Sees (settings : Settings K V Q R) (s : Store K V) (operation : Operation K V Q R)
    (retries : Nat) (turn : StoreTurn K V Q R) : Prop where
  | waits {key : K} {fault : Nat} :
      operation.key? = some key → s.map.get? key = some (.fault fault) →
      turn = .goTo s (.keep (.await operation retries fault)) →
      Sees settings s operation retries turn
  | leaves : turn.Foretells settings operation .zero → Sees settings s operation retries turn

variable {s : Store K V} {operation : Operation K V Q R} {retries : Nat} {now : Instant}

omit [DecidableEq K] [DecidableEq V] in
/-- Whatever computation an operation begins, its end accounts for what was counted before it. -/
theorem Operation.accountsForAll_of_computes {found : Option V}
    (hcomputes : operation.computes found = true) :
    operation.AccountsForAll settings ⟨0, 0 + operation.isRequest.toNat, true⟩ := by
  intro signal hends
  cases operation with
  | computeIfAbsent | compute | computeIfPresent => exact ⟨hends, .inr rfl⟩
  | _ => cases hcomputes

omit [DecidableEq K] [DecidableEq V] in
/-- What an operation declines counts nothing. -/
theorem Operation.accountsFor_declined {answer : Answer V}
    (hdeclined : operation.declined = some answer) :
    operation.AccountsFor settings .zero (.done answer) := by
  cases operation with
  | replace | replaceIfEqual | remove | removeIfEqual | computeIfPresent =>
    obtain rfl := Option.some.inj hdeclined
    exact ⟨rfl, .inr rfl⟩
  | _ => cases hdeclined

omit [DecidableEq K] in
/-- A write that panics counts nothing. -/
theorem Operation.accountsFor_gives {found : Option V} {value : V}
    (hgives : operation.gives found = some value) (p : Panic) :
    operation.AccountsFor settings .zero (.raised p) := by
  cases operation with
  | put | putIfAbsent | replace | replaceIfEqual => exact ⟨rfl, .inr rfl⟩
  | _ => cases hgives

/-- What a look at the key leads to. -/
theorem Operation.Finds.sees {turn : StoreTurn K V Q R}
    (hfinds : operation.Finds settings s retries now turn) :
    s.Sees settings operation retries turn := by
  cases hfinds with
  | waits hkey _ hlook => exact .waits hkey (Store.get?_of_pending hlook) rfl
  | reads _ hreads =>
    cases operation with
    | get | putIfAbsent => exact .leaves (.arrives ⟨fun _ => ⟨rfl, .inr rfl⟩, by simp [isRequest]⟩)
    | computeIfAbsent =>
      exact .leaves (.arrives ⟨fun _ => ⟨rfl, .inr rfl⟩, fun _ _ => ⟨rfl, .inr rfl⟩⟩)
    | _ => cases hreads
  | declines _ hdeclined =>
    exact .leaves (.arrives (accountsFor_declined hdeclined))
  | drops _ hdeclined =>
    exact .leaves (Store.foretells_reporting _ _ _ _ (accountsFor_declined hdeclined))
  | balks _ _ hgives => exact .leaves (.arrives (accountsFor_gives hgives _))
  | puts | putsAbsent =>
    exact .leaves (Store.foretells_enforcing _ ⟨rfl, .inr rfl⟩ fun _ => ⟨rfl, .inr rfl⟩)
  | overwrites | putsStale =>
    exact .leaves (Store.foretells_judging _ _ _ _ ⟨rfl, .inr rfl⟩ fun _ => ⟨rfl, .inr rfl⟩)
  | replaces =>
    exact .leaves (Store.foretells_replacing _ _ _ _ ⟨fun _ => ⟨rfl, .inr rfl⟩, by simp⟩
      fun _ => ⟨rfl, .inr rfl⟩)
  | replacesEqual =>
    exact .leaves (Store.foretells_replacing _ _ _ _ ⟨rfl, .inr rfl⟩ fun _ => ⟨rfl, .inr rfl⟩)
  | removes => exact .leaves (.arrives ⟨⟨rfl, .inr rfl⟩, fun _ => ⟨rfl, .inr rfl⟩, by simp⟩)
  | removesEqual => exact .leaves (Store.foretells_reporting _ _ _ _ ⟨rfl, .inr rfl⟩)
  | begins _ hcomputes => exact .leaves (.arrives (accountsForAll_of_computes hcomputes))
  | beginsStale _ hcomputes =>
    exact .leaves (Store.foretells_reporting _ _ _ _ (accountsForAll_of_computes hcomputes))
  | misses | expels | tells | clears | removesFault => exact .leaves (.arrives ⟨rfl, .inr rfl⟩)

omit [DecidableEq K] [DecidableEq V] in
/-- A resolution that settles nothing leads to another look at the key.  Only a computation that
panicked uses up the patience of the call. -/
theorem Store.resume_cases (settings : Settings K V Q R) (s : Store K V)
    (operation : Operation K V Q R) (retries : Nat) (resolution : Resolution V) :
    ∃ a, s.resume operation retries resolution = .goTo s a ∧
      (resolution = .retry ∧ retries + 1 < maxAbandoned ∧
          a = .keep (.round operation (retries + 1)) ∨
        resolution = .retry ∧ maxAbandoned ≤ retries + 1 ∧
          a = .settle (.done (.failed (.abandoned (retries + 1)))) ∨
        resolution ≠ .retry ∧ (a = .keep (.round operation retries) ∨
          a.Foretells settings operation .zero)) := by
  obtain ⟨a, heq, hresumes⟩ := s.resume_eq operation retries resolution
  refine ⟨a, heq, ?_⟩
  cases hresumes with
  | tries hpatient => exact .inl ⟨rfl, hpatient, rfl⟩
  | abandons hspent => exact .inr (.inl ⟨rfl, hspent, rfl⟩)
  | again hretry => exact .inr (.inr ⟨hretry, .inl rfl⟩)
  | receives _ hshares =>
    refine .inr (.inr ⟨by simp, .inr ?_⟩)
    cases operation with
    | get | putIfAbsent | computeIfAbsent => exact ⟨fun _ => ⟨rfl, .inr rfl⟩, by simp⟩
    | _ => cases hshares
  | misses hshares =>
    refine .inr (.inr ⟨by simp, .inr ?_⟩)
    cases operation with
    | get | computeIfAbsent => exact ⟨rfl, .inr rfl⟩
    | _ => cases hshares
  | missesFailed | fails => exact .inr (.inr ⟨by simp, .inr ⟨rfl, .inr rfl⟩⟩)

end Seeking

/-! ## Going on -/

section GoingOn

variable {settings : Settings K V Q R} {operation : Operation K V Q R} {tally : Tally}
  {s : Store K V} {c : Computation K V Q R}

/-- Only the copying of the previous value keeps a computation from calling its function. -/
theorem Computation.balksAtReads_of_shown {p : Panic}
    (hshown : (c.shown settings).result = .error p) : settings.BalksAtReads := by
  cases hprevious : c.previous with
  | none =>
    rw [shown_of_none hprevious] at hshown
    cases hshown
  | some h =>
    rw [shown_of_some hprevious] at hshown
    cases hcopy : settings.copyOut h.value with
    | error panic => exact .inr ⟨h.value, panic, hcopy⟩
    | ok copy =>
      rw [hcopy] at hshown
      cases hshown

/-- The end of the mapping function settles how the call may end. -/
theorem Store.foretells_mapped (signal : Signal V)
    (hall : operation.AccountsForAll settings tally) :
    (s.mapped c signal).Foretells settings operation tally := by
  cases signal with
  | raised p => exact .arrives (hall _ rfl)
  | done answer =>
    cases answer with
    | complaint text =>
      rw [mapped]
      cases c.previous with
      | none => exact .arrives (hall _ rfl)
      | some h => exact .arrives (hall _ rfl)
    | value v =>
      cases v with
      | none => exact .arrives (hall _ rfl)
      | some value => exact .arrives hall
    | _ => exact .arrives (hall _ rfl)

variable [DecidableEq K] [DecidableEq V]

/-- A section of a call that has looked at its key goes on as it has foretold. -/
theorem Stage.Foretells.turn {stage : Stage K V Q R} {now : Instant} {interrupted : Bool}
    {draws : List K} {turn : StoreTurn K V Q R}
    (hstage : stage.Foretells settings operation tally)
    (hturn : stage.turn settings s now interrupted draws = some turn) :
    turn.Foretells settings operation (tally.next (.keep stage) turn.events) := by
  have hsection := Stage.sections hturn
  by_cases hown : ∃ c, stage = .own c
  · obtain ⟨c, rfl⟩ := hown
    cases hsection with
    | unwinds hshown =>
      exact .arrives (operation.accountsFor_of_balks _ (c.balksAtReads_of_shown hshown) _)
    | @maps _ current =>
      have hruns : Outlook settings operation
          ⟨tally.hits, tally.misses + c.isRequest.toNat, true⟩ (.code (c.code c.key current))
          ([] ++ [.computing c]) := .runs hstage
      have hquiet := (Stage.shown_spec settings c).1
      rw [mappings] at hquiet
      simpa [Turn.Foretells, Tally.next, mappings, hquiet, Activity.hits, Activity.misses] using
        hruns
  rw [tally.next_of_quiet (Stage.mappings_eq_nil hturn fun c hc => hown ⟨c, hc⟩)]
  cases hsection with
  | maps | unwinds => exact absurd ⟨_, rfl⟩ hown
  | receives | consults | hits | moves | misses | expelsNothing | sweeps | sweepsLast | composes |
      vacates | vacatesNothing | restores | restoresEmpty | restoresNothing =>
    exact .arrives hstage
  | balksAtRead hresult =>
    exact .arrives (operation.accountsFor_of_balks _
      (Settings.readRaises_of_deadlineOfRead hresult).balksAtReads _)
  | handsOut => exact .arrives (hstage.1 _)
  | handsOutFirst => exact Store.foretells_enforcing _ (hstage.1 _) (hstage.2 rfl)
  | balksAtCopy hresult =>
    exact .arrives (operation.accountsFor_of_balks _ (Settings.balksAtReads_of_giveOut hresult) _)
  | expels => exact Store.foretells_reporting _ _ _ _ hstage
  | dismissesStale => exact Store.foretells_reporting _ _ _ _ hstage.1
  | dismisses => exact Store.foretells_reporting _ _ _ _ hstage.2
  | unwindsDraft | unwindsCopy => exact .arrives (hstage _ rfl)
  | installs => exact Store.foretells_enforcing _ (hstage _ rfl) fun _ => hstage _ rfl
  | replaces => exact Store.foretells_replacing _ _ _ _ (hstage _ rfl) fun _ => hstage _ rfl
  | installsNothing => exact .arrives (hstage _ rfl)
  | removes => exact Store.foretells_reporting _ _ _ _ hstage
  | _ => exact hstage.elim

end GoingOn

/-! ## Steps -/

/-- An activity that neither counts a request nor calls a mapping function, and neither looks at a
key nor waits. -/
structure Activity.IsQuiet (a : Activity K V Q R) : Prop where
  hits : a.hits = 0
  misses : a.misses = 0
  own : ∀ c, a ≠ .keep (.own c)
  visit : ∀ operation retries now, a ≠ .keep (.visit operation retries now)
  await : ∀ operation retries fault, a ≠ .keep (.await operation retries fault)

section Steps

variable [DecidableEq K] [DecidableEq V] {settings : Settings K V Q R} {chance : Chance K R}
  {operation : Operation K V Q R} {tally : Tally} {w : World K V Q R} {t : Thread K V Q R}
  {step : Step K V Q R} {above base : List (Frame K V Q R)}

omit [DecidableEq K] [DecidableEq V] in
theorem Activity.isQuiet_settle (signal : Signal V) :
    (Activity.settle signal : Activity K V Q R).IsQuiet := ⟨rfl, rfl, by simp, by simp, by simp⟩

theorem Activity.IsQuiet.next_eq (hquiet : t.activity.IsQuiet) (tally : Tally)
    (hstep : t.step settings chance w = some step) :
    tally.next t.activity step.events = tally :=
  tally.next_eq_self hquiet.hits hquiet.misses ((Thread.stride hstep).mappings_eq_nil hquiet.own)

omit [DecidableEq K] [DecidableEq V] in
/-- The steps of a call that has put something off are quiet. -/
theorem Postponed.isQuiet {enforces : Prop} {later : Activity K V Q R}
    (ht : Postponed settings enforces later t.activity above) (hstack : t.stack = above ++ base)
    (hattends : t.attends base.length = true) : t.activity.IsQuiet := by
  rcases ht.attended hstack hattends with ⟨stage, hactivity, hwhich⟩ | ⟨signal, _, _, hsettles, -⟩
  · rw [hactivity]
    rcases hwhich with henforcing | ⟨key, h, cause, rfl⟩ | ⟨key, h, now, rfl⟩
    · cases stage with
      | enforce | draw | pick | evict => exact ⟨rfl, rfl, by simp, by simp, by simp⟩
      | _ => exact henforcing.elim
    · exact ⟨rfl, rfl, by simp, by simp, by simp⟩
    · exact ⟨rfl, rfl, by simp, by simp, by simp⟩
  · exact hsettles ▸ Activity.isQuiet_settle signal

omit [DecidableEq K] [DecidableEq V] in
/-- At the end of a call its outlook is the end itself. -/
theorem Outlook.foretells {a : Activity K V Q R} (ha : Outlook settings operation tally a above)
    (hover : above = []) : a.Foretells settings operation tally := by
  cases ha with
  | arrives ha => exact ha
  | postpones hpostponed => exact absurd hover hpostponed.ne_nil
  | runs => exact absurd hover (by simp)

omit [DecidableEq K] [DecidableEq V] in
/-- What a call does after it has looked at its key is foretold or quiet. -/
theorem Outlook.foretells_or_isQuiet (ht : Outlook settings operation tally t.activity above)
    (hstack : t.stack = above ++ base) (hattends : t.attends base.length = true) :
    t.activity.Foretells settings operation tally ∨ t.activity.IsQuiet := by
  generalize hactivity : t.activity = a at ht
  cases ht with
  | arrives ha => exact .inl ha
  | postpones hpostponed =>
    subst hactivity
    exact .inr (hpostponed.isQuiet hstack hattends)
  | @runs _ inside c =>
    rw [← hactivity]
    by_cases hover : inside = [] ∧ ∃ signal, t.activity = .settle signal
    · obtain ⟨-, signal, hsettled⟩ := hover
      exact .inr (hsettled ▸ Activity.isQuiet_settle signal)
    · rw [Thread.not_attends_of_runs hstack rfl hover] at hattends
      cases hattends

omit [DecidableEq K] [DecidableEq V] in
/-- A call that has looked at its key does not look again. -/
theorem Outlook.ne_visit (ht : Outlook settings operation tally t.activity above)
    (hstack : t.stack = above ++ base) (hattends : t.attends base.length = true)
    (looking : Operation K V Q R) (retries : Nat) (now : Instant) :
    t.activity ≠ .keep (.visit looking retries now) := by
  intro hactivity
  rcases ht.foretells_or_isQuiet hstack hattends with hforetells | hquiet
  · rw [hactivity] at hforetells
    exact hforetells
  · exact hquiet.visit _ _ _ hactivity

omit [DecidableEq K] [DecidableEq V] in
/-- A call that has looked at its key does not wait any more. -/
theorem Outlook.ne_await (ht : Outlook settings operation tally t.activity above)
    (hstack : t.stack = above ++ base) (hattends : t.attends base.length = true)
    (waiting : Operation K V Q R) (retries fault : Nat) :
    t.activity ≠ .keep (.await waiting retries fault) := by
  intro hactivity
  rcases ht.foretells_or_isQuiet hstack hattends with hforetells | hquiet
  · rw [hactivity] at hforetells
    exact hforetells
  · exact hquiet.await _ _ _ hactivity

/-- A call that has looked at its key goes on as foretold until it is over. -/
theorem Outlook.step_cases (ht : Outlook settings operation tally t.activity above)
    (hstack : t.stack = above ++ base) (hstep : t.step settings chance w = some step) :
    above = [] ∧ (∃ signal, t.activity = .settle signal) ∨
      ∃ above', step.thread.stack = above' ++ base ∧
        Outlook settings operation
          (if t.attends base.length then tally.next t.activity step.events else tally)
          step.thread.activity above' := by
  generalize hactivity : t.activity = activity at ht
  cases ht with
  | arrives ha =>
    rw [if_pos (Thread.attends_of_stack hstack (by simp))]
    cases activity with
    | keep stage =>
      obtain ⟨turn, hturn, rfl⟩ := Thread.turn_of_step hactivity hstep
      have hturned := Stage.Foretells.turn ha hturn
      exact .inr ⟨turn.frames, by simp [Step.ofStore, Thread.goOn, hstack], hturned⟩
    | settle signal => exact .inl ⟨rfl, signal, rfl⟩
    | _ => exact ha.elim
  | @postpones enforces _ later above hpostponed hlater hraised =>
    obtain rfl := hactivity
    have hsame : (if t.attends base.length then tally.next t.activity step.events else tally) =
        tally := by
      split
      · exact (hpostponed.isQuiet hstack ‹_›).next_eq tally hstep
      · rfl
    rw [hsame]
    right
    rcases hpostponed.step_cases hstack hstep with
      ⟨above', hstack', hpostponed'⟩ | ⟨hstack', hnext | ⟨p, hnext, hpanic⟩⟩
    · exact ⟨above', hstack', .postpones hpostponed' hlater hraised⟩
    · exact ⟨[], hstack', .arrives (hnext ▸ hlater)⟩
    · refine ⟨[], hstack', .arrives (hnext ▸ ?_)⟩
      rcases hpanic with ⟨henforces, -⟩ | ⟨value, hcopy⟩
      · exact hraised henforces p
      · exact operation.accountsFor_of_balks tally (.inr ⟨value, p, hcopy⟩) p
  | @runs _ inside c hall =>
    right
    by_cases hover : inside = [] ∧ ∃ signal, t.activity = .settle signal
    · obtain ⟨rfl, signal, hsettled⟩ := hover
      have hattends : t.attends base.length = true :=
        Thread.attends_of_settle (show t.stack = [.computing c] ++ base from hstack) hsettled
          (by simp)
      have hquiet : t.activity.IsQuiet := hsettled ▸ Activity.isQuiet_settle signal
      rw [if_pos hattends, ← hactivity, hquiet.next_eq tally hstep]
      obtain rfl := Thread.receive_of_step hsettled hstack hstep
      refine ⟨(w.store.mapped c signal).frames, ?_, Store.foretells_mapped signal hall⟩
      simp [Frame.receive, Step.ofStore, Thread.goOn, Thread.popped, hstack]
    · have hnot : t.attends base.length = false := Thread.not_attends_of_runs hstack rfl hover
      rw [hnot, if_neg (by simp)]
      have hbelow : t.stack = inside ++ .computing c :: base := by simp [hstack]
      rcases (Thread.stride hstep).below hbelow with hended | ⟨inside', hinside'⟩
      · exact absurd hended hover
      · exact ⟨inside' ++ [.computing c], by simp [hinside'], .runs hall⟩

end Steps

end SharedCache
