import SharedCache.Proofs.Entry.Counters
import SharedCache.Proofs.Sections
import SharedCache.Proofs.Visits

/-!
# Effects of sections

What a section of a store operation does to the slots, to the faults and to the computation that it
is a part of.  A computation goes through its sections in a fixed order: its function is called
with a copy of the value that the key had, a value that it gives becomes a holder, and the slot is
left as the end of the function demands.  Every other section changes at most one slot or empties
one segment.
-/

namespace SharedCache

variable {K V Q R : Type}

/-- What a function is shown of the value that its key has: a copy, or nothing where there is
none. -/
def Settings.Shows (settings : Settings K V Q R) (found current : Option V) : Prop :=
  match found with
  | none => current = none
  | some value => ∃ copy, settings.copyOut value = .ok copy ∧ current = some copy

/-- A function cannot be shown a value that its key has: copying it panics. -/
def Settings.BalksAtShowing (settings : Settings K V Q R) (found : Option V) (p : Panic) : Prop :=
  ∃ value, found = some value ∧ settings.copyOut value = .error p

/-- A value that a function gave cannot be handed to the store: preparing it panics, or copying what
the store would keep. -/
def Settings.BalksAtComposing (settings : Settings K V Q R) (key : K) (value : V) (p : Panic) :
    Prop :=
  settings.BalksAtWriting key value p ∨
    ∃ stored, settings.copyIn value = .ok stored ∧ settings.copyOut stored = .error p

/-- A section of a computation meets this panic of a collaborator. -/
def Stage.Balks (settings : Settings K V Q R) (p : Panic) : Stage K V Q R → Prop
  | .own c => settings.BalksAtShowing (c.previous.map Holder.value) p
  | .compose c value => settings.BalksAtComposing c.key value p
  | _ => False

/-- Steady collaborators never panic. -/
theorem Stage.Balks.not_steady {settings : Settings K V Q R} {p : Panic} {stage : Stage K V Q R}
    (hbalks : stage.Balks settings p) : ¬ settings.Steady := by
  intro hsteady
  have hcopies : ∀ value, settings.copyOut value ≠ .error p := fun value hpanic => by
    obtain ⟨copy, hok⟩ := hsteady.copyOut value
    cases hok.symm.trans hpanic
  cases stage with
  | own c =>
    obtain ⟨value, -, hpanic⟩ := hbalks
    exact hcopies value hpanic
  | compose c value =>
    rcases hbalks with ⟨now, left, hpanic⟩ | ⟨stored, -, hpanic⟩
    · obtain ⟨d, hok⟩ := hsteady.draft c.key value now left
      cases hok.symm.trans hpanic
    · exact hcopies stored hpanic
  | _ => exact hbalks

/-- How far a computation has come when its function has ended. -/
def Computation.progress (c : Computation K V Q R) : Signal V → Progress V
  | .raised p => .leaving c.previous .retry (.raised p)
  | .done (.complaint text) =>
    let error : ErrorObject := ⟨c.fault, text⟩
    let signal : Signal V := .done (.failed (.computation error))
    match c.previous with
    | some h => .leaving (some h) .restored signal
    | none => .leaving none (.failed error) signal
  | .done answer =>
    match answer.value? with
    | some value => .given value
    | none => .leaving none .absent (.done (.value none))

/-- The calls of mapping functions among some events: the key, the fault and what was shown. -/
def mappings (events : List (Event K V)) : List (K × Nat × Option V) :=
  events.filterMap fun event =>
    match event with
    | .mapped key fault current => some (key, fault, current)
    | _ => none

/-- The slot of a key with a holder, or without one. -/
def EntryMap.leave [DecidableEq K] (m : EntryMap K V) (key : K) : Option (Holder V) → EntryMap K V
  | some h => m.insert key (.holder h)
  | none => m.erase key

namespace Store

variable {s : Store K V}

@[simp]
theorem map_resolve (fault : Nat) (resolution : Resolution V) :
    (s.resolve fault resolution).map = s.map := by
  unfold resolve
  split <;> rfl

@[simp]
theorem deadlines_resolve (s : Store K V) (fault : Nat) (resolution : Resolution V) :
    (s.resolve fault resolution).deadlines = s.deadlines := by
  unfold resolve
  split <;> rfl

theorem faults_resolve_congr (s s' : Store K V) (hfaults : s'.faults = s.faults) (fault : Nat)
    (resolution : Resolution V) :
    (s'.resolve fault resolution).faults = (s.resolve fault resolution).faults := by
  unfold resolve resolution?
  rw [hfaults]
  split <;> simp [hfaults]

/-- The end of the function settles how the computation goes on. -/
theorem mapped_spec (c : Computation K V Q R) (signal : Signal V) :
    (s.mapped c signal).Spares s ∧ (s.mapped c signal).frames = [] ∧
      ∃ stage, (s.mapped c signal).next = .keep stage ∧
        stage.ongoing = [.computes c (c.progress signal)] := by
  obtain ⟨key, fault, previous, isRequest, code⟩ := c
  cases signal with
  | raised p => exact ⟨⟨rfl, rfl⟩, rfl, _, rfl, rfl⟩
  | done answer =>
    cases answer with
    | complaint text => cases previous <;> exact ⟨⟨rfl, rfl⟩, rfl, _, rfl, rfl⟩
    | value v => cases v <;> exact ⟨⟨rfl, rfl⟩, rfl, _, rfl, rfl⟩
    | _ => exact ⟨⟨rfl, rfl⟩, rfl, _, rfl, rfl⟩

theorem listened_spec (signal : Signal V) :
    (s.listened signal : StoreTurn K V Q R).Still s ∧
      (s.listened signal : StoreTurn K V Q R).frames = [] := by
  cases signal <;> exact ⟨⟨rfl, rfl, rfl⟩, rfl⟩

end Store

variable [DecidableEq K] [DecidableEq V]

/-- What a section does. -/
inductive Stage.Deed (settings : Settings K V Q R) (s : Store K V) :
    Stage K V Q R → StoreTurn K V Q R → Prop where
  | visits {operation : Operation K V Q R} {retries : Nat} {now : Instant}
      {turn : StoreTurn K V Q R} :
      s.Visit settings now operation turn → Deed settings s (.visit operation retries now) turn
  | keeps {stage : Stage K V Q R} {turn : StoreTurn K V Q R} :
      stage.ongoing = [] → turn.Still s → Deed settings s stage turn
  /-- The clock is read for a visit. -/
  | looks {operation : Operation K V Q R} {retries : Nat} {now : Instant}
      {turn : StoreTurn K V Q R} :
      turn.next = .keep (.visit operation retries now) → turn.frames = [] → turn.Spares s →
      Deed settings s (.round operation retries) turn
  /-- A wait is over and settles nothing. -/
  | resumes {operation : Operation K V Q R} {retries retries' fault : Nat}
      {resolution : Resolution V} {turn : StoreTurn K V Q R} :
      s.resolution? fault = some resolution → operation.shares resolution = none →
      turn.next = .keep (.round operation retries') → turn.frames = [] → turn.Spares s →
      Deed settings s (.await operation retries fault) turn
  /-- A wait is over, and the operation goes by what the computation left. -/
  | shares {operation : Operation K V Q R} {retries fault : Nat} {resolution : Resolution V}
      {left : Option V} {turn : StoreTurn K V Q R} :
      s.resolution? fault = some resolution → operation.shares resolution = some left →
      turn.Still s → turn.frames = [] → turn.next.reply? = operation.heeds resolution.verdict →
      Deed settings s (.await operation retries fault) turn
  /-- The thread was interrupted, or has seen too many computations end in a panic. -/
  | givesUp {operation : Operation K V Q R} {retries fault : Nat} {error : StoreError}
      {turn : StoreTurn K V Q R} :
      (∀ resolution, s.resolution? fault = some resolution →
        operation.shares resolution = none) →
      turn.next = .settle (.done (.failed error)) → turn.Still s → turn.frames = [] →
      (error = .interrupted ∧ s.resolution? fault = none ∨
        ∃ n, error = .abandoned n ∧ maxAbandoned ≤ n ∧ s.resolution? fault = some .retry) →
      Deed settings s (.await operation retries fault) turn
  /-- A stale holder or a victim leaves its slot. -/
  | expels {stage : Stage K V Q R} {turn : StoreTurn K V Q R} {key : K} {h : Holder V} :
      stage = .expel key h ∨ (∃ failed cause, stage = .evict failed key h cause) →
      s.holds key h = true → turn.state.map = s.map.erase key →
      turn.state.faults = s.faults → turn.ongoing = [] → Deed settings s stage turn
  | sweeps {segment : Nat} {turn : StoreTurn K V Q R} :
      turn.state.map = s.map.clearSegment segment → turn.state.faults = s.faults →
      turn.ongoing = [] → Deed settings s (.sweep segment) turn
  /-- The function is called. -/
  | calls {c : Computation K V Q R} {current : Option V} {turn : StoreTurn K V Q R} :
      settings.Shows (c.previous.map Holder.value) current →
      turn.next = .code (c.code c.key current) → turn.frames = [.computing c] →
      mappings turn.events = [(c.key, c.fault, current)] →
      turn.Spares s → Deed settings s (.own c) turn
  /-- A collaborator panicked on the way. -/
  | unwinds {stage : Stage K V Q R} {c : Computation K V Q R} {p : Panic}
      {turn : StoreTurn K V Q R} :
      stage = .own c ∧ mappings turn.events = [] ∨ (∃ value, stage = .compose c value) →
      stage.Balks settings p →
      turn.next = .keep (.restore c .retry (.raised p)) → turn.frames = [] →
      turn.Spares s → Deed settings s stage turn
  /-- The value that the function gave becomes a holder. -/
  | composes {c : Computation K V Q R} {value copy : V} {h : Holder V}
      {turn : StoreTurn K V Q R} :
      settings.copyIn value = .ok h.value → settings.Weighs c.key h.value h.weight →
      settings.copyOut h.value = .ok copy → turn.next = .keep (.install c h copy) →
      turn.frames = [] → turn.Spares s → Deed settings s (.compose c value) turn
  /-- The slot is left as it shall be, if it still has the fault, and the fault is resolved. -/
  | ends {stage : Stage K V Q R} {c : Computation K V Q R} {left : Option (Holder V)}
      {resolution : Resolution V} {signal : Signal V} {turn : StoreTurn K V Q R} :
      stage.ongoing = [.computes c (.leaving left resolution signal)] →
      turn.state.map = (if s.pendingIn c.key c.fault then s.map.leave c.key left else s.map) →
      turn.state.faults = (s.resolve c.fault resolution).faults →
      turn.ongoing = [] →
      (∀ h value, stage = .install c h value → s.pendingIn c.key c.fault = true →
        turn.Enforces) →
      turn.upshot? = some (.settle signal) → Deed settings s stage turn

namespace Stage

variable {settings : Settings K V Q R} {s : Store K V} {now : Instant} {stage : Stage K V Q R}
  {turn : StoreTurn K V Q R} {c : Computation K V Q R}

/-- What becomes of an operation when the computation that it waited for has ended. -/
theorem deed_resume (operation : Operation K V Q R) (retries : Nat) {fault : Nat}
    {resolution : Resolution V} (hresolved : s.resolution? fault = some resolution) :
    (Stage.await operation retries fault).Deed settings s
      (s.resume operation retries resolution) := by
  obtain ⟨a, heq, hresumes⟩ := s.resume_eq operation retries resolution
  rw [heq]
  cases hresumes with
  | tries => exact .resumes hresolved operation.shares_retry rfl rfl ⟨rfl, rfl⟩
  | again _ hshares => exact .resumes hresolved hshares rfl rfl ⟨rfl, rfl⟩
  | abandons hout =>
    refine .givesUp (fun found hfound => ?_) rfl ⟨rfl, rfl, rfl⟩ rfl
      (.inr ⟨_, rfl, hout, hresolved⟩)
    obtain rfl := Option.some.inj (hresolved.symm.trans hfound)
    exact operation.shares_retry
  | receives _ hshares | misses hshares =>
    refine .shares hresolved hshares ⟨rfl, rfl, rfl⟩ rfl ?_
    cases operation <;> first | rfl | cases hshares
  | missesFailed | fails => exact .shares hresolved rfl ⟨rfl, rfl, rfl⟩ rfl rfl

omit [DecidableEq K] [DecidableEq V] in
/-- The mapping function is shown a copy of the previous value, unless copying it panics. -/
theorem shown_spec (settings : Settings K V Q R) (c : Computation K V Q R) :
    mappings (c.shown settings).events = [] ∧
      ((∃ p, (c.shown settings).result = .error p ∧
          settings.BalksAtShowing (c.previous.map Holder.value) p) ∨
        ∃ current, (c.shown settings).result = .ok current ∧
          settings.Shows (c.previous.map Holder.value) current) := by
  cases hprevious : c.previous with
  | none =>
    rw [Computation.shown_of_none hprevious]
    exact ⟨rfl, .inr ⟨none, rfl, rfl⟩⟩
  | some h =>
    rw [Computation.shown_of_some hprevious]
    cases hcopy : settings.copyOut h.value with
    | error p => exact ⟨rfl, .inl ⟨p, rfl, h.value, rfl, hcopy⟩⟩
    | ok copy => exact ⟨rfl, .inr ⟨some copy, rfl, copy, hcopy, rfl⟩⟩

omit [DecidableEq K] [DecidableEq V] in
/-- The mapping function is called, or the computation is unwound. -/
theorem own_spec (settings : Settings K V Q R) (s : Store K V) (c : Computation K V Q R) :
    (s.own settings c).Spares s ∧
      ((∃ p, settings.BalksAtShowing (c.previous.map Holder.value) p ∧
          (s.own settings c).next = .keep (.restore c .retry (.raised p)) ∧
          (s.own settings c).frames = [] ∧ mappings (s.own settings c).events = []) ∨
        ∃ current, settings.Shows (c.previous.map Holder.value) current ∧
          (s.own settings c).next = .code (c.code c.key current) ∧
          (s.own settings c).frames = [.computing c] ∧
          mappings (s.own settings c).events = [(c.key, c.fault, current)]) := by
  have hspares : (s.asked c).map = s.map ∧ (s.asked c).faults = s.faults := by simp
  rw [Store.own_eq, Turn.consulting]
  obtain ⟨hevents, ⟨p, hresult, hpanic⟩ | ⟨current, hresult, hshows⟩⟩ := shown_spec settings c
  · rw [hresult]
    refine ⟨⟨hspares.1, hspares.2⟩, .inl ⟨p, hpanic, rfl, rfl, ?_⟩⟩
    simpa [mappings, Store.unwinding] using hevents
  · rw [hresult]
    refine ⟨⟨hspares.1, hspares.2⟩, .inr ⟨current, hshows, rfl, rfl, ?_⟩⟩
    rw [mappings] at hevents
    simp [mappings, hevents]

theorem deed_own : (Stage.own c).Deed settings s (s.own settings c) := by
  obtain ⟨hspares, ⟨p, hpanic, hnext, hframes, hnone⟩ | ⟨current, hshows, hnext, hframes, hone⟩⟩ :=
    own_spec settings s c
  · exact .unwinds (.inl ⟨rfl, hnone⟩) hpanic hnext hframes hspares
  · exact .calls hshows hnext hframes hone hspares

/-- Where the slot has the fault of a computation, it is left as it shall be. -/
theorem Deed.of_pending {left : Option (Holder V)} {resolution : Resolution V}
    {signal : Signal V} {s' : Store K V}
    (hold : stage.ongoing = [.computes c (.leaving left resolution signal)])
    (hpending : s.pendingIn c.key c.fault = true)
    (hstate : turn.state = s'.resolve c.fault resolution)
    (hmap : s'.map = s.map.leave c.key left) (hfaults : s'.faults = s.faults)
    (hnone : turn.ongoing = [])
    (henforces : ∀ h value, stage = .install c h value → turn.Enforces)
    (hsignal : turn.upshot? = some (.settle signal)) : stage.Deed settings s turn := by
  refine .ends hold ?_ ?_ hnone (fun h value hstage _ => henforces h value hstage) hsignal
  · rw [if_pos hpending, hstate, Store.map_resolve, hmap]
  · rw [hstate, Store.faults_resolve_congr s s' hfaults]

/-- Where it has not, only the fault is resolved. -/
theorem Deed.of_lost {left : Option (Holder V)} {resolution : Resolution V} {signal : Signal V}
    (hold : stage.ongoing = [.computes c (.leaving left resolution signal)])
    (hlost : s.pendingIn c.key c.fault = false) (hstate : turn.state = s.resolve c.fault resolution)
    (hnone : turn.ongoing = []) (hsignal : turn.upshot? = some (.settle signal)) :
    stage.Deed settings s turn := by
  refine .ends hold ?_ (by rw [hstate]) hnone (fun _ _ _ hpending => ?_) hsignal
  · rw [if_neg (by simp [hlost]), hstate, Store.map_resolve]
  · rw [hlost] at hpending
    cases hpending

/-- What every section does. -/
theorem deed {interrupted : Bool} {draws : List K}
    (hturn : stage.turn settings s now interrupted draws = some turn) :
    stage.Deed settings s turn := by
  cases sections hturn with
  | looks => exact .looks rfl rfl ⟨rfl, rfl⟩
  | visits => exact .visits (s.visit_spec _)
  | resumes hresolved => exact deed_resume _ _ hresolved
  | interrupts hpending =>
    refine .givesUp (fun found hfound => ?_) rfl ⟨rfl, rfl, rfl⟩ rfl (.inl ⟨rfl, hpending⟩)
    rw [hpending] at hfound
    cases hfound
  | expels hholds => exact .expels (.inl rfl) hholds rfl rfl rfl
  | evicts hholds => exact .expels (.inr ⟨_, _, rfl⟩) hholds rfl rfl rfl
  | sweeps | sweepsLast => exact .sweeps rfl rfl rfl
  | maps | unwinds => exact Option.some.inj hturn ▸ deed_own
  | @composes c value copy d hdraft hcopy =>
    obtain ⟨hvalue, hweight⟩ := Settings.draft_eq_ok hdraft
    exact .composes (h := (s.newHolder d).2) hvalue hweight hcopy rfl rfl ⟨rfl, rfl⟩
  | unwindsDraft hdraft =>
    exact .unwinds (.inr ⟨_, rfl⟩) (.inl ⟨_, _, hdraft⟩) rfl rfl ⟨rfl, rfl⟩
  | unwindsCopy hdraft hcopy =>
    exact .unwinds (.inr ⟨_, rfl⟩) (.inr ⟨_, (Settings.draft_eq_ok hdraft).1, hcopy⟩) rfl rfl
      ⟨rfl, rfl⟩
  | installs hpending =>
    exact .of_pending rfl hpending rfl rfl rfl rfl (fun _ _ _ => ⟨⟨_, rfl⟩, .inl rfl⟩) rfl
  | replaces hpending =>
    exact .of_pending rfl hpending rfl rfl rfl rfl
      (fun _ _ _ => ⟨⟨_, rfl⟩, .inr List.mem_cons_self⟩) rfl
  | vacates hpending | removes hpending =>
    exact .of_pending rfl hpending rfl rfl rfl rfl (by simp) rfl
  | restores hpending hprevious | restoresEmpty hpending hprevious =>
    exact .of_pending rfl hpending rfl (by rw [hprevious]; rfl) rfl rfl (by simp) rfl
  | installsNothing hlost | vacatesNothing hlost | restoresNothing hlost =>
    exact .of_lost rfl hlost rfl rfl rfl
  | _ => exact .keeps rfl ⟨rfl, rfl, rfl⟩

end Stage

/-! ## Steps -/

/-- What a step of a thread does to the slots, to the faults and to what is going on. -/
inductive Thread.Effect (settings : Settings K V Q R) (w : World K V Q R) (t : Thread K V Q R)
    (s : Step K V Q R) : Prop where
  | rests :
      (∀ stage, t.activity ≠ .keep stage) →
      (∀ operation code, t.activity ≠ .code (.call operation code)) →
      (∀ signal c rest, t.activity = .settle signal → t.stack ≠ .computing c :: rest) →
      s.world.store.map = w.store.map → s.world.store.faults = w.store.faults →
      s.thread.ongoing = t.ongoing → Effect settings w t s
  /-- A script calls an operation of the store. -/
  | calls {operation : Operation K V Q R} {code : Answer V → Script K V Q R} :
      t.activity = .code (.call operation code) →
      s.world.store.map = w.store.map → s.world.store.faults = w.store.faults →
      s.thread.ongoing = .seeks (operation.stored settings) :: t.ongoing → Effect settings w t s
  /-- A panic drops what was put off. -/
  | drops {p : Panic} {a : Activity K V Q R} {rest : List (Frame K V Q R)} :
      t.activity = .settle (.raised p) → t.stack = .next a :: rest →
      s.world.store.map = w.store.map → s.world.store.faults = w.store.faults →
      t.ongoing = a.ongoing ++ s.thread.ongoing → Effect settings w t s
  /-- The end of its function lets a computation go on. -/
  | moves {c : Computation K V Q R} {signal : Signal V} {rest : List (Frame K V Q R)}
      {base : List (Ongoing K V Q R)} :
      t.activity = .settle signal → t.stack = .computing c :: rest →
      s.world.store.map = w.store.map → s.world.store.faults = w.store.faults →
      t.ongoing = .computes c .running :: base →
      s.thread.ongoing = .computes c (c.progress signal) :: base → Effect settings w t s
  | acts {stage : Stage K V Q R} {turn : StoreTurn K V Q R} {base : List (Ongoing K V Q R)} :
      t.activity = .keep stage → stage.Deed settings w.store turn →
      s = .ofStore w t turn → t.ongoing = stage.ongoing ++ base →
      s.thread.ongoing = turn.ongoing ++ base → Effect settings w t s

section Effect

variable {settings : Settings K V Q R} {w : World K V Q R} {t : Thread K V Q R}
  {s : Step K V Q R}

omit [DecidableEq K] [DecidableEq V] in
theorem Thread.ongoing_goOn (t : Thread K V Q R) (turn : StoreTurn K V Q R) :
    (t.goOn turn.next turn.frames).ongoing =
      turn.ongoing ++ stackOngoing t.stack := by
  simp [Thread.ongoing, Thread.goOn, Turn.ongoing]

theorem Thread.Stride.effect (hstride : t.Stride settings w s) : t.Effect settings w s := by
  cases hstride with
  | works hactivity hsettled hcalls hstore ha hframes hevents =>
    have hstage : ∀ stage, t.activity ≠ .keep stage := by
      intro stage hstage
      rw [hstage] at hactivity
      exact hactivity
    have hsettle : ∀ signal c rest, t.activity = .settle signal → t.stack ≠ .computing c :: rest :=
      fun signal _ _ hsettle => absurd hsettle (hsettled signal)
    refine .rests hstage hcalls hsettle (congrArg Store.map hstore)
      (congrArg Store.faults hstore) ?_
    simp [Thread.ongoing, hactivity.ongoing_eq, ha.ongoing_eq, stackOngoing_eq_nil hframes]
  | calls hactivity =>
    refine .calls hactivity rfl rfl ?_
    simp [Thread.ongoing, hactivity, Stage.ongoing, Frame.ongoing]
  | enters hactivity =>
    refine .rests (by simp [hactivity]) (by simp [hactivity]) (by simp [hactivity]) rfl rfl ?_
    simp [Thread.ongoing, hactivity, Activity.ongoing, Frame.ongoing]
  | returns hactivity hstack hplain hnext hstore ha hevents =>
    refine .rests (by simp [hactivity]) (by simp [hactivity]) (fun _ c _ _ hcomputing => ?_)
      (congrArg Store.map hstore) (congrArg Store.faults hstore) ?_
    · rw [hstack] at hcomputing
      rw [(List.cons.inj hcomputing).1] at hplain
      exact hplain
    · simp [Thread.ongoing, hactivity, hstack, ha.ongoing_eq, hplain.ongoing_eq]
  | proceeds hactivity hstack =>
    refine .rests (by simp [hactivity]) (by simp [hactivity]) (by simp [hstack]) rfl rfl ?_
    simp [Thread.ongoing, hactivity, hstack]
  | unwinds hactivity hstack =>
    refine .drops hactivity hstack rfl rfl ?_
    simp [Thread.ongoing, hactivity, hstack]
  | @mapped signal c rest hactivity hstack =>
    obtain ⟨hspares, hframes, stage, hnext, hstage⟩ := w.store.mapped_spec c signal
    have hbefore : t.ongoing = .computes c .running :: stackOngoing rest := by
      simp [Thread.ongoing, hactivity, hstack]
    have hafter : (Step.ofStore w t.popped (w.store.mapped c signal)).thread.ongoing =
        .computes c (c.progress signal) :: stackOngoing rest := by
      simp [Step.ofStore, Thread.ongoing, Thread.goOn, Thread.popped, hnext, hframes, hstage,
        hstack]
    exact .moves hactivity hstack hspares.map hspares.faults hbefore hafter
  | @listened signal rest hactivity hstack =>
    obtain ⟨hstill, hframes⟩ := w.store.listened_spec (Q := Q) (R := R) signal
    refine .rests (by simp [hactivity]) (by simp [hactivity]) (by simp [hstack]) hstill.map
      hstill.faults ?_
    change (t.popped.goOn _ _).ongoing = _
    rw [Thread.ongoing_goOn, hstill.ongoing]
    simp [Thread.popped, Thread.ongoing, hactivity, hstack, Frame.ongoing]
  | @keeps stage draws turn hactivity hturn =>
    have hbefore : t.ongoing = stage.ongoing ++ stackOngoing t.stack := by
      simp [Thread.ongoing, hactivity]
    exact .acts hactivity (Stage.deed hturn) rfl hbefore (t.ongoing_goOn turn)

end Effect

/-! ## Passages -/

/-- What a passage of a machine can be. -/
inductive Passage.Course (settings : Settings K V Q R) (p : Passage K V Q R) : Prop where
  | step {i : Nat} {t : Thread K V Q R} {s : Step K V Q R} :
      p.mover = some i → p.before.threads[i]? = some t → t.Stride settings p.before.world s →
      p.after = ⟨s.world, p.before.threads.setIfInBounds i s.thread⟩ → p.events = s.events →
      Course settings p
  | outside : p.mover = none → p.before.Outside p.after → p.events = [] → Course settings p

theorem Passage.Lawful.course {settings : Settings K V Q R} {p : Passage K V Q R}
    (hp : p.Lawful settings) : p.Course settings := by
  rw [Passage.Lawful] at hp
  cases hmover : p.mover with
  | none =>
    rw [hmover] at hp
    exact .outside hmover hp.1 hp.2
  | some i =>
    rw [hmover] at hp
    obtain ⟨chance, hstep⟩ := hp
    obtain ⟨t, s, ht, hs, hafter, hevents⟩ := Machine.step_eq_some hstep
    exact .step hmover ht (Thread.stride hs) hafter hevents

/-- A thread after a passage is where it was, has just begun, or has taken the step. -/
theorem Passage.Lawful.thread_cases {settings : Settings K V Q R} {p : Passage K V Q R}
    (hp : p.Lawful settings) {i : Nat} {t : Thread K V Q R} (ht : p.after.threads[i]? = some t) :
    (p.mover ≠ some i ∧ p.before.threads[i]? = some t) ∨ (∃ script, t = .running script) ∨
      (p.mover = some i ∧ ∃ t' s, p.before.threads[i]? = some t' ∧
        t'.Stride settings p.before.world s ∧
        p.after = ⟨s.world, p.before.threads.setIfInBounds i s.thread⟩ ∧ s.thread = t) := by
  cases hp.course with
  | outside hnone houtside =>
    rcases houtside.threads_eq i with hsame | ⟨script, -, hspawned⟩
    · exact .inl ⟨by simp [hnone], hsame ▸ ht⟩
    · exact .inr (.inl ⟨script, Option.some.inj (ht.symm.trans hspawned)⟩)
  | @step j t' s hmover ht' hstride hafter =>
    rw [hafter] at ht
    by_cases hij : j = i
    · subst hij
      have hsize := (Array.getElem?_eq_some_iff.mp ht').1
      obtain rfl : s.thread = t := by simpa [hsize] using ht
      exact .inr (.inr ⟨hmover, t', s, ht', hstride, hafter, rfl⟩)
    · rw [Array.getElem?_setIfInBounds_ne hij] at ht
      exact .inl ⟨by simpa [hmover] using hij, ht⟩

/-- What holds of a thread that is about to run a script, and is kept by every step that a thread
takes in a reachable machine, holds of all threads. -/
theorem Machine.Reachable.all_threads_of_step {settings : Settings K V Q R} {m : Machine K V Q R}
    {P : Thread K V Q R → Prop} (hm : m.Reachable settings)
    (hrunning : ∀ script, P (.running script))
    (hstep : ∀ {p : Passage K V Q R} {i : Nat} {t : Thread K V Q R} {s : Step K V Q R},
      p.Lawful settings → p.before.Reachable settings → p.before.threads[i]? = some t →
      t.Stride settings p.before.world s →
      p.after = ⟨s.world, p.before.threads.setIfInBounds i s.thread⟩ → P t → P s.thread) :
    ∀ (i : Nat) t, m.threads[i]? = some t → P t := by
  obtain ⟨start, trace, hstart, run⟩ := hm
  induction run with
  | rest =>
    intro i t ht
    simp [hstart.threads] at ht
  | @move trace p run hp hbefore =>
    intro i t ht
    rcases hp.thread_cases ht with
      ⟨-, hsame⟩ | ⟨script, rfl⟩ | ⟨-, t', s, ht', hstride, hafter, rfl⟩
    · exact hbefore i t hsame
    · exact hrunning script
    · exact hstep hp (run.reachable hstart) ht' hstride hafter (hbefore i t' ht')

/-- What holds of a thread that is about to run a script, and is kept by every step of a thread,
holds of all threads. -/
theorem Machine.Reachable.all_threads {settings : Settings K V Q R} {m : Machine K V Q R}
    {P : Thread K V Q R → Prop} (hm : m.Reachable settings)
    (hrunning : ∀ script, P (.running script))
    (hstep : ∀ {w : World K V Q R} {t : Thread K V Q R} {s : Step K V Q R},
      t.Stride settings w s → P t → P s.thread) :
    ∀ (i : Nat) t, m.threads[i]? = some t → P t :=
  hm.all_threads_of_step hrunning fun _ _ _ hstride _ => hstep hstride

section Machine

omit [DecidableEq K] [DecidableEq V]

variable {m m' : Machine K V Q R}

theorem Machine.Outside.store_eq (hm : m.Outside m') : m'.world.store = m.world.store := by
  cases hm with
  | clock hclock =>
    obtain ⟨clock, -, rfl⟩ := Option.map_eq_some_iff.mp hclock
    rfl
  | trip i => rfl
  | spawn script => rfl

theorem Machine.Outside.ongoing_eq (hm : m.Outside m') :
    m'.ongoing = m.ongoing := by
  cases hm with
  | clock hclock => rfl
  | trip i => rfl
  | spawn script =>
    simp [Machine.ongoing, Machine.spawn, Thread.running, Thread.ongoing]

/-- A step of one thread replaces one stretch of what is going on. -/
theorem Machine.ongoing_set {i : Nat} {t : Thread K V Q R}
    (ht : m.threads[i]? = some t) (w : World K V Q R) :
    ∃ front back, m.ongoing = front ++ t.ongoing ++ back ∧
      ∀ t', (⟨w, m.threads.setIfInBounds i t'⟩ : Machine K V Q R).ongoing =
        front ++ t'.ongoing ++ back := by
  have hlist : m.threads.toList[i]? = some t := by simpa using ht
  obtain ⟨front, back, hbefore, hafter⟩ := exists_flatMap_set Thread.ongoing hlist
  refine ⟨front, back, hbefore, fun t' => ?_⟩
  simpa [Machine.ongoing] using hafter t'

end Machine

end SharedCache
