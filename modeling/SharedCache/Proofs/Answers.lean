import SharedCache.Proofs.Answers.Ends
import SharedCache.Proofs.Invocations
import SharedCache.Proofs.SingleKey

/-!
# Answers

Among the acts of a call about its key exactly one settles a reply, and the call ends as it was told
there.  Before that act the call looks at its key, waits or computes; after it nothing is left that
could settle another reply.
-/

namespace SharedCache

variable {K V Q R : Type}

/-! ## On the way to the reply -/

section Sections

variable [DecidableEq K] [DecidableEq V] {settings : Settings K V Q R} {s : Store K V}
  {operation : Operation K V Q R} {turn : StoreTurn K V Q R} {retries : Nat} {key : K}
  {now : Instant}

/-- Where an operation that waits for computations finds no expired value, it waits for a
computation, begins one, or has settled a reply. -/
theorem Operation.Finds.settles_or (hfinds : operation.Finds settings s retries now turn)
    (hconcerns : operation.concerns key = true) (hfresh : ∀ h, s.look key now ≠ .stale h) :
    (∃ fault, turn = .goTo s (.keep (.await operation retries fault))) ∨
      (∃ c, c.key = key ∧ turn.next = .keep (.own c) ∧ turn.frames = []) ∨
        turn.Settles settings := by
  obtain ⟨hwaits, hkey⟩ := Operation.concerns_eq_true.mp hconcerns
  have hsame : ∀ {other}, operation.key? = some other → other = key := fun hother =>
    Option.some.inj (hother.symm.trans hkey)
  have hnever : ∀ {other h}, operation.key? = some other → s.look other now ≠ .stale h := by
    intro other h hother
    rw [hsame hother]
    exact hfresh h
  cases hfinds with
  | waits => exact .inl ⟨_, rfl⟩
  | begins hother => exact .inr (.inl ⟨_, hsame hother, rfl, rfl⟩)
  | beginsStale hother _ hstale => exact absurd hstale (hnever hother)
  | reads | misses | declines | balks =>
    exact .inr (.inr (Turn.settles_of_next rfl rfl))
  | expels hstale => exact absurd hstale (hnever rfl)
  | drops hother _ _ hstale => exact absurd hstale (hnever hother)
  | putsStale hstale => exact absurd hstale (hnever rfl)
  | putsAbsent =>
    exact .inr (.inr (Turn.settles_of_postponed (.sees (.enforces trivial trivial)) rfl))
  | replaces =>
    exact .inr (.inr (Turn.settles_of_postponed
      (.sees (.reports (.inr ⟨trivial, rfl⟩))) rfl))
  | replacesEqual =>
    exact .inr (.inr (Turn.settles_of_postponed
      (.sees (.reports (.inr ⟨trivial, rfl⟩))) rfl))
  | tells | clears | puts | overwrites | removes | removesFault | removesEqual => cases hwaits

omit [DecidableEq K] [DecidableEq V] in
/-- After a wait an operation looks at its key again or has settled a reply. -/
theorem Store.resume_settles (settings : Settings K V Q R) (s : Store K V)
    (operation : Operation K V Q R) (retries : Nat) (resolution : Resolution V) :
    (∃ retries',
        s.resume operation retries resolution = .goTo s (.keep (.round operation retries')))
      ∨ (s.resume operation retries resolution).Settles settings := by
  obtain ⟨a, heq, hresumes⟩ := s.resume_eq operation retries resolution
  rw [heq]
  cases hresumes with
  | tries | again => exact .inl ⟨_, rfl⟩
  | _ => exact .inr (Turn.settles_of_next rfl rfl)

end Sections

/-- The operation looks at its key in this section, or waits. -/
def Stage.SeeksFor (operation : Operation K V Q R) : Stage K V Q R → Prop
  | .round other _ | .visit other _ _ | .await other _ _ => other = operation
  | _ => False

/-- What a call may have on its thread while its computation is in progress: its activity, and the
frames above those that wait for the call. -/
inductive Computation.IsCarried (c : Computation K V Q R) :
    Activity K V Q R → List (Frame K V Q R) → Prop where
  | keeps {stage : Stage K V Q R} {progress : Progress V} :
      stage.ongoing = [.computes c progress] → IsCarried c (.keep stage) []
  /-- The mapping function runs. -/
  | runs {a : Activity K V Q R} {inside : List (Frame K V Q R)} :
      IsCarried c a (inside ++ [.computing c])

/-- A call that computes is not over. -/
theorem Computation.IsCarried.ne_settle {c : Computation K V Q R} {a : Activity K V Q R}
    (hcarried : c.IsCarried a []) (signal : Signal V) : a ≠ .settle signal := by
  generalize habove : ([] : List (Frame K V Q R)) = above at hcarried
  cases hcarried with
  | keeps => simp
  | runs => simp at habove

section Computations

variable [DecidableEq K] [DecidableEq V] {settings : Settings K V Q R} {s : Store K V}
  {turn : StoreTurn K V Q R} {c : Computation K V Q R}

/-- A section of a computation goes on with it, or settles the reply of its call. -/
theorem Stage.computes_turn {stage : Stage K V Q R} {progress : Progress V} {now : Instant}
    {interrupted : Bool} {draws : List K} (hstage : stage.ongoing = [.computes c progress])
    (hturn : stage.turn settings s now interrupted draws = some turn) :
    (c.IsCarried turn.next turn.frames ∧ ∀ signal, turn.upshot? ≠ some (.settle signal)) ∨
      ∃ signal, turn.upshot? = some (.settle signal) ∧ turn.Honours settings (.ends signal) := by
  have hcomputation : ∀ {c' : Computation K V Q R} {progress' : Progress V},
      [Ongoing.computes c' progress'] = [.computes c progress] → c' = c := fun hsame =>
    (Ongoing.computes.inj (List.singleton_inj.mp hsame)).1
  cases Stage.sections hturn with
  | @maps c' current =>
    obtain rfl := hcomputation hstage
    have hruns : c'.IsCarried (.code (c'.code c'.key current)) ([] ++ [.computing c']) := .runs
    exact .inl ⟨hruns, by simp [Turn.upshot?, upshot?, Turn.after, Turn.above, Turn.goTo]⟩
  | unwinds | composes | unwindsDraft | unwindsCopy =>
    obtain rfl := hcomputation hstage
    exact .inl ⟨.keeps rfl, by simp [Store.unwinding]⟩
  | installs => exact .inr ⟨_, rfl, Store.honours_enforcing _ (.inl rfl)⟩
  | replaces => exact .inr ⟨_, rfl, Store.honours_replacing _ _ _ _ (.inl rfl)⟩
  | removes => exact .inr ⟨_, rfl, Store.honours_reporting _ _ _ _ (.inl rfl)⟩
  | installsNothing | vacates | vacatesNothing | restores | restoresEmpty | restoresNothing =>
    exact .inr ⟨_, rfl, .arrives (.inl rfl)⟩
  | looks | visits | resumes | interrupts => cases List.singleton_inj.mp hstage
  | _ => cases hstage

end Computations

/-! ## The acts of a call -/

/-- An act is one of this operation, or of the computation that the operation has begun by one of
these acts. -/
def Act.IsOf (operation : Operation K V Q R) (acts : List (Act K V Q R)) : Act K V Q R → Prop
  | .called other | .waited other _ | .again other _ | .decided other _ _ | .crashed other _
  | .shared other _ _ | .gaveUp other _ _ | .began other _ => other = operation
  | .mapped fault _ | .returned fault _ | .unwound fault _ | .composed fault _ _
  | .ended fault _ _ => .began operation fault ∈ acts

theorem Act.IsOf.mono {operation : Operation K V Q R} {acts acts' : List (Act K V Q R)}
    {act : Act K V Q R} (hact : act.IsOf operation acts) (hacts : acts ⊆ acts') :
    act.IsOf operation acts' := by
  cases act with
  | mapped | returned | unwound | composed | ended => exact hacts hact
  | _ => exact hact

namespace Passage

variable [DecidableEq K] {p : Passage K V Q R} {key : K} {operation : Operation K V Q R}
  {fault : Nat} {acts : List (Act K V Q R)} {act : Act K V Q R}

theorem reply?_visited? : (p.visited? key operation).bind Act.reply? = p.reply? := by
  rw [visited?]
  split
  case h_4 => cases hreply : p.reply? <;> simp [Act.reply?]
  all_goals
    rename_i hupshot
    rw [reply?, hupshot]
    rfl

omit [DecidableEq K] in
theorem reply?_resumed? : (p.resumed? operation fault).bind Act.reply? = p.reply? := by
  rw [resumed?]
  split
  case h_4 => cases hreply : p.reply? <;> simp [Act.reply?]
  all_goals
    rename_i hupshot
    rw [reply?, hupshot]
    rfl

theorem isOf_visited? (hact : p.visited? key operation = some act) : act.IsOf operation acts := by
  rw [visited?] at hact
  split at hact
  case h_4 =>
    obtain ⟨reply, -, rfl⟩ := Option.map_eq_some_iff.mp hact
    rfl
  all_goals
    obtain rfl := Option.some.inj hact
    rfl

omit [DecidableEq K] in
theorem isOf_resumed? (hact : p.resumed? operation fault = some act) : act.IsOf operation acts := by
  rw [resumed?] at hact
  split at hact
  case h_4 =>
    obtain ⟨reply, -, rfl⟩ := Option.map_eq_some_iff.mp hact
    rfl
  all_goals
    obtain rfl := Option.some.inj hact
    rfl

theorem isOf_carried? (hbegan : .began operation fault ∈ acts)
    (hact : p.carried? key fault = some act) : act.IsOf operation acts := by
  rw [carried?] at hact
  split at hact
  case h_4 =>
    obtain ⟨call, -, rfl⟩ := Option.map_eq_some_iff.mp hact
    exact hbegan
  all_goals
    obtain rfl := Option.some.inj hact
    exact hbegan

/-- A computation settles the reply of its call by its end only. -/
theorem reply?_carried? (hnot : ∀ signal, p.upshot? ≠ some (.settle signal)) :
    (p.carried? key fault).bind Act.reply? = none := by
  rw [carried?]
  split
  case h_3 signal hupshot => exact absurd hupshot (hnot signal)
  case h_4 => cases (mappings p.events).head? <;> rfl
  all_goals rfl

end Passage

namespace Invocation

variable (call : Invocation K V Q R) [DecidableEq K]

/-- What the steps of the call itself do about a key. -/
def acts (settings : Settings K V Q R) (key : K) (trace : List (Passage K V Q R)) :
    List (Act K V Q R) :=
  (trace.filter call.isOwn).filterMap (Passage.act? settings key)

/-- All acts of the call are of its operation, and this reply is the only one that they settle. -/
structure Told (settings : Settings K V Q R) (key : K) (trace : List (Passage K V Q R))
    (reply : Option (Reply V)) : Prop where
  own : ∀ act ∈ call.acts settings key trace,
    act.IsOf call.operation (call.acts settings key trace)
  replies : (call.acts settings key trace).filterMap Act.reply? = reply.toList

section Told

variable {call} {settings : Settings K V Q R} {key : K} {trace : List (Passage K V Q R)}
  {p : Passage K V Q R} {reply : Option (Reply V)}

theorem acts_snoc_own (hown : call.isOwn p = true) :
    call.acts settings key (trace ++ [p]) =
      call.acts settings key trace ++ (p.act? settings key).toList := by
  rw [acts, filter_snoc_own trace hown, List.filterMap_append, acts]
  cases hact : p.act? settings key <;> simp [hact]

theorem acts_subset_snoc :
    call.acts settings key trace ⊆ call.acts settings key (trace ++ [p]) := by
  rw [acts, acts, List.filter_append, List.filterMap_append]
  exact List.subset_append_left _ _

theorem told_nil : call.Told settings key [] none := ⟨by simp [acts], by simp [acts]⟩

/-- A passage without an act of the call leaves its acts as they are. -/
theorem Told.snoc_idle (htold : call.Told settings key trace reply)
    (hidle : call.isOwn p = true → p.act? settings key = none) :
    call.Told settings key (trace ++ [p]) reply := by
  have hsame : call.acts settings key (trace ++ [p]) = call.acts settings key trace := by
    cases hown : call.isOwn p with
    | true => rw [acts_snoc_own hown, hidle hown, Option.toList_none, List.append_nil]
    | false => rw [acts, filter_snoc_other trace hown, acts]
  exact ⟨hsame ▸ htold.own, hsame ▸ htold.replies⟩

/-- A step of a call that has not been told anything. -/
theorem Told.snoc_own (htold : call.Told settings key trace none) (hown : call.isOwn p = true)
    (hreply : (p.act? settings key).bind Act.reply? = reply)
    (hof : ∀ act, p.act? settings key = some act →
      act.IsOf call.operation (call.acts settings key trace)) :
    call.Told settings key (trace ++ [p]) reply := by
  have hacts : call.acts settings key (trace ++ [p]) =
      call.acts settings key trace ++ (p.act? settings key).toList := acts_snoc_own hown
  constructor
  · intro act hact
    rw [hacts] at hact ⊢
    refine Act.IsOf.mono ?_ (List.subset_append_left _ _)
    rcases List.mem_append.mp hact with hold | hnew
    · exact htold.own act hold
    · exact hof act (Option.mem_toList.mp hnew)
  · rw [hacts, List.filterMap_append, htold.replies, ← hreply]
    cases hact : p.act? settings key with
    | none => rfl
    | some act => cases hreplied : act.reply? <;> simp [hreplied]

end Told

/-! ## Where a call stands -/

variable [DecidableEq V]

/-- Where a call stands after a run: it looks at its key or waits, or it computes, or its reply is
settled. -/
inductive Answering (settings : Settings K V Q R) (key : K) (trace : List (Passage K V Q R))
    (m : Machine K V Q R) : Prop where
  | seeks {t : Thread K V Q R} {stage : Stage K V Q R} :
      m.threads[call.thread]? = some t → t.stack = call.base → t.activity = .keep stage →
      stage.SeeksFor call.operation → call.Told settings key trace none →
      Answering settings key trace m
  | computes {t : Thread K V Q R} {above : List (Frame K V Q R)} {c : Computation K V Q R} :
      m.threads[call.thread]? = some t → t.stack = above ++ call.base →
      c.IsCarried t.activity above → c.key = key →
      .began call.operation c.fault ∈ call.acts settings key trace →
      call.Told settings key trace none → Answering settings key trace m
  | answers {t : Thread K V Q R} {above : List (Frame K V Q R)} {reply : Reply V} :
      m.threads[call.thread]? = some t → t.stack = above ++ call.base →
      reply.Binds settings t.activity above → call.Told settings key trace (some reply) →
      Answering settings key trace m

section Steps

variable {call} {settings : Settings K V Q R} {key : K} {start m : Machine K V Q R}
  {trace : List (Passage K V Q R)} {p : Passage K V Q R} {t : Thread K V Q R}

/-- The other threads leave the call where it stands. -/
theorem Answering.of_other (hat : call.Answering settings key trace p.before)
    (hp : p.Lawful settings) (hmover : p.mover ≠ some call.thread) :
    call.Answering settings key (trace ++ [p]) p.after := by
  have hother := not_isOwn_of_mover hmover
  have hidle : call.isOwn p = true → p.act? settings key = none := by simp [hother]
  cases hat with
  | seeks ht hstack hactivity hseeks htold =>
    exact .seeks (hp.thread_eq hmover ht) hstack hactivity hseeks (htold.snoc_idle hidle)
  | computes ht hstack hcarried hkey hbegan htold =>
    exact .computes (hp.thread_eq hmover ht) hstack hcarried hkey (acts_subset_snoc hbegan)
      (htold.snoc_idle hidle)
  | answers ht hstack hbinds htold =>
    exact .answers (hp.thread_eq hmover ht) hstack hbinds (htold.snoc_idle hidle)

omit [DecidableEq V] in
/-- A section of the call settles a reply, which binds the call from then on. -/
theorem Answering.of_settles {stage : Stage K V Q R} {turn : StoreTurn K V Q R}
    (hsection : p.IsSection stage turn) (hown : call.isOwn p = true)
    (hthread : p.after.threads[call.thread]? = some t)
    (hstack : t.stack = turn.frames ++ call.base) (hactivity : t.activity = turn.next)
    (htold : call.Told settings key trace none)
    (hreply : (p.act? settings key).bind Act.reply? = p.reply?)
    (hof : ∀ act, p.act? settings key = some act →
      act.IsOf call.operation (call.acts settings key trace))
    (hsettles : turn.Settles settings) :
    call.Answering settings key (trace ++ [p]) p.after := by
  obtain ⟨reply, hsettled, hhonours⟩ := hsettles
  have hreplied : p.reply? = some reply := by
    rw [Passage.reply?, hsection.upshot?]
    exact hsettled
  exact .answers hthread hstack (hactivity ▸ hhonours)
    (htold.snoc_own hown (hreply.trans hreplied) hof)

/-- The call looks at its key. -/
theorem Answering.of_visits (hp : p.Lawful settings) (hmover : p.mover = some call.thread)
    (ht : p.before.threads[call.thread]? = some t) (hstack : t.stack = call.base)
    {retries : Nat} {now : Instant}
    (hactivity : t.activity = .keep (.visit call.operation retries now))
    (htold : call.Told settings key trace none)
    (hconcerns : call.operation.concerns key = true) (hcalm : ¬ p.Disturbs key) :
    call.Answering settings key (trace ++ [p]) p.after := by
  have hown := isOwn_of_stack hmover ht hstack
  have hstage := Passage.stage?_of_keep hmover ht hactivity
  obtain ⟨draws, turn, hturn, hstore, hthread, hevents⟩ := hp.own_turn hmover ht hactivity
  have hsection : p.IsSection _ turn := .of_thread hmover ht hactivity hstore hthread hevents
  have hact : p.act? settings key = p.visited? key call.operation := by
    rw [Passage.act?_of_stage hstage, Passage.sectionAct?, if_pos hconcerns]
  have hof : ∀ act, p.act? settings key = some act →
      act.IsOf call.operation (call.acts settings key trace) := fun act hsome =>
    Passage.isOf_visited? (hact.symm.trans hsome)
  have hreply : (p.act? settings key).bind Act.reply? = p.reply? := by
    rw [hact, Passage.reply?_visited?]
  have hfresh : ∀ h, p.before.world.store.look key now ≠ .stale h := by
    intro h hstale
    apply hcalm
    rw [Passage.Disturbs, hstage]
    exact ⟨(Operation.concerns_eq_true.mp hconcerns).2, .inr ⟨h, hstale⟩⟩
  obtain rfl := Option.some.inj hturn
  rcases (Store.finds call.operation).settles_or hconcerns hfresh with
    ⟨fault, hwaits⟩ | ⟨c, hkey, hnext, hframes⟩ | hsettles
  · refine .seeks hthread ?_ (congrArg Turn.next hwaits) rfl (htold.snoc_own hown ?_ hof)
    · simp [hwaits, Turn.goTo, hstack]
    · rw [hreply, Passage.reply?, hsection.upshot?, hwaits]
      rfl
  · have hupshot : p.upshot? = some (.keep (.own c)) := by
      rw [hsection.upshot?, Turn.upshot?_of_frames hframes, hnext]
    have hbegan : p.act? settings key = some (.began call.operation c.fault) := by
      rw [hact, Passage.visited?, hupshot]
    refine .computes hthread (by rw [hstack]) ?_ hkey ?_ (htold.snoc_own hown ?_ hof)
    · rw [hnext, hframes]
      exact .keeps rfl
    · rw [acts_snoc_own hown, hbegan]
      simp
    · rw [hbegan]
      rfl
  · exact .of_settles hsection hown hthread (by rw [hstack]) rfl htold hreply hof hsettles

/-- The call waits for a computation. -/
theorem Answering.of_awaits (hp : p.Lawful settings) (hmover : p.mover = some call.thread)
    (ht : p.before.threads[call.thread]? = some t) (hstack : t.stack = call.base)
    {retries fault : Nat} (hactivity : t.activity = .keep (.await call.operation retries fault))
    (htold : call.Told settings key trace none)
    (hconcerns : call.operation.concerns key = true) :
    call.Answering settings key (trace ++ [p]) p.after := by
  have hown := isOwn_of_stack hmover ht hstack
  obtain ⟨draws, turn, hturn, hstore, hthread, hevents⟩ := hp.own_turn hmover ht hactivity
  have hsection : p.IsSection _ turn := .of_thread hmover ht hactivity hstore hthread hevents
  have hact : p.act? settings key = p.resumed? call.operation fault := by
    rw [Passage.act?_of_stage hsection.stage, Passage.sectionAct?, if_pos hconcerns]
  have hof : ∀ act, p.act? settings key = some act →
      act.IsOf call.operation (call.acts settings key trace) := fun act hsome =>
    Passage.isOf_resumed? (hact.symm.trans hsome)
  have hreply : (p.act? settings key).bind Act.reply? = p.reply? := by
    rw [hact, Passage.reply?_resumed?]
  have hsettles : (∃ retries', turn =
        .goTo p.before.world.store (.keep (.round call.operation retries'))) ∨
      turn.Settles settings := by
    cases Stage.sections hturn with
    | resumes => exact p.before.world.store.resume_settles settings _ _ _
    | interrupts => exact .inr (Turn.settles_of_next rfl rfl)
  rcases hsettles with ⟨retries', rfl⟩ | hsettles
  · refine .seeks hthread hstack rfl rfl (htold.snoc_own hown ?_ hof)
    rw [hreply, Passage.reply?, hsection.upshot?]
    rfl
  · exact .of_settles hsection hown hthread (by rw [hstack]) rfl htold hreply hof hsettles

/-- The call looks at its key, or goes on waiting for it. -/
theorem Answering.of_seeks (hp : p.Lawful settings) (hmover : p.mover = some call.thread)
    (ht : p.before.threads[call.thread]? = some t) (hstack : t.stack = call.base)
    {stage : Stage K V Q R} (hactivity : t.activity = .keep stage)
    (hseeks : stage.SeeksFor call.operation) (htold : call.Told settings key trace none)
    (hconcerns : call.operation.concerns key = true) (hcalm : ¬ p.Disturbs key) :
    call.Answering settings key (trace ++ [p]) p.after := by
  cases stage with
  | round operation retries =>
    obtain rfl : operation = call.operation := hseeks
    obtain ⟨draws, turn, hturn, -, hthread, -⟩ := hp.own_turn hmover ht hactivity
    have hact : p.act? settings key = none :=
      Passage.act?_of_stage (Passage.stage?_of_keep hmover ht hactivity)
    obtain rfl := Option.some.inj hturn
    exact .seeks hthread hstack rfl rfl (htold.snoc_idle fun _ => hact)
  | visit operation retries now =>
    obtain rfl : operation = call.operation := hseeks
    exact .of_visits hp hmover ht hstack hactivity htold hconcerns hcalm
  | await operation retries fault =>
    obtain rfl : operation = call.operation := hseeks
    exact .of_awaits hp hmover ht hstack hactivity htold hconcerns
  | _ => exact hseeks.elim

/-- The computation of the call goes on, or its end settles the reply. -/
theorem Answering.of_computes (hp : p.Lawful settings) (hmover : p.mover = some call.thread)
    (ht : p.before.threads[call.thread]? = some t) {above : List (Frame K V Q R)}
    {c : Computation K V Q R} (hstack : t.stack = above ++ call.base)
    (hcarried : c.IsCarried t.activity above) (hkey : c.key = key)
    (hbegan : .began call.operation c.fault ∈ call.acts settings key trace)
    (htold : call.Told settings key trace none) :
    call.Answering settings key (trace ++ [p]) p.after := by
  have hbegan' : .began call.operation c.fault ∈ call.acts settings key (trace ++ [p]) :=
    acts_subset_snoc hbegan
  generalize hactivity : t.activity = a at hcarried
  cases hcarried with
  | keeps hongoing =>
    have hown := isOwn_of_stack hmover ht hstack
    obtain ⟨draws, turn, hturn, hstore, hthread, hevents⟩ := hp.own_turn hmover ht hactivity
    have hsection : p.IsSection _ turn := .of_thread hmover ht hactivity hstore hthread hevents
    have hact : p.act? settings key = p.carried? key c.fault := by
      rw [Passage.act?_of_stage hsection.stage, Passage.sectionAct?_of_computes hongoing,
        if_pos hkey]
    have hof : ∀ act, p.act? settings key = some act →
        act.IsOf call.operation (call.acts settings key trace) := fun act hsome =>
      Passage.isOf_carried? hbegan (hact.symm.trans hsome)
    rcases Stage.computes_turn hongoing hturn with
      ⟨hcarried, hnot⟩ | ⟨signal, hsettles, hhonours⟩
    · refine .computes hthread (by rw [hstack]; rfl) hcarried hkey hbegan'
        (htold.snoc_own hown ?_ hof)
      rw [hact]
      exact Passage.reply?_carried? fun signal => hsection.upshot? ▸ hnot signal
    · refine .answers hthread (by rw [hstack]; rfl) hhonours (htold.snoc_own hown ?_ hof)
      rw [hact, Passage.carried?, hsection.upshot?, hsettles]
      rfl
  | @runs _ inside =>
    obtain ⟨chance, step, hstep, -, hthread, -⟩ := hp.own_step hmover ht
    rw [List.append_assoc, List.singleton_append] at hstack
    by_cases hover : inside = [] ∧ ∃ signal, t.activity = .settle signal
    · obtain ⟨rfl, signal, hsettle⟩ := hover
      have hown : call.isOwn p = true := by
        have htop : t.stack = [.computing c] ++ call.base := hstack
        rw [isOwn_eq hmover ht]
        exact Thread.attends_of_settle htop hsettle (by simp)
      have hact : p.act? settings key = some (.returned c.fault signal) := by
        rw [Passage.act?_of_returns (Passage.thread?_eq hmover ht) hsettle hstack, if_pos hkey]
      obtain ⟨-, hframes, stage, hnext, hongoing⟩ :=
        p.before.world.store.mapped_spec c signal
      obtain rfl := Thread.receive_of_step hsettle hstack hstep
      have hcarried : c.IsCarried (p.before.world.store.mapped c signal).next [] :=
        hnext ▸ .keeps hongoing
      refine .computes hthread ?_ hcarried hkey hbegan' (htold.snoc_own hown (by rw [hact]; rfl) ?_)
      · simp [Frame.receive, Step.ofStore, Thread.goOn, Thread.popped, hframes, hstack]
      · rintro act hsome
        obtain rfl := Option.some.inj (hact.symm.trans hsome)
        exact hbegan
    · rcases (Thread.stride hstep).below hstack with hended | ⟨inside', hstack'⟩
      · exact absurd hended hover
      · have hcarried : c.IsCarried step.thread.activity (inside' ++ [.computing c]) := .runs
        refine .computes hthread (by simp [hstack']) hcarried hkey hbegan'
          (htold.snoc_idle fun hown => ?_)
        have hruns : t.stack = (inside ++ .computing c :: []) ++ call.base := by simp [hstack]
        rw [isOwn_eq hmover ht, Thread.not_attends_of_runs hruns rfl hover] at hown
        cases hown

/-- The call goes on to the end that it has been told. -/
theorem Answering.of_answers (hp : p.Lawful settings) (hmover : p.mover = some call.thread)
    (ht : p.before.threads[call.thread]? = some t) {above : List (Frame K V Q R)}
    {reply : Reply V} (hstack : t.stack = above ++ call.base)
    (hbinds : reply.Binds settings t.activity above)
    (htold : call.Told settings key trace (some reply))
    (hwithin : t.stack = call.base → ∀ signal, t.activity ≠ .settle signal) :
    call.Answering settings key (trace ++ [p]) p.after := by
  obtain ⟨chance, step, hstep, -, hthread, -⟩ := hp.own_step hmover ht
  rcases hbinds.step_cases hstack hstep with ⟨rfl, signal, hover⟩ | ⟨above', hstack', hbinds'⟩
  · exact absurd hover (hwithin hstack signal)
  · refine .answers hthread hstack' hbinds' (htold.snoc_idle fun hown => ?_)
    rw [isOwn_eq hmover ht] at hown
    refine hbinds.act?_eq_none (Passage.thread?_eq hmover ht) hstack hown fun hnil signal => ?_
    exact hwithin (by rw [hstack, hnil, List.nil_append]) signal

/-- A step of its thread takes the call on its way. -/
theorem Answering.of_own (hat : call.Answering settings key trace p.before)
    (hp : p.Lawful settings) (hmover : p.mover = some call.thread)
    (hconcerns : call.operation.concerns key = true) (hcalm : ¬ p.Disturbs key)
    (hwithin : ∀ t, p.before.threads[call.thread]? = some t → t.stack = call.base →
      ∀ signal, t.activity ≠ .settle signal) :
    call.Answering settings key (trace ++ [p]) p.after := by
  cases hat with
  | seeks ht hstack hactivity hseeks htold =>
    exact .of_seeks hp hmover ht hstack hactivity hseeks htold hconcerns hcalm
  | computes ht hstack hcarried hkey hbegan htold =>
    exact .of_computes hp hmover ht hstack hcarried hkey hbegan htold
  | answers ht hstack hbinds htold =>
    exact .of_answers hp hmover ht hstack hbinds htold (hwithin _ ht)

/-- Every run from the beginning of a call that nothing disturbs leaves it somewhere. -/
theorem answering_of_run (run : Run settings start trace m) (hspans : call.Spans start trace)
    (hconcerns : call.operation.concerns key = true) (hcalm : ∀ p ∈ trace, ¬ p.Disturbs key) :
    call.Answering settings key trace m := by
  obtain ⟨⟨binding, hbegins⟩, hwithin⟩ := hspans
  induction run with
  | rest => exact .seeks hbegins rfl rfl rfl told_nil
  | @move trace p _ hp ih =>
    have hat := ih (fun q hq => hcalm q (List.mem_append_left _ hq))
      fun q hq => hwithin q (List.mem_append_left _ hq)
    by_cases hmover : p.mover = some call.thread
    · exact hat.of_own hp hmover hconcerns (hcalm p (by simp)) (hwithin p (by simp) hmover)
    · exact hat.of_other hp hmover

omit [DecidableEq V] in
/-- A call that is over has been told how it was going to end. -/
theorem Answering.ends {signal : Signal V} (hat : call.Answering settings key trace m)
    (hover : call.IsOver m signal) :
    ∃ reply, call.Told settings key trace (some reply) ∧ reply.Allows settings signal := by
  obtain ⟨binding, hended⟩ := hover
  have hsame : ∀ {t : Thread K V Q R}, m.threads[call.thread]? = some t →
      t = ⟨.settle signal, call.base, binding⟩ := fun ht =>
    Option.some.inj (ht.symm.trans hended)
  cases hat with
  | seeks ht _ hactivity =>
    obtain rfl := hsame ht
    cases hactivity
  | @computes t above c ht hstack hcarried =>
    obtain rfl := hsame ht
    obtain rfl : above = [] := by simpa using hstack
    exact absurd rfl (hcarried.ne_settle signal)
  | @answers t above reply ht hstack hbinds htold =>
    obtain rfl := hsame ht
    obtain rfl : above = [] := by simpa using hstack
    exact ⟨reply, htold, hbinds.allows⟩

end Steps

end Invocation

end SharedCache
