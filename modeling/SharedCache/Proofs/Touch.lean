import SharedCache.Proofs.Touch.Steps

/-!
# First touches

An expired value stays in its slot until an operation looks at its key.  Most operations take it out
then, make its expiration known, and go on as they do where there is no value at all; `contains` and
`removeIfEqual` answer as where there is no value, and leave it where it is.

After the look a call is on its way to one of a few aims.  What lies in between, the report of the
expiration and an enforcement that finds no bound, does not touch the slot, so the aim is reached
whatever the listener does with other keys.
-/

namespace SharedCache

variable {K V Q R : Type}

namespace Call

variable (call : Call K V Q R) [DecidableEq K] [DecidableEq V]

section Runs

variable {call} {settings : Settings K V Q R} {old : Option (Holder V)} {since : Instant}
  {start m : Machine K V Q R} {trace : List (Passage K V Q R)} {p : Passage K V Q R}
  {t : Thread K V Q R} {above : List (Frame K V Q R)} {n : Nat} {signal : Signal V}

section Steps

variable (hp : p.Lawful settings) (hmover : p.mover = some call.thread)
  (ht : p.before.threads[call.thread]? = some t) (hstack : t.stack = above ++ call.base)
  (hnears : call.Nears settings old since trace p.before.world.store n t.activity above)

include hp hmover ht hstack hnears

/-- Every step of the call brings it nearer to its end. -/
theorem Nears.advances (hm : p.before.Reachable settings)
    (hcapacity : settings.blueprint.capacity = none) (hsince : since ≤ p.before.world.clock.now)
    (hid : ∀ h ∈ old, h.id < p.before.world.store.deadlines.size)
    (hwithin : t.stack = call.base → ∀ signal, t.activity ≠ .settle signal)
    (hown : call.isOwn p = true) : call.Advances settings old since trace p n := by
  generalize hactivity : t.activity = a at hnears
  cases hnears with
  | rounds hslot hold hsilent =>
    exact advances_round hp hmover ht hm hstack hactivity hslot hold hsince hsilent
  | visits hslot hold hsilent =>
    exact advances_visit hp hmover ht hm hstack hactivity hslot hold hid hsilent
  | expels hsome hslot hsilent hget hlooks =>
    exact advances_expel hp hmover ht hm hstack hactivity hsome hslot hget hlooks hsilent
  | judges hsome hold hsilent haims hwaits =>
    exact advances_judge hp hmover ht hm hstack hwaits hactivity hsome hold haims hsilent
  | dismisses hsome hold hsilent haims =>
    exact advances_dismiss hp hmover ht hm hstack hactivity hsome hold haims hsilent
  | reports hsome hsilent haims hwaits =>
    exact advances_report hp hmover ht hstack hwaits hactivity hsome haims hsilent
  | @listens _ a k j inside frames htells haims hwaits =>
    by_cases hruns : inside = [] ∧ ∃ signal, t.activity = .settle signal
    · obtain ⟨rfl, signal, hsettled⟩ := hruns
      exact advances_listened hp hm hmover ht hsettled hstack hwaits haims htells
    · exact absurd hown (by simp [not_isOwn_of_runs hmover ht hstack rfl hruns])
  | passes htells haims hwaits =>
    exact advances_passes hp hm hmover ht hactivity hstack hwaits haims htells
  | enforces htells haims =>
    exact advances_enforce hp hmover ht hm hcapacity hstack hactivity haims htells
  | arrives htells haims =>
    cases haims with
    | missed hget hlooks hgone =>
      exact advances_missed hp hm hmover ht hstack htells hactivity hget hlooks hgone
    | own hoccupies => exact advances_own hp hm hmover ht hstack htells hactivity hoccupies
    | composes hoccupies hasks hhears hvalue =>
      exact advances_compose hp hm hmover ht hstack htells hactivity hoccupies hasks hid hhears
        hvalue
    | installs hoccupies hasks hnew hconcludes =>
      exact advances_install hp hm hmover ht hstack htells hactivity hoccupies hasks hnew hconcludes
    | vacates hoccupies hasks hconcludes =>
      exact advances_leaving hp hm hmover ht hstack htells hactivity (.inl ⟨_, rfl, rfl⟩) hoccupies
        hasks hconcludes
    | restores hoccupies hasks hconcludes =>
      exact advances_leaving hp hm hmover ht hstack htells hactivity (.inr rfl)
        hoccupies hasks hconcludes
    | settles => exact absurd hactivity (hwithin (by simpa using hstack) _)
  | @runs c _ inside htells hoccupies hasks =>
    by_cases hruns : inside = [] ∧ ∃ signal, t.activity = .settle signal
    · obtain ⟨rfl, signal, hsettled⟩ := hruns
      exact advances_mapped hp hm hmover ht hsettled hstack hoccupies hasks htells
    · exact absurd hown (by simp [not_isOwn_of_runs hmover ht hstack rfl hruns])
  | unwinds hmeets hunheard hgone htells hframes =>
    by_cases hempty : above = []
    · exact absurd hactivity (hwithin (by simpa [hempty] using hstack) _)
    · exact advances_unwinds hp hm hmover ht hactivity hstack hempty hmeets hunheard hgone htells
        hframes
  | ends => exact absurd hactivity (hwithin (by simpa using hstack) _)

/-- What runs above a frame that has called back leaves the call where it is. -/
theorem Nears.waits (hslot : p.after.slot? call.key = p.before.slot? call.key)
    (hother : call.isOwn p = false) : ∃ t' above', p.after.threads[call.thread]? = some t' ∧
      t'.stack = above' ++ call.base ∧
      call.Nears settings old since (trace ++ [p]) p.after.world.store n t'.activity above' := by
  have hno : call.isOwn p = true → p.IsSilent := by simp [hother]
  obtain ⟨chance, s, hstep, -, ht', -⟩ := hp.own_step hmover ht
  -- A frame that has called back is left only by a step of the call.
  have hbelow : ∀ {inside rest : List (Frame K V Q R)} {frame : Frame K V Q R},
      above = inside ++ frame :: rest → (∀ frame ∈ rest, frame.callsBack = false) →
      ∃ inside', s.thread.stack = (inside' ++ frame :: rest) ++ call.base := by
    rintro inside rest frame rfl hrest
    rw [List.append_assoc, List.cons_append] at hstack
    rcases (Thread.stride hstep).below hstack with ⟨rfl, signal, hsettled⟩ | ⟨inside', hinside⟩
    · rw [isOwn_of_settle hmover ht hstack hsettled hrest] at hother
      cases hother
    · exact ⟨inside', by simp [hinside]⟩
  have hplain : (∀ frame ∈ above, frame.callsBack = false) → False := fun habove => by
    rw [isOwn_of_stack hmover ht hstack habove] at hother
    cases hother
  generalize t.activity = a at hnears
  cases hnears with
  | listens htells haims hwaits =>
    obtain ⟨inside', hinside⟩ := hbelow rfl hwaits.callsBack
    exact ⟨s.thread, _, ht', hinside, .listens (htells.snoc hno) (haims.snoc hslot) hwaits⟩
  | runs htells hoccupies hasks =>
    obtain ⟨inside', hinside⟩ := hbelow rfl (by simp)
    exact ⟨s.thread, _, ht', hinside,
      .runs (htells.snoc hno) (hoccupies.congr hslot) (Did.snoc hasks)⟩
  | judges _ _ _ _ hwaits => exact (hplain hwaits.callsBack).elim
  | reports _ _ _ hwaits => exact (hplain hwaits.callsBack).elim
  | passes _ _ hwaits => exact (hplain hwaits.callsBack).elim
  | enforces => exact (hplain (by simp [Frame.callsBack])).elim
  | unwinds _ _ _ _ hframes =>
    refine (hplain fun frame hframe => ?_).elim
    obtain ⟨a, rfl⟩ := hframes frame hframe
    rfl
  | _ => exact (hplain (by simp)).elim

end Steps

/-- Where a call stands after a run from its beginning on. -/
def Stands (call : Call K V Q R) (settings : Settings K V Q R) (old : Option (Holder V))
    (since : Instant) (trace : List (Passage K V Q R)) (m : Machine K V Q R) : Prop :=
  ∃ n t above, m.threads[call.thread]? = some t ∧ t.stack = above ++ call.base ∧
    call.Nears settings old since trace m.world.store n t.activity above ∧ call.steps trace + n ≤ 11

omit [DecidableEq K] [DecidableEq V] in
theorem steps_snoc_own (hown : call.isOwn p = true) :
    call.steps (trace ++ [p]) = call.steps trace + 1 := by
  simp [steps, hown]

omit [DecidableEq K] [DecidableEq V] in
theorem steps_snoc_other (hother : call.isOwn p = false) :
    call.steps (trace ++ [p]) = call.steps trace := by
  simp [steps, hother]

/-- Every passage either brings the call nearer to its end or is none of its steps. -/
theorem Stands.step (hstands : call.Stands settings old since trace p.before)
    (hp : p.Lawful settings) (hm : p.before.Reachable settings)
    (hcapacity : settings.blueprint.capacity = none) (hsince : since ≤ p.before.world.clock.now)
    (hid : ∀ h ∈ old, h.id < p.before.world.store.deadlines.size)
    (hunmeddled : call.Unmeddled old (trace ++ [p])) :
    call.Stands settings old since (trace ++ [p]) p.after := by
  obtain ⟨n, t, above, ht, hstack, hnears, hsteps⟩ := hstands
  have hlast : p ∈ trace ++ [p] := by simp
  cases hown : call.isOwn p with
  | true =>
    have hmover : p.mover = some call.thread := by simp [isOwn] at hown; exact hown.1
    obtain ⟨n', t', above', hless, ht', hstack', hnears'⟩ := hnears.advances hp hmover ht hstack hm
      hcapacity hsince hid (hunmeddled.within p hlast hmover t ht) hown
    refine ⟨n', t', above', ht', hstack', hnears', ?_⟩
    rw [steps_snoc_own hown]
    omega
  | false =>
    have hslot := hunmeddled.calm p hlast hown
    rw [Stands, steps_snoc_other hown]
    by_cases hmover : p.mover = some call.thread
    · obtain ⟨t', above', ht', hstack', hnears'⟩ := hnears.waits hp hmover ht hstack hslot hown
      exact ⟨n, t', above', ht', hstack', hnears', hsteps⟩
    · refine ⟨n, t, above, hp.thread_eq hmover ht, hstack, hnears.snoc_other hslot ?_ hown, hsteps⟩
      intro h hh now
      rw [Store.expired, Store.expired, hunmeddled.still p hlast hown h hh]

omit [DecidableEq V] in
theorem Unmeddled.of_append {front back : List (Passage K V Q R)}
    (hunmeddled : call.Unmeddled old (front ++ back)) : call.Unmeddled old front :=
  ⟨fun p hp => hunmeddled.calm p (List.mem_append_left back hp),
    fun p hp => hunmeddled.still p (List.mem_append_left back hp),
    fun p hp => hunmeddled.within p (List.mem_append_left back hp)⟩

theorem stands_of_run (hcapacity : settings.blueprint.capacity = none)
    (hstart : start.Reachable settings) (ht : start.threads[call.thread]? = some t)
    (hstack : t.stack = call.base) (hbegins : t.activity = .keep (.round call.operation 0))
    (hslot : start.slot? call.key = old.map .holder)
    (hold : ∀ h ∈ old, start.world.store.expired h start.world.clock.now = true)
    (run : Run settings start trace m) (hunmeddled : call.Unmeddled old trace) :
    call.Stands settings old start.world.clock.now trace m := by
  induction run with
  | rest =>
    refine ⟨11, t, [], ht, hstack, ?_, by simp [steps]⟩
    rw [hbegins]
    exact .rounds hslot hold (by simp [Silent])
  | @move trace p run hp ih =>
    have hid : ∀ h ∈ old, h.id < p.before.world.store.deadlines.size := fun h hh => by
      obtain rfl : old = some h := hh
      exact (hstart.id_lt hslot).trans_le (run.deadlines_size_le hstart)
    exact (ih hunmeddled.of_append).step hp (run.reachable_of_reachable hstart) hcapacity
      run.now_le_now hid hunmeddled

end Runs

/-- What a call has done after these passages that finds no live value of its key. -/
structure Touches (settings : Settings K V Q R) (old : Option (Holder V)) (m : Machine K V Q R)
    (trace : List (Passage K V Q R)) : Prop where
  /-- It never takes more steps than that. -/
  steps : call.steps trace ≤ 11
  /-- Until it is over it can go on, unless something runs that it has called back. -/
  goesOn : ∃ t, m.threads[call.thread]? = some t ∧
    (t.stack = call.base ∧ (∃ signal, t.activity = .settle signal) ∨
      t.attends call.base.length = false ∨ ∀ chance, (m.step settings chance call.thread).isSome)
  ends : ∀ t signal, m.threads[call.thread]? = some t → t.stack = call.base →
    t.activity = .settle signal → call.Ends settings old trace m.world.store signal

section Touches

variable {call} {settings : Settings K V Q R} {old : Option (Holder V)} {since : Instant}
  {m : Machine K V Q R} {trace : List (Passage K V Q R)} {s : Store K V} {t : Thread K V Q R}
  {above : List (Frame K V Q R)} {n : Nat} {signal : Signal V}

/-- A call is over when nothing of it is left on the thread. -/
theorem Nears.of_settled (hnears : call.Nears settings old since trace s n (.settle signal) above)
    (hempty : above = []) : call.Ends settings old trace s signal := by
  generalize hactivity : Activity.settle signal = a at hnears
  cases hnears with
  | arrives htells haims =>
    subst hactivity
    cases haims with
    | settles hmeets hgone hmisses => exact .expires hmeets (.inl hmisses) hgone htells
  | unwinds hmeets hunheard hgone htells =>
    obtain rfl := Activity.settle.inj hactivity
    exact .expires hmeets (.inr hunheard) hgone htells
  | ends hends =>
    obtain rfl := Activity.settle.inj hactivity
    exact hends
  | passes _ _ hwaits =>
    subst hempty
    cases hwaits
  | listens => simp at hempty
  | runs => simp at hempty
  | _ => cases hactivity

/-- Nothing but what the call has called back keeps it from going on. -/
theorem Nears.goesOn (hnears : call.Nears settings old since trace m.world.store n t.activity above)
    (ht : m.threads[call.thread]? = some t) (hstack : t.stack = above ++ call.base) :
    t.stack = call.base ∧ (∃ signal, t.activity = .settle signal) ∨
      t.attends call.base.length = false ∨
        ∀ chance, (m.step settings chance call.thread).isSome := by
  have hstep : (∀ chance, (t.step settings chance m.world).isSome) →
      ∀ chance, (m.step settings chance call.thread).isSome := fun hsome chance => by
    obtain ⟨s, hs⟩ := Option.isSome_iff_exists.mp (hsome chance)
    exact Machine.isSome_step ht hs
  have hkeep : ∀ stage, t.activity = .keep stage →
      (∀ operation retries fault, stage ≠ .await operation retries fault) →
        ∀ chance, (m.step settings chance call.thread).isSome := fun stage hactivity hstage =>
    hstep (Thread.isSome_step_of_keep hactivity hstage)
  by_cases hsettled : ∃ signal, t.activity = .settle signal
  · obtain ⟨signal, hactivity⟩ := hsettled
    cases above with
    | nil => exact .inl ⟨hstack, signal, hactivity⟩
    | cons frame rest => exact .inr (.inr (hstep (Thread.isSome_step_of_settle hactivity hstack)))
  · have hruns : ∀ {inside rest : List (Frame K V Q R)} {frame : Frame K V Q R},
        t.stack = (inside ++ frame :: rest) ++ call.base → frame.callsBack = true →
        t.attends call.base.length = false := fun hstack hframe => by
      have hother := not_isOwn_of_runs (p := ⟨m, some call.thread, [], m⟩) rfl ht hstack hframe
        fun hover => hsettled hover.2
      simpa [isOwn, Passage.thread?, ht] using hother
    generalize hactivity : t.activity = a at hnears
    cases hnears with
    | listens => exact .inr (.inl (hruns hstack rfl))
    | runs => exact .inr (.inl (hruns hstack rfl))
    | arrives _ haims =>
      cases haims with
      | settles => exact absurd ⟨_, hactivity⟩ hsettled
      | _ => exact .inr (.inr (hkeep _ hactivity (by simp)))
    | passes => exact absurd ⟨_, hactivity⟩ hsettled
    | unwinds => exact absurd ⟨_, hactivity⟩ hsettled
    | ends => exact absurd ⟨_, hactivity⟩ hsettled
    | _ => exact .inr (.inr (hkeep _ hactivity (by simp)))

end Touches

end Call

/-- The first operation that looks at the key of an expired value makes the expiration known.

The call begins in `start`, where the slot of its key is empty or has an old value whose deadline
has been reached, and no one else changes the slot or moves that deadline until the call is over.
The store is unbounded.  Then the call takes a bounded number of steps, nothing but what it has
called back can keep it from taking the next, and it ends as it does where there is no value.  An
old value has left the slot by then, and its expiration was counted and reported once.

That it ends otherwise has one cause, a panic of the copying of the old value for the listener.
That the old value stays in its slot, uncounted and unreported, has two: `contains` and
`removeIfEqual` overlook it, and a value that a collaborator refuses to prepare is never written
over it. -/
theorem Run.expiresOnTouch [DecidableEq K] [DecidableEq V] {settings : Settings K V Q R}
    {start m : Machine K V Q R} {trace : List (Passage K V Q R)} {call : Call K V Q R}
    {t : Thread K V Q R} {old : Option (Holder V)}
    (hcapacity : settings.blueprint.capacity = none) (hstart : start.Reachable settings)
    (run : Run settings start trace m) (ht : start.threads[call.thread]? = some t)
    (hstack : t.stack = call.base) (hbegins : t.activity = .keep (.round call.operation 0))
    (hslot : start.slot? call.key = old.map .holder)
    (hold : ∀ h ∈ old, start.world.store.expired h start.world.clock.now = true)
    (hunmeddled : call.Unmeddled old trace) : call.Touches settings old m trace := by
  obtain ⟨n, t', above, ht', hstack', hnears, hsteps⟩ :=
    Call.stands_of_run hcapacity hstart ht hstack hbegins hslot hold run hunmeddled
  refine ⟨(Nat.le_add_right _ n).trans hsteps, ⟨t', ht', hnears.goesOn ht' hstack'⟩,
    fun last signal hlast hbase hsettled => ?_⟩
  obtain rfl := Option.some.inj (ht'.symm.trans hlast)
  rw [hsettled] at hnears
  exact hnears.of_settled (by simpa [hstack'] using hbase)

/-! ## A value that is computed anew -/

/-- The call that computes a value of a key whose value has expired. -/
def renewingCall : Call Nat Nat Unit Unit :=
  ⟨0, [.calling .finish], .computeIfAbsent 1 fun _ => .finish (.value (some 6)), 1, rfl⟩

/-- Puts a value, which expires as soon as the call has begun. -/
def renewingMoves : List (Move Nat Nat Unit Unit) :=
  .spawn (.call (.put 1 5) fun _ => .call renewingCall.operation .finish) ::
    List.replicate 7 (.step 0 .none) ++ [.advance (.ofNanos 10)]

/-- Whether the passage is a step of the call, or leaves the slot of its key and the deadline of a
holder alone, and is not made by a call that is over. -/
def Call.spareTouch (call : Call Nat Nat Unit Unit) (h : Holder Nat)
    (p : Passage Nat Nat Unit Unit) : Bool :=
  (call.isOwn p || (p.after.slot? call.key = p.before.slot? call.key &&
      p.after.world.store.deadline h = p.before.world.store.deadline h)) &&
    p.thread?.all fun t => match t.activity with
      | .settle _ => t.stack.length ≠ call.base.length
      | _ => true

theorem Call.unmeddled_of_spareTouch {call : Call Nat Nat Unit Unit} {h : Holder Nat}
    {trace : List (Passage Nat Nat Unit Unit)}
    (hspares : trace.all (call.spareTouch h) = true) : call.Unmeddled (some h) trace := by
  have hp : ∀ p ∈ trace, call.spareTouch h p = true := List.all_eq_true.mp hspares
  simp only [Call.spareTouch, Bool.and_eq_true, Bool.or_eq_true, decide_eq_true_eq] at hp
  refine ⟨fun p hmem hother => ?_, fun p hmem hother other hsome => ?_,
    fun p hmem hmover t ht hstack signal hactivity => ?_⟩
  · exact ((hp p hmem).1.resolve_left (by simp [hother])).1
  · obtain rfl := Option.some.inj hsome
    exact ((hp p hmem).1.resolve_left (by simp [hother])).2
  · obtain ⟨-, hover⟩ := hp p hmem
    simp [Passage.thread?, hmover, ht, hactivity, hstack] at hover

/-- The listener hears of the old value, and then the new one is computed. -/
theorem renewed_expires : ∃ (start m : Machine Nat Nat Unit Unit)
    (trace : List (Passage Nat Nat Unit Unit)) (t : Thread Nat Nat Unit Unit) (h : Holder Nat),
    start.Reachable tellingSettings ∧ Run tellingSettings start trace m ∧
      start.threads[0]? = some t ∧ t.stack = renewingCall.base ∧
      t.activity = .keep (.round renewingCall.operation 0) ∧
      start.slot? 1 = some (.holder h) ∧
      start.world.store.expired h start.world.clock.now = true ∧
      renewingCall.Unmeddled (some h) trace ∧ trace.length = 13 ∧
      m.threads[0]?.map Thread.activity = some (.settle (.done (.value (some 6)))) ∧
      renewingCall.Touches tellingSettings (some h) m trace := by
  have hruns : (Machine.replayFrom tellingSettings renewingMoves
      (List.replicate 13 (.step 0 .none))).map (fun run =>
        (run.1.threads[0]?, run.1.slot? 1,
          run.1.world.store.expired ⟨0, 5, Clock.start.now, 1⟩ run.1.world.clock.now,
          run.2.1.all (renewingCall.spareTouch ⟨0, 5, Clock.start.now, 1⟩), run.2.1.length,
          run.2.2.threads[0]?.map Thread.activity)) =
      some (some ⟨.keep (.round renewingCall.operation 0), renewingCall.base, none⟩,
        some (.holder ⟨0, 5, Clock.start.now, 1⟩), true, true, 13,
        some (.settle (.done (.value (some 6))))) := rfl
  obtain ⟨⟨start, trace, m⟩, hrun, hfacts⟩ := Option.map_eq_some_iff.mp hruns
  obtain ⟨hbegins, hrest⟩ := Prod.mk.inj hfacts
  obtain ⟨hslot, hrest⟩ := Prod.mk.inj hrest
  obtain ⟨hold, hrest⟩ := Prod.mk.inj hrest
  obtain ⟨hspares, hrest⟩ := Prod.mk.inj hrest
  obtain ⟨hlength, hended⟩ := Prod.mk.inj hrest
  obtain ⟨hstart, run⟩ := Machine.run_of_replayFrom hrun
  have hunmeddled := Call.unmeddled_of_spareTouch hspares
  exact ⟨start, m, trace, _, _, hstart, run, hbegins, rfl, rfl, hslot, hold, hunmeddled, hlength,
    hended, run.expiresOnTouch rfl hstart hbegins rfl rfl hslot (by simpa using hold) hunmeddled⟩

end SharedCache
