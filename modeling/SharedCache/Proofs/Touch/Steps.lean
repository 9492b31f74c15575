import SharedCache.Proofs.Touch.Standing

/-!
# Steps of a call that finds no live value

Every step of the call brings it nearer to its end: the sections in which it looks and gets rid of
an expired value, what lies between the sections, and the sections in which it reaches its aim.
-/

namespace SharedCache

variable {K V Q R : Type} [DecidableEq K] [DecidableEq V]

namespace Call

variable {call : Call K V Q R}

/-! ## Sections -/

section Sections

variable {settings : Settings K V Q R} {old : Option (Holder V)} {since now : Instant}
  {trace : List (Passage K V Q R)} {p : Passage K V Q R} {t : Thread K V Q R}
  {above frames : List (Frame K V Q R)} {n k j : Nat} {a next : Activity K V Q R}
  {c : Computation K V Q R} {signal : Signal V} {s : Store K V} {stage : Stage K V Q R}
  {h : Holder V}

omit [DecidableEq K] [DecidableEq V] in
theorem Begins.meets (hbegins : call.Begins c) : call.operation.overlooks = false := by
  obtain ⟨hoccupies, -⟩ := hbegins
  cases hoperation : call.operation <;> simp_all [Operation.computes, Operation.overlooks]

theorem Aims.meets (haims : call.Aims settings old trace s k a) :
    call.operation.overlooks = false := by
  cases haims with
  | missed hget => rw [hget]; rfl
  | own hoccupies => exact hoccupies.begins.meets
  | composes hoccupies => exact hoccupies.begins.meets
  | installs hoccupies => exact hoccupies.begins.meets
  | vacates hoccupies => exact hoccupies.begins.meets
  | restores hoccupies => exact hoccupies.begins.meets
  | settles hmeets => exact hmeets

omit [DecidableEq V] in
theorem Occupies.gone (hoccupies : call.Occupies c s) :
    ∀ h ∈ old, s.map.get? call.key ≠ some (.holder h) := by
  simp [hoccupies.slot]

theorem Aims.gone (haims : call.Aims settings old trace s k a) :
    ∀ h ∈ old, s.map.get? call.key ≠ some (.holder h) := by
  cases haims with
  | missed _ _ hgone => exact hgone
  | own hoccupies => exact hoccupies.gone
  | composes hoccupies => exact hoccupies.gone
  | installs hoccupies => exact hoccupies.gone
  | vacates hoccupies => exact hoccupies.gone
  | restores hoccupies => exact hoccupies.gone
  | settles _ hgone => exact hgone

theorem Aims.le (haims : call.Aims settings old trace s k a) : k ≤ 6 := by
  cases haims <;> decide

theorem Aims.eq_zero (haims : call.Aims settings old trace s k (.settle signal)) : k = 0 := by
  cases haims
  rfl

variable (since) in
/-- What a call is going to do after its look. -/
theorem Nears.of_heads (hheads : Turn.Heads call.key old now a next frames)
    (haims : call.Aims settings old trace s k a)
    (hold : ∀ signal, a = .settle signal → ∀ h ∈ old, s.expired h now = true)
    (hsilent : call.Silent trace) :
    ∃ n ≤ 9, call.Nears settings old since trace s n next frames := by
  have hle := haims.le
  cases hheads with
  | arrives hnone =>
    subst hnone
    exact ⟨k, by omega, .arrives hsilent haims⟩
  | enforces hnone =>
    subst hnone
    exact ⟨k + 2, by omega, .enforces hsilent haims⟩
  | reports hsome => exact ⟨k + 1 + 2, by omega, .reports hsome hsilent haims .next⟩
  | dismisses hsome hanswer =>
    subst hanswer
    obtain rfl := haims.eq_zero
    exact ⟨4, by decide, .dismisses hsome (hold _ rfl _ hsome) hsilent haims⟩
  | judges hsome hanswer =>
    subst hanswer
    obtain rfl := haims.eq_zero
    exact ⟨3 + 3, by decide, .judges hsome (hold _ rfl _ hsome) hsilent haims .enforce⟩

omit [DecidableEq K] [DecidableEq V] in
theorem Waits.callsBack (hwaits : Waits a j frames) :
    ∀ frame ∈ frames, frame.callsBack = false := by
  cases hwaits <;> simp [Frame.callsBack]

omit [DecidableEq K] [DecidableEq V] in
theorem Waits.exists_next (hwaits : Waits a j frames) :
    ∀ frame ∈ frames, ∃ a, frame = .next a := by
  cases hwaits <;> simp

omit [DecidableEq K] [DecidableEq V] in
theorem Waits.length_le (hwaits : Waits a j frames) : frames.length ≤ j := by
  cases hwaits <;> simp

/-- A step of the call brings it nearer to its end. -/
def Advances (call : Call K V Q R) (settings : Settings K V Q R) (old : Option (Holder V))
    (since : Instant) (trace : List (Passage K V Q R)) (p : Passage K V Q R) (n : Nat) : Prop :=
  ∃ n' t' above', n' + 1 ≤ n ∧ p.after.threads[call.thread]? = some t' ∧
    t'.stack = above' ++ call.base ∧
    call.Nears settings old since (trace ++ [p]) p.after.world.store n' t'.activity above'

variable (hp : p.Lawful settings) (hmover : p.mover = some call.thread)
  (ht : p.before.threads[call.thread]? = some t)

include hp hmover ht

variable (old since trace) in
/-- A section of the call is its turn. -/
theorem own_section (hstack : t.stack = above ++ call.base)
    (habove : ∀ frame ∈ above, frame.callsBack = false) (hactivity : t.activity = .keep stage) :
    ∃ turn draws interrupted,
      stage.turn settings p.before.world.store p.before.world.clock.now interrupted draws =
        some turn ∧ p.IsSection stage turn ∧ call.isOwn p = true ∧
      ∀ n' n, n' + 1 ≤ n →
        call.Nears settings old since (trace ++ [p]) turn.state n' turn.next
          (turn.frames ++ above) →
        call.Advances settings old since trace p n := by
  obtain ⟨draws, turn, hturn, hstore, hthread, hevents⟩ := hp.own_turn hmover ht hactivity
  refine ⟨turn, draws, _, hturn, .of_thread hmover ht hactivity hstore hthread hevents,
    isOwn_of_stack hmover ht hstack habove, fun n' n hless hnears => ?_⟩
  exact ⟨n', _, turn.frames ++ above, hless, hthread, by simp [hstack], hstore ▸ hnears⟩

variable (hm : p.before.Reachable settings)

include hm

omit ht hmover in
/-- A section that is no report is silent. -/
theorem silent_of_section {turn : StoreTurn K V Q R} (hsection : p.IsSection stage turn)
    (hstage : ∀ key h cause, stage ≠ .report key h cause) : p.IsSilent := by
  refine hp.isSilent hm fun key h cause hreport => ?_
  exact hstage key h cause (Option.some.inj (hsection.stage.symm.trans hreport))

/-- The call reads the clock. -/
theorem advances_round (hstack : t.stack = [] ++ call.base)
    (hactivity : t.activity = .keep (.round call.operation 0))
    (hslot : p.before.world.store.map.get? call.key = old.map .holder)
    (hold : ∀ h ∈ old, p.before.world.store.expired h since = true)
    (hsince : since ≤ p.before.world.clock.now) (hsilent : call.Silent trace) :
    call.Advances settings old since trace p 11 := by
  obtain ⟨turn, draws, interrupted, hturn, hsection, -, hadvances⟩ :=
    own_section old since trace hp hmover ht hstack (by simp)
      hactivity
  have hquiet := silent_of_section hp hm hsection (by simp)
  obtain rfl := Option.some.inj hturn
  exact hadvances 10 11 Nat.le.refl
    (.visits hslot (fun h hh => Store.expired_mono hsince (hold h hh))
      (hsilent.snoc fun _ => hquiet))

/-- The call looks at its key. -/
theorem advances_visit (hstack : t.stack = [] ++ call.base)
    (hactivity : t.activity = .keep (.visit call.operation 0 now))
    (hslot : p.before.world.store.map.get? call.key = old.map .holder)
    (hold : ∀ h ∈ old, p.before.world.store.expired h now = true)
    (hid : ∀ h ∈ old, h.id < p.before.world.store.deadlines.size) (hsilent : call.Silent trace) :
    call.Advances settings old since trace p 10 := by
  obtain ⟨turn, draws, interrupted, hturn, hsection, hown, hadvances⟩ :=
    own_section old since trace hp hmover ht hstack (by simp)
      hactivity
  have hquiet : call.Silent (trace ++ [p]) :=
    hsilent.snoc fun _ => silent_of_section hp hm hsection (by simp)
  have hlooks : call.Looks (trace ++ [p]) now := did_last hown hsection.stage
  obtain rfl := Option.some.inj hturn
  have hlacks : p.before.world.store.Lacks settings call.key old now call.operation
      (p.before.world.store.visit settings 0 now call.operation) :=
    Store.lacks_visit hm.accounted.map.valid hslot hold call.key_eq
  generalize p.before.world.store.visit settings 0 now call.operation = turn at hlacks hadvances
  cases hlacks with
  | overlooks hoverlooks =>
    obtain ⟨hgives, hoccupies⟩ := Operation.idle_of_overlooks hoverlooks
    have hmisses : call.Misses settings (trace ++ [p]) _ := .answers hoccupies hlooks
    rw [Operation.endOfNone_of_idle hgives] at hmisses
    exact hadvances 0 10 (by decide) (.ends (.overlooks hoverlooks hmisses hslot hquiet))
  | @refuses turn value panic hgives hdraft hstate hnext hframes =>
    have hmisses : call.Misses settings (trace ++ [p]) _ :=
      .answers (Operation.computes_of_gives hgives) hlooks
    have hraised : call.operation.endOfNone settings call.key now = .raised panic := by
      simp [Operation.endOfNone, hgives, hdraft]
    rw [hraised] at hmisses
    refine hadvances 0 10 (by decide) ?_
    rw [hstate, hnext, hframes]
    exact .ends (.refuses (by simp [hgives]) rfl hmisses hslot hquiet)
  | @expels h hget hsome =>
    subst hsome
    exact hadvances 5 10 (by decide) (.expels rfl hslot hquiet hget hlooks)
  | misses hget hnone =>
    subst hnone
    exact hadvances 1 10 (by decide) (.arrives hquiet (.missed hget hlooks (by simp)))
  | @begins turn c hoccupies hc hfault hheads =>
    have haims : call.Aims settings old (trace ++ [p]) turn.state 6 (.keep (.own c)) :=
      .own ⟨⟨hoccupies, by rw [hc]; rfl⟩, hfault⟩
    obtain ⟨n', hn', hnears⟩ := Nears.of_heads since hheads haims (by simp) hquiet
    exact hadvances n' 10 (by omega) (by rwa [List.append_nil])
  | answers hmeets hoccupies hdrafts hgone hheads =>
    have hmisses : call.Misses settings (trace ++ [p]) _ := .answers hoccupies hlooks
    rw [Operation.endOfNone_of_drafts hdrafts] at hmisses
    have haims : call.Aims settings old (trace ++ [p]) turn.state 0 _ :=
      .settles hmeets (fun h hh => (hgone h hh (hid h hh)).1) hmisses
    obtain ⟨n', hn', hnears⟩ := Nears.of_heads since hheads haims
      (fun _ _ h hh => (hgone h hh (hid h hh)).2) hquiet
    exact hadvances n' 10 (by omega) (by rwa [List.append_nil])

/-- The old value leaves its slot. -/
theorem advances_expel (hstack : t.stack = [] ++ call.base)
    (hactivity : t.activity = .keep (.expel call.key h)) (hsome : old = some h)
    (hslot : p.before.world.store.map.get? call.key = some (.holder h))
    (hget : call.operation = .get call.key) (hlooks : call.Looks trace now)
    (hsilent : call.Silent trace) : call.Advances settings old since trace p 5 := by
  obtain ⟨turn, draws, interrupted, hturn, hsection, -, hadvances⟩ :=
    own_section old since trace hp hmover ht hstack (by simp)
      hactivity
  have hquiet := silent_of_section hp hm hsection (by simp)
  have hholds : p.before.world.store.holds call.key h = true := by
    simp [Store.holds, hslot, Slot.isHolder]
  have herased : (p.before.world.store.erase call.key).map.get? call.key = none := by
    rw [Store.erase, hm.accounted.map.valid.get?_erase, if_pos rfl]
  rw [Stage.turn, Store.expel, if_pos hholds] at hturn
  obtain rfl := Option.some.inj hturn
  exact hadvances 4 5 Nat.le.refl
    (.reports (k := 1) (j := 1) hsome (hsilent.snoc fun _ => hquiet)
      (.missed hget (Did.snoc hlooks) fun _ _ hslot' => by cases herased.symm.trans hslot') .next)

/-- The value that was overwritten had expired. -/
theorem advances_judge (hstack : t.stack = above ++ call.base) (hwaits : Waits a j above)
    (hactivity : t.activity = .keep (.judge call.key h now)) (hsome : old = some h)
    (hold : p.before.world.store.expired h now = true)
    (haims : call.Aims settings old trace p.before.world.store 0 a) (hsilent : call.Silent trace) :
    call.Advances settings old since trace p (j + 3) := by
  obtain ⟨turn, draws, interrupted, hturn, hsection, -, hadvances⟩ :=
    own_section old since trace hp hmover ht hstack
      hwaits.callsBack hactivity
  have hquiet := silent_of_section hp hm hsection (by simp)
  rw [Stage.turn, Store.judge, if_pos hold] at hturn
  obtain rfl := Option.some.inj hturn
  exact hadvances (0 + j + 2) (j + 3) (by omega)
    (.reports hsome (hsilent.snoc fun _ => hquiet) (haims.snoc rfl) hwaits)

/-- The value that was removed had expired. -/
theorem advances_dismiss (hstack : t.stack = [] ++ call.base)
    (hactivity : t.activity = .keep (.dismiss call.key h now)) (hsome : old = some h)
    (hold : p.before.world.store.expired h now = true)
    (haims : call.Aims settings old trace p.before.world.store 0 (.settle (.done (.value none))))
    (hsilent : call.Silent trace) : call.Advances settings old since trace p 4 := by
  obtain ⟨turn, draws, interrupted, hturn, hsection, -, hadvances⟩ :=
    own_section old since trace hp hmover ht hstack (by simp)
      hactivity
  have hquiet := silent_of_section hp hm hsection (by simp)
  rw [Stage.turn, Store.dismiss, if_pos hold] at hturn
  obtain rfl := Option.some.inj hturn
  exact hadvances (0 + 1 + 2) 4 Nat.le.refl
    (.reports hsome (hsilent.snoc fun _ => hquiet) (haims.snoc rfl) .next)

omit hm in
/-- The expiration is made known. -/
theorem advances_report (hstack : t.stack = above ++ call.base) (hwaits : Waits a j above)
    (hactivity : t.activity = .keep (.report call.key h .expired)) (hsome : old = some h)
    (haims : call.Aims settings old trace p.before.world.store k a) (hsilent : call.Silent trace) :
    call.Advances settings old since trace p (k + j + 2) := by
  obtain ⟨turn, draws, interrupted, hturn, hsection, hown, hadvances⟩ :=
    own_section old since trace hp hmover ht hstack
      hwaits.callsBack hactivity
  obtain rfl := Option.some.inj hturn
  obtain ⟨hmap, -⟩ := Store.state_report settings p.before.world.store call.key h .expired
  have htells : call.Tells settings (trace ++ [p]) old := by
    subst hsome
    have hexpires : p.Expires settings call.key h := by
      refine ⟨?_, (congrArg marked hsection.events).trans (Store.marked_report call.key h .expired)⟩
      rw [hsection.store, Store.statistics_report]
      rfl
    exact ⟨trace, p, [], rfl, hown, hexpires, by simpa using hsilent⟩
  have haims' := haims.snoc (p := p) (congrArg (·.get? call.key) hmap)
  rcases Store.report_cases settings p.before.world.store call.key h .expired with
    ⟨⟨signal, hnext, hraised⟩, hframes⟩ | ⟨⟨script, hnext⟩, hframes⟩
  · cases signal with
    | done answer =>
      refine hadvances (k + j) _ (by omega) ?_
      rw [hnext, hframes]
      exact .passes htells haims' hwaits
    | raised panic =>
      obtain ⟨hlistener, hcopy⟩ := hraised panic rfl
      have hlength := hwaits.length_le
      refine hadvances above.length _ (by omega) ?_
      rw [hnext, hframes]
      exact .unwinds haims.meets ⟨h, hsome, panic, hlistener, hcopy, rfl⟩ haims'.gone htells
        hwaits.exists_next
  · refine hadvances (k + j + 1) _ (by omega) ?_
    rw [hnext, hframes]
    change call.Nears settings old since _ _ _ _ ([] ++ .listening :: above)
    exact .listens htells haims' hwaits

/-- The capacity is no bound. -/
theorem advances_enforce (hcapacity : settings.blueprint.capacity = none)
    (hstack : t.stack = [.next a] ++ call.base) (hactivity : t.activity = .keep (.enforce 0))
    (haims : call.Aims settings old trace p.before.world.store k a)
    (htells : call.Tells settings trace old) :
    call.Advances settings old since trace p (k + 2) := by
  obtain ⟨turn, draws, interrupted, hturn, hsection, -, hadvances⟩ :=
    own_section old since trace hp hmover ht hstack
      (by simp [Frame.callsBack]) hactivity
  have hquiet := silent_of_section hp hm hsection (by simp)
  rw [Stage.turn, Store.enforce, hcapacity] at hturn
  obtain rfl := Option.some.inj hturn
  exact hadvances (k + 1) (k + 2) Nat.le.refl
    (.passes (htells.snoc fun _ => hquiet) (haims.snoc rfl) .next)

end Sections

/-! ## Between the sections -/

section Receipts

variable {settings : Settings K V Q R} {old : Option (Holder V)} {since : Instant}
  {trace : List (Passage K V Q R)} {p : Passage K V Q R} {t : Thread K V Q R}
  {above : List (Frame K V Q R)} {n k j : Nat} {a : Activity K V Q R}
  {c : Computation K V Q R} {signal : Signal V} {s : Store K V}

omit [DecidableEq V] in
theorem Occupies.previous_eq (hoccupies : call.Occupies c s) : c.previous = none := by
  rw [hoccupies.begins.2]
  rfl

omit [DecidableEq V] in
theorem Occupies.key_eq (hoccupies : call.Occupies c s) : c.key = call.key := by
  rw [hoccupies.begins.2]
  rfl

variable (settings old) in
/-- The end of the mapping function settles what the call is on its way to. -/
theorem Aims.of_mapped (hoccupies : call.Occupies c s) (hasks : call.Asks trace c)
    (hhears : call.Hears trace c signal) :
    ∃ k ≤ 4, call.Aims settings old trace (s.mapped c signal).state k (s.mapped c signal).next := by
  have hsame : call.Occupies c (s.mapped c signal).state :=
    hoccupies.congr (congrArg (·.get? call.key) (Store.mapped_spec c signal).1.map)
  have hprevious := hoccupies.previous_eq
  have hnothing : ∀ answer : Answer V, signal = .done answer →
      (∀ text, answer ≠ .complaint text) → answer.value? = none →
      (s.mapped c signal).next = .keep (.vacate c .absent (.value none)) →
      ∃ k ≤ 4, call.Aims settings old trace (s.mapped c signal).state k
        (s.mapped c signal).next := by
    rintro answer rfl hcomplaint hnone hnext
    rw [hnext]
    exact ⟨1, by decide, .vacates hsame hasks (.nothing hhears hcomplaint hnone)⟩
  cases signal with
  | raised panic => exact ⟨1, by decide, .restores hsame hasks (.panics hhears)⟩
  | done answer =>
    cases answer with
    | complaint text =>
      have hnext : (s.mapped c (.done (.complaint text))).next =
          .keep (.vacate c (.failed ⟨c.fault, text⟩) (.failed (.computation ⟨c.fault, text⟩))) := by
        simp only [Store.mapped, hprevious, Turn.next_goTo]
      rw [hnext]
      exact ⟨1, by decide, .vacates hsame hasks (.complains hhears)⟩
    | value v =>
      cases v with
      | none => exact hnothing _ rfl (by simp) rfl rfl
      | some value => exact ⟨4, by decide, .composes hsame hasks hhears rfl⟩
    | _ => exact hnothing _ rfl (by simp) rfl rfl

variable (hp : p.Lawful settings) (hm : p.before.Reachable settings)
  (hmover : p.mover = some call.thread) (ht : p.before.threads[call.thread]? = some t)

include hp hm hmover ht

variable (above) in
/-- Where the call learns how something has ended, it makes nothing known. -/
theorem advances_receipt {frame : Frame K V Q R} {i : Nat} {step : Step K V Q R}
    (hactivity : t.activity = .settle signal) (hstack : t.stack = frame :: (above ++ call.base))
    (hreceive : frame.receive p.before.world t.popped signal = step)
    (hrest : step.thread.stack = t.stack.tail) (hless : i + 1 ≤ n)
    (hnears : p.IsSilent → call.Nears settings old since (trace ++ [p]) step.world.store i
      step.thread.activity above) : call.Advances settings old since trace p n := by
  obtain ⟨chance, _, hstep, hworld, hthread, -⟩ := hp.own_step hmover ht
  obtain rfl := (Thread.receive_of_step hactivity hstack hstep).trans hreceive
  have hstage : p.stage? = none := Passage.stage?_of_apart hmover ht (by simp [hactivity])
  refine ⟨i, _, above, hless, hthread, by rw [hrest, hstack, List.tail_cons], ?_⟩
  rw [hworld]
  exact hnears (hp.isSilent hm (by simp [hstage]))

/-- What was put off is next. -/
theorem advances_passes {answer : Answer V} (hactivity : t.activity = .settle (.done answer))
    (hstack : t.stack = above ++ call.base) (hwaits : Waits a j above)
    (haims : call.Aims settings old trace p.before.world.store k a)
    (htells : call.Tells settings trace old) :
    call.Advances settings old since trace p (k + j) := by
  cases hwaits with
  | next =>
    exact advances_receipt [] hp hm hmover ht hactivity hstack rfl rfl Nat.le.refl
      fun hquiet => .arrives (htells.snoc fun _ => hquiet) (haims.snoc rfl)
  | enforce =>
    exact advances_receipt [.next a] (i := k + 2) hp hm hmover ht hactivity hstack rfl rfl
      Nat.le.refl fun hquiet => .enforces (htells.snoc fun _ => hquiet) (haims.snoc rfl)

/-- The listener has ended. -/
theorem advances_listened (hactivity : t.activity = .settle signal)
    (hstack : t.stack = .listening :: (above ++ call.base)) (hwaits : Waits a j above)
    (haims : call.Aims settings old trace p.before.world.store k a)
    (htells : call.Tells settings trace old) :
    call.Advances settings old since trace p (k + j + 1) := by
  cases signal <;>
    exact advances_receipt above (i := k + j) hp hm hmover ht hactivity hstack rfl rfl Nat.le.refl
      fun hquiet => .passes (htells.snoc fun _ => hquiet) (haims.snoc rfl) hwaits

/-- The mapping function has ended. -/
theorem advances_mapped (hactivity : t.activity = .settle signal)
    (hstack : t.stack = .computing c :: ([] ++ call.base))
    (hoccupies : call.Occupies c p.before.world.store) (hasks : call.Asks trace c)
    (htells : call.Tells settings trace old) : call.Advances settings old since trace p 5 := by
  have hown : call.isOwn p = true := isOwn_of_settle hmover ht hstack hactivity (by simp)
  have hhears : call.Hears (trace ++ [p]) c signal :=
    did_last hown ⟨t, by simp [Passage.thread?, hmover, ht], hactivity, hstack⟩
  obtain ⟨k, hk, haims⟩ := Aims.of_mapped settings old hoccupies (Did.snoc (p := p) hasks) hhears
  have hframes := (Store.mapped_spec (s := p.before.world.store) c signal).2.1
  exact advances_receipt [] (i := k) hp hm hmover ht hactivity hstack rfl
    (by simp [Frame.receive, Step.ofStore, Thread.goOn, Thread.popped, hframes]) (by omega)
    fun hquiet => .arrives (htells.snoc fun _ => hquiet) haims

/-- The panic passes what was put off. -/
theorem advances_unwinds {panic : Panic} (hactivity : t.activity = .settle (.raised panic))
    (hstack : t.stack = above ++ call.base) (hnonempty : above ≠ [])
    (hmeets : call.operation.overlooks = false) (hunheard : Unheard settings old (.raised panic))
    (hgone : ∀ h ∈ old, p.before.world.store.map.get? call.key ≠ some (.holder h))
    (htells : call.Tells settings trace old) (hframes : ∀ frame ∈ above, ∃ a, frame = .next a) :
    call.Advances settings old since trace p above.length := by
  cases above with
  | nil => exact absurd rfl hnonempty
  | cons frame rest =>
    obtain ⟨a, rfl⟩ := hframes frame List.mem_cons_self
    exact advances_receipt rest (i := rest.length) hp hm hmover ht hactivity hstack rfl rfl
      Nat.le.refl fun hquiet => .unwinds hmeets hunheard hgone (htells.snoc fun _ => hquiet)
        fun frame hframe => hframes frame (List.mem_cons_of_mem _ hframe)

end Receipts

/-! ## Aims -/

section Aims

variable {settings : Settings K V Q R} {old : Option (Holder V)} {since now : Instant}
  {trace : List (Passage K V Q R)} {p : Passage K V Q R} {t : Thread K V Q R}
  {c : Computation K V Q R} {signal : Signal V} {s : Store K V} {answer : Answer V} {value : V}
  {resolution : Resolution V}

omit [DecidableEq V] in
theorem Occupies.pendingIn (hoccupies : call.Occupies c s) : s.pendingIn c.key c.fault = true := by
  rw [Store.pendingIn_iff, hoccupies.key_eq, hoccupies.slot]

/-- A value that the mapping function gave becomes a holder, unless a collaborator panics. -/
theorem Aims.of_compose (hoccupies : call.Occupies c s) (hasks : call.Asks trace c)
    (hid : ∀ h ∈ old, h.id < s.deadlines.size)
    (hconcludes : call.Concludes settings trace c (settings.endOfValue c.key value now)) :
    (s.compose settings c value now).frames = [] ∧ ∃ k ≤ 3,
      call.Aims settings old trace (s.compose settings c value now).state k
        (s.compose settings c value now).next := by
  rw [Store.compose, hoccupies.previous_eq, Option.map_none, Turn.consulting]
  rw [Settings.endOfValue] at hconcludes
  cases hdraft : (settings.draft c.key value now none).result with
  | error panic =>
    simp only [hdraft] at hconcludes
    exact ⟨rfl, 1, by decide, .restores hoccupies hasks hconcludes⟩
  | ok d =>
    simp only [hdraft] at hconcludes
    have hsame : call.Occupies c (s.newHolder d).1 := hoccupies.congr rfl
    dsimp only
    rw [Turn.consulting]
    change _ ∧ ∃ k ≤ 3, call.Aims settings old trace _ k _
    cases hcopy : (settings.giveOut (s.newHolder d).2.value).result with
    | error panic =>
      have hcopied : settings.copyOut d.value = .error panic := hcopy
      simp only [hcopied] at hconcludes
      exact ⟨rfl, 1, by decide, .restores hsame hasks hconcludes⟩
    | ok copy =>
      have hcopied : settings.copyOut d.value = .ok copy := hcopy
      simp only [hcopied] at hconcludes
      exact ⟨rfl, 3, by decide,
        .installs hsame hasks (fun h hh => Nat.ne_of_gt (hid h hh)) hconcludes⟩

variable (hp : p.Lawful settings) (hm : p.before.Reachable settings)
  (hmover : p.mover = some call.thread) (ht : p.before.threads[call.thread]? = some t)
  (hstack : t.stack = [] ++ call.base) (htells : call.Tells settings trace old)

include hp hm hmover ht hstack htells

/-- The miss is counted. -/
theorem advances_missed (hactivity : t.activity = .keep .missed)
    (hget : call.operation = .get call.key) (hlooks : call.Looks trace now)
    (hgone : ∀ h ∈ old, p.before.world.store.map.get? call.key ≠ some (.holder h)) :
    call.Advances settings old since trace p 1 := by
  obtain ⟨turn, draws, interrupted, hturn, hsection, -, hadvances⟩ :=
    own_section old since trace hp hmover ht hstack (by simp)
      hactivity
  have hquiet := silent_of_section hp hm hsection (by simp)
  have hmisses : call.Misses settings (trace ++ [p]) (.done (.value none)) := by
    have hanswers : call.Misses settings (trace ++ [p]) _ :=
      .answers (by rw [hget]; rfl) (Did.snoc hlooks)
    rwa [hget, Operation.endOfNone_of_idle rfl] at hanswers
  obtain rfl := Option.some.inj hturn
  exact hadvances 0 1 Nat.le.refl
    (.arrives (htells.snoc fun _ => hquiet) (.settles (by rw [hget]; rfl) hgone hmisses))

/-- The mapping function is called, and given no value. -/
theorem advances_own (hactivity : t.activity = .keep (.own c))
    (hoccupies : call.Occupies c p.before.world.store) :
    call.Advances settings old since trace p 6 := by
  obtain ⟨turn, draws, interrupted, hturn, hsection, hown, hadvances⟩ :=
    own_section old since trace hp hmover ht hstack (by simp)
      hactivity
  have hquiet := silent_of_section hp hm hsection (by simp)
  obtain rfl := Option.some.inj hturn
  obtain ⟨hmap, -, -⟩ := Store.own_outcome settings p.before.world.store c
  have hasked : (p.before.world.store.own settings c).next = .code (c.code c.key none) ∧
      (p.before.world.store.own settings c).frames = [.computing c] := by
    rw [Store.own, hoccupies.previous_eq]
    exact ⟨rfl, rfl⟩
  refine hadvances 5 6 Nat.le.refl ?_
  rw [hasked.2]
  change call.Nears settings old since _ _ _ _ ([] ++ [.computing c])
  exact .runs (htells.snoc fun _ => hquiet)
    (hoccupies.congr (congrArg (·.get? call.key) hmap))
    (did_last hown ⟨hsection.stage, hsection.next.trans (congrArg some hasked.1)⟩)

/-- The value is prepared. -/
theorem advances_compose (hactivity : t.activity = .keep (.compose c value))
    (hoccupies : call.Occupies c p.before.world.store) (hasks : call.Asks trace c)
    (hid : ∀ h ∈ old, h.id < p.before.world.store.deadlines.size)
    (hhears : call.Hears trace c (.done answer)) (hvalue : answer.value? = some value) :
    call.Advances settings old since trace p 4 := by
  obtain ⟨turn, draws, interrupted, hturn, hsection, hown, hadvances⟩ :=
    own_section old since trace hp hmover ht hstack (by simp)
      hactivity
  have hquiet := silent_of_section hp hm hsection (by simp)
  have hconcludes : call.Concludes settings (trace ++ [p]) c
      (settings.endOfValue c.key value p.before.world.clock.now) :=
    .value (Did.snoc hhears) hvalue (did_last hown ⟨hsection.stage, rfl⟩)
  obtain rfl := Option.some.inj hturn
  obtain ⟨hframes, k, hk, haims⟩ := Aims.of_compose hoccupies (Did.snoc hasks) hid hconcludes
  refine hadvances k 4 (by omega) ?_
  rw [hframes]
  exact .arrives (htells.snoc fun _ => hquiet) haims

/-- The holder takes the place of the fault. -/
theorem advances_install {h' : Holder V} (hactivity : t.activity = .keep (.install c h' value))
    (hoccupies : call.Occupies c p.before.world.store) (hasks : call.Asks trace c)
    (hnew : ∀ h ∈ old, h'.id ≠ h.id)
    (hconcludes : call.Concludes settings trace c (.done (.value (some value)))) :
    call.Advances settings old since trace p 3 := by
  obtain ⟨turn, draws, interrupted, hturn, hsection, -, hadvances⟩ :=
    own_section old since trace hp hmover ht hstack (by simp)
      hactivity
  have hquiet := silent_of_section hp hm hsection (by simp)
  have hfilled : (p.before.world.store.map.insert c.key (.holder h')).get? call.key =
      some (.holder h') := by
    rw [hm.accounted.map.valid.get?_insert, if_pos hoccupies.key_eq.symm]
  have hgone : ∀ h ∈ old, ((p.before.world.store.fill c.key h').resolve c.fault
      (.ready h')).map.get? call.key ≠ some (.holder h) := fun h hh hslot => by
    rw [Store.map_resolve] at hslot
    obtain rfl := Slot.holder.inj (Option.some.inj (hfilled.symm.trans hslot))
    exact hnew _ hh rfl
  rw [Stage.turn, Store.install, if_pos hoccupies.pendingIn, hoccupies.previous_eq] at hturn
  obtain rfl := Option.some.inj hturn
  exact hadvances 2 3 Nat.le.refl (.enforces (k := 0) (htells.snoc fun _ => hquiet)
    (.settles hoccupies.begins.meets hgone
      (.concludes hoccupies.begins (Did.snoc hasks) hconcludes.snoc)))

/-- The computation ends with nothing in the slot. -/
theorem advances_leaving {stage : Stage K V Q R} (hactivity : t.activity = .keep stage)
    (hstage : (∃ answer, stage = .vacate c resolution answer ∧ signal = .done answer) ∨
      stage = .restore c resolution signal)
    (hoccupies : call.Occupies c p.before.world.store) (hasks : call.Asks trace c)
    (hconcludes : call.Concludes settings trace c signal) :
    call.Advances settings old since trace p 1 := by
  obtain ⟨turn, draws, interrupted, hturn, hsection, -, hadvances⟩ :=
    own_section old since trace hp hmover ht hstack (by simp)
      hactivity
  have hquiet := silent_of_section hp hm hsection
    (by rcases hstage with ⟨_, rfl, -⟩ | rfl <;> simp)
  have herased : (p.before.world.store.map.erase c.key).get? call.key = none := by
    rw [hm.accounted.map.valid.get?_erase, if_pos hoccupies.key_eq.symm]
  have hends : call.Misses settings (trace ++ [p]) signal :=
    .concludes hoccupies.begins (Did.snoc hasks) hconcludes.snoc
  have hgone : ∀ h ∈ old, ((p.before.world.store.erase c.key).resolve c.fault resolution).map.get?
      call.key ≠ some (.holder h) := fun h _ hslot => by
    rw [Store.map_resolve] at hslot
    cases herased.symm.trans hslot
  rcases hstage with ⟨answer, rfl, rfl⟩ | rfl
  · rw [Stage.turn, Store.vacate, if_pos hoccupies.pendingIn, hoccupies.previous_eq] at hturn
    obtain rfl := Option.some.inj hturn
    exact hadvances 0 1 Nat.le.refl (.arrives (htells.snoc fun _ => hquiet)
      (.settles hoccupies.begins.meets hgone hends))
  · rw [Stage.turn, Store.restore, if_pos hoccupies.pendingIn, hoccupies.previous_eq] at hturn
    obtain rfl := Option.some.inj hturn
    exact hadvances 0 1 Nat.le.refl (.arrives (htells.snoc fun _ => hquiet)
      (.settles hoccupies.begins.meets hgone hends))

end Aims

end Call

end SharedCache
