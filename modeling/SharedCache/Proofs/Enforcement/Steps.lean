import SharedCache.Proofs.Enforcement.Standing

/-!
# Steps of an enforcement

Every step of an enforcement treats the entries as it should and brings it nearer to its end: the
sections of a round, the report of a removal, and what a listener leaves to do.
-/

namespace SharedCache

variable {K V Q R : Type} [DecidableEq K]

namespace Enforcement

variable {e : Enforcement K V Q R} {settings : Settings K V Q R} {trace : List (Passage K V Q R)}
  {p : Passage K V Q R} {t : Thread K V Q R} {above inside : List (Frame K V Q R)} {n : Nat}
  {stage : Stage K V Q R}

omit [DecidableEq K] in
theorem cost_succ {weight failed : Nat} (hfailed : failed < settings.blueprint.sampling.attempts) :
    cost settings weight failed =
      cost settings weight (failed + 1) + (settings.blueprint.sampling.size + 6) := by
  have hone : settings.blueprint.sampling.attempts - failed =
      settings.blueprint.sampling.attempts - (failed + 1) + 1 := by omega
  rw [cost, cost, hone, ← Nat.add_assoc, Nat.mul_add _ _ 1, Nat.mul_one]

variable (settings) in
omit [DecidableEq K] in
/-- A removal sets the rounds back that may fail, and still leaves less to do. -/
theorem cost_le {weight weight' : Nat} (failed : Nat) (hfalls : weight' + 1 ≤ weight) :
    cost settings weight' 0 ≤ cost settings weight failed := by
  refine Nat.mul_le_mul_left _ ?_
  calc settings.blueprint.sampling.attempts * weight' + (settings.blueprint.sampling.attempts - 0)
      = settings.blueprint.sampling.attempts * (weight' + 1) := by rw [Nat.mul_succ, Nat.sub_zero]
    _ ≤ settings.blueprint.sampling.attempts * weight := Nat.mul_le_mul_left _ hfalls
    _ ≤ _ := Nat.le_add_right _ _

omit [DecidableEq K] in
theorem isPick_of_stage (hstage : p.stage? = some stage)
    (hpick : ∀ failed sample, stage ≠ .pick failed sample) : p.isPick = false := by
  rw [Passage.isPick, hstage]
  split
  · rename_i heq
    exact absurd (Option.some.inj heq) (hpick _ _)
  · rfl

theorem evicted?_of_stage (hstage : p.stage? = some stage)
    (hevict : ∀ failed key h cause, stage ≠ .evict failed key h cause) : p.evicted? = none := by
  rw [Passage.evicted?, hstage]
  split
  · rename_i heq
    exact absurd (Option.some.inj heq) (hevict _ _ _ _)
  · rfl

/-- A step that neither picks nor evicts adds nothing to the rounds that have failed. -/
theorem fruitless_snoc_still (hpick : p.isPick = false) (hevicted : p.evicted? = none) :
    e.fruitless (trace ++ [p]) = e.fruitless trace := by
  simp [fruitless_snoc, tally, hpick, hevicted]

theorem treats_of_still (hevicted : p.evicted? = none)
    (hmap : p.after.world.store.map = p.before.world.store.map)
    (hdeadlines : p.after.world.store.deadlines = p.before.world.store.deadlines) :
    e.Treats settings trace p :=
  ⟨fun _ _ hsome => by simp [hevicted] at hsome, fun _ => hmap, hdeadlines⟩

/-- A step that leaves the store as it was treats no entry. -/
theorem treats_of_same (hevicted : p.evicted? = none)
    (hstore : p.after.world.store = p.before.world.store) : e.Treats settings trace p :=
  treats_of_still hevicted (by rw [hstore]) (by rw [hstore])

omit [DecidableEq K] in
theorem not_logsGivingUp {s : Store K V} (hevents : ∀ event ∈ p.events, stage.Emits s event)
    (hlogs : ∀ message, ¬ stage.Emits s (.logged message)) : ¬ p.LogsGivingUp := by
  rintro ⟨attempts, weight, capacity, hmem⟩
  exact hlogs _ (hevents _ hmem)

/-- A step of the enforcement treats the entries as it should and brings the enforcement nearer to
its end. -/
def Advances (e : Enforcement K V Q R) (settings : Settings K V Q R)
    (trace : List (Passage K V Q R)) (p : Passage K V Q R) (n : Nat) : Prop :=
  e.Treats settings trace p ∧ ∃ n' t' above', n' + 1 ≤ n ∧
    p.after.threads[e.thread]? = some t' ∧ t'.stack = above' ++ e.base ∧
    e.At settings (trace ++ [p]) p.after.world.store.map n' t'.activity above'

/-! ## Sections -/

omit [DecidableEq K] in
/-- An enforcement ends within the capacity or after too many rounds, and else begins a round. -/
theorem enforce_cases (settings : Settings K V Q R) (s : Store K V) (failed : Nat) :
    ¬ settings.Overweight s.map ∧ s.enforce settings failed = (.answer s .unit) ∨
      settings.Overweight s.map ∧
        (settings.blueprint.sampling.attempts ≤ failed ∧ (∃ weight capacity,
          s.enforce settings failed =
            (Turn.answer s .unit).after [.logged (.gaveUp failed weight capacity)]) ∨
        failed < settings.blueprint.sampling.attempts ∧ s.enforce settings failed =
          .goTo s (.keep (.draw failed [] settings.blueprint.sampling.size))) := by
  rw [Store.enforce]
  cases hcapacity : settings.blueprint.capacity with
  | none => exact .inl ⟨by rintro ⟨capacity, hsome, -⟩; simp [hcapacity] at hsome, rfl⟩
  | some capacity =>
    dsimp only
    split
    · rename_i hle
      refine .inl ⟨?_, rfl⟩
      rintro ⟨_, hsome, hlt⟩
      obtain rfl := Option.some.inj (hcapacity.symm.trans hsome)
      omega
    · rename_i hlt
      refine .inr ⟨⟨capacity, hcapacity, by omega⟩, ?_⟩
      split
      · exact .inl ⟨‹_›, _, _, rfl⟩
      · exact .inr ⟨by omega, rfl⟩

variable [DecidableEq V]

/-- An entry of a reachable store weighs something, so that its removal lessens the weight. -/
theorem weightedSize_erase_lt {m : Machine K V Q R} {key : K} {h : Holder V}
    (hm : m.Reachable settings) (hslot : m.world.store.map.get? key = some (.holder h)) :
    (m.world.store.map.erase key).weightedSize + 1 ≤ m.world.store.map.weightedSize := by
  obtain ⟨hvalid, hbalanced, hweighed⟩ := hm.accounted.map
  have htotal := hvalid.total_erase key Slot.weight
  rw [hslot, Option.elim_some, Slot.weight_holder, ← hbalanced.weightedSize,
    ← (EntryMap.Balanced.erase hvalid hbalanced key).weightedSize] at htotal
  have hpositive : 1 ≤ h.weight := by
    have hweight := hweighed key h hslot
    unfold Settings.Weighs at hweight
    split at hweight
    · omega
    · obtain ⟨raw, -, hmax⟩ := hweight
      omega
  omega

section Sections

variable (hp : p.Lawful settings) (hmover : p.mover = some e.thread)
  (ht : p.before.threads[e.thread]? = some t)

include hp hmover ht

variable (trace) in
/-- A section of the enforcement is its turn, and tells the log only what the section emits. -/
theorem own_section (hstack : t.stack = above ++ e.base) (habove : above.length ≤ 1)
    (hactivity : t.activity = .keep stage) : ∃ turn draws interrupted,
      stage.turn settings p.before.world.store p.before.world.clock.now interrupted draws =
        some turn ∧ p.after.world.store = turn.state ∧ p.events = turn.events ∧
      (∀ event ∈ p.events, stage.Emits p.before.world.store event) ∧ p.stage? = some stage ∧
      p.next? = some turn.next ∧ e.isOwn p = true ∧
      ∀ n' n, e.Treats settings trace p → n' + 1 ≤ n →
        e.At settings (trace ++ [p]) turn.state.map n' turn.next (turn.frames ++ above) →
        e.Advances settings trace p n := by
  obtain ⟨draws, turn, hturn, hstore, hthread, hevents⟩ := hp.own_turn hmover ht hactivity
  refine ⟨turn, draws, _, hturn, hstore, hevents, hevents ▸ fun event => Stage.emits hturn event,
    Passage.stage?_of_keep hmover ht hactivity, ?_, isOwn_of_stack hmover ht hstack habove,
    fun n' n htreats hless hat => ?_⟩
  · simp [Passage.next?, hmover, hthread]
  · exact ⟨htreats, n', _, turn.frames ++ above, hless, hthread, by simp [hstack], hstore ▸ hat⟩

/-- The enforcement ends, or another round begins. -/
theorem advances_enforce {failed : Nat} (hstack : t.stack = [] ++ e.base)
    (hactivity : t.activity = .keep (.enforce failed))
    (hfailed : failed ≤ settings.blueprint.sampling.attempts)
    (hfruitless : e.fruitless trace = failed) (hbarren : 0 < failed → e.Barren settings trace)
    (hquiet : e.Quiet trace) :
    e.Advances settings trace p
      (cost settings p.before.world.store.map.weightedSize failed + 1) := by
  obtain ⟨turn, draws, interrupted, hturn, hstore, hevents, -, hstage, -, hown, hadvances⟩ :=
    own_section trace hp hmover ht hstack (by simp) hactivity
  have hevicted : p.evicted? = none := evicted?_of_stage hstage (by simp)
  have hsame : e.fruitless (trace ++ [p]) = failed :=
    (fruitless_snoc_still (isPick_of_stage hstage (by simp)) hevicted).trans hfruitless
  have hbarren' : 0 < failed → e.Barren settings (trace ++ [p]) := fun hsome =>
    (hbarren hsome).snoc fun _ => hevicted
  rcases enforce_cases settings p.before.world.store failed with
    ⟨hfits, heq⟩ | ⟨hover, ⟨hmany, weight, capacity, heq⟩ | ⟨hfew, heq⟩⟩
  · obtain rfl := heq.symm.trans (Option.some.inj hturn)
    exact hadvances 0 _ (treats_of_same hevicted hstore) (by omega)
      (.ends (.fits hfits (hquiet.snoc_silent hevents)))
  · obtain rfl := heq.symm.trans (Option.some.inj hturn)
    refine hadvances 0 _ (treats_of_same hevicted hstore) (by omega)
      (.ends (.givesUp hover (by omega) (hbarren' ?_) (List.mem_append_right _ List.mem_cons_self)
        hown ?_))
    · exact settings.blueprint.sampling.attempts_pos.trans_le hmany
    · exact ⟨failed, weight, capacity, by simp [hevents]⟩
  · obtain rfl := heq.symm.trans (Option.some.inj hturn)
    refine hadvances _ _ (treats_of_same hevicted hstore) ?_
      (.draws hover hfew hsame hbarren' (hquiet.snoc_silent hevents)
        settings.blueprint.sampling.size_pos (by simp) (by simp [Drawn]) (by simp))
    rw [cost_succ hfew, Turn.state_goTo]
    omega

/-- The round goes on drawing, or has drawn enough. -/
theorem advances_draw {failed left : Nat} {sample : List (K × Holder V)}
    (hstack : t.stack = [] ++ e.base) (hactivity : t.activity = .keep (.draw failed sample left))
    (hover : settings.Overweight p.before.world.store.map)
    (hfailed : failed < settings.blueprint.sampling.attempts)
    (hfruitless : e.fruitless trace = failed) (hbarren : 0 < failed → e.Barren settings trace)
    (hquiet : e.Quiet trace) (hleft : 0 < left)
    (hsize : sample.length + left ≤ settings.blueprint.sampling.size)
    (hdrawn : e.Drawn trace sample)
    (hlive : ∀ entry ∈ sample,
      p.before.world.store.map.get? entry.1 = some (.holder entry.2)) :
    e.Advances settings trace p
      (cost settings p.before.world.store.map.weightedSize (failed + 1) + left + 6) := by
  obtain ⟨turn, draws, interrupted, hturn, hstore, hevents, -, hstage, hnext, -, hadvances⟩ :=
    own_section trace hp hmover ht hstack (by simp) hactivity
  have hevicted : p.evicted? = none := evicted?_of_stage hstage (by simp)
  have hsame : e.fruitless (trace ++ [p]) = failed :=
    (fruitless_snoc_still (isPick_of_stage hstage (by simp)) hevicted).trans hfruitless
  have htaken : (draws.take left).length ≤ left := List.length_take_le _ _
  have hfound : (p.before.world.store.map.sample (draws.take left)).length ≤
      (draws.take left).length := List.length_filterMap_le _ _
  have hlive' : ∀ entry ∈ sample ++ p.before.world.store.map.sample (draws.take left),
      p.before.world.store.map.get? entry.1 = some (.holder entry.2) := fun entry hentry =>
    (List.mem_append.mp hentry).elim (hlive entry) EntryMap.get?_of_mem_sample
  have hlength : (sample ++ p.before.world.store.map.sample (draws.take left)).length ≤
      sample.length + (draws.take left).length := by
    rw [List.length_append]
    omega
  -- Whichever section comes next has the longer sample.
  have hdrawn' : ∀ next : Stage K V Q R, turn.next = .keep next →
      next.sample? = some (sample ++ p.before.world.store.map.sample (draws.take left)) →
      e.Drawn (trace ++ [p]) (sample ++ p.before.world.store.map.sample (draws.take left)) := by
    intro next hkeep hsample entry hentry
    rcases List.mem_append.mp hentry with hold | hnew
    · exact hdrawn.snoc (fun _ => ⟨failed, sample, left, hstage⟩) entry hold
    · exact ⟨trace, p, [], rfl, hmover,
        ⟨failed, sample, left, next, _, hstage, hkeep ▸ hnext, hsample, hnew⟩, by simp⟩
  rw [Stage.turn, Store.draw] at hturn
  split at hturn
  · obtain rfl := Option.some.inj hturn
    exact hadvances _ _ (treats_of_same hevicted hstore) (by rw [Turn.state_goTo]; omega)
      (.picks hover hfailed hsame (hquiet.snoc_silent hevents) (by omega) (hdrawn' _ rfl rfl)
        hlive')
  · rename_i hmore
    rw [Bool.or_eq_true, List.isEmpty_iff, decide_eq_true_iff, not_or] at hmore
    have hsome : 0 < (draws.take left).length := List.length_pos_of_ne_nil hmore.1
    obtain rfl := Option.some.inj hturn
    exact hadvances _ _ (treats_of_same hevicted hstore) (by rw [Turn.state_goTo]; omega)
      (.draws hover hfailed hsame (fun hsome => (hbarren hsome).snoc fun _ => hevicted)
        (hquiet.snoc_silent hevents) (by omega) (by omega) (hdrawn' _ rfl rfl) hlive')

/-- The round has a victim, or has failed. -/
theorem advances_pick {failed : Nat} {sample : List (K × Holder V)}
    (hstack : t.stack = [] ++ e.base) (hactivity : t.activity = .keep (.pick failed sample))
    (hover : settings.Overweight p.before.world.store.map)
    (hfailed : failed < settings.blueprint.sampling.attempts)
    (hfruitless : e.fruitless trace = failed) (hquiet : e.Quiet trace)
    (hsize : sample.length ≤ settings.blueprint.sampling.size) (hdrawn : e.Drawn trace sample)
    (hlive : ∀ entry ∈ sample,
      p.before.world.store.map.get? entry.1 = some (.holder entry.2)) :
    e.Advances settings trace p
      (cost settings p.before.world.store.map.weightedSize (failed + 1) + 6) := by
  obtain ⟨turn, draws, interrupted, hturn, hstore, -, hemits, hstage, -, hown, hadvances⟩ :=
    own_section trace hp hmover ht hstack (by simp) hactivity
  have hevicted : p.evicted? = none := evicted?_of_stage hstage (by simp)
  have hmore : e.fruitless (trace ++ [p]) = failed + 1 := by
    simp [fruitless_snoc, tally, hown, hevicted, hfruitless, Passage.isPick, hstage]
  have hsilent : e.Quiet (trace ++ [p]) :=
    hquiet.snoc fun _ => not_logsGivingUp hemits fun _ => id
  rw [Stage.turn, Store.pick, Turn.consulting] at hturn
  split at hturn
  · rename_i choice hchoice
    obtain rfl := Option.some.inj hturn
    cases choice with
    | none =>
      exact hadvances (cost settings p.before.world.store.map.weightedSize (failed + 1) + 1) _
        (treats_of_same hevicted hstore) (by omega) (.enforces hfailed hmore
          (fun _ => ⟨trace, p, [], rfl, hown, ⟨failed, sample, hstage, hchoice⟩, by simp⟩) hsilent)
    | some victim =>
      obtain ⟨⟨key, h⟩, cause⟩ := victim
      exact hadvances (cost settings p.before.world.store.map.weightedSize (failed + 1) + 5) _
        (treats_of_same hevicted hstore) (by omega) (.evicts hover hfailed hmore hsilent
          ⟨trace, p, [], rfl, ⟨hown, failed, sample, hstage, hsize, hdrawn, hlive, hchoice⟩,
            by simp⟩
          (hlive _ (Store.mem_of_victim hchoice)))
  · obtain rfl := Option.some.inj hturn
    exact hadvances 0 _ (treats_of_same hevicted hstore) (by omega)
      (.ends (.panics (.inl (Store.vetoRaises_of_victim ‹_›).vetoPanics) hsilent))

/-- The victim leaves its slot. -/
theorem advances_evict (hm : p.before.Reachable settings) {failed : Nat} {key : K} {h : Holder V}
    {cause : RemovalCause} (hstack : t.stack = [] ++ e.base)
    (hactivity : t.activity = .keep (.evict failed key h cause))
    (hover : settings.Overweight p.before.world.store.map) (hquiet : e.Quiet trace)
    (hpicked : e.HasPicked settings trace (key, h) cause)
    (hslot : p.before.world.store.map.get? key = some (.holder h)) :
    e.Advances settings trace p
      (cost settings p.before.world.store.map.weightedSize (failed + 1) + 5) := by
  obtain ⟨turn, draws, interrupted, hturn, hstore, -, hemits, hstage, hnext, hown, hadvances⟩ :=
    own_section trace hp hmover ht hstack (by simp) hactivity
  have hholds : p.before.world.store.holds key h = true := by
    simp [Store.holds, hslot, Slot.isHolder]
  have hevicted : p.evicted? = some ((key, h), cause) := by
    simp [Passage.evicted?, hstage, hholds]
  have hnone : e.fruitless (trace ++ [p]) = 0 := by
    simp [fruitless_snoc, tally, hown, hevicted]
  have hsilent : e.Quiet (trace ++ [p]) :=
    hquiet.snoc fun _ => not_logsGivingUp hemits fun _ => id
  rw [Stage.turn, Store.evict, if_pos hholds] at hturn
  obtain rfl := Option.some.inj hturn
  have hfalls := cost_le settings (failed + 1) (weightedSize_erase_lt hm hslot)
  refine hadvances (cost settings (p.before.world.store.map.erase key).weightedSize 0 + 4) _
    ⟨fun entry cause' hsome => ?_, fun hno => ?_, by rw [hstore]; rfl⟩ (by omega)
    (.reports hnone hsilent)
  · obtain ⟨rfl, rfl⟩ := Prod.mk.inj (Option.some.inj (hevicted.symm.trans hsome))
    exact ⟨hover, hpicked, by rw [hstore]; rfl, hnext⟩
  · simp [hevicted] at hno

/-- The removal is reported, or the listener is called. -/
theorem advances_report {key : K} {h : Holder V} {cause : RemovalCause}
    (hstack : t.stack = [.next (.keep (.enforce 0))] ++ e.base)
    (hactivity : t.activity = .keep (.report key h cause))
    (hfruitless : e.fruitless trace = 0) (hquiet : e.Quiet trace) :
    e.Advances settings trace p
      (cost settings p.before.world.store.map.weightedSize 0 + 4) := by
  obtain ⟨turn, draws, interrupted, hturn, hstore, -, hemits, hstage, -, hown, hadvances⟩ :=
    own_section trace hp hmover ht hstack (by simp) hactivity
  have hevicted : p.evicted? = none := evicted?_of_stage hstage (by simp)
  have hsame : e.fruitless (trace ++ [p]) = 0 :=
    (fruitless_snoc_still (isPick_of_stage hstage (by simp)) hevicted).trans hfruitless
  have hsilent : e.Quiet (trace ++ [p]) :=
    hquiet.snoc fun _ => not_logsGivingUp hemits fun _ hlogs => by
      obtain hevent | hevent | ⟨_, hevent⟩ := hlogs <;> cases hevent
  obtain rfl := Option.some.inj hturn
  obtain ⟨hmap, hdeadlines⟩ := Store.state_report settings p.before.world.store key h cause
  have htreats : e.Treats settings trace p :=
    treats_of_still hevicted (by rw [hstore, hmap]) (by rw [hstore, hdeadlines])
  rcases Store.report_cases settings p.before.world.store key h cause with
    ⟨⟨signal, hnext, hraised⟩, hframes⟩ | ⟨⟨script, hnext⟩, hframes⟩
  · cases signal with
    | done answer =>
      refine hadvances (cost settings p.before.world.store.map.weightedSize 0 + 2) _ htreats
        (by omega) ?_
      rw [hmap, hnext, hframes]
      exact .reported hsame hsilent
    | raised panic =>
      refine hadvances 1 _ htreats (by omega) ?_
      rw [hmap, hnext, hframes]
      exact .unwinds ⟨h.value, (hraised panic rfl).2⟩ hsilent
  · refine hadvances (cost settings p.before.world.store.map.weightedSize 0 + 3) _ htreats
      (by omega) ?_
    rw [hmap, hnext, hframes]
    change e.At settings _ _ _ _ ([] ++ [.listening, .next (.keep (.enforce 0))])
    exact .listens hsame hsilent

/-! ## Between the sections -/

variable (above) in
/-- Where the enforcement learns how something has ended, it treats no entry. -/
theorem advances_receipt {signal : Signal V} {frame : Frame K V Q R} {n' : Nat}
    (hactivity : t.activity = .settle signal) (hstack : t.stack = frame :: (above ++ e.base))
    {s : Step K V Q R} (hreceive : frame.receive p.before.world t.popped signal = s)
    (hmap : s.world.store.map = p.before.world.store.map)
    (hdeadlines : s.world.store.deadlines = p.before.world.store.deadlines)
    (hrest : s.thread.stack = t.stack.tail)
    (hlogs : ∀ attempts weight capacity, .logged (.gaveUp attempts weight capacity) ∉ s.events)
    (hless : n' + 1 ≤ n)
    (hat : e.fruitless (trace ++ [p]) = e.fruitless trace →
      (e.Quiet trace → e.Quiet (trace ++ [p])) →
        e.At settings (trace ++ [p]) p.before.world.store.map n' s.thread.activity above) :
    e.Advances settings trace p n := by
  obtain ⟨chance, _, hstep, hworld, hthread, hevents⟩ := hp.own_step hmover ht
  obtain rfl := (Thread.receive_of_step hactivity hstack hstep).trans hreceive
  have hstage : p.stage? = none := Passage.stage?_of_apart hmover ht (by simp [hactivity])
  have hevicted : p.evicted? = none := by rw [Passage.evicted?, hstage]
  have hpick : p.isPick = false := by rw [Passage.isPick, hstage]
  have hsame : p.after.world.store.map = p.before.world.store.map := by rw [hworld, hmap]
  refine ⟨treats_of_still hevicted hsame (by rw [hworld, hdeadlines]), n', _, above, hless, hthread,
    by rw [hrest, hstack, List.tail_cons], ?_⟩
  rw [hsame]
  refine hat (fruitless_snoc_still hpick hevicted) fun hquiet => hquiet.snoc fun _ => ?_
  rintro ⟨attempts, weight, capacity, hmem⟩
  exact hlogs attempts weight capacity (hevents ▸ hmem)

/-- The report of a victim has ended. -/
theorem advances_next {signal : Signal V} {n' : Nat} (hactivity : t.activity = .settle signal)
    (hstack : t.stack = [.next (.keep (.enforce 0))] ++ e.base) (hless : n' + 1 ≤ n)
    (hat : e.fruitless (trace ++ [p]) = e.fruitless trace →
      (e.Quiet trace → e.Quiet (trace ++ [p])) →
        e.At settings (trace ++ [p]) p.before.world.store.map n'
          (match signal with
            | .done _ => .keep (.enforce 0)
            | .raised panic => .settle (.raised panic)) []) :
    e.Advances settings trace p n := by
  cases signal with
  | done answer =>
    exact advances_receipt [] hp hmover ht hactivity hstack rfl rfl rfl rfl
      (by simp [Frame.receive, Step.apart]) hless hat
  | raised panic =>
    exact advances_receipt [] hp hmover ht hactivity hstack rfl rfl rfl rfl
      (by simp [Frame.receive, Step.apart]) hless hat

/-- The listener has ended. -/
theorem advances_listened {signal : Signal V} (hactivity : t.activity = .settle signal)
    (hstack : t.stack = .listening :: ([.next (.keep (.enforce 0))] ++ e.base))
    (hfruitless : e.fruitless trace = 0) (hquiet : e.Quiet trace) :
    e.Advances settings trace p
      (cost settings p.before.world.store.map.weightedSize 0 + 3) := by
  cases signal with
  | done answer =>
    exact advances_receipt _ hp hmover ht hactivity hstack rfl rfl rfl rfl
      (by simp [Frame.receive, Step.ofStore, Store.listened]) Nat.le.refl fun hsame hsilent =>
        .reported (hsame.trans hfruitless) (hsilent hquiet)
  | raised panic =>
    exact advances_receipt _ hp hmover ht hactivity hstack rfl rfl rfl rfl
      (by simp [Frame.receive, Step.ofStore, Store.listened]) Nat.le.refl fun hsame hsilent =>
        .reported (hsame.trans hfruitless) (hsilent hquiet)

/-- Every step of the enforcement brings it nearer to its end. -/
theorem At.advances (hm : p.before.Reachable settings) (hstack : t.stack = above ++ e.base)
    (hat : e.At settings trace p.before.world.store.map n t.activity above)
    (hwithin : t.stack = e.base → ∀ signal, t.activity ≠ .settle signal)
    (hown : e.isOwn p = true) : e.Advances settings trace p n := by
  generalize hactivity : t.activity = a at hat
  cases hat with
  | enforces hfailed hfruitless hbarren hquiet =>
    exact advances_enforce hp hmover ht hstack hactivity hfailed hfruitless hbarren hquiet
  | draws hover hfailed hfruitless hbarren hquiet hleft hsize hdrawn hlive =>
    exact advances_draw hp hmover ht hstack hactivity hover hfailed hfruitless hbarren hquiet hleft
      hsize hdrawn hlive
  | picks hover hfailed hfruitless hquiet hsize hdrawn hlive =>
    exact advances_pick hp hmover ht hstack hactivity hover hfailed hfruitless hquiet hsize hdrawn
      hlive
  | evicts hover hfailed hfruitless hquiet hpicked hslot =>
    exact advances_evict hp hmover ht hm hstack hactivity hover hquiet hpicked hslot
  | reports hfruitless hquiet =>
    exact advances_report hp hmover ht hstack hactivity hfruitless hquiet
  | @listens _ inside hfruitless hquiet =>
    rw [List.append_assoc] at hstack
    by_cases hruns : inside = [] ∧ ∃ signal, t.activity = .settle signal
    · obtain ⟨rfl, signal, hsettled⟩ := hruns
      exact advances_listened hp hmover ht hsettled hstack hfruitless hquiet
    · exact absurd hown (by simp [not_isOwn_of_listens hmover ht hstack hruns])
  | reported hfruitless hquiet =>
    exact advances_next hp hmover ht hactivity hstack Nat.le.refl fun hsame hsilent =>
      .enforces (Nat.zero_le _) (hsame.trans hfruitless) (by simp) (hsilent hquiet)
  | unwinds hcopy hquiet =>
    exact advances_next hp hmover ht hactivity hstack Nat.le.refl fun _ hsilent =>
      .ends (.panics (.inr hcopy) (hsilent hquiet))
  | @ends signal hends => exact absurd hactivity (hwithin (by simpa using hstack) signal)

end Sections

end Enforcement

end SharedCache
