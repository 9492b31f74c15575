import Mathlib.Algebra.Ring.Int.Defs
import SharedCache.Proofs.Undone.Standing

/-!
# Steps of a call that may fail

A step leads a call from one place to another.  Only the way from a computation to its undoing
touches the slot, and the last step on it puts back what was there at the start.
-/

namespace SharedCache

variable {K V Q R : Type} [DecidableEq K] [DecidableEq V]

namespace Call

variable {call : Call K V Q R} {settings : Settings K V Q R} {start : Machine K V Q R}
  {trace : List (Passage K V Q R)} {p : Passage K V Q R} {t : Thread K V Q R}
  {owns : Nat → Prop} {signal : Signal V}

/-- The other threads leave the call where it stands. -/
theorem At.of_other (hat : call.At settings start trace p.before) (hp : p.Lawful settings)
    (hmover : p.mover ≠ some call.thread)
    (hcalm : p.after.slot? call.key = p.before.slot? call.key) :
    call.At settings start (trace ++ [p]) p.after := by
  have hother : call.isOwn p = false := not_isOwn_of_mover hmover
  have hnot : ∀ signal, ¬ call.Fails settings p signal := not_fails_of_other hother
  cases hat with
  | seeks ht hstack hactivity hseeks hslot hclean hunfailed =>
    exact .seeks (hp.thread_eq hmover ht) hstack hactivity hseeks (hcalm.trans hslot)
      (hclean.snoc_other hother) (hunfailed.snoc hnot)
  | computes ht hcomputes hparks hclean hunfailed =>
    exact .computes (hp.thread_eq hmover ht) hcomputes
      ⟨hparks.key, hparks.before, hcalm.trans hparks.slot⟩ (hclean.snoc_other hother)
      (hunfailed.snoc hnot)
  | spends ht hstack hspent hunfailed =>
    exact .spends (hp.thread_eq hmover ht) hstack hspent (hunfailed.snoc hnot)
  | undoes ht hstack hactivity hundoes hfailure hparks hclean honly =>
    exact .undoes (hp.thread_eq hmover ht) hstack hactivity hundoes hfailure
      ⟨hparks.key, hparks.before, hcalm.trans hparks.slot⟩ (hclean.snoc_other hother)
      (honly.snoc hnot)
  | ends ht hstack hactivity hslot hclean hresolved honly =>
    refine .ends (hp.thread_eq hmover ht) hstack hactivity (hcalm.trans hslot)
      (hclean.snoc_other hother) (fun fault howns => ?_) (honly.snoc hnot)
    obtain ⟨resolution, hresolution, hfailure⟩ := hresolved fault howns
    exact ⟨resolution, hp.resolution? hresolution, hfailure⟩

/-- A section of the call that changes no other key and no deadline, and is no report. -/
theorem spares_of_turn (hp : p.Lawful settings) (hm : p.before.Reachable settings)
    (hmover : p.mover = some call.thread) (ht : p.before.threads[call.thread]? = some t)
    {stage : Stage K V Q R} (hactivity : t.activity = .keep stage)
    (hstage : ∀ key h cause, stage ≠ .report key h cause)
    (hmap : p.before.world.store.map.ChangesAt call.key p.after.world.store.map)
    (hdeadlines : p.after.world.store.deadlines = p.before.world.store.deadlines) :
    call.Spares p := by
  refine ⟨hmap, hdeadlines, hp.isSilent hm fun key h cause hreport => ?_⟩
  rw [Passage.stage?_of_keep hmover ht hactivity] at hreport
  exact hstage key h cause (Option.some.inj hreport)

omit [DecidableEq V] in
theorem changesAt_of_eq {key : K} {m m' : EntryMap K V} (hmap : m' = m) : m.ChangesAt key m' :=
  hmap ▸ .same

omit [DecidableEq V] in
theorem slot?_of_map (hmap : p.after.world.store.map = p.before.world.store.map) (key : K) :
    p.after.slot? key = p.before.slot? key := by
  rw [Machine.slot?, Machine.slot?, hmap]

/-- A section of the call that reads the store and goes on. -/
theorem Clean.snoc_of_reads (hclean : call.Clean (fun _ => False) trace) (hp : p.Lawful settings)
    (hm : p.before.Reachable settings) (hmover : p.mover = some call.thread)
    (ht : p.before.threads[call.thread]? = some t) {stage : Stage K V Q R}
    (hactivity : t.activity = .keep stage) (hstage : ∀ key h cause, stage ≠ .report key h cause)
    (hsame : p.after.world.store = p.before.world.store) :
    call.Clean (fun _ => False) (trace ++ [p]) ∧
      p.after.slot? call.key = p.before.slot? call.key := by
  have hmap : p.after.world.store.map = p.before.world.store.map := by rw [hsame]
  have hslot := slot?_of_map hmap call.key
  refine ⟨hclean.snoc (fun _ => ?_) fun _ fault hinstalls => ?_, hslot⟩
  · exact spares_of_turn hp hm hmover ht hactivity hstage (changesAt_of_eq hmap) (by rw [hsame])
  · exact not_installs_of_slot hslot fault hinstalls

/-- The call looks at its key. -/
theorem At.of_visits (hp : p.Lawful settings) (hm : p.before.Reachable settings)
    (hmover : p.mover = some call.thread) (ht : p.before.threads[call.thread]? = some t)
    (hstack : t.stack = call.base) {retries : Nat} {now : Instant}
    (hactivity : t.activity = .keep (.visit call.operation retries now))
    (hslot : p.before.slot? call.key = start.slot? call.key)
    (hclean : call.Clean (fun _ => False) trace) (hunfailed : call.Unfailed settings trace)
    (hfresh : ∀ h, p.before.slot? call.key = some (.holder h) →
      p.before.world.store.expired h now = false) :
    call.At settings start (trace ++ [p]) p.after := by
  obtain ⟨draws, turn, hturn, hstore, ht', -⟩ := hp.own_turn hmover ht hactivity
  obtain rfl := Option.some.inj hturn
  rw [hstack] at ht'
  have hnext : p.next? =
      some (p.before.world.store.visit settings retries now call.operation).next := by
    simp [Passage.next?, hmover, ht']
  have hlook : ∀ h, p.before.world.store.look call.key now ≠ .stale h := by
    intro h hstale
    have hfound := Store.get?_of_stale hstale
    rw [Store.look, hfound] at hstale
    simp [hfresh h hfound] at hstale
  have houtcome : p.before.world.store.Outcome call.operation retries call.key
      (p.before.world.store.visit settings retries now call.operation) :=
    Store.outcome_finds (Store.finds call.operation) call.key_eq hlook
  cases houtcome with
  | @awaits fault hstate hawait hframes =>
    obtain ⟨hclean', hsame⟩ :=
      hclean.snoc_of_reads hp hm hmover ht hactivity (by simp) (hstore.trans hstate)
    rw [hawait] at hnext
    exact .seeks ht' (by simp [hframes]) hawait (.await retries fault) (hsame.trans hslot) hclean'
      (hunfailed.snoc (not_fails_of_keep ht hactivity (by simp [hnext]) (by simp)))
  | @panics panic hstate hraised hframes =>
    obtain ⟨hclean', hsame⟩ :=
      hclean.snoc_of_reads hp hm hmover ht hactivity (by simp) (hstore.trans hstate)
    refine .ends ht' (by simp [hframes]) hraised (hsame.trans hslot) hclean' (fun _ => False.elim)
      (hunfailed.failsOnly fun signal' hfails => ?_)
    rcases (hfails.strikes ht).of_keep hactivity with
      ⟨retries', now', panic', -, rfl, hnext'⟩ | ⟨c, value, panic', hstage, -⟩
    · rw [hraised] at hnext
      exact (Activity.settle.inj (Option.some.inj (hnext.symm.trans hnext'))).symm
    · cases hstage
  | @begins c hkey hfault hfound hstate howns hframes =>
    have hmap : p.after.world.store.map =
        p.before.world.store.map.insert call.key (.fault p.before.world.store.faults.size) := by
      rw [hstore, hstate]
      rfl
    have hslot' : p.after.slot? call.key = some (.fault c.fault) := by
      rw [Machine.slot?, hmap, hm.accounted.map.valid.get?_insert, if_pos rfl, hfault]
    have hspares : call.Spares p :=
      spares_of_turn hp hm hmover ht hactivity (by simp) (hmap ▸ .puts _)
        (by rw [hstore, hstate]; rfl)
    rw [howns] at hnext
    refine .computes ht' (.owns howns (by simp [hframes])) ⟨hkey, ?_, hslot'⟩
      ((hclean.imp fun _ => False.elim).snoc (fun _ => hspares) fun _ fault hinstalls => ?_)
      (hunfailed.snoc (not_fails_of_keep ht hactivity (by simp [hnext]) (by simp)))
    · rw [← hslot]
      exact hfound
    · exact Slot.fault.inj (Option.some.inj (hinstalls.1.symm.trans hslot'))
  | spends hraised hspent hframes =>
    refine .spends ht' rfl (.goesOn hspent hframes)
      (hunfailed.snoc (not_fails_of_keep ht hactivity ?_ (by simp)))
    intro retries' now' panic _ hpanic
    exact hraised panic (Option.some.inj (hnext.symm.trans hpanic))

/-- The call looks at its key, or goes on waiting for it. -/
theorem At.of_seeks (hp : p.Lawful settings) (hm : p.before.Reachable settings)
    (hmover : p.mover = some call.thread) (ht : p.before.threads[call.thread]? = some t)
    (hstack : t.stack = call.base) {stage : Stage K V Q R} (hactivity : t.activity = .keep stage)
    (hseeks : call.Seeks stage) (hslot : p.before.slot? call.key = start.slot? call.key)
    (hclean : call.Clean (fun _ => False) trace) (hunfailed : call.Unfailed settings trace)
    (hfresh : ∀ retries now h, p.stage? = some (.visit call.operation retries now) →
      p.before.slot? call.key = some (.holder h) →
      p.before.world.store.expired h now = false) :
    call.At settings start (trace ++ [p]) p.after := by
  have hstage := Passage.stage?_of_keep hmover ht hactivity
  obtain ⟨draws, turn, hturn, hstore, ht', -⟩ := hp.own_turn hmover ht hactivity
  rw [hstack] at ht'
  cases hseeks with
  | round retries =>
    obtain rfl := Option.some.inj hturn
    obtain ⟨hclean', hsame⟩ :=
      hclean.snoc_of_reads hp hm hmover ht hactivity (by simp) hstore
    exact .seeks ht' rfl rfl (.visit retries _) (hsame.trans hslot) hclean'
      (hunfailed.snoc (not_fails_of_keep ht hactivity (by simp) (by simp)))
  | visit retries now =>
    exact At.of_visits hp hm hmover ht hstack hactivity hslot hclean hunfailed
      fun h => hfresh retries now h hstage
  | await retries fault =>
    have hnot : ∀ signal, ¬ call.Fails settings p signal :=
      not_fails_of_keep ht hactivity (by simp) (by simp)
    simp only [Stage.turn] at hturn
    split at hturn
    · rename_i resolution hresolution
      obtain rfl := Option.some.inj hturn
      obtain ⟨hstate, hframes, ⟨retries', hround⟩ | hspent⟩ :=
        p.before.world.store.resume_outcome call.operation retries resolution
      · obtain ⟨hclean', hsame⟩ :=
          hclean.snoc_of_reads hp hm hmover ht hactivity (by simp) (hstore.trans hstate)
        exact .seeks ht' (by simp [hframes]) hround (.round retries') (hsame.trans hslot) hclean'
          (hunfailed.snoc hnot)
      · exact .spends ht' rfl (.goesOn hspent (by simp [hframes])) (hunfailed.snoc hnot)
    · split at hturn
      · obtain rfl := Option.some.inj hturn
        exact .spends ht' rfl (.goesOn trivial (by simp)) (hunfailed.snoc hnot)
      · cases hturn

/-- The call calls its mapping function. -/
theorem At.of_owns (hp : p.Lawful settings) (hm : p.before.Reachable settings)
    (hmover : p.mover = some call.thread) (ht : p.before.threads[call.thread]? = some t)
    (hstack : t.stack = call.base) {c : Computation K V Q R}
    (hactivity : t.activity = .keep (.own c)) (hparks : call.Parks start p.before c)
    (hclean : call.Clean (fun fault => fault = c.fault) trace)
    (hunfailed : call.Unfailed settings trace) :
    call.At settings start (trace ++ [p]) p.after := by
  obtain ⟨draws, turn, hturn, hstore, ht', -⟩ := hp.own_turn hmover ht hactivity
  obtain rfl := Option.some.inj hturn
  have hnot : ∀ signal, ¬ call.Fails settings p signal :=
    not_fails_of_keep ht hactivity (by simp) (by simp)
  rw [hstack] at ht'
  obtain ⟨hmap, hdeadlines, hframes | ⟨hframes, hspent⟩⟩ :=
    Store.own_outcome settings p.before.world.store c
  · rw [← hstore] at hmap hdeadlines
    have hslot := slot?_of_map hmap call.key
    refine .computes (c := c) ht' (.runs (show _ = [] ++ _ by simp [hframes]))
      ⟨hparks.key, hparks.before, hslot.trans hparks.slot⟩
      (hclean.snoc (fun _ => ?_) fun _ fault hinstalls => ?_) (hunfailed.snoc hnot)
    · exact spares_of_turn hp hm hmover ht hactivity (by simp) (changesAt_of_eq hmap) hdeadlines
    · exact absurd hinstalls (not_installs_of_slot hslot fault)
  · exact .spends ht' rfl (.goesOn hspent (by simp [hframes])) (hunfailed.snoc hnot)

/-- The mapping function runs, or has ended. -/
theorem At.of_runs (hp : p.Lawful settings) (hm : p.before.Reachable settings)
    (hmover : p.mover = some call.thread) (ht : p.before.threads[call.thread]? = some t)
    {c : Computation K V Q R} {above : List (Frame K V Q R)}
    (hstack : t.stack = above ++ .computing c :: call.base) (hparks : call.Parks start p.before c)
    (hclean : call.Clean (fun fault => fault = c.fault) trace)
    (hunfailed : call.Unfailed settings trace)
    (hcalm : call.isOwn p = false → p.after.slot? call.key = p.before.slot? call.key) :
    call.At settings start (trace ++ [p]) p.after := by
  obtain ⟨chance, s, hstep, hworld, ht', hevents⟩ := hp.own_step hmover ht
  by_cases hruns : above = [] ∧ ∃ signal, t.activity = .settle signal
  · obtain ⟨rfl, signal, hactivity⟩ := hruns
    obtain rfl := Thread.receive_of_step hactivity hstack hstep
    obtain ⟨hspares, hframes, -⟩ := p.before.world.store.mapped_spec c signal
    obtain ⟨-, -, hdeadlines, -⟩ := p.before.world.store.mapped_idle c signal
    have hstack' : (p.before.world.store.mapped c signal).frames ++ t.popped.stack = call.base := by
      simp [hframes, Thread.popped, hstack]
    have hmap : p.after.world.store.map = p.before.world.store.map := by
      rw [hworld]
      exact hspares.map
    have hslot := slot?_of_map hmap call.key
    have hparks' : call.Parks start p.after c :=
      ⟨hparks.key, hparks.before, hslot.trans hparks.slot⟩
    have hstage : p.stage? = none := Passage.stage?_of_apart hmover ht (by simp [hactivity])
    have hspares' : call.Spares p :=
      ⟨changesAt_of_eq hmap, by rw [hworld]; exact hdeadlines, hp.isSilent hm (by simp [hstage])⟩
    have hclean' : call.Clean (fun fault => fault = c.fault) (trace ++ [p]) :=
      hclean.snoc (fun _ => hspares') fun _ fault hinstalls =>
        absurd hinstalls (not_installs_of_slot hslot fault)
    -- The call fails as its mapping function does.
    have hends : ∀ signal', call.Fails settings p signal' →
        (∃ panic, signal = .raised panic ∧ signal' = signal) ∨
          ∃ text, signal = .done (.complaint text) ∧
            signal' = .done (.failed (.computation ⟨c.fault, text⟩)) := by
      intro signal' hfails
      cases hfails.strikes ht with
      | visits hother => cases hactivity.symm.trans hother
      | composes hother => cases hactivity.symm.trans hother
      | @complains c' text hother htop =>
        obtain rfl : c = c' := Frame.computing.inj (List.cons.inj (hstack.symm.trans htop)).1
        exact .inr ⟨text, Activity.settle.inj (hactivity.symm.trans hother), rfl⟩
      | @panics c' panic hother =>
        obtain rfl := Activity.settle.inj (hactivity.symm.trans hother)
        exact .inl ⟨panic, rfl, rfl⟩
    rcases p.before.world.store.mapped_outcome c signal with
      ⟨panic, rfl, hnext⟩ | ⟨text, resolution, stage, rfl, hnext, hundoes, hfailure⟩ |
        ⟨hraised, hcomplaint, hnext⟩
    · refine .undoes ht' hstack' hnext .restores trivial hparks' hclean'
        (hunfailed.failsOnly fun signal' hfails => ?_)
      rcases hends signal' hfails with ⟨_, -, hsame⟩ | ⟨_, hother, -⟩
      · exact hsame
      · cases hother
    · refine .undoes ht' hstack' hnext hundoes hfailure hparks' hclean'
        (hunfailed.failsOnly fun signal' hfails => ?_)
      rcases hends signal' hfails with ⟨_, hother, -⟩ | ⟨text', hsame, rfl⟩
      · cases hother
      · rw [Answer.complaint.inj (Signal.done.inj hsame)]
    · have hnot : ∀ signal', ¬ call.Fails settings p signal' := by
        intro signal' hfails
        rcases hends signal' hfails with ⟨panic, hsame, -⟩ | ⟨text, hsame, -⟩
        · exact hraised panic hsame
        · exact hcomplaint text hsame
      rcases hnext with ⟨value, hcompose⟩ | hspent
      · exact .computes ht' (.composes hcompose hstack') hparks' hclean' (hunfailed.snoc hnot)
      · exact .spends ht' (show _ = [] ++ call.base from hstack') (.goesOn hspent (by simp))
          (hunfailed.snoc hnot)
  · have hframes : t.stack = (above ++ .computing c :: []) ++ call.base := by simp [hstack]
    have hother := not_isOwn_of_runs hmover ht hframes rfl hruns
    have hslot := hcalm hother
    obtain ⟨above', habove'⟩ := ((Thread.stride hstep).below hstack).resolve_left hruns
    exact .computes ht' (.runs habove') ⟨hparks.key, hparks.before, hslot.trans hparks.slot⟩
      (hclean.snoc_other hother) (hunfailed.snoc (not_fails_of_other hother))

/-- The value that the mapping function gave is prepared. -/
theorem At.of_composes (hp : p.Lawful settings) (hm : p.before.Reachable settings)
    (hmover : p.mover = some call.thread) (ht : p.before.threads[call.thread]? = some t)
    (hstack : t.stack = call.base) {c : Computation K V Q R} {value : V}
    (hactivity : t.activity = .keep (.compose c value)) (hparks : call.Parks start p.before c)
    (hclean : call.Clean (fun fault => fault = c.fault) trace)
    (hunfailed : call.Unfailed settings trace) :
    call.At settings start (trace ++ [p]) p.after := by
  obtain ⟨draws, turn, hturn, hstore, ht', -⟩ := hp.own_turn hmover ht hactivity
  obtain rfl := Option.some.inj hturn
  rw [hstack] at ht'
  rcases Store.compose_outcome settings p.before.world.store c value p.before.world.clock.now with
    ⟨panic, hdraft, hstate, hframes, hnext⟩ | ⟨⟨d, hdraft⟩, hframes, hspent⟩
  · have hsame : p.after.world.store = p.before.world.store := hstore.trans hstate
    have hmap : p.after.world.store.map = p.before.world.store.map := by rw [hsame]
    have hslot := slot?_of_map hmap call.key
    refine .undoes ht' (by simp [hframes]) hnext .restores trivial
      ⟨hparks.key, hparks.before, hslot.trans hparks.slot⟩
      (hclean.snoc (fun _ => ?_) fun _ fault hinstalls => ?_)
      (hunfailed.failsOnly fun signal' hfails => ?_)
    · exact spares_of_turn hp hm hmover ht hactivity (by simp) (changesAt_of_eq hmap)
        (by rw [hsame])
    · exact absurd hinstalls (not_installs_of_slot hslot fault)
    · rcases (hfails.strikes ht).of_keep hactivity with
        ⟨_, _, _, hstage, -⟩ | ⟨c', value', panic', hstage, rfl, hdraft'⟩
      · cases hstage
      · obtain ⟨rfl, rfl⟩ := Stage.compose.inj hstage
        rw [Except.error.inj (hdraft.symm.trans hdraft')]
  · refine .spends ht' rfl (.goesOn hspent (by simp [hframes]))
      (hunfailed.snoc fun signal' hfails => ?_)
    rcases (hfails.strikes ht).of_keep hactivity with
      ⟨_, _, _, hstage, -⟩ | ⟨c', value', panic', hstage, -, hdraft'⟩
    · cases hstage
    · obtain ⟨rfl, rfl⟩ := Stage.compose.inj hstage
      cases hdraft.symm.trans hdraft'

/-- The slot gets back what it had. -/
theorem At.of_undoes (hp : p.Lawful settings) (hm : p.before.Reachable settings)
    (hmover : p.mover = some call.thread) (ht : p.before.threads[call.thread]? = some t)
    (hstack : t.stack = call.base) {stage : Stage K V Q R} (hactivity : t.activity = .keep stage)
    {c : Computation K V Q R} {resolution : Resolution V}
    (hundoes : c.Undoes resolution signal stage) (hfailure : resolution.IsFailure signal)
    (hparks : call.Parks start p.before c)
    (hclean : call.Clean (fun fault => fault = c.fault) trace)
    (honly : call.FailsOnly settings trace signal) :
    call.At settings start (trace ++ [p]) p.after := by
  obtain ⟨draws, turn, hturn, hstore, ht', -⟩ := hp.own_turn hmover ht hactivity
  rw [hstack] at ht'
  have hvalid := hm.accounted.map.valid
  have hpending : p.before.world.store.pendingIn c.key c.fault = true := by
    rw [Store.pendingIn_iff, hparks.key]
    exact hparks.slot
  obtain ⟨hmap, hdeadlines, hfaults, hnext, hframes⟩ := hundoes.turn_spec hturn hpending
  rw [← hstore, hparks.key] at hmap
  rw [← hstore] at hdeadlines hfaults
  have hslot : p.after.slot? call.key = start.slot? call.key := by
    rw [Machine.slot?, hmap, hvalid.get?_leave, if_pos rfl]
    exact hparks.before.symm
  have hchange : p.before.world.store.map.ChangesAt call.key p.after.world.store.map := by
    rw [hmap]
    cases c.previous with
    | none => exact .drops
    | some h => exact .puts _
  have hfault : c.fault ∈ faultsOf t.ongoing := by
    cases hundoes <;> simp [Thread.ongoing, hactivity, Stage.ongoing]
  have hresolved := Store.resolution?_resolve (hm.pending ht hfault) hfaults
  have hspares : call.Spares p :=
    spares_of_turn hp hm hmover ht hactivity (by cases hundoes <;> simp) hchange hdeadlines
  refine .ends ht' (by simp [hframes]) hnext hslot
    (hclean.snoc (fun _ => hspares) fun _ fault hinstalls => ?_)
    (fun fault howns => ⟨resolution, howns ▸ hresolved, hfailure⟩) (honly.snoc ?_)
  · have hafter := hinstalls.1
    rw [hslot, hparks.before] at hafter
    obtain ⟨h, -, hholder⟩ := Option.map_eq_some_iff.mp hafter
    cases hholder
  · exact not_fails_of_keep ht hactivity (by cases hundoes <;> simp) (by cases hundoes <;> simp)

omit [DecidableEq K] [DecidableEq V] in
/-- A spent call does not fail. -/
theorem not_fails_of_spent (ht : p.before.threads[call.thread]? = some t)
    {above : List (Frame K V Q R)} (hstack : t.stack = above ++ call.base)
    (hspent : Spent t.activity above) (signal : Signal V) : ¬ call.Fails settings p signal := by
  -- Nothing waits above the base, or only a computation does.
  have hbare : above = [] → t.activity.IsSpent := by
    rintro rfl
    cases hspent with
    | goesOn hactivity => exact hactivity
    | listens hlistening => simp at hlistening
  have htop : ∀ c : Computation K V Q R, above ≠ [.computing c] := by
    rintro c rfl
    cases hspent with
    | goesOn _ hframes => exact hframes _ List.mem_cons_self
    | @listens inside frames hlistening => cases inside <;> simp at hlistening
  have hnone : t.stack = call.base → above = [] := fun hbase =>
    List.append_left_eq_self.mp (hstack.symm.trans hbase)
  have hone : ∀ c, t.stack = .computing c :: call.base → above = [.computing c] := by
    intro c hcomputing
    rw [hstack, ← List.singleton_append] at hcomputing
    exact List.append_cancel_right hcomputing
  intro hfails
  cases hfails.strikes ht with
  | visits hactivity hbase =>
    have := hbare (hnone hbase)
    rw [hactivity] at this
    exact this
  | composes hactivity hbase =>
    have := hbare (hnone hbase)
    rw [hactivity] at this
    exact this
  | complains _ hcomputing => exact htop _ (hone _ hcomputing)
  | panics _ hcomputing => exact htop _ (hone _ hcomputing)

/-- A spent call is spent until it is over. -/
theorem At.of_spends (hp : p.Lawful settings) (hmover : p.mover = some call.thread)
    (ht : p.before.threads[call.thread]? = some t) {above : List (Frame K V Q R)}
    (hstack : t.stack = above ++ call.base) (hspent : Spent t.activity above)
    (hunfailed : call.Unfailed settings trace)
    (hwithin : ¬ (t.stack = call.base ∧ ∃ signal, t.activity = .settle signal)) :
    call.At settings start (trace ++ [p]) p.after := by
  obtain ⟨chance, s, hstep, -, ht', -⟩ := hp.own_step hmover ht
  have hnot : ∀ signal, ¬ call.Fails settings p signal := not_fails_of_spent ht hstack hspent
  have hunfailed' := hunfailed.snoc hnot
  have hstride := Thread.stride hstep
  cases hspent with
  | goesOn hactivity hframes =>
    cases hnow : t.activity with
    | code script => exact (hnow ▸ hactivity).elim
    | enter i inside => exact (hnow ▸ hactivity).elim
    | dispatch stage => exact (hnow ▸ hactivity).elim
    | keep stage =>
      obtain ⟨turn, draws, hturn, rfl⟩ := hstride.turn_of_keep hnow
      have hstack' : turn.frames ++ t.stack = (turn.frames ++ above) ++ call.base := by
        rw [hstack, List.append_assoc]
      have hstage : stage.IsSpent := (hnow ▸ hactivity : (Activity.keep stage).IsSpent)
      rcases hstage.isSpent_turn hturn with ⟨hnext, hnew⟩ | hlistening
      · refine .spends ht' hstack' (.goesOn hnext fun frame hframe => ?_) hunfailed'
        exact (List.mem_append.mp hframe).elim (hnew frame) (hframes frame)
      · have hlisten : turn.frames ++ above = [] ++ .listening :: above := by rw [hlistening]; rfl
        exact .spends ht' hstack' (.listens hlisten hframes) hunfailed'
    | settle signal =>
      cases above with
      | nil => exact absurd ⟨hstack, signal, hnow⟩ hwithin
      | cons frame rest =>
        have hrest : ∀ frame ∈ rest, frame.IsSpent := fun frame hframe =>
          hframes frame (List.mem_cons_of_mem _ hframe)
        have hframe : frame.IsSpent := hframes frame List.mem_cons_self
        obtain rfl := Thread.receive_of_step hnow hstack hstep
        have htail : t.stack.tail = rest ++ call.base := by rw [hstack]; rfl
        cases frame with
        | next activity =>
          cases signal with
          | done answer => exact .spends ht' htail (.goesOn hframe hrest) hunfailed'
          | raised panic => exact .spends ht' htail (.goesOn trivial hrest) hunfailed'
        | _ => exact hframe.elim
  | @listens inside frames habove hframes =>
    rw [habove, List.append_assoc, List.cons_append] at hstack
    rcases hstride.below hstack with ⟨rfl, signal, hnow⟩ | ⟨inside', hinside⟩
    · obtain rfl := Thread.receive_of_step hnow hstack hstep
      have htail : t.stack.tail = frames ++ call.base := by rw [hstack]; rfl
      cases signal with
      | done answer => exact .spends ht' htail (.goesOn trivial hframes) hunfailed'
      | raised panic => exact .spends ht' htail (.goesOn trivial hframes) hunfailed'
    · have hstack' : s.thread.stack = (inside' ++ .listening :: frames) ++ call.base := by
        rw [hinside, List.append_assoc, List.cons_append]
      exact .spends ht' hstack' (.listens rfl hframes) hunfailed'

/-- Wherever the call stands, it stands somewhere after the next passage. -/
theorem At.step (hat : call.At settings start trace p.before) (hp : p.Lawful settings)
    (hm : p.before.Reachable settings) (hundisturbed : call.Undisturbed (trace ++ [p])) :
    call.At settings start (trace ++ [p]) p.after := by
  have hlast : p ∈ trace ++ [p] := by simp
  have hcalm := hundisturbed.calm p hlast
  by_cases hmover : p.mover = some call.thread
  · have hwithin := hundisturbed.within p hlast hmover
    cases hat with
    | seeks ht hstack hactivity hseeks hslot hclean hunfailed =>
      exact .of_seeks hp hm hmover ht hstack hactivity hseeks hslot hclean hunfailed
        (hundisturbed.fresh p hlast (isOwn_of_base hmover ht hstack))
    | computes ht hcomputes hparks hclean hunfailed =>
      cases hcomputes with
      | owns hactivity hstack =>
        exact .of_owns hp hm hmover ht hstack hactivity hparks hclean hunfailed
      | runs hstack => exact .of_runs hp hm hmover ht hstack hparks hclean hunfailed hcalm
      | composes hactivity hstack =>
        exact .of_composes hp hm hmover ht hstack hactivity hparks hclean hunfailed
    | spends ht hstack hspent hunfailed =>
      exact .of_spends hp hmover ht hstack hspent hunfailed fun ⟨hbase, signal, hactivity⟩ =>
        hwithin _ ht hbase signal hactivity
    | undoes ht hstack hactivity hundoes hfailure hparks hclean honly =>
      exact .of_undoes hp hm hmover ht hstack hactivity hundoes hfailure hparks hclean honly
    | ends ht hstack hactivity => exact absurd hactivity (hwithin _ ht hstack _)
  · exact hat.of_other hp hmover (hcalm (not_isOwn_of_mover hmover))

omit [DecidableEq V] in
theorem Undisturbed.of_append {front back : List (Passage K V Q R)}
    (hundisturbed : call.Undisturbed (front ++ back)) : call.Undisturbed front :=
  ⟨fun p hp => hundisturbed.calm p (List.mem_append_left back hp),
    fun p hp => hundisturbed.fresh p (List.mem_append_left back hp),
    fun p hp => hundisturbed.within p (List.mem_append_left back hp)⟩

/-- Where a call stands after a run from its beginning on. -/
theorem at_of_run {m : Machine K V Q R} (hstart : start.Reachable settings)
    (hbegins : start.threads[call.thread]? = some t) (hstack : t.stack = call.base)
    (hactivity : t.activity = .keep (.round call.operation 0)) (run : Run settings start trace m)
    (hundisturbed : call.Undisturbed trace) : call.At settings start trace m := by
  induction run with
  | rest =>
    exact .seeks hbegins hstack hactivity (.round 0) rfl ⟨by simp, by simp⟩ (by simp [Unfailed])
  | @move trace p run hp ih =>
    exact (ih hundisturbed.of_append).step hp (run.reachable_of_reachable hstart) hundisturbed

/-- The steps of the call change a total by as much as the slot of its key contributes more or
less. -/
theorem sum_changes {m : Machine K V Q R} (hstart : start.Reachable settings)
    (run : Run settings start trace m) (hundisturbed : call.Undisturbed trace)
    (hclean : call.Clean owns trace) {quantity : Machine K V Q R → Nat} {measure : Slot V → Nat}
    (hquantity : ∀ m : Machine K V Q R, m.Reachable settings →
      quantity m = m.world.store.map.total measure) :
    ((trace.filter call.isOwn).map fun p => (quantity p.after : Int) - quantity p.before).sum =
      (m.slot? call.key).elim 0 measure - (start.slot? call.key).elim 0 measure := by
  induction run with
  | rest => simp
  | @move trace p run hp ih =>
    have hm := run.reachable_of_reachable hstart
    have hlast : p ∈ trace ++ [p] := by simp
    have hclean' : call.Clean owns trace :=
      ⟨fun q hq => hclean.spares q (List.mem_append_left _ hq),
        fun q hq => hclean.installs q (List.mem_append_left _ hq)⟩
    have hsum := ih hundisturbed.of_append hclean'
    rw [List.filter_append, List.map_append, List.sum_append, hsum]
    cases hown : call.isOwn p with
    | true =>
      have htotal : quantity p.after + (p.before.slot? call.key).elim 0 measure =
          quantity p.before + (p.after.slot? call.key).elim 0 measure := by
        rw [hquantity _ hm, hquantity _ ((run.move hp).reachable_of_reachable hstart)]
        exact (hclean.spares p hlast hown).map.total hm.accounted.map.valid measure
      simp only [List.filter_singleton, hown, cond_true, List.map_singleton, List.sum_singleton]
      omega
    | false => simp [hown, hundisturbed.calm p hlast hown]

end Call

end SharedCache
