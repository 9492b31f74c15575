import SharedCache.Proofs.Solo

/-!
# The way to the end

From its look at the key on, every section of an operation that has the store for itself keeps in
step with the reference.  Each step of the thread advances the operation: it is nearer to its end,
its mapping function is called or returns, or what it has called back goes on.
-/

namespace SharedCache

open Function

variable {K V Q R : Type}

/-! ## Sections of an operation -/

section Sections

variable [DecidableEq K] [DecidableEq V] {settings : Settings K V Q R} {s : Store K V}
  {ref : Reference K V} {now : Instant} {course : Course K V Q R} {answer : Answer V}

namespace Store

omit [DecidableEq V] in
theorem Represents.congr {s' : Store K V} (hrepresents : s.Represents ref now)
    (hmap : s'.map = s.map) (hdeadlines : s'.deadlines = s.deadlines) :
    s'.Represents ref now := by
  rw [Represents, hmap, hdeadlines]
  exact hrepresents

/-- Every section that is left to an operation whose outcome is decided brings the answer nearer. -/
theorem Yields.turn {stage : Stage K V Q R} {n : Nat} {turn : StoreTurn K V Q R} {time : Instant}
    {interrupted : Bool} {draws : List K}
    (hyields : s.Yields settings ref now answer n (.keep stage))
    (hrepresents : s.Represents ref now) (hvalid : s.map.Valid)
    (hturn : stage.turn settings s time interrupted draws = some turn) :
    ∃ bound, bound + 1 ≤ n ∧ turn.KeepsStep settings now (.decided ref answer) bound := by
  cases hyields with
  | misses hanswer =>
    obtain rfl := Option.some.inj hturn
    subst hanswer
    exact ⟨0, by omega, Turn.keepsStep_answer (hrepresents.congr rfl rfl)⟩
  | @handsOut h copy thenEnforce hcopy hanswer =>
    obtain rfl := Option.some.inj hturn
    subst hanswer
    have hgiven : (settings.giveOut h.value).result = .ok copy := hcopy
    rw [handOut, Turn.consulting_of_ok hgiven]
    refine ⟨2, by omega, .after _ ?_⟩
    cases thenEnforce with
    | true => exact Turn.keepsStep_enforcing hrepresents
    | false => exact (Turn.keepsStep_answer hrepresents).mono (by omega)
  | @expels key h hnone hanswer =>
    obtain rfl := Option.some.inj hturn
    rw [expel]
    refine ⟨4, by omega, ?_⟩
    split
    · exact Turn.keepsStep_reporting (hrepresents.drop hvalid hnone) (.misses hanswer)
    · exact ⟨1, by omega, .yields hrepresents (.arrives (.misses hanswer))⟩
  | @removed key h at' copy hexpired hcopy hanswer =>
    obtain rfl := Option.some.inj hturn
    rw [dismiss, hexpired]
    exact ⟨6, by omega, Turn.keepsStep_reporting hrepresents (.handsOut hcopy hanswer)⟩
  | @expired key h at' hexpired hanswer =>
    obtain rfl := Option.some.inj hturn
    subst hanswer
    rw [dismiss, hexpired]
    exact ⟨3, by omega, Turn.keepsStep_reporting hrepresents .settles⟩

/-- The expiry is asked about a read as in the reference. -/
theorem keepsStep_consult (hsteady : settings.Steady) {key : K} {h : Holder V} {thenEnforce : Bool}
    (hrepresents : s.Represents ref now) (hslot : s.map.get? key = some (.holder h))
    (hvisible : ref.visible now key = some (h.record s.deadlines))
    (hcourse : ref.read settings now key (h.record s.deadlines) = .ok course) :
    (s.consult settings key h now thenEnforce).KeepsStep settings now course 4 := by
  obtain ⟨deadline, copy, hdeadline, hcopy, hread⟩ :=
    hsteady.read (Q := Q) (R := R) ref now key (h.record s.deadlines)
  obtain rfl := Except.ok.inj (hread.symm.trans hcourse)
  obtain ⟨moved, hmoved, rfl⟩ := Settings.deadlineOfRead_of_deadline hdeadline
  rw [consult, Turn.consulting_of_ok hmoved]
  refine ⟨4, Nat.le_refl _, .refreshes ?_ hcopy⟩
  cases moved with
  | none =>
    exact ⟨hrepresents.lodged,
      hrepresents.visible.trans (Reference.visible_update_self hvisible).symm⟩
  | some deadline => exact SharedCache.Represents.refresh hrepresents hslot deadline

/-- The deadline moves as in the reference. -/
theorem keepsStep_refresh {h : Holder V} {deadline : Option (Option Instant)} {thenEnforce : Bool}
    {copy : V} (hrepresents : (deadline.elim s fun d => s.setDeadline h d).Represents ref now)
    (hcopy : settings.copyOut h.value = .ok copy) :
    (s.refresh h deadline thenEnforce : StoreTurn K V Q R).KeepsStep settings now
      (.decided ref (.value (some copy))) 3 := by
  refine ⟨3, Nat.le_refl _, .yields ?_ (.arrives (.handsOut hcopy rfl))⟩
  cases deadline with
  | none => exact hrepresents.congr rfl rfl
  | some d => exact hrepresents.congr rfl rfl

/-- One segment after another loses its slots. -/
theorem keepsStep_sweep {segment : Nat} (hlodged : Lodged s.deadlines s.map.get?)
    (hsegments : s.map.segments.size = settings.blueprint.segments)
    (hsegment : segment < settings.blueprint.segments)
    (hswept : ∀ key, s.map.segmentOf key < segment → s.map.get? key = none) :
    (s.sweep segment : StoreTurn K V Q R).KeepsStep settings now (.decided (fun _ => none) .unit)
      (settings.blueprint.segments - (segment + 1)) := by
  have hget : ∀ key, (s.map.clearSegment segment).get? key =
      if s.map.segmentOf key = segment then none else s.map.get? key :=
    s.map.get?_clearSegment segment
  have hkept : ∀ key slot, (s.map.clearSegment segment).get? key = some slot →
      s.map.get? key = some slot := by
    intro key slot hslot
    rw [hget] at hslot
    split at hslot
    · cases hslot
    · exact hslot
  have hlodged' : Lodged s.deadlines (s.map.clearSegment segment).get? :=
    ⟨fun key fault hfault => hlodged.settled key fault (hkept _ _ hfault),
      fun key h hholder => hlodged.allocated key h (hkept _ _ hholder),
      fun key key' h h' hholder hholder' =>
        hlodged.distinct key key' h h' (hkept _ _ hholder) (hkept _ _ hholder')⟩
  have hsize : (s.map.clearSegment segment).segments.size = s.map.segments.size := by
    rw [EntryMap.segments_clearSegment, Array.size_setIfInBounds]
  have hplace : ∀ key, (s.map.clearSegment segment).segmentOf key = s.map.segmentOf key :=
    EntryMap.segmentOf_of_replace (s.map.place_clearSegment segment)
      (s.map.segments_clearSegment segment)
  have hswept' : ∀ key, s.map.segmentOf key < segment + 1 →
      (s.map.clearSegment segment).get? key = none := by
    intro key hlt
    rw [hget]
    split
    · rfl
    · exact hswept key (by omega)
  rw [sweep]
  dsimp only
  rw [hsize]
  split
  · exact ⟨_, Nat.le_refl _, .sweeps hlodged' (by omega) fun key hlt =>
      hswept' key (hplace key ▸ hlt)⟩
  · have hempty : ∀ key, (s.map.clearSegment segment).get? key = none := by
      intro key
      have hlt := s.map.segmentOf_lt key
      exact hswept' key (by omega)
    exact (Turn.keepsStep_answer (represents_of_empty hempty)).mono (by omega)

omit [DecidableEq V] in
theorem Withholds.congr {s' : Store K V} {c : Computation K V Q R}
    (hwithholds : s.Withholds c ref now) (hmap : s'.map = s.map)
    (hdeadlines : s'.deadlines = s.deadlines) : s'.Withholds c ref now := by
  constructor
  · rw [hmap]
    exact hwithholds.pending
  · rw [hmap, hdeadlines]
    exact hwithholds.represents
  · rw [hdeadlines]
    exact hwithholds.shown

omit [DecidableEq V] in
/-- The mapping function is called with what the reference shows. -/
theorem Withholds.own {c : Computation K V Q R} {shown : Option V}
    (hwithholds : s.Withholds c ref now)
    (hshows : settings.Shows (c.previous.map Holder.value) shown) :
    (s.own settings c).state.Withholds c ref now ∧
      (s.own settings c).next = .code (c.code c.key shown) ∧
      (s.own settings c).frames = [.computing c] ∧
      mappings (s.own settings c).events = [(c.key, c.fault, shown)] := by
  have hshown : (c.shown settings).result = .ok shown ∧
      mappings (c.shown settings).events = [] := by
    cases hprevious : c.previous with
    | none =>
      rw [hprevious] at hshows
      obtain rfl : shown = none := hshows
      rw [Computation.shown_of_none hprevious]
      exact ⟨rfl, rfl⟩
    | some h =>
      rw [hprevious] at hshows
      obtain ⟨copy, hcopy, rfl⟩ := hshows
      rw [Computation.shown_of_some hprevious, hcopy]
      exact ⟨rfl, rfl⟩
  rw [Store.own_eq, Turn.consulting_of_ok hshown.1]
  refine ⟨hwithholds.congr s.map_asked s.deadlines_asked, rfl, rfl, ?_⟩
  exact (List.filterMap_append ..).trans (congrArg (· ++ _) hshown.2)

/-- The value that the mapping function gave becomes the record that the reference writes. -/
theorem Withholds.keepsStep_compose {c : Computation K V Q R} {value : V}
    (hwithholds : s.Withholds c ref now) (hsteady : settings.Steady)
    (hcourse : ref.conclude settings now c.key c.fault (.value (some value)) = .ok course) :
    (s.compose settings c value now).KeepsStep settings now course 6 := by
  obtain ⟨r, hrecord⟩ := hsteady.record ref now c.key value
  obtain ⟨copy, hcopy⟩ := hsteady.copyOut r.value
  change (ref.record settings now c.key value >>= _) = _ at hcourse
  rw [hrecord] at hcourse
  change (settings.copyOut r.value >>= _) = _ at hcourse
  rw [hcopy] at hcourse
  obtain rfl := Except.ok.inj hcourse
  obtain ⟨weight, hdraft⟩ := hsteady.draft_of_record hwithholds.shown hrecord
  have hgiven : (settings.giveOut r.value).result = .ok copy := hcopy
  rw [compose, Turn.consulting_of_ok hdraft]
  refine .after _ ?_
  change (Turn.consulting (settings.giveOut r.value) _ _).KeepsStep _ _ _ _
  rw [Turn.consulting_of_ok hgiven]
  have hwritten := hwithholds.represents.write c.key r weight
  rw [update_idem] at hwritten
  exact ⟨6, Nat.le_refl _, .installs hwithholds.pending hwritten⟩

omit [DecidableEq V] in
theorem pendingIn_of_get? {c : Computation K V Q R}
    (hpending : s.map.get? c.key = some (.fault c.fault)) :
    s.pendingIn c.key c.fault = true :=
  s.pendingIn_iff.mpr hpending

/-- The new holder takes the place of the fault. -/
theorem keepsStep_install {c : Computation K V Q R} {h : Holder V} {copy : V}
    (hvalid : s.map.Valid) (hpending : s.map.get? c.key = some (.fault c.fault))
    (hrepresents : SharedCache.Represents s.deadlines
      (update s.map.get? c.key (some (.holder h))) ref now) :
    (s.install c h copy : StoreTurn K V Q R).KeepsStep settings now
      (.decided ref (.value (some copy))) 5 := by
  have hfilled : ((s.fill c.key h).resolve c.fault (.ready h)).Represents ref now := by
    rw [Represents, map_resolve, deadlines_resolve]
    change SharedCache.Represents s.deadlines (s.map.insert c.key (.holder h)).get? ref now
    rwa [EntryMap.get?_insert_eq hvalid]
  rw [install, if_pos (pendingIn_of_get? hpending)]
  cases c.previous with
  | none => exact (Turn.keepsStep_enforcing hfilled).mono (by omega)
  | some previous => exact Turn.keepsStep_replacing hfilled .settles

/-- The key of the computation loses its slot. -/
theorem keepsStep_vacate {c : Computation K V Q R} {resolution : Resolution V}
    (hvalid : s.map.Valid) (hpending : s.map.get? c.key = some (.fault c.fault))
    (hrepresents : SharedCache.Represents s.deadlines (update s.map.get? c.key none) ref now) :
    (s.vacate c resolution answer : StoreTurn K V Q R).KeepsStep settings now
      (.decided ref answer) 3 := by
  have herased : ((s.erase c.key).resolve c.fault resolution).Represents ref now := by
    rw [Represents, map_resolve, deadlines_resolve]
    change SharedCache.Represents s.deadlines (s.map.erase c.key).get? ref now
    rwa [EntryMap.get?_erase_eq hvalid]
  rw [vacate, if_pos (pendingIn_of_get? hpending)]
  cases c.previous with
  | none => exact (Turn.keepsStep_answer herased).mono (by omega)
  | some previous => exact Turn.keepsStep_reporting herased .settles

/-- The key of the computation has again what it had. -/
theorem keepsStep_restore {c : Computation K V Q R} {resolution : Resolution V}
    (hvalid : s.map.Valid) (hpending : s.map.get? c.key = some (.fault c.fault))
    (hrepresents : SharedCache.Represents s.deadlines
      (update s.map.get? c.key (c.previous.map Slot.holder)) ref now) :
    (s.restore c resolution (.done answer) : StoreTurn K V Q R).KeepsStep settings now
      (.decided ref answer) 0 := by
  rw [restore, if_pos (pendingIn_of_get? hpending)]
  refine Turn.keepsStep_answer ?_
  rw [Represents, map_resolve, deadlines_resolve]
  cases hprevious : c.previous with
  | none =>
    rw [hprevious] at hrepresents
    change SharedCache.Represents s.deadlines (s.map.erase c.key).get? ref now
    rwa [EntryMap.get?_erase_eq hvalid]
  | some previous =>
    rw [hprevious] at hrepresents
    change SharedCache.Represents s.deadlines (s.map.insert c.key (.holder previous)).get? ref now
    rwa [EntryMap.get?_insert_eq hvalid]

/-- What the mapping function gave is concluded from as in the reference. -/
theorem Withholds.keepsStep_mapped {c : Computation K V Q R} {given : Answer V}
    (hwithholds : s.Withholds c ref now)
    (hcourse : ref.conclude settings now c.key c.fault given = .ok course) :
    (s.mapped c (.done given)).KeepsStep settings now course 7 := by
  have hgone : ∀ s' : Store K V, s'.map = s.map → s'.deadlines = s.deadlines →
      given.value? = none → (∀ text, given ≠ .complaint text) →
      (Turn.goTo s' (.keep (.vacate c .absent (.value none)))).KeepsStep settings now course 7 := by
    intro s' hmap hdeadlines hvalue hcomplaint
    have hdecided : course = .decided (update ref c.key none) (.value none) := by
      cases given with
      | complaint text => exact absurd rfl (hcomplaint text)
      | value v =>
        obtain rfl : v = none := hvalue
        exact (Except.ok.inj hcourse).symm
      | _ => exact (Except.ok.inj hcourse).symm
    have herased := hwithholds.represents.erase c.key
    rw [update_idem] at herased
    rw [hdecided]
    refine ⟨4, by omega, .vacates ?_ ?_⟩
    · exact (congrArg (EntryMap.get? · c.key) hmap).trans hwithholds.pending
    · change SharedCache.Represents s'.deadlines (update s'.map.get? c.key none) _ now
      rw [hmap, hdeadlines]
      exact herased
  cases given with
  | complaint text =>
    obtain rfl := Except.ok.inj hcourse
    obtain ⟨hpending, hrepresents, -⟩ := hwithholds
    obtain ⟨key, fault, previous, isRequest, code⟩ := c
    cases previous with
    | none => exact ⟨4, by omega, .vacates hpending hrepresents⟩
    | some h => exact ⟨1, by omega, .restores hpending hrepresents⟩
  | value v =>
    cases v with
    | none => exact hgone (s.count Statistics.recordComputed) rfl rfl rfl (by simp)
    | some value =>
      exact ⟨7, Nat.le_refl _, .composes
        ⟨hwithholds.pending, hwithholds.represents, hwithholds.shown⟩ hcourse⟩
  | _ => exact hgone (s.count Statistics.recordComputed) rfl rfl rfl (by simp)

omit [DecidableEq K] [DecidableEq V] in
theorem Yields.congr {s' : Store K V} {n : Nat} {a : Activity K V Q R}
    (hyields : s.Yields settings ref now answer n a) (hdeadlines : s'.deadlines = s.deadlines) :
    s'.Yields settings ref now answer n a := by
  have hexpired : ∀ h time, s'.expired h time = s.expired h time := by
    intro h time
    rw [expired_eq, expired_eq, hdeadlines]
  cases hyields with
  | settles => exact .settles
  | misses hanswer => exact .misses hanswer
  | handsOut hcopy hanswer => exact .handsOut hcopy hanswer
  | expels hnone hanswer => exact .expels hnone hanswer
  | removed hlive hcopy hanswer => exact .removed ((hexpired _ _).trans hlive) hcopy hanswer
  | expired hstale hanswer => exact .expired ((hexpired _ _).trans hstale) hanswer

end Store

omit [DecidableEq K] [DecidableEq V] in
theorem Detour.of_nil {P : Nat → Activity K V Q R → Prop} {n : Nat} {a : Activity K V Q R}
    {above : List (Frame K V Q R)} (hdetour : Detour P n a above) (habove : above = []) :
    P n a := by
  cases hdetour with
  | arrives ha => exact ha
  | listens => simp at habove
  | _ => cases habove

/-- Every section of an operation, but the call of its mapping function, keeps in step. -/
theorem InStep.turn {n : Nat} {stage : Stage K V Q R} {above : List (Frame K V Q R)}
    {interrupted : Bool} {draws : List K} {turn : StoreTurn K V Q R}
    (hinstep : InStep settings s now course n (.keep stage) above) (habove : above = [])
    (hown : ∀ c, stage ≠ .own c) (hsteady : settings.Steady) (hvalid : s.map.Valid)
    (hsegments : s.map.segments.size = settings.blueprint.segments)
    (hturn : stage.turn settings s now interrupted draws = some turn) :
    ∃ bound, bound + 1 ≤ n ∧ turn.KeepsStep settings now course bound := by
  cases hinstep with
  | begins hrepresents hbegin =>
    obtain rfl := Option.some.inj hturn
    exact ⟨_, Nat.le_refl _, _, Nat.le_refl _, .visits hrepresents hbegin⟩
  | visits hrepresents hbegin =>
    obtain rfl := Option.some.inj hturn
    exact ⟨_, Nat.le_refl _, Store.keepsStep_visit hrepresents hvalid hsteady hsegments hbegin⟩
  | consults hrepresents hslot hvisible hcourse =>
    obtain rfl := Option.some.inj hturn
    exact ⟨4, by omega, Store.keepsStep_consult hsteady hrepresents hslot hvisible hcourse⟩
  | refreshes hrepresents hcopy =>
    obtain rfl := Option.some.inj hturn
    exact ⟨3, by omega, Store.keepsStep_refresh hrepresents hcopy⟩
  | @sweeps segment hlodged hsegment hswept =>
    obtain rfl := Option.some.inj hturn
    exact ⟨_, by omega, Store.keepsStep_sweep hlodged hsegments hsegment hswept⟩
  | yields hrepresents hdetour => exact (hdetour.of_nil habove).turn hrepresents hvalid hturn
  | asks _ _ hdetour =>
    obtain ⟨-, howns⟩ := hdetour.of_nil habove
    exact absurd (Activity.keep.inj howns) (hown _)
  | runs _ hplain => exact hplain.elim
  | composes hwithholds hcourse =>
    obtain rfl := Option.some.inj hturn
    exact ⟨6, by omega, hwithholds.keepsStep_compose hsteady hcourse⟩
  | installs hpending hrepresents =>
    obtain rfl := Option.some.inj hturn
    exact ⟨5, by omega, Store.keepsStep_install hvalid hpending hrepresents⟩
  | vacates hpending hrepresents =>
    obtain rfl := Option.some.inj hturn
    exact ⟨3, by omega, Store.keepsStep_vacate hvalid hpending hrepresents⟩
  | restores hpending hrepresents =>
    obtain rfl := Option.some.inj hturn
    exact ⟨0, by omega, Store.keepsStep_restore hvalid hpending hrepresents⟩

end Sections

/-! ## Steps of an operation -/

section Steps

variable [DecidableEq K] [DecidableEq V] {settings : Settings K V Q R} {chance : Chance K R}
  {w : World K V Q R} {t : Thread K V Q R} {step : Step K V Q R} {course : Course K V Q R} {n : Nat}
  {above base : List (Frame K V Q R)}

/-- What a step of an operation is for the reference. -/
inductive InStep.Advance (settings : Settings K V Q R) (now : Instant) (t : Thread K V Q R)
    (above base : List (Frame K V Q R)) (n : Nat) (step : Step K V Q R) :
    Course K V Q R → Prop where
  /-- The operation comes nearer to its end, or what it has called back goes on. -/
  | works {course : Course K V Q R} {n' : Nat} {above' : List (Frame K V Q R)} :
      mappings step.events = [] →
      (∀ c signal, above = [.computing c] → t.activity ≠ .settle signal) →
      step.thread.stack = above' ++ base →
      InStep settings step.world.store now course n' step.thread.activity above' →
      n' + 1 ≤ n ∨ n' ≤ n ∧ t.isCalledBack = true → Advance settings now t above base n step course
  | maps {ref : Reference K V} {c : Computation K V Q R} {shown : Option V} :
      mappings step.events = [(c.key, c.fault, shown)] →
      step.thread.activity = .code (c.code c.key shown) → step.thread.stack = .computing c :: base →
      step.world.store.Withholds c ref now → 9 ≤ n →
      Advance settings now t above base n step (.asking ref now c.key shown (c.code c.key shown))
  | returns {ref : Reference K V} {c : Computation K V Q R} {given : Answer V}
      {course : Course K V Q R} {n' : Nat} {stage : Stage K V Q R} :
      t.activity = .settle (.done given) → above = [.computing c] →
      ref.conclude settings now c.key c.fault given = .ok course →
      step.thread.activity = .keep stage → step.thread.stack = base →
      InStep settings step.world.store now course n' (.keep stage) [] → n' + 1 ≤ n →
      Advance settings now t above base n step (.mapping ref now c.key c.fault)

omit [DecidableEq V] in
/-- The reference concludes from everything that a mapping function gives. -/
theorem Settings.Steady.conclude (hsteady : settings.Steady) (ref : Reference K V) (now : Instant)
    (key : K) (fault : Nat) (given : Answer V) : ∃ course : Course K V Q R,
      ref.conclude settings now key fault given = .ok course := by
  cases given with
  | value v =>
    cases v with
    | none => exact ⟨_, rfl⟩
    | some value =>
      obtain ⟨r, hrecord⟩ := hsteady.record ref now key value
      obtain ⟨copy, hcopy⟩ := hsteady.copyOut r.value
      refine ⟨.decided (update ref key (some r)) (.value (some copy)), ?_⟩
      change (ref.record settings now key value >>= _) = _
      rw [hrecord]
      change (settings.copyOut r.value >>= _) = _
      rw [hcopy]
      rfl
  | _ => exact ⟨_, rfl⟩

/-- An operation that is about to call its mapping function withholds what its key has. -/
theorem InStep.asks_of_own {s : Store K V} {now : Instant} {c : Computation K V Q R}
    (hinstep : InStep settings s now course n (.keep (.own c)) []) :
    ∃ ref shown, course = .asking ref now c.key shown (c.code c.key shown) ∧ n = 9 ∧
      s.Withholds c ref now ∧ settings.Shows (c.previous.map Holder.value) shown := by
  generalize hnil : ([] : List (Frame K V Q R)) = above at hinstep
  generalize howns : (Activity.keep (.own c) : Activity K V Q R) = a at hinstep
  cases hinstep with
  | @asks ref c' shown _ _ _ hwithholds hshows hdetour =>
    obtain ⟨hn, rfl⟩ := hdetour.of_nil hnil.symm
    obtain rfl : c = c' := Stage.own.inj (Activity.keep.inj howns)
    exact ⟨ref, shown, rfl, hn, hwithholds, hshows⟩
  | yields _ hdetour =>
    have hyields := hdetour.of_nil hnil.symm
    rw [← howns] at hyields
    cases hyields
  | runs _ hplain => exact (howns ▸ hplain : (Activity.keep (.own c)).IsPlain).elim
  | _ => cases howns

/-- A section brings its operation nearer to the end, or calls the mapping function. -/
theorem InStep.advance_of_keep {stage : Stage K V Q R}
    (hinstep : InStep settings w.store w.clock.now course n t.activity above) (habove : above = [])
    (hactivity : t.activity = .keep stage) (hstack : t.stack = above ++ base)
    (hsteady : settings.Steady) (hvalid : w.store.map.Valid)
    (hsegments : w.store.map.segments.size = settings.blueprint.segments)
    (hstep : t.step settings chance w = some step) :
    InStep.Advance settings w.clock.now t above base n step course := by
  subst habove
  obtain ⟨turn, hturn, rfl⟩ := Thread.turn_of_step hactivity hstep
  have hstack' : (Step.ofStore w t turn).thread.stack = turn.frames ++ base := by
    simp [Step.ofStore, Thread.goOn, hstack]
  by_cases hown : ∃ c, stage = .own c
  · obtain ⟨c, rfl⟩ := hown
    obtain rfl := Option.some.inj hturn
    rw [hactivity] at hinstep
    obtain ⟨ref, shown, rfl, rfl, hwithholds, hshows⟩ := hinstep.asks_of_own
    obtain ⟨hwithholds', hnext, hframes, hmappings⟩ := hwithholds.own hshows
    exact .maps hmappings hnext (by rw [hstack', hframes]; rfl) hwithholds' (Nat.le_refl _)
  · have hmappings : mappings turn.events = [] :=
      (Thread.stride hstep).mappings_eq_nil fun c howns =>
        hown ⟨c, Activity.keep.inj (hactivity.symm.trans howns)⟩
    rw [hactivity] at hinstep
    obtain ⟨bound, hbound, n', hn', hinstep'⟩ :=
      hinstep.turn rfl (fun c heq => hown ⟨c, heq⟩) hsteady hvalid hsegments hturn
    exact .works hmappings (by simp) hstack' hinstep' (.inl (by omega))

omit [DecidableEq K] [DecidableEq V] in
theorem Detour.ne_own {P : Nat → Activity K V Q R → Prop} {a : Activity K V Q R}
    (hdetour : Detour P n a above) (habove : above ≠ []) (c : Computation K V Q R) :
    a ≠ .keep (.own c) := by
  rintro rfl
  generalize howns : (Activity.keep (.own c) : Activity K V Q R) = a at hdetour
  cases hdetour with
  | arrives => exact habove rfl
  | listens hplain => exact (howns ▸ hplain : (Activity.keep (.own c)).IsPlain).elim
  | _ => cases howns

/-- With nothing above its base an operation is in a section that waits for nothing, or has
ended. -/
theorem InStep.keep_or_settle {s : Store K V} {now : Instant} {a : Activity K V Q R}
    (hinstep : InStep settings s now course n a above) (habove : above = []) :
    (∃ stage, a = .keep stage ∧ ∀ operation retries fault, stage ≠ .await operation retries fault) ∨
      ∃ signal, a = .settle signal := by
  cases hinstep with
  | yields _ hdetour =>
    cases hdetour.of_nil habove with
    | settles => exact .inr ⟨_, rfl⟩
    | _ => exact .inl ⟨_, rfl, by simp⟩
  | asks _ _ hdetour => exact .inl ⟨_, (hdetour.of_nil habove).2, by simp⟩
  | runs => simp at habove
  | _ => exact .inl ⟨_, rfl, by simp⟩

/-- While its mapping function runs an operation stands still. -/
theorem InStep.advance_of_runs {ref : Reference K V} {c : Computation K V Q R}
    {inside : List (Frame K V Q R)} (hwithholds : w.store.Withholds c ref w.clock.now)
    (hplain : t.activity.IsPlain) (hinside : ∀ frame ∈ inside, frame.IsPlain)
    (hstack : t.stack = inside ++ .computing c :: base)
    (hflat : ∀ operation next, t.activity = .code (.call operation next) → t.IsPlain)
    (hsmooth : ∀ panic, inside = [] → t.activity ≠ .settle (.raised panic))
    (hsteady : settings.Steady) (hstep : t.step settings chance w = some step) :
    InStep.Advance settings w.clock.now t (inside ++ [.computing c]) base 8 step
      (.mapping ref w.clock.now c.key c.fault) := by
  by_cases hover : inside = [] ∧ ∃ signal, t.activity = .settle signal
  · obtain ⟨rfl, signal, hactivity⟩ := hover
    obtain rfl := Thread.receive_of_step hactivity hstack hstep
    cases signal with
    | raised panic => exact absurd hactivity (hsmooth panic rfl)
    | done given =>
      obtain ⟨course, hcourse⟩ :=
        hsteady.conclude (Q := Q) (R := R) ref w.clock.now c.key c.fault given
      obtain ⟨n', hn', hinstep'⟩ := hwithholds.keepsStep_mapped hcourse
      obtain ⟨-, hframes, stage, hnext, -⟩ := w.store.mapped_spec c (.done given)
      rw [hnext, hframes] at hinstep'
      have hafter : (w.store.mapped c (.done given)).frames ++ t.stack.tail = base := by
        rw [hframes, hstack]
        rfl
      exact .returns hactivity rfl hcourse hnext hafter hinstep' (by omega)
  · have hcalled : ∀ operation next, t.activity ≠ .code (.call operation next) := by
      intro operation next hcall
      exact ((hflat operation next hcall).2 (.computing c) (by simp [hstack])).elim
    rcases (Thread.stride hstep).of_plain hplain hstack hinside hcalled with
      hended | ⟨hstore, hplain', inside', hinside', hstack'⟩
    · exact absurd hended hover
    · have hquiet : mappings step.events = [] :=
        (Thread.stride hstep).mappings_eq_nil fun c' howns => (howns ▸ hplain :).elim
      have hwaits : ∀ c' signal, inside ++ [.computing c] = [.computing c'] →
          t.activity ≠ .settle signal := by
        intro c' signal htop hactivity
        refine hover ⟨?_, signal, hactivity⟩
        cases inside with
        | nil => rfl
        | cons first rest => simp at htop
      have hruns : InStep settings step.world.store w.clock.now
          (.mapping ref w.clock.now c.key c.fault) 8 step.thread.activity
          (inside' ++ [.computing c]) :=
        .runs (hstore ▸ hwithholds) hplain' hinside'
      exact .works hquiet hwaits (by simp [hstack']) hruns
        (.inr ⟨Nat.le_refl _, Thread.isCalledBack_of_frame hstack rfl hinside hover⟩)

/-- Every step of an operation advances it. -/
theorem InStep.advance (hinstep : InStep settings w.store w.clock.now course n t.activity above)
    (hstack : t.stack = above ++ base)
    (hwithin : ¬ (above = [] ∧ ∃ signal, t.activity = .settle signal))
    (hflat : ∀ operation next, t.activity = .code (.call operation next) → t.IsPlain)
    (hsmooth : ∀ c panic, above = [.computing c] → t.activity ≠ .settle (.raised panic))
    (hsteady : settings.Steady) (hcapacity : settings.blueprint.capacity = none)
    (hvalid : w.store.map.Valid)
    (hsegments : w.store.map.segments.size = settings.blueprint.segments)
    (hstep : t.step settings chance w = some step) :
    InStep.Advance settings w.clock.now t above base n step course := by
  by_cases habove : above = []
  · rcases hinstep.keep_or_settle habove with ⟨stage, hactivity, -⟩ | hsettled
    · exact hinstep.advance_of_keep habove hactivity hstack hsteady hvalid hsegments hstep
    · exact absurd ⟨habove, hsettled⟩ hwithin
  · generalize hactivity : t.activity = a at hinstep
    cases hinstep with
    | yields hrepresents hdetour =>
      rw [← hactivity] at hdetour
      rcases hdetour.step_cases hsteady hcapacity hstack hflat hstep with
        ⟨hnil, -⟩ | ⟨hmap, hdeadlines, n', above', hstack', hdetour', hn'⟩
      · exact absurd hnil habove
      · exact .works ((Thread.stride hstep).mappings_eq_nil (hdetour.ne_own habove))
          (fun c _ htop => absurd htop (hdetour.above_ne_computing c)) hstack'
          (.yields (hrepresents.congr hmap hdeadlines)
            (hdetour'.imp fun _ _ hyields => hyields.congr hdeadlines)) hn'
    | asks hwithholds hshows hdetour =>
      rw [← hactivity] at hdetour
      rcases hdetour.step_cases hsteady hcapacity hstack hflat hstep with
        ⟨hnil, -⟩ | ⟨hmap, hdeadlines, n', above', hstack', hdetour', hn'⟩
      · exact absurd hnil habove
      · exact .works ((Thread.stride hstep).mappings_eq_nil (hdetour.ne_own habove))
          (fun c _ htop => absurd htop (hdetour.above_ne_computing c)) hstack'
          (.asks (hwithholds.congr hmap hdeadlines) hshows hdetour') hn'
    | @runs ref c _ inside hwithholds hplain hinside =>
      rw [← hactivity] at hplain
      rw [List.append_assoc, List.singleton_append] at hstack
      exact InStep.advance_of_runs hwithholds hplain hinside hstack hflat
        (fun panic hnil => hsmooth c panic (by rw [hnil]; rfl)) hsteady hstep
    | _ => exact absurd rfl habove

/-- What a frame waits for runs, or its end can be received. -/
theorem Thread.calledBack_or_able {inside below : List (Frame K V Q R)} {frame : Frame K V Q R}
    (hstack : t.stack = inside ++ frame :: below) (hframe : frame.callsBack = true)
    (hinside : ∀ frame ∈ inside, frame.IsPlain) :
    t.isCalledBack = true ∨ ∀ chance, (t.step settings chance w).isSome := by
  by_cases hover : inside = [] ∧ ∃ signal, t.activity = .settle signal
  · obtain ⟨rfl, signal, hactivity⟩ := hover
    exact .inr (Thread.isSome_step_of_settle hactivity hstack)
  · exact .inl (Thread.isCalledBack_of_frame hstack hframe hinside hover)

theorem Detour.calledBack_or_able {P : Nat → Activity K V Q R → Prop}
    (hdetour : Detour P n t.activity above) (habove : above ≠ [])
    (hstack : t.stack = above ++ base) :
    t.isCalledBack = true ∨ ∀ chance, (t.step settings chance w).isSome := by
  generalize hactivity : t.activity = a at hdetour
  cases hdetour with
  | arrives => exact absurd rfl habove
  | passes => exact .inr (Thread.isSome_step_of_settle hactivity hstack)
  | @listens _ _ b inside rest _ hinside =>
    rw [List.append_assoc] at hstack
    exact Thread.calledBack_or_able hstack rfl hinside
  | _ => exact .inr (Thread.isSome_step_of_keep hactivity (by simp))

/-- An operation can always go on, unless what it has called back runs. -/
theorem InStep.calledBack_or_able {s : Store K V} {now : Instant}
    (hinstep : InStep settings s now course n t.activity above) (hstack : t.stack = above ++ base)
    (hbase : base ≠ []) : t.isCalledBack = true ∨ ∀ chance, (t.step settings chance w).isSome := by
  by_cases habove : above = []
  · rcases hinstep.keep_or_settle habove with ⟨stage, hactivity, hstage⟩ | ⟨signal, hactivity⟩
    · exact .inr (Thread.isSome_step_of_keep hactivity hstage)
    · obtain ⟨frame, rest, rfl⟩ := List.exists_cons_of_ne_nil hbase
      rw [habove] at hstack
      exact .inr (Thread.isSome_step_of_settle hactivity hstack)
  · generalize hactivity : t.activity = a at hinstep
    cases hinstep with
    | yields _ hdetour => exact (hactivity ▸ hdetour).calledBack_or_able habove hstack
    | asks _ _ hdetour => exact (hactivity ▸ hdetour).calledBack_or_able habove hstack
    | @runs ref c _ inside _ _ hinside =>
      rw [List.append_assoc] at hstack
      exact Thread.calledBack_or_able hstack rfl hinside
    | _ => exact absurd rfl habove

end Steps

end SharedCache
