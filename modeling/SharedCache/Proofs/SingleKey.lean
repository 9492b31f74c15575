import SharedCache.Proofs.Acts

/-!
# One passage and one key

What a passage means for one key: what it replaces of what goes on about the key, and what is true
of the slot, of the fault and of the previous value when it does so.  Every later statement about a
single key goes through `Passage.Lawful.affair`, so none of them has to look at a section again.
-/

namespace SharedCache

variable {K V Q R : Type} [DecidableEq K]

namespace Passage

variable [DecidableEq V]

/-- What a passage means for a key: what it replaces of what goes on about the key, by what, and
which act that is. -/
inductive Affair (settings : Settings K V Q R) (key : K) (p : Passage K V Q R) :
    List (Ongoing K V Q R) → List (Ongoing K V Q R) → Option (Act K V Q R) → Prop where
  | idle : p.after.slot? key = p.before.slot? key → Affair settings key p [] [] none
  | looks {operation : Operation K V Q R} :
      p.after.slot? key = p.before.slot? key →
      Affair settings key p [.seeks operation] [.seeks operation] none
  | called {operation : Operation K V Q R} :
      operation.concerns key = true → p.after.slot? key = p.before.slot? key →
      Affair settings key p [] [.seeks operation] (some (.called operation))
  /-- Something that is no part of a computation changes the slot. -/
  | disturbed {old new : List (Ongoing K V Q R)} {act : Option (Act K V Q R)} :
      p.Disturbs key → (∀ c progress, .computes c progress ∉ old ++ new) →
      (∀ fault, p.after.slot? key ≠ some (.fault fault)) →
      ((∃ fault, p.before.slot? key = some (.fault fault)) → p.Hits key) →
      Affair settings key p old new act
  | waits {operation : Operation K V Q R} {fault : Nat} :
      p.before.slot? key = some (.fault fault) → p.after.slot? key = p.before.slot? key →
      Affair settings key p [.seeks operation] [.awaits operation fault]
        (some (.waited operation fault))
  | resumes {operation : Operation K V Q R} {fault : Nat} {resolution : Resolution V} :
      p.before.world.store.resolution? fault = some resolution →
      operation.heeds resolution.verdict = none → p.after.slot? key = p.before.slot? key →
      Affair settings key p [.awaits operation fault] [.seeks operation]
        (some (.again operation fault))
  | shares {operation : Operation K V Q R} {fault : Nat} {resolution : Resolution V}
      {reply : Reply V} :
      p.before.world.store.resolution? fault = some resolution →
      operation.heeds resolution.verdict = some reply → p.after.slot? key = p.before.slot? key →
      Affair settings key p [.awaits operation fault] [] (some (.shared operation fault reply))
  | givesUp {operation : Operation K V Q R} {fault : Nat} {error : StoreError} :
      (error = .interrupted ∧ p.before.world.store.resolution? fault = none ∨
        ∃ n, error = .abandoned n ∧ maxAbandoned ≤ n ∧
          p.before.world.store.resolution? fault = some .retry) →
      p.after.slot? key = p.before.slot? key →
      Affair settings key p [.awaits operation fault] [] (some (.gaveUp operation fault error))
  | decides {operation : Operation K V Q R} :
      (∀ fault, p.before.slot? key ≠ some (.fault fault)) →
      operation.computes (p.before.content? key) = false →
      (operation.gives (p.before.content? key) = none ∧
          p.after.slot? key = p.before.slot? key ∨
        ∃ value h, operation.gives (p.before.content? key) = some value ∧
          settings.copyIn value = .ok h.value ∧ p.after.slot? key = some (.holder h)) →
      Affair settings key p [.seeks operation] []
        (some (.decided operation (p.after.content? key)
          (operation.tells (p.before.content? key))))
  | crashes {operation : Operation K V Q R} {value : V} {panic : Panic} :
      (∀ fault, p.before.slot? key ≠ some (.fault fault)) →
      operation.gives (p.before.content? key) = some value →
      settings.BalksAtWriting key value panic → p.after.slot? key = p.before.slot? key →
      Affair settings key p [.seeks operation] [] (some (.crashed operation panic))
  | begins {operation : Operation K V Q R} {c : Computation K V Q R} :
      c.key = key → c = operation.computation c.key c.fault c.previous →
      (∀ fault, p.before.slot? key ≠ some (.fault fault)) →
      p.after.slot? key = some (.fault c.fault) →
      (¬ p.Disturbs key → c.previous.map Holder.value = p.before.content? key ∧
        operation.computes (p.before.content? key) = true) →
      Affair settings key p [.seeks operation] [.computes c .begun]
        (some (.began operation c.fault))
  | maps {c : Computation K V Q R} {current : Option V} :
      settings.Shows (c.previous.map Holder.value) current →
      p.after.slot? key = p.before.slot? key →
      Affair settings key p [.computes c .begun] [.computes c .running]
        (some (.mapped c.fault current))
  | unwinds {c : Computation K V Q R} {panic : Panic} :
      settings.BalksAtShowing (c.previous.map Holder.value) panic →
      p.after.slot? key = p.before.slot? key →
      Affair settings key p [.computes c .begun]
        [.computes c (.leaving c.previous .retry (.raised panic))]
        (some (.unwound c.fault panic))
  | returns {c : Computation K V Q R} {signal : Signal V} :
      p.after.slot? key = p.before.slot? key →
      Affair settings key p [.computes c .running] [.computes c (c.progress signal)]
        (some (.returned c.fault signal))
  | composes {c : Computation K V Q R} {value copy : V} {h : Holder V} :
      settings.copyIn value = .ok h.value → settings.copyOut h.value = .ok copy →
      p.after.slot? key = p.before.slot? key →
      Affair settings key p [.computes c (.given value)]
        [.computes c (.leaving (some h) (.ready h) (.done (.value (some copy))))]
        (some (.composed c.fault h.value copy))
  | balks {c : Computation K V Q R} {value : V} {panic : Panic} :
      settings.BalksAtComposing key value panic → p.after.slot? key = p.before.slot? key →
      Affair settings key p [.computes c (.given value)]
        [.computes c (.leaving c.previous .retry (.raised panic))]
        (some (.unwound c.fault panic))
  | ends {c : Computation K V Q R} {left : Option (Holder V)} {resolution : Resolution V}
      {signal : Signal V} :
      p.after.slot? key =
        (if p.before.slot? key = some (.fault c.fault) then left.map Slot.holder
          else p.before.slot? key) →
      p.after.world.store.faults =
        (p.before.world.store.resolve c.fault resolution).faults →
      Affair settings key p [.computes c (.leaving left resolution signal)] []
        (some (.ended c.fault (p.after.content? key) signal))
  /-- A panic gives up what was put off. -/
  | drops {t : Thread K V Q R} {a : Activity K V Q R} {rest : List (Frame K V Q R)} :
      p.thread? = some t → t.stack = .next a :: rest → p.after.slot? key = p.before.slot? key →
      Affair settings key p (a.ongoing.filter (Ongoing.concerns key)) [] none

end Passage

/-! ## Sections -/

section Section

variable [DecidableEq V] {settings : Settings K V Q R} {p : Passage K V Q R}
  {stage : Stage K V Q R} {turn : StoreTurn K V Q R} {key : K}

omit [DecidableEq V] in
theorem Passage.act?_of_stage (hstage : p.stage? = some stage) :
    p.act? settings key = p.sectionAct? key stage := by
  rw [Passage.stage?] at hstage
  split at hstage
  · rename_i hthread
    obtain rfl := Option.some.inj hstage
    rw [Passage.act?, hthread]
  · cases hstage

omit [DecidableEq V] in
theorem Passage.act?_of_returns {t : Thread K V Q R} {signal : Signal V} {c : Computation K V Q R}
    {rest : List (Frame K V Q R)} (ht : p.thread? = some t)
    (hactivity : t.activity = .settle signal) (hstack : t.stack = .computing c :: rest) :
    p.act? settings key = if c.key = key then some (.returned c.fault signal) else none := by
  obtain ⟨activity, stack, binding⟩ := t
  obtain rfl : activity = .settle signal := hactivity
  obtain rfl : stack = .computing c :: rest := hstack
  rw [Passage.act?, ht]

omit [DecidableEq V] in
theorem Passage.IsSection.slot? (hsection : p.IsSection stage turn) :
    p.after.slot? key = turn.state.map.get? key := by
  rw [Machine.slot?, hsection.store]

omit [DecidableEq V] in
theorem Passage.IsSection.slot?_of_map (hsection : p.IsSection stage turn)
    (hmap : turn.state.map = p.before.world.store.map) :
    p.after.slot? key = p.before.slot? key := by
  rw [hsection.slot?, hmap, Machine.slot?]

omit [DecidableEq V] in
theorem Passage.visited?_of_reply {operation : Operation K V Q R} {reply : Reply V}
    (hreply : p.reply? = some reply) (hpanic : ∀ panic, reply ≠ .ends (.raised panic)) :
    p.visited? key operation = some (.decided operation (p.after.content? key) reply) := by
  rw [Passage.visited?]
  split
  case h_1 hupshot | h_2 hupshot =>
    rw [Passage.reply?, hupshot] at hreply
    cases hreply
  case h_3 panic hupshot =>
    rw [Passage.reply?, hupshot] at hreply
    exact absurd (Option.some.inj hreply).symm (hpanic panic)
  case h_4 => rw [hreply, Option.map_some]

omit [DecidableEq K] [DecidableEq V] in
theorem Passage.resumed?_of_reply {operation : Operation K V Q R} {fault : Nat} {reply : Reply V}
    (hreply : p.reply? = some reply)
    (hheeds : ∃ verdict, operation.heeds verdict = some reply) :
    p.resumed? operation fault = some (.shared operation fault reply) := by
  obtain ⟨verdict, hheeds⟩ := hheeds
  have hfailure : ∀ error, reply = .ends (.done (.failed error)) →
      ∃ object, error = .computation object := by
    rintro error rfl
    cases verdict with
    | failed object =>
      cases operation with
      | computeIfAbsent =>
        cases hheeds
        exact ⟨object, rfl⟩
      | _ => cases hheeds
    | _ => cases operation <;> cases hheeds
  rw [Passage.resumed?]
  split
  case h_1 hupshot =>
    rw [Passage.reply?, hupshot] at hreply
    cases hreply
  case h_2 hupshot | h_3 hupshot =>
    rw [Passage.reply?, hupshot] at hreply
    obtain ⟨object, hobject⟩ := hfailure _ (Option.some.inj hreply).symm
    cases hobject
  case h_4 => rw [hreply, Option.map_some]

omit [DecidableEq V] in
theorem Passage.IsSection.disturbs {operation : Operation K V Q R} {retries : Nat} {now : Instant}
    (hsection : p.IsSection (.visit operation retries now) turn)
    (hkey : operation.key? = some key)
    (hwhy : operation.intrudes = true ∨ ∃ h, p.before.world.store.look key now = .stale h) :
    p.Disturbs key := by
  rw [Passage.Disturbs, hsection.stage]
  exact ⟨hkey, hwhy⟩

/-- A visit of an operation that is about another key, or does not wait. -/
theorem Store.Visit.affair_of_apart {operation : Operation K V Q R} {retries : Nat} {now : Instant}
    (hsection : p.IsSection (.visit operation retries now) turn)
    (hvisit : p.before.world.store.Visit settings now operation turn)
    (hvalid : p.before.world.store.map.Valid) (hconcerns : operation.concerns key = false) :
    p.Affair settings key [] (turn.ongoing.filter (Ongoing.concerns key)) none := by
  have hapart : ∀ other, operation.key? = some other → operation.waits = true → key ≠ other := by
    rintro other hother hwaits rfl
    rw [Operation.concerns_eq_true.mpr ⟨hwaits, hother⟩] at hconcerns
    cases hconcerns
  cases hvisit with
  | keeps _ _ hstill =>
    rw [hstill.ongoing]
    exact .idle (hsection.slot?_of_map hstill.map)
  | waits _ _ hspares hnext hframes =>
    have hnone : turn.ongoing.filter (Ongoing.concerns key) = [] := by
      simp [Turn.ongoing, hnext, hframes, Stage.ongoing, Ongoing.concerns, hconcerns]
    rw [hnone]
    exact .idle (hsection.slot?_of_map hspares.map)
  | @writes other value h hkey _ hgives _ _ hmap _ hnone _ =>
    rw [hnone]
    have hslot : p.after.slot? key = if key = other then some (.holder h)
        else p.before.slot? key := by
      rw [hsection.slot?, hmap, hvalid.get?_insert]
      rfl
    by_cases hother : key = other
    · have hintrudes : operation.intrudes = true := by
        cases hwaits : operation.waits with
        | true => exact absurd hother (hapart other hkey hwaits)
        | false => exact Operation.intrudes_of_gives hgives hwaits
      refine .disturbed (hsection.disturbs (hother ▸ hkey) (.inl hintrudes)) (by simp) ?_
        fun _ => ?_
      · rw [hslot, if_pos hother]
        simp
      · rw [Passage.Hits, hsection.stage]
        cases operation with
        | put at_ value' => exact (Option.some.inj hkey).trans hother.symm
        | _ => simp_all [Operation.gives, Operation.intrudes]
    · exact .idle (by rw [hslot, if_neg hother])
  | @removes other hkey hwhy hmap _ hnone =>
    rw [hnone]
    have hslot : p.after.slot? key = if key = other then none else p.before.slot? key := by
      rw [hsection.slot?, hmap, hvalid.get?_erase]
      rfl
    by_cases hother : key = other
    · subst hother
      refine .disturbed (hsection.disturbs hkey ?_) (by simp) (by simp [hslot]) ?_
      · exact hwhy.imp_left fun htakes => (Operation.intrudes_of_takes htakes).1
      · rintro ⟨fault, hfault⟩
        have hlook : p.before.world.store.look key now = _ := Store.look_of_fault hfault
        rw [Passage.Hits, hsection.stage]
        rcases hwhy with htakes | ⟨h, hstale⟩
        · rw [hlook] at htakes
          cases operation with
          | remove at_ => exact Option.some.inj hkey
          | _ => simp [Operation.takes, Look.live?] at htakes
        · rw [hlook] at hstale
          cases hstale
    · exact .idle (by rw [hslot, if_neg hother])
  | @begins c m hkey hcomputes _ _ hm hmap _ hone _ =>
    have hother := hapart c.key hkey (Operation.waits_of_computes hcomputes)
    have hnone : turn.ongoing.filter (Ongoing.concerns key) = [] := by
      simp [hone, Ongoing.concerns, Ne.symm hother]
    rw [hnone]
    have hslot : p.after.slot? key = m.get? key := by
      have hm' : m.Valid := by
        rcases hm with rfl | ⟨-, rfl⟩
        · exact hvalid
        · exact hvalid.edit (.erase c.key)
      rw [hsection.slot?, hmap, hm'.get?_insert, if_neg hother]
    refine .idle (hslot.trans ?_)
    rcases hm with rfl | ⟨-, rfl⟩
    · rfl
    · rw [hvalid.get?_erase, if_neg hother]
      rfl

/-- A visit that finds a value that has expired, and begins no computation, disturbs the key. -/
theorem Passage.Affair.of_stale {operation : Operation K V Q R} {retries : Nat} {now : Instant}
    {h : Holder V} {old : List (Ongoing K V Q R)} {act : Option (Act K V Q R)}
    (hsection : p.IsSection (.visit operation retries now) turn)
    (hkey : operation.key? = some key)
    (hstale : p.before.world.store.look key now = .stale h)
    (hcomputes : ∀ c progress, .computes c progress ∉ old)
    (hfree : ∀ fault, p.after.slot? key ≠ some (.fault fault)) :
    p.Affair settings key old [] act := by
  refine .disturbed (hsection.disturbs hkey (.inr ⟨h, hstale⟩)) (by simpa using hcomputes) hfree ?_
  rintro ⟨fault, hfault⟩
  rw [Store.look_of_fault hfault] at hstale
  cases hstale

/-- A visit of an operation that is about the key and waits for its computations. -/
theorem Store.Visit.affair {operation : Operation K V Q R} {retries : Nat} {now : Instant}
    (hsection : p.IsSection (.visit operation retries now) turn)
    (hvisit : p.before.world.store.Visit settings now operation turn)
    (hvalid : p.before.world.store.map.Valid) (hconcerns : operation.concerns key = true) :
    p.Affair settings key [.seeks operation] (turn.ongoing.filter (Ongoing.concerns key))
      (p.visited? key operation) := by
  obtain ⟨hwaits, hkey⟩ := Operation.concerns_eq_true.mp hconcerns
  have hsame : ∀ other, operation.key? = some other → other = key := fun other hother =>
    Option.some.inj (hother.symm.trans hkey)
  have hadmitted : p.before.world.store.Admits key now operation →
      ∀ fault, p.before.slot? key ≠ some (.fault fault) := fun hadmits fault hslot =>
    hadmits hwaits fault (Store.look_of_fault hslot)
  have hcontent : (∀ h, p.before.world.store.look key now ≠ .stale h) →
      (p.before.world.store.look key now).live?.map Holder.value = p.before.content? key := by
    intro hstale
    rw [Store.live?_of_not_stale hstale]
    rfl
  have hdecided : ∀ {found : Option V},
      turn.upshot?.bind Activity.reply? = some (operation.tells found) →
      p.visited? key operation =
        some (.decided operation (p.after.content? key) (operation.tells found)) := by
    intro found hreply
    rw [← hsection.upshot?] at hreply
    exact Passage.visited?_of_reply hreply (operation.tells_ne_raised found)
  cases hvisit with
  | keeps hadmits hwhy hstill =>
    have hfree := hadmitted (hadmits key hkey)
    have hslot : p.after.slot? key = p.before.slot? key := hsection.slot?_of_map hstill.map
    rw [hstill.ongoing]
    by_cases hstale : ∃ h, p.before.world.store.look key now = .stale h
    · obtain ⟨h, hstale⟩ := hstale
      exact .of_stale hsection hkey hstale (by simp) (by rwa [hslot])
    · have hfound := hcontent (not_exists.mp hstale)
      rcases hwhy key hkey with
        ⟨hgives, -, hcomputes, hreplies⟩ | ⟨value, panic, hgives, hdraft, hupshot⟩
      · rw [hfound] at hgives hcomputes hreplies
        rw [hdecided (hreplies hwaits)]
        exact .decides hfree hcomputes (.inl ⟨hgives, hslot⟩)
      · rw [hfound] at hgives
        have hact : p.visited? key operation = some (.crashed operation panic) := by
          rw [Passage.visited?, hsection.upshot?, hupshot]
        rw [hact]
        exact .crashes hfree hgives ⟨_, _, hdraft⟩ hslot
  | @waits other retries' fault hother hlook hspares hnext hframes =>
    obtain rfl := hsame other hother
    have hslot : p.before.slot? other = some (.fault fault) := Store.get?_of_pending hlook
    have hact : p.visited? other operation = some (.waited operation fault) := by
      rw [Passage.visited?, hsection.upshot?, Turn.upshot?_of_frames hframes, hnext]
    rw [hact]
    have hnew : turn.ongoing.filter (Ongoing.concerns other) = [.awaits operation fault] := by
      simp [Turn.ongoing, hnext, hframes, Stage.ongoing, Ongoing.concerns, hconcerns]
    rw [hnew]
    exact .waits hslot (hsection.slot?_of_map hspares.map)
  | @writes other value h hother hadmits hgives hvalue _ hmap _ hnone _ hreplies =>
    obtain rfl := hsame other hother
    have hfree := hadmitted hadmits
    have hslot : p.after.slot? other = some (.holder h) := by
      rw [hsection.slot?, hmap, hvalid.get?_insert, if_pos rfl]
    rw [hnone]
    by_cases hstale : ∃ h, p.before.world.store.look other now = .stale h
    · obtain ⟨h, hstale⟩ := hstale
      exact .of_stale hsection hkey hstale (by simp) (by simp [hslot])
    · rw [hcontent (not_exists.mp hstale)] at hgives hreplies
      rw [hdecided (hreplies hwaits)]
      refine .decides hfree ?_ (.inr ⟨value, h, hgives, hvalue, hslot⟩)
      cases operation <;> simp_all [Operation.gives, Operation.computes]
  | @removes other hother hwhy hmap _ hnone =>
    obtain rfl := hsame other hother
    rcases hwhy with htakes | ⟨h, hstale⟩
    · rw [(Operation.intrudes_of_takes htakes).2] at hwaits
      cases hwaits
    · have hslot : p.after.slot? other = none := by
        rw [hsection.slot?, hmap, hvalid.get?_erase, if_pos rfl]
      rw [hnone]
      exact .of_stale hsection hkey hstale (by simp) (by simp [hslot])
  | @begins c m hother hcomputes hfree hc hm hmap hfaults hone hthread =>
    have hckey := hsame c.key hother
    rw [hckey] at hcomputes hfree hm hmap
    have hbefore : ∀ fault, p.before.slot? key ≠ some (.fault fault) := fun fault hslot =>
      hfree fault (Store.look_of_fault hslot)
    have hm' : m.Valid := by
      rcases hm with rfl | ⟨-, rfl⟩
      · exact hvalid
      · exact hvalid.erase key
    have hslot : p.after.slot? key = some (.fault c.fault) := by
      rw [hsection.slot?, hmap, hm'.get?_insert, if_pos rfl]
    have hfault := congrArg Computation.fault hc
    have hprevious := congrArg Computation.previous hc
    have hnew : turn.ongoing.filter (Ongoing.concerns key) = [.computes c .begun] := by
      simp [hone, Ongoing.concerns, hckey]
    have hupshot : turn.upshot? = some (.keep (.own c)) := by
      rcases hthread with ⟨hnext, hframes⟩ | ⟨-, hframes⟩
      · rw [Turn.upshot?_of_frames hframes, hnext]
      · rw [Turn.upshot?, hframes]
        rfl
    have hact : p.visited? key operation = some (.began operation c.fault) := by
      rw [Passage.visited?, hsection.upshot?, hupshot]
    rw [hnew, hact]
    refine .begins hckey ?_ hbefore hslot fun hcalm => ?_
    · rw [hfault, hprevious]
      exact hc
    · have hstale : ∀ h, p.before.world.store.look key now ≠ .stale h := fun h hlook =>
        hcalm (hsection.disturbs hkey (.inr ⟨h, hlook⟩))
      rw [hprevious, ← hcontent hstale]
      rw [hckey]
      exact ⟨rfl, hcomputes⟩

omit [DecidableEq V] in
/-- A section of a computation is an act for the computation's key only. -/
theorem Passage.sectionAct?_of_computes {c : Computation K V Q R} {progress : Progress V}
    (hstage : stage.ongoing = [.computes c progress]) :
    p.sectionAct? key stage = if c.key = key then p.carried? key c.fault else none := by
  cases stage with
  | own c' | compose c' | install c' | vacate c' | restore c' =>
    obtain ⟨rfl, -⟩ := Ongoing.computes.inj (List.singleton_inj.mp hstage)
    rfl
  | visit operation retries now => cases List.singleton_inj.mp hstage
  | await operation retries fault => cases List.singleton_inj.mp hstage
  | round operation retries => cases List.singleton_inj.mp hstage
  | _ => cases hstage

omit [DecidableEq V] in
/-- A computation that is about to be undone. -/
theorem Passage.carried?_of_restore {c : Computation K V Q R} {fault : Nat}
    {resolution : Resolution V} {panic : Panic}
    (hupshot : p.upshot? = some (.keep (.restore c resolution (.raised panic)))) :
    p.carried? key fault = some (.unwound fault panic) := by
  rw [Passage.carried?, hupshot]

/-- What leaves the slots alone is an affair of the keys it is about, and of no other. -/
theorem Passage.Affair.of_concerned {concerned : Bool} {old new : List (Ongoing K V Q R)}
    {act : Option (Act K V Q R)} (hslot : p.after.slot? key = p.before.slot? key)
    (hconcerns : ∀ o ∈ old ++ new, o.concerns key = concerned)
    (haffair : concerned = true → p.Affair settings key old new act) :
    p.Affair settings key (old.filter (Ongoing.concerns key)) (new.filter (Ongoing.concerns key))
      (if concerned then act else none) := by
  have hold : ∀ o ∈ old, o.concerns key = concerned := fun o ho =>
    hconcerns o (List.mem_append_left new ho)
  have hnew : ∀ o ∈ new, o.concerns key = concerned := fun o ho =>
    hconcerns o (List.mem_append_right old ho)
  cases concerned with
  | true =>
    rw [List.filter_eq_self.mpr hold, List.filter_eq_self.mpr hnew]
    exact haffair rfl
  | false =>
    rw [List.filter_eq_nil_iff.mpr fun o ho => by simp [hold o ho],
      List.filter_eq_nil_iff.mpr fun o ho => by simp [hnew o ho]]
    exact .idle hslot

/-- A section that goes on with the same computation. -/
theorem Passage.Affair.of_computes {c : Computation K V Q R} {progress progress' : Progress V}
    (hsection : p.IsSection stage turn) (hspares : turn.Spares p.before.world.store)
    (hold : stage.ongoing = [.computes c progress]) (hnew : turn.ongoing = [.computes c progress'])
    (haffair : c.key = key → p.after.slot? key = p.before.slot? key →
      p.Affair settings key [.computes c progress] [.computes c progress']
        (p.carried? key c.fault)) :
    p.Affair settings key (stage.ongoing.filter (Ongoing.concerns key))
      (turn.ongoing.filter (Ongoing.concerns key)) (p.sectionAct? key stage) := by
  have hslot : p.after.slot? key = p.before.slot? key := hsection.slot?_of_map hspares.map
  rw [Passage.sectionAct?_of_computes hold]
  by_cases hkey : c.key = key
  · simpa [hold, hnew, Ongoing.concerns, hkey] using haffair hkey hslot
  · simpa [hold, hnew, Ongoing.concerns, hkey] using
      (.idle hslot : p.Affair settings key [] [] none)

/-- A stale holder or a victim leaves its slot. -/
theorem Passage.Affair.of_expels {other : K} {h : Holder V} (hsection : p.IsSection stage turn)
    (hvalid : p.before.world.store.map.Valid)
    (hstage : stage = .expel other h ∨ ∃ failed cause, stage = .evict failed other h cause)
    (hholds : p.before.world.store.holds other h = true)
    (hmap : turn.state.map = p.before.world.store.map.erase other) :
    p.Affair settings key [] [] none := by
  have hslot : p.after.slot? key = if key = other then none else p.before.slot? key := by
    rw [hsection.slot?, hmap, hvalid.get?_erase]
    rfl
  by_cases hother : key = other
  · subst hother
    rw [if_pos rfl] at hslot
    have hdisturbs : p.Disturbs key := by
      rw [Passage.Disturbs, hsection.stage]
      rcases hstage with rfl | ⟨failed, cause, rfl⟩ <;> exact ⟨rfl, hholds⟩
    refine .disturbed hdisturbs (by simp) (by simp [hslot]) ?_
    rintro ⟨fault, hfault⟩
    have hget : p.before.world.store.map.get? key = some (.fault fault) := hfault
    simp [Store.holds, hget, Slot.isHolder] at hholds
  · exact .idle (by rw [hslot, if_neg hother])

/-- A segment is emptied, whatever is in its slots. -/
theorem Passage.Affair.of_sweeps {segment : Nat} (hsection : p.IsSection (.sweep segment) turn)
    (hmap : turn.state.map = p.before.world.store.map.clearSegment segment) :
    p.Affair settings key [] [] none := by
  have hslot : p.after.slot? key =
      if p.before.world.store.map.segmentOf key = segment then none else p.before.slot? key := by
    rw [hsection.slot?, hmap, EntryMap.get?_clearSegment]
    rfl
  by_cases hsegment : p.before.world.store.map.segmentOf key = segment
  · rw [if_pos hsegment] at hslot
    refine .disturbed ?_ (by simp) (by simp [hslot]) fun _ => ?_
    · rw [Passage.Disturbs, hsection.stage]
      exact hsegment
    · rw [Passage.Hits, hsection.stage]
      exact hsegment
  · exact .idle (by rw [hslot, if_neg hsegment])

/-- A computation leaves its slot as it shall be, if the slot still has its fault. -/
theorem Passage.Affair.of_ends {c : Computation K V Q R} {left : Option (Holder V)}
    {resolution : Resolution V} {signal : Signal V} (hsection : p.IsSection stage turn)
    (hvalid : p.before.world.store.map.Valid)
    (hold : stage.ongoing = [.computes c (.leaving left resolution signal)])
    (hmap : turn.state.map = if p.before.world.store.pendingIn c.key c.fault
      then p.before.world.store.map.leave c.key left else p.before.world.store.map)
    (hfaults : turn.state.faults = (p.before.world.store.resolve c.fault resolution).faults)
    (hsignal : turn.upshot? = some (.settle signal)) :
    p.Affair settings key (stage.ongoing.filter (Ongoing.concerns key)) []
      (p.sectionAct? key stage) := by
  have hpending : p.before.world.store.pendingIn c.key c.fault = true ↔
      p.before.slot? c.key = some (.fault c.fault) := Store.pendingIn_iff
  have hslot : ∀ other, p.after.slot? other =
      if p.before.slot? c.key = some (.fault c.fault) ∧ other = c.key then left.map Slot.holder
      else p.before.slot? other := by
    intro other
    rw [hsection.slot?, hmap]
    by_cases hhas : p.before.slot? c.key = some (.fault c.fault)
    · rw [if_pos (hpending.mpr hhas), hvalid.get?_leave]
      simp only [hhas, true_and]
      rfl
    · rw [if_neg (mt hpending.mp hhas), if_neg (fun hboth => hhas hboth.1)]
      rfl
  by_cases hkey : c.key = key
  · subst hkey
    have hfilter : stage.ongoing.filter (Ongoing.concerns c.key) =
        [.computes c (.leaving left resolution signal)] := by
      simp [hold, Ongoing.concerns]
    have hact : p.carried? c.key c.fault =
        some (.ended c.fault (p.after.content? c.key) signal) := by
      rw [Passage.carried?, hsection.upshot?, hsignal]
    rw [hfilter, Passage.sectionAct?_of_computes hold, if_pos rfl, hact]
    refine .ends (by simpa using hslot c.key) ?_
    rw [hsection.store]
    exact hfaults
  · have hfilter : stage.ongoing.filter (Ongoing.concerns key) = [] := by
      simp [hold, Ongoing.concerns, hkey]
    rw [hfilter, Passage.sectionAct?_of_computes hold, if_neg hkey]
    refine .idle ?_
    rw [hslot key, if_neg fun hboth => hkey hboth.2.symm]

/-- Every section is an affair of every key. -/
theorem Stage.Deed.affair (hsection : p.IsSection stage turn)
    (hdeed : stage.Deed settings p.before.world.store turn)
    (hvalid : p.before.world.store.map.Valid) :
    p.Affair settings key (stage.ongoing.filter (Ongoing.concerns key))
      (turn.ongoing.filter (Ongoing.concerns key)) (p.sectionAct? key stage) := by
  cases hdeed with
  | @visits operation retries now _ hvisit =>
    cases hconcerns : operation.concerns key with
    | true =>
      simpa [Stage.ongoing, Ongoing.concerns, Passage.sectionAct?, hconcerns] using
        hvisit.affair hsection hvalid hconcerns
    | false =>
      simpa [Stage.ongoing, Ongoing.concerns, Passage.sectionAct?, hconcerns] using
        hvisit.affair_of_apart hsection hvalid hconcerns
  | keeps hnone hstill =>
    have hact : p.sectionAct? key stage = none := by
      cases stage <;> first | rfl | cases hnone
    rw [hnone, hstill.ongoing, hact]
    exact .idle (hsection.slot?_of_map hstill.map)
  | @looks operation retries now _ hnext hframes hspares =>
    have hslot : p.after.slot? key = p.before.slot? key := hsection.slot?_of_map hspares.map
    have hnew : turn.ongoing = [.seeks operation] := by
      simp [Turn.ongoing, hnext, hframes, Stage.ongoing]
    have hact : p.sectionAct? key (.round operation retries) =
        if operation.concerns key then none else none := (ite_self none).symm
    rw [hnew, hact]
    exact .of_concerned hslot (by simp [Stage.ongoing, Ongoing.concerns]) fun _ => .looks hslot
  | @resumes operation _ _ fault resolution _ hresolved hshares hnext hframes hspares =>
    have hslot : p.after.slot? key = p.before.slot? key := hsection.slot?_of_map hspares.map
    have hnew : turn.ongoing = [.seeks operation] := by
      simp [Turn.ongoing, hnext, hframes, Stage.ongoing]
    have hact : p.resumed? operation fault = some (.again operation fault) := by
      rw [Passage.resumed?, hsection.upshot?, Turn.upshot?_of_frames hframes, hnext]
    rw [hnew, Passage.sectionAct?, hact]
    exact .of_concerned hslot (by simp [Stage.ongoing, Ongoing.concerns]) fun _ =>
      .resumes hresolved (Operation.heeds_eq_none.mpr hshares) hslot
  | @shares operation retries fault resolution left _ hresolved hshares hstill hframes hreply =>
    have hslot : p.after.slot? key = p.before.slot? key := hsection.slot?_of_map hstill.map
    obtain ⟨reply, hheeds⟩ : ∃ reply, operation.heeds resolution.verdict = some reply := by
      rw [← Option.ne_none_iff_exists', ne_eq, Operation.heeds_eq_none, hshares]
      simp
    have hreplies : p.reply? = some reply := by
      rw [Passage.reply?, hsection.upshot?, Turn.upshot?_of_frames hframes, Option.bind_some,
        hreply, hheeds]
    rw [hstill.ongoing, Passage.sectionAct?, Passage.resumed?_of_reply hreplies ⟨_, hheeds⟩]
    exact .of_concerned hslot (by simp [Stage.ongoing, Ongoing.concerns]) fun _ =>
      .shares hresolved hheeds hslot
  | @givesUp operation retries fault error _ hshares hnext hstill hframes hwhy =>
    have hslot : p.after.slot? key = p.before.slot? key := hsection.slot?_of_map hstill.map
    have hact : p.resumed? operation fault = some (.gaveUp operation fault error) := by
      rw [Passage.resumed?, hsection.upshot?, Turn.upshot?_of_frames hframes, hnext]
      rcases hwhy with ⟨rfl, -⟩ | ⟨n, rfl, -⟩ <;> rfl
    rw [hstill.ongoing, Passage.sectionAct?, hact]
    exact .of_concerned hslot (by simp [Stage.ongoing, Ongoing.concerns]) fun _ =>
      .givesUp hwhy hslot
  | @expels _ _ other h hstage hholds hmap hfaults hnone =>
    have hold : stage.ongoing = [] ∧ p.sectionAct? key stage = none := by
      rcases hstage with rfl | ⟨failed, cause, rfl⟩ <;> exact ⟨rfl, rfl⟩
    rw [hold.1, hold.2, hnone]
    exact .of_expels hsection hvalid hstage hholds hmap
  | sweeps hmap hfaults hnone =>
    rw [hnone]
    exact .of_sweeps hsection hmap
  | @calls c current _ hshows hnext hframes hevents hspares =>
    have hnew : turn.ongoing = [.computes c .running] := by
      simp [Turn.ongoing, hnext, hframes]
    refine .of_computes hsection hspares rfl hnew fun hkey hslot => ?_
    have hact : p.carried? key c.fault = some (.mapped c.fault current) := by
      rw [Passage.carried?, hsection.upshot?, Turn.upshot?, hframes, hsection.events, hevents]
      rfl
    rw [hact]
    exact .maps hshows hslot
  | @unwinds _ c panic _ hcause hbalks hnext hframes hspares =>
    have hnew : turn.ongoing = [.computes c (.leaving c.previous .retry (.raised panic))] := by
      simp [Turn.ongoing, hnext, hframes, Stage.ongoing]
    have hact : p.carried? key c.fault = some (.unwound c.fault panic) :=
      Passage.carried?_of_restore
        (hsection.upshot?.trans ((Turn.upshot?_of_frames hframes).trans (congrArg some hnext)))
    rcases hcause with ⟨rfl, -⟩ | ⟨value, rfl⟩
    · refine .of_computes hsection hspares rfl hnew fun hkey hslot => ?_
      rw [hact]
      exact .unwinds hbalks hslot
    · refine .of_computes hsection hspares rfl hnew fun hkey hslot => ?_
      rw [hact]
      exact .balks (hkey ▸ hbalks) hslot
  | @composes c value copy h _ hin hweight hout hnext hframes hspares =>
    have hnew : turn.ongoing =
        [.computes c (.leaving (some h) (.ready h) (.done (.value (some copy))))] := by
      simp [Turn.ongoing, hnext, hframes, Stage.ongoing]
    refine .of_computes hsection hspares rfl hnew fun hkey hslot => ?_
    have hact : p.carried? key c.fault = some (.composed c.fault h.value copy) := by
      rw [Passage.carried?, hsection.upshot?, Turn.upshot?_of_frames hframes, hnext]
    rw [hact]
    exact .composes hin hout hslot
  | ends hold hmap hfaults hnone _ hsignal =>
    rw [hnone]
    exact .of_ends hsection hvalid hold hmap hfaults hsignal

end Section

section Passage

variable [DecidableEq V] {settings : Settings K V Q R} {p : Passage K V Q R}

/-- Every passage is an affair of every key. -/
theorem Passage.Lawful.affair (hp : p.Lawful settings) (hvalid : p.before.world.store.map.Valid)
    (key : K) : ∃ front old new back,
      p.before.concerning key = front ++ old ++ back ∧
      p.after.concerning key = front ++ new ++ back ∧
      p.Affair settings key old new (p.act? settings key) := by
  obtain ⟨front, old, new, back, hbefore, hafter, hturnover⟩ := hp.turnover
  refine ⟨front.filter (Ongoing.concerns key), old.filter (Ongoing.concerns key),
    new.filter (Ongoing.concerns key), back.filter (Ongoing.concerns key), ?_, ?_, ?_⟩
  · simp [Machine.concerning, hbefore]
  · simp [Machine.concerning, hafter]
  · have hslot : p.Spares → p.after.slot? key = p.before.slot? key := fun hspares => by
      rw [Machine.slot?, hspares.map]
      rfl
    cases hturnover with
    | rests hthread hspares =>
      have hact : p.act? settings key = none := by
        rw [Passage.act?]
        split
        · rename_i hcalls
          exact absurd rfl ((hthread _ hcalls).2.1 _ _)
        · rename_i hcomputing
          exact absurd rfl ((hthread _ hcomputing).2.2 _ _ _ rfl)
        · rename_i hkeeps
          exact absurd rfl ((hthread _ hkeeps).1 _)
        · rfl
      rw [hact]
      exact .idle (hslot hspares)
    | @calls t operation code ht hactivity hspares =>
      obtain ⟨activity, stack, binding⟩ := t
      obtain rfl : activity = .code (.call operation code) := hactivity
      have hact : p.act? settings key = if (operation.stored settings).concerns key then
          some (.called (operation.stored settings)) else none := by
        rw [Passage.act?, ht]
      rw [hact]
      exact .of_concerned (hslot hspares) (by simp [Ongoing.concerns]) fun hconcerns =>
        .called hconcerns (hslot hspares)
    | @drops t panic a rest ht hactivity hstack hspares =>
      have hact : p.act? settings key = none := by
        obtain ⟨activity, stack, binding⟩ := t
        obtain rfl : activity = .settle (.raised panic) := hactivity
        obtain rfl : stack = .next a :: rest := hstack
        rw [Passage.act?, ht]
      rw [hact]
      exact .drops ht hstack (hslot hspares)
    | @moves t signal c rest ht hactivity hstack hspares =>
      rw [Passage.act?_of_returns ht hactivity hstack]
      by_cases hkey : c.key = key
      · simpa [Ongoing.concerns, hkey] using .returns (hslot hspares)
      · simpa [Ongoing.concerns, hkey] using .idle (hslot hspares)
    | acts hsection hdeed =>
      rw [Passage.act?_of_stage hsection.stage]
      exact hdeed.affair hsection hvalid

end Passage

end SharedCache
