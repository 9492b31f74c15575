import SharedCache.Proofs.Balance

/-!
# Deadlines

Who moves a deadline, and what a slot stands for while nobody does.  A new holder gets a deadline of
its own, and from then on only a read that refreshes the holder moves it.  A slot comes to stand for
another holder only where somebody writes the key: what a failed computation puts back is what the
slot stood for all the time.
-/

namespace SharedCache

variable {K V Q R : Type}

/-! ## Sections -/

/-- A turn moves no deadline that there is.  It may add the one of a draft, which the collaborators
have been consulted about in the turn. -/
inductive Turn.Dates (settings : Settings K V Q R) (s : Store K V) (turn : StoreTurn K V Q R) :
    Prop where
  | keeps : turn.state.deadlines = s.deadlines → Dates settings s turn
  | adds {key : K} {value : V} {now : Instant} {previous : Option (Option Duration)}
      {d : Draft V} :
      (settings.draft key value now previous).result = .ok d →
      (∀ event ∈ (settings.draft key value now previous).events, event ∈ turn.events) →
      turn.state.deadlines = s.deadlines.push (Mark.ofInstant? d.deadline) →
      Dates settings s turn

namespace Turn

variable {settings : Settings K V Q R} {s : Store K V} {turn : StoreTurn K V Q R}

/-- What has a deadline keeps it. -/
theorem Dates.getElem?_eq (hdates : turn.Dates settings s) {id : Nat}
    (hid : id < s.deadlines.size) : turn.state.deadlines[id]? = s.deadlines[id]? := by
  cases hdates with
  | keeps hdeadlines => rw [hdeadlines]
  | adds _ _ hdeadlines => rw [hdeadlines, Array.getElem?_push, if_neg (Nat.ne_of_lt hid)]

end Turn

variable [DecidableEq K]

theorem Store.deadlines_restore {s : Store K V} (c : Computation K V Q R)
    (resolution : Resolution V) (signal : Signal V) :
    (s.restore c resolution signal).state.deadlines = s.deadlines := by
  rw [restore, Turn.state_goTo, deadlines_resolve]
  split
  · split <;> rfl
  · rfl

variable [DecidableEq V]

/-- A visit moves none, and the holder that it writes gets one of its own. -/
theorem Operation.Finds.dates {settings : Settings K V Q R} {s : Store K V} {now : Instant}
    {retries : Nat} {operation : Operation K V Q R} {turn : StoreTurn K V Q R}
    (hfinds : operation.Finds settings s retries now turn) : turn.Dates settings s := by
  cases hfinds with
  | puts _ hd | overwrites _ hd | putsAbsent _ hd | putsStale _ hd | replaces _ hd
  | replacesEqual _ hd =>
    exact .adds hd (fun _ hevent => List.mem_append_left _ hevent) rfl
  | beginsStale _ _ _ hs => rcases hs with rfl | rfl <;> exact .keeps rfl
  | _ => exact .keeps rfl

/-- Only the section that refreshes a holder moves a deadline. -/
theorem Stage.dates {settings : Settings K V Q R} {s : Store K V} {now : Instant}
    {interrupted : Bool} {draws : List K} {stage : Stage K V Q R} {turn : StoreTurn K V Q R}
    (hturn : stage.turn settings s now interrupted draws = some turn)
    (hstage : ∀ h deadline thenEnforce, stage ≠ .refresh h deadline thenEnforce) :
    turn.Dates settings s := by
  cases Stage.sections hturn with
  | visits => exact (s.finds _).dates
  | @resumes operation retries _ resolution =>
    obtain ⟨a, heq, -⟩ := s.resume_eq operation retries resolution
    exact heq ▸ .keeps rfl
  | moves => exact absurd rfl (hstage _ _ _)
  | maps | unwinds => exact .keeps s.deadlines_asked
  -- The draft has a deadline even if copying its value panics.
  | composes hdraft | unwindsCopy hdraft =>
    exact .adds hdraft (fun _ hevent => List.mem_append_left _ hevent) rfl
  | installs | replaces | installsNothing | vacates | removes | vacatesNothing | restores |
      restoresEmpty | restoresNothing => exact .keeps (Store.deadlines_resolve ..)
  | _ => exact .keeps rfl

omit [DecidableEq V] in
/-- What a slot has come to stand for is in it, and is new or was about to be installed. -/
theorem Stage.Transfer.standing_cases {parked : Nat → Option Nat} {s s' : Store K V}
    {stage : Stage K V Q R} {next : Activity K V Q R} {key : K} {id : Nat}
    (htransfer : stage.Transfer parked s s' next) (hstanding : s'.standing parked key = some id) :
    s.standing parked key = some id ∨
      s'.Has key id ∧ (stage.made = some (key, id) ∨ s.Makes s' id) := by
  cases htransfer with
  | rests hsame => exact .inl (hsame key ▸ hstanding)
  | reports hmap => exact .inl (Store.standing_congr hmap key ▸ hstanding)
  | composes hmap => exact .inl (Store.standing_congr hmap key ▸ hstanding)
  | changes changed _ hothers _ _ _ _ hnew =>
    by_cases hkey : key = changed
    · subst hkey
      exact .inr (hnew id hstanding)
    · exact .inl (hothers key hkey ▸ hstanding)
  | @overtakes operation retries now changed _ _ _ _ _ _ hothers _ _ _ hnew =>
    by_cases hkey : key = changed
    · subst hkey
      exact .inr ⟨(hnew id hstanding).1, .inr (hnew id hstanding).2⟩
    · exact .inl (hothers key hkey ▸ hstanding)
  | sweeps hmap =>
    rw [Store.standing, hmap, EntryMap.get?_clearSegment] at hstanding
    split at hstanding
    · cases hstanding
    · exact .inl hstanding

omit [DecidableEq V] in
/-- What is going to be installed is new. -/
theorem Stage.Transfer.makes {parked : Nat → Option Nat} {s s' : Store K V}
    {stage : Stage K V Q R} {next : Activity K V Q R} {key : K} {id : Nat}
    (htransfer : stage.Transfer parked s s' next) (hmade : next.made = some (key, id)) :
    s.Makes s' id := by
  cases htransfer with
  | composes _ _ hnext hmakes =>
    obtain ⟨-, rfl⟩ := Prod.mk.inj (Option.some.inj (hnext.symm.trans hmade))
    exact hmakes
  | rests _ _ _ hnone => cases hnone.symm.trans hmade
  | reports _ _ hnone => cases hnone.symm.trans hmade
  | changes _ _ _ _ hnone => cases hnone.symm.trans hmade
  | overtakes _ _ _ _ _ hnone => cases hnone.symm.trans hmade
  | sweeps _ _ hnone => cases hnone.symm.trans hmade

/-! ## Passages -/

namespace Passage

variable {settings : Settings K V Q R} {p : Passage K V Q R}

/-- The passage refreshes the holder with this number. -/
def Refreshes (p : Passage K V Q R) (id : Nat) : Prop :=
  ∃ h deadline thenEnforce, p.stage? = some (.refresh h deadline thenEnforce) ∧ h.id = id

/-- The passage puts a holder into the slot of a key, and not as what a failed computation had taken
the place of. -/
def Writes (p : Passage K V Q R) (key : K) : Prop :=
  (∃ h, p.after.slot? key = some (.holder h)) ∧ p.after.slot? key ≠ p.before.slot? key ∧
    ∀ c resolution signal, p.stage? ≠ some (.restore c resolution signal)

/-- A deadline moves only when its holder is refreshed. -/
theorem Lawful.deadlines_eq (hp : p.Lawful settings) (hm : p.before.Reachable settings) {id : Nat}
    (hid : id < p.before.world.store.deadlines.size) (hspared : ¬ p.Refreshes id) :
    p.after.world.store.deadlines[id]? = p.before.world.store.deadlines[id]? := by
  cases hstage : p.stage? with
  | some stage =>
    obtain ⟨interrupted, draws, turn, hturn, hsection⟩ := hp.isSection hstage
    rw [hsection.store]
    by_cases hrefresh : ∃ h deadline thenEnforce, stage = .refresh h deadline thenEnforce
    · obtain ⟨h, deadline, thenEnforce, rfl⟩ := hrefresh
      obtain rfl := Option.some.inj hturn
      have hother : h.id ≠ id := fun hid => hspared ⟨h, deadline, thenEnforce, hstage, hid⟩
      cases deadline with
      | none => rfl
      | some deadline => exact Array.getElem?_setIfInBounds_ne hother
    · have hstage' : ∀ h deadline thenEnforce, stage ≠ .refresh h deadline thenEnforce :=
        fun h deadline thenEnforce heq => hrefresh ⟨h, deadline, thenEnforce, heq⟩
      exact (Stage.dates hturn hstage').getElem?_eq hid
  | none =>
    cases hp.course with
    | outside _ houtside => rw [houtside.store_eq]
    | @step i t s hmover ht hstride hafter =>
      have hapart : ∀ stage, t.activity ≠ .keep stage := by
        intro stage hactivity
        cases hstage.symm.trans (Passage.stage?_of_keep hmover ht hactivity)
      rw [hafter, (hstride.rests hapart (hm.isIdle i t ht)).deadlines]

/-- Every fault in a slot is one of the faults that were begun. -/
theorem Lawful.fault_lt (hp : p.Lawful settings) (hm : p.before.Reachable settings)
    (hbefore : ∀ key fault, p.before.slot? key = some (.fault fault) →
      fault < p.before.world.store.faults.size) {key : K} {fault : Nat}
    (hslot : p.after.slot? key = some (.fault fault)) :
    fault < p.after.world.store.faults.size := by
  have hafter : p.after.Reachable settings := Run.reachable_of_reachable hm (Run.rest.move hp)
  obtain ⟨front, old, new, back, -, hnew, hturnover⟩ := hp.turnover
  have hstays : p.before.slot? key = some (.fault fault) →
      fault < p.after.world.store.faults.size := fun hsame =>
    lt_of_lt_of_le (hbefore key fault hsame) hturnover.faultChange.size_le
  have hspared : p.Spares → fault < p.after.world.store.faults.size := by
    intro hspares
    rw [Machine.slot?, hspares.map] at hslot
    exact hstays hslot
  cases hturnover with
  | rests _ hspares => exact hspared hspares
  | calls _ _ hspares => exact hspared hspares
  | drops _ _ _ hspares => exact hspared hspares
  | moves _ _ _ hspares => exact hspared hspares
  | acts hsection hdeed =>
    rw [Machine.slot?, hsection.store] at hslot
    cases hdeed.handed hm.accounted.map.valid hslot with
    | @begun c hmem _ hfault =>
      have hgoing : .computes c .begun ∈ p.after.ongoing := by
        rw [hnew]
        exact List.mem_append_left _ (List.mem_append_right _ hmem)
      have hpending := hafter.owned.pending c.fault (mem_faultsOf hgoing)
      rw [← hfault]
      exact (Array.getElem?_eq_some_iff.mp hpending).1
    | kept hsame _ => exact hstays hsame

end Passage

theorem Machine.Reachable.fault_lt {settings : Settings K V Q R} {m : Machine K V Q R}
    (hm : m.Reachable settings) :
    ∀ key fault, m.slot? key = some (.fault fault) → fault < m.world.store.faults.size := by
  obtain ⟨start, trace, hstart, run⟩ := hm
  induction run with
  | rest =>
    intro key fault hslot
    rw [Machine.slot?, hstart.get?_eq_none] at hslot
    cases hslot
  | move run hp ih =>
    intro key fault hslot
    exact hp.fault_lt (run.reachable hstart) ih hslot

namespace Passage

variable {settings : Settings K V Q R} {p : Passage K V Q R} {key : K} {id : Nat}

/-- What a slot stands for before a passage, in terms of the whole passage. -/
theorem standing_before (hm : p.before.Reachable settings) (key : K) :
    p.before.world.store.standing p.parked key = p.before.standing key := by
  rw [Machine.standing, Store.standing, Store.standing]
  cases hslot : p.before.world.store.map.get? key with
  | none => rfl
  | some slot =>
    cases slot with
    | holder h => rfl
    | fault fault => exact if_pos (hm.fault_lt key fault hslot)

/-- What a slot stands for after a passage, it stands for in terms of the whole passage. -/
theorem Lawful.standing_after (hp : p.Lawful settings) (hm : p.before.Reachable settings)
    (hstanding : p.after.standing key = some id) :
    p.after.world.store.standing p.parked key = some id := by
  have hafter : p.after.Reachable settings := Run.reachable_of_reachable hm (Run.rest.move hp)
  rw [Machine.standing, Store.standing] at hstanding
  rw [Store.standing]
  cases hslot : p.after.world.store.map.get? key with
  | none =>
    rw [hslot] at hstanding
    cases hstanding
  | some slot =>
    rw [hslot] at hstanding
    cases slot with
    | holder h => exact hstanding
    | fault fault =>
      have hparked : p.after.parked fault = some id := hstanding
      obtain ⟨⟨c, progress⟩, howner, hprevious⟩ := Option.bind_eq_some_iff.mp hparked
      obtain ⟨hmem, rfl⟩ := Machine.mem_owners.mp (List.mem_of_mem_head? howner)
      exact (hp.parked_after hm hmem).trans hprevious

/-- In a section the holders are handed over, and elsewhere nothing becomes of them. -/
theorem Lawful.transfer_cases (hp : p.Lawful settings) (hm : p.before.Reachable settings) :
    (∃ stage next, p.stage? = some stage ∧ p.next? = some next ∧
      stage.Transfer p.parked p.before.world.store p.after.world.store next) ∨
    (p.after.world.store.map = p.before.world.store.map ∧
      p.after.world.store.deadlines = p.before.world.store.deadlines ∧
      ∀ t next, p.thread? = some t → p.next? = some next → next.made = t.activity.made) := by
  cases hp.course with
  | outside hmover houtside =>
    exact .inr ⟨by rw [houtside.store_eq], by rw [houtside.store_eq],
      by simp [thread?, hmover]⟩
  | @step i t s hmover ht hstride hafter =>
    have hsize := (Array.getElem?_eq_some_iff.mp ht).1
    by_cases hsection : ∃ stage, t.activity = .keep stage
    · obtain ⟨stage, hactivity⟩ := hsection
      obtain ⟨turn, draws, hturn, rfl⟩ := hstride.turn_of_keep hactivity
      refine .inl ⟨stage, turn.next, stage?_of_keep hmover ht hactivity, ?_, ?_⟩
      · simp [next?, hmover, hafter, hsize, Step.ofStore, Thread.goOn]
      · have htransfers := (hp.transfers hm ht hactivity hturn hafter).transfer
        rw [hafter]
        exact htransfers
    · have hapart : ∀ stage, t.activity ≠ .keep stage := fun stage hactivity =>
        hsection ⟨stage, hactivity⟩
      have hrests := hstride.rests hapart (hm.isIdle i t ht)
      refine .inr ⟨by rw [hafter, hrests.map], by rw [hafter, hrests.deadlines], ?_⟩
      intro t' next ht' hnext
      obtain rfl : t = t' := by simpa [thread?, hmover, ht] using ht'
      obtain rfl : s.thread.activity = next := by simpa [next?, hmover, hafter, hsize] using hnext
      exact hrests.made

/-- A slot comes to stand for a holder only if somebody writes the key. -/
theorem Lawful.standing_cases (hp : p.Lawful settings) (hm : p.before.Reachable settings)
    (hstanding : p.after.standing key = some id) :
    p.before.standing key = some id ∨ p.Writes key := by
  have hthis := hp.standing_after hm hstanding
  rw [← p.standing_before hm key]
  rcases hp.transfer_cases hm with ⟨stage, next, hstage, -, htransfer⟩ | ⟨hmap, -, -⟩
  · rcases htransfer.standing_cases hthis with hbefore | ⟨⟨h, hslot, rfl⟩, horigin⟩
    · exact .inl hbefore
    · by_cases hsame : p.after.slot? key = p.before.slot? key
      · left
        rw [Store.standing, ← Machine.slot?, ← hsame]
        exact hthis
      · refine .inr ⟨⟨h, hslot⟩, hsame, fun c resolution signal heq => ?_⟩
        obtain rfl := Option.some.inj (hstage.symm.trans heq)
        rcases horigin with hmade | hmakes
        · cases hmade
        · obtain ⟨interrupted, draws, turn, hturn, hsection⟩ := hp.isSection hstage
          obtain rfl := Option.some.inj hturn
          have hsize := hmakes.size
          rw [hsection.store, Store.deadlines_restore] at hsize
          exact absurd hsize (lt_irrefl _)
  · exact .inl (by rw [← Store.standing_congr hmap]; exact hthis)

end Passage

/-! ## Numbers -/

/-- What a slot stands for, and what a thread is about to install, was given a deadline. -/
structure Machine.Numbered (m : Machine K V Q R) : Prop where
  standing : ∀ key id, m.standing key = some id → id < m.world.store.deadlines.size
  made : ∀ (i : Nat) t, m.threads[i]? = some t → ∀ key id, t.activity.made = some (key, id) →
    id < m.world.store.deadlines.size

section Numbered

variable {settings : Settings K V Q R} {m : Machine K V Q R} {p : Passage K V Q R}

theorem Passage.Lawful.deadlines_size_le (hp : p.Lawful settings)
    (hm : p.before.Reachable settings) :
    p.before.world.store.deadlines.size ≤ p.after.world.store.deadlines.size := by
  rcases hp.transfer_cases hm with ⟨stage, next, -, -, htransfer⟩ | ⟨-, hdeadlines, -⟩
  · exact htransfer.size_le
  · rw [hdeadlines]

theorem Passage.Lawful.numbered (hp : p.Lawful settings) (hm : p.before.Reachable settings)
    (hbefore : p.before.Numbered) : p.after.Numbered := by
  have hsize := hp.deadlines_size_le hm
  have hmakes : ∀ {id}, p.before.world.store.Makes p.after.world.store id →
      id < p.after.world.store.deadlines.size := fun hmakes => by
    rw [hmakes.id]
    exact hmakes.size
  constructor
  · intro key id hstanding
    have hthis := hp.standing_after hm hstanding
    have hold : p.before.world.store.standing p.parked key = some id →
        id < p.after.world.store.deadlines.size := fun hstood => by
      rw [p.standing_before hm] at hstood
      exact lt_of_lt_of_le (hbefore.standing key id hstood) hsize
    rcases hp.transfer_cases hm with ⟨stage, next, hstage, -, htransfer⟩ | ⟨hmap, -, -⟩
    · rcases htransfer.standing_cases hthis with hstood | ⟨-, hmade | hnew⟩
      · exact hold hstood
      · obtain ⟨i, t, -, ht, hactivity⟩ := Passage.keep_of_stage? hstage
        refine lt_of_lt_of_le (hbefore.made i t ht key id ?_) hsize
        rw [hactivity]
        exact hmade
      · exact hmakes hnew
    · exact hold (Store.standing_congr hmap key ▸ hthis)
  · intro i t ht key id hmade
    rcases hp.thread_cases ht with
      ⟨-, hsame⟩ | ⟨script, rfl⟩ | ⟨hmover, t', step, ht', hstride, hafter, rfl⟩
    · exact lt_of_lt_of_le (hbefore.made i t hsame key id hmade) hsize
    · cases hmade
    · have hthread : p.thread? = some t' := by simp [Passage.thread?, hmover, ht']
      have hnext : p.next? = some step.thread.activity := by simp [Passage.next?, hmover, ht]
      rcases hp.transfer_cases hm with ⟨stage, next, -, hnext', htransfer⟩ | ⟨-, -, hkept⟩
      · obtain rfl := Option.some.inj (hnext.symm.trans hnext')
        exact hmakes (htransfer.makes hmade)
      · rw [hkept t' _ hthread hnext] at hmade
        exact lt_of_lt_of_le (hbefore.made i t' ht' key id hmade) hsize

theorem Machine.Reachable.numbered (hm : m.Reachable settings) : m.Numbered := by
  obtain ⟨start, trace, hstart, run⟩ := hm
  induction run with
  | rest =>
    constructor
    · intro key id hstanding
      rw [Machine.standing, Store.standing_of_absent (hstart.get?_eq_none key)] at hstanding
      cases hstanding
    · simp [hstart.threads]
  | move run hp ih => exact hp.numbered (run.reachable hstart) ih

/-- A holder in a slot was given a deadline. -/
theorem Machine.Reachable.id_lt (hm : m.Reachable settings) {key : K} {h : Holder V}
    (hslot : m.slot? key = some (.holder h)) : h.id < m.world.store.deadlines.size :=
  hm.numbered.standing key h.id (Store.standing_of_holder hslot)

end Numbered

/-! ## Runs -/

section Run

variable {settings : Settings K V Q R} {start m : Machine K V Q R}
  {trace : List (Passage K V Q R)} {id : Nat}

theorem Run.deadlines_size_le (hstart : start.Reachable settings)
    (run : Run settings start trace m) :
    start.world.store.deadlines.size ≤ m.world.store.deadlines.size := by
  induction run with
  | rest => exact Nat.le_refl _
  | move run hp ih =>
    exact Nat.le_trans ih (hp.deadlines_size_le (run.reachable_of_reachable hstart))

/-- A deadline is what it was as long as nobody refreshes its holder. -/
theorem Run.deadlines_eq (hstart : start.Reachable settings) (run : Run settings start trace m)
    (hid : id < start.world.store.deadlines.size) (hspared : ∀ p ∈ trace, ¬ p.Refreshes id) :
    m.world.store.deadlines[id]? = start.world.store.deadlines[id]? := by
  induction run with
  | rest => rfl
  | @move trace p run hp ih =>
    have hsize := lt_of_lt_of_le hid (run.deadlines_size_le hstart)
    calc p.after.world.store.deadlines[id]?
        = p.before.world.store.deadlines[id]? :=
          hp.deadlines_eq (run.reachable_of_reachable hstart) hsize (hspared p (by simp))
      _ = start.world.store.deadlines[id]? :=
          ih fun q hq => hspared q (List.mem_append_left _ hq)

/-- As long as nobody writes a key, its slot stands for nothing else than before. -/
theorem Run.standing_eq (hstart : start.Reachable settings) (run : Run settings start trace m)
    {key : K} (hspared : ∀ p ∈ trace, ¬ p.Writes key) (hstanding : m.standing key = some id) :
    start.standing key = some id := by
  induction run with
  | rest => exact hstanding
  | @move trace p run hp ih =>
    rcases hp.standing_cases (run.reachable_of_reachable hstart) hstanding with hbefore | hwrites
    · exact ih (fun q hq => hspared q (List.mem_append_left _ hq)) hbefore
    · exact absurd hwrites (hspared p (by simp))

end Run

end SharedCache
