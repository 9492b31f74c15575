import SharedCache.Proofs.Accounting
import SharedCache.Proofs.Acts
import SharedCache.Proofs.Deferral
import SharedCache.Proofs.Footsteps
import SharedCache.Proofs.Promises

/-!
# Slots during reports

What is in the slot of a key when the listener is told about it.  An operation that writes or
removes leaves no fault in the slot, and one that ends a computation has taken its fault out before.
There is one exception.  An operation that finds an expired value and computes a new one puts its
fault into the slot first, puts the computation off, and reports the expiration in between; a
listener that then asks for the same key would wait for its own thread.

A computation is never put off for anything but that report, so whether the slot is blocked can be
told from the last step of the thread.
-/

namespace SharedCache

variable {K V Q R : Type}

/-! ## The operation that a thread is in -/

/-- Whether a script waits in the frame for the operation that it has called. -/
def Frame.isCalling : Frame K V Q R → Bool
  | .calling _ => true
  | _ => false

/-- The frames of the operation that is on top of a stack, down to the script that has called
it. -/
def callFrames (stack : List (Frame K V Q R)) : List (Frame K V Q R) :=
  stack.takeWhile fun frame => !frame.isCalling

/-- The faults of the computations that the operation a thread is in has begun and not ended. -/
def Thread.installed (t : Thread K V Q R) : List Nat :=
  faultsOf (t.activity.ongoing ++ stackOngoing (callFrames t.stack))

/-- The scope of an interrupter has nothing inside but code. -/
def Activity.IsFlat : Activity K V Q R → Prop
  | .enter _ inside => inside.IsPlain
  | _ => True

/-- What may go on directly above a computation that is put off: the report of the expiration of
its key, or the end of that report. -/
def Activity.Heralds (c : Computation K V Q R) : Activity K V Q R → Prop
  | .keep (.report key _ cause) => key = c.key ∧ cause = .expired
  | .settle _ => True
  | _ => False

/-- Below an operation in progress there are only activities that it has put off, down to the script
that has called it, and a computation is put off only below what heralds it.  `kept` tells whether
the operation in progress is on top of all frames, and `herald` which computations are heralded
there. -/
def Parted (kept : Prop) (herald : Computation K V Q R → Prop) : List (Frame K V Q R) → Prop
  | [] => ¬ kept
  | frame :: rest =>
    (kept → frame.isCalling = true ∨ ∃ a, frame = .next a) ∧
      (∀ a, frame = .next a → a.IsFlat) ∧
      (∀ c progress, .computes c progress ∈ frame.deferred → herald c) ∧
      Parted (¬ frame.IsPlain ∨ kept ∧ frame.isCalling = false) (fun _ => frame = .listening) rest

/-- The operations that a thread is in are parted from each other by the scripts that have called
them. -/
structure Thread.IsParted (t : Thread K V Q R) : Prop where
  flat : t.activity.IsFlat
  stack : Parted (¬ t.activity.IsPlain) (fun c => t.activity.Heralds c) t.stack

theorem Activity.IsPlain.isFlat {a : Activity K V Q R} (ha : a.IsPlain) : a.IsFlat := by
  cases a with
  | enter _ inside => exact ha
  | _ => trivial

theorem Activity.IsFresh.isFlat {a : Activity K V Q R} (ha : a.IsFresh) : a.IsFlat := by
  cases a with
  | enter => exact ha.elim
  | _ => trivial

theorem Frame.IsFresh.isFlat {a : Activity K V Q R} (hframe : (Frame.next a).IsFresh) :
    a.IsFlat := by
  rcases hframe with hfresh | ⟨h, rfl⟩
  · exact hfresh.isFlat
  · trivial

namespace Parted

variable {kept kept' : Prop} {herald herald' : Computation K V Q R → Prop}
  {frames stack rest : List (Frame K V Q R)} {frame : Frame K V Q R} {a : Activity K V Q R}

theorem mono (hkept : kept' → kept) (hherald : ∀ c, herald c → herald' c)
    (hstack : Parted kept herald stack) : Parted kept' herald' stack := by
  induction stack generalizing kept kept' herald herald' with
  | nil => exact mt hkept hstack
  | cons frame rest ih =>
    obtain ⟨hfits, hflat, hcomputes, hrest⟩ := hstack
    refine ⟨fun h => hfits (hkept h), hflat, fun c progress hmem => ?_, ?_⟩
    · exact hherald c (hcomputes c progress hmem)
    · exact ih (Or.imp_right (And.imp_left hkept)) (fun _ h => h) hrest

/-- Plain frames part whatever is above them from what is below. -/
theorem append_plain (hframes : ∀ frame ∈ frames, frame.IsPlain)
    (hrest : Parted False (fun _ => False) rest) : Parted False herald (frames ++ rest) := by
  induction frames generalizing herald with
  | nil => exact hrest.mono id fun _ => False.elim
  | cons frame frames ih =>
    have hplain := hframes frame List.mem_cons_self
    have htail : Parted False (fun _ => frame = .listening) (frames ++ rest) :=
      ih fun other hother => hframes other (List.mem_cons_of_mem _ hother)
    refine ⟨False.elim, ?_, ?_, htail.mono ?_ fun _ h => h⟩
    · rintro a rfl
      exact Activity.IsPlain.isFlat hplain
    · intro c progress hmem
      have hnone := frame.deferred_subset hmem
      rw [hplain.ongoing_eq] at hnone
      cases hnone
    · rintro (hnot | ⟨hnever, -⟩)
      · exact hnot hplain
      · exact hnever

/-- Activities that are no computations may be put off by an operation. -/
theorem append_later {later : List (Activity K V Q R)}
    (hlater : ∀ a ∈ later, (Frame.next a).IsFresh ∧ a.ongoing = [])
    (hrest : Parted True (fun _ => False) rest) :
    Parted kept herald (later.map .next ++ rest) := by
  induction later generalizing kept herald with
  | nil => exact hrest.mono (fun _ => trivial) fun _ => False.elim
  | cons a later ih =>
    obtain ⟨hfresh, hnone⟩ := hlater a List.mem_cons_self
    refine ⟨fun _ => .inr ⟨a, rfl⟩, ?_, ?_, ih fun b hb => hlater b (List.mem_cons_of_mem _ hb)⟩
    · rintro _ ⟨⟩
      exact hfresh.isFlat
    · intro c progress hmem
      rw [Frame.deferred, hnone] at hmem
      cases hmem

/-- The only computation of the operation in progress is what it has put off last. -/
theorem of_installed {fault : Nat} (hstack : Parted True herald stack)
    (hfault : fault ∈ faultsOf (stackOngoing (callFrames stack))) :
    ∃ a rest c progress, stack = .next a :: rest ∧ .computes c progress ∈ a.ongoing ∧
      c.fault = fault ∧ herald c := by
  induction stack generalizing herald with
  | nil => exact absurd trivial hstack
  | cons frame rest ih =>
    obtain ⟨hfits, -, hcomputes, hrest⟩ := hstack
    rcases hfits trivial with hcalling | ⟨a, rfl⟩
    · simp [callFrames, hcalling] at hfault
    · have hframes : callFrames (.next a :: rest) = .next a :: callFrames rest := rfl
      rw [hframes, stackOngoing_cons, faultsOf_append, List.mem_append] at hfault
      rcases hfault with hfirst | hlater
      · obtain ⟨c, progress, hmem, hof⟩ := exists_of_mem_faultsOf hfirst
        exact ⟨a, rest, c, progress, rfl, hmem, hof, hcomputes c progress hmem⟩
      · have htail : Parted True (fun _ => False) rest :=
          hrest.mono (fun _ => .inr ⟨trivial, rfl⟩) fun c hnever => nomatch hnever
        obtain ⟨-, -, -, -, -, -, -, hnever⟩ := ih htail hlater
        exact hnever.elim

end Parted

/-! ## Sections -/

section Section

variable [DecidableEq K] [DecidableEq V] {settings : Settings K V Q R} {s : Store K V}
  {stage : Stage K V Q R} {turn : StoreTurn K V Q R} {now : Instant} {interrupted : Bool}
  {draws : List K}

/-- In the section an operation that computes values finds an expired one.  It puts the fault of
its computation into the slot and reports the expiration before the computation goes on. -/
structure Stage.Displaces (s : Store K V) (c : Computation K V Q R) (stage : Stage K V Q R)
    (turn : StoreTurn K V Q R) : Prop where
  visits : ∃ operation retries now h, stage = .visit operation retries now ∧
    operation.key? = some c.key ∧ operation.computes none = true ∧
    s.look c.key now = .stale h ∧ turn.next = .keep (.report c.key h .expired)
  frames : turn.frames = [.next (.keep (.own c))]
  map : ∃ m, (m = s.map ∨ m = s.map.erase c.key) ∧
    turn.state.map = m.insert c.key (.fault c.fault)

/-- A section puts off a computation only where it has found an expired value. -/
theorem Stage.Deed.putsOff (hdeed : stage.Deed settings s turn) :
    stackDeferred turn.frames = [] ∨ ∃ c, stage.Displaces s c turn := by
  cases hdeed with
  | @visits operation retries now _ hvisit =>
    cases hvisit with
    | keeps _ _ hstill => exact .inl (Turn.deferred_eq_nil hstill.ongoing)
    | waits _ _ _ _ hnone => exact .inl (by simp [hnone])
    | writes _ _ _ _ _ _ _ hnone => exact .inl (Turn.deferred_eq_nil hnone)
    | removes _ _ _ _ hnone => exact .inl (Turn.deferred_eq_nil hnone)
    | @begins c m hkey hcomputes _ _ hm hmap _ _ hthread =>
      rcases hthread with ⟨-, hnone⟩ | ⟨⟨h, hstale, hnext⟩, hone⟩
      · exact .inl (by simp [hnone])
      · rw [hstale] at hcomputes
        exact .inr ⟨c, ⟨operation, retries, now, h, rfl, hkey, hcomputes, hstale, hnext⟩, hone, m,
          hm.imp_right And.right, hmap⟩
  | keeps _ hstill => exact .inl (Turn.deferred_eq_nil hstill.ongoing)
  | looks _ hnone => exact .inl (by simp [hnone])
  | resumes _ _ _ hnone => exact .inl (by simp [hnone])
  | shares _ _ hstill => exact .inl (Turn.deferred_eq_nil hstill.ongoing)
  | givesUp _ _ hstill => exact .inl (Turn.deferred_eq_nil hstill.ongoing)
  | expels _ _ _ _ hnone => exact .inl (Turn.deferred_eq_nil hnone)
  | sweeps _ _ hnone => exact .inl (Turn.deferred_eq_nil hnone)
  | calls _ _ hone => exact .inl (by simp [hone, Frame.deferred])
  | unwinds _ _ _ hnone => exact .inl (by simp [hnone])
  | composes _ _ _ _ hnone => exact .inl (by simp [hnone])
  | ends _ _ _ hnone => exact .inl (Turn.deferred_eq_nil hnone)

/-- A turn keeps the operations of its thread parted, whatever waits below. -/
theorem Stage.parted {rest : List (Frame K V Q R)}
    (hturn : stage.turn settings s now interrupted draws = some turn)
    (hrest : Parted True (fun c => (Activity.keep stage).Heralds c) rest) :
    Parted (¬ turn.next.IsPlain) (fun c => turn.next.Heralds c) (turn.frames ++ rest) := by
  by_cases hreport : ∃ key h cause, stage = .report key h cause
  · obtain ⟨key, h, cause, rfl⟩ := hreport
    obtain rfl := Option.some.inj hturn
    rcases s.report_cases settings key h cause with
      ⟨⟨signal, hnext, -⟩, hframes⟩ | ⟨⟨script, hnext⟩, hframes⟩
    · rw [hnext, hframes]
      exact hrest.mono (fun _ => trivial) fun _ _ => trivial
    · rw [hnext, hframes]
      refine ⟨fun hnot => absurd trivial hnot, by simp, by simp [Frame.deferred], ?_⟩
      exact hrest.mono (fun _ => trivial) fun _ _ => rfl
  · -- Nothing else heralds a computation, so nothing is known about what waits on top of the rest.
    have hbase : Parted True (fun _ => False) rest := by
      refine hrest.mono id fun c hherald => ?_
      cases stage with
      | report key h cause => exact hreport ⟨key, h, cause, rfl⟩
      | _ => exact hherald
    obtain ⟨-, hfresh, -, -, called, later, hframes, hcalled⟩ := Stage.follows hturn
    rcases (Stage.deed hturn).putsOff with hnone | ⟨c, hdisplaces⟩
    · have hlater : ∀ a ∈ later, (Frame.next a).IsFresh ∧ a.ongoing = [] := by
        intro a ha
        have hmem : Frame.next a ∈ turn.frames := by
          rw [hframes]
          exact List.mem_append_right _ (List.mem_map_of_mem ha)
        exact ⟨hfresh _ hmem, List.flatMap_eq_nil_iff.mp hnone _ hmem⟩
      rw [hframes]
      cases called with
      | none => exact Parted.append_later hlater hbase
      | some frame =>
        have hmem : frame ∈ turn.frames := by simp [hframes]
        have hquiet : frame.deferred = [] := List.flatMap_eq_nil_iff.mp hnone _ hmem
        refine ⟨fun hnot => absurd (hcalled rfl) hnot, ?_, by simp [hquiet],
          Parted.append_later hlater hbase⟩
        rintro a rfl
        exact Frame.IsFresh.isFlat (hfresh _ hmem)
    · obtain ⟨_, _, _, h, _, _, _, _, hnext⟩ := hdisplaces.visits
      rw [hdisplaces.frames, hnext]
      refine ⟨fun _ => .inr ⟨_, rfl⟩, ?_, ?_, hbase.mono (fun _ => trivial) fun _ => False.elim⟩
      · rintro _ ⟨⟩
        trivial
      · intro c' progress hmem
        obtain ⟨rfl, -⟩ := Ongoing.computes.inj (List.mem_singleton.mp hmem)
        exact ⟨rfl, rfl⟩

/-- A computation that is on top of what waits after a section was there before, or the section has
put it off. -/
theorem Stage.Deed.top_cases {base rest : List (Frame K V Q R)} {a : Activity K V Q R}
    {c : Computation K V Q R} {progress : Progress V} (hdeed : stage.Deed settings s turn)
    (htop : turn.frames ++ base = .next a :: rest) (hmem : .computes c progress ∈ a.ongoing) :
    base = .next a :: rest ∨ stage.Displaces s c turn := by
  rcases hdeed.putsOff with hnone | ⟨c', hdisplaces⟩
  · cases hframes : turn.frames with
    | nil =>
      rw [hframes, List.nil_append] at htop
      exact .inl htop
    | cons first others =>
      rw [hframes, List.cons_append] at htop
      obtain ⟨rfl, -⟩ := List.cons.inj htop
      rw [hframes, stackDeferred_cons, List.append_eq_nil_iff] at hnone
      have hnever : Ongoing.computes c progress ∈ ([] : List (Ongoing K V Q R)) :=
        hnone.1 ▸ hmem
      cases hnever
  · rw [hdisplaces.frames, List.singleton_append] at htop
    obtain ⟨hfirst, -⟩ := List.cons.inj htop
    obtain rfl : Activity.keep (.own c') = a := Frame.next.inj hfirst
    obtain ⟨rfl, -⟩ := Ongoing.computes.inj (List.mem_singleton.mp hmem)
    exact .inr hdisplaces

/-- A section that leads to a report above a computation has put that computation off. -/
theorem Stage.displaces {base rest : List (Frame K V Q R)} {kept : Prop} {key : K} {h : Holder V}
    {cause : RemovalCause} {a : Activity K V Q R} {c : Computation K V Q R} {progress : Progress V}
    (hturn : stage.turn settings s now interrupted draws = some turn)
    (hbase : Parted kept (fun c => (Activity.keep stage).Heralds c) base)
    (hnext : turn.next = .keep (.report key h cause)) (htop : turn.frames ++ base = .next a :: rest)
    (hmem : .computes c progress ∈ a.ongoing) : stage.Displaces s c turn := by
  rcases (Stage.deed hturn).top_cases htop hmem with hbefore | hdisplaces
  · -- The computation was put off before, and its herald leads to no other report.
    rw [hbefore] at hbase
    have hherald := hbase.2.2.1 c progress hmem
    cases stage with
    | report other h' cause' =>
      obtain rfl := Option.some.inj hturn
      rcases s.report_cases settings other h' cause' with
        ⟨⟨signal, hend, -⟩, -⟩ | ⟨⟨script, hend⟩, -⟩
      · cases hend.symm.trans hnext
      · cases hend.symm.trans hnext
    | _ => exact hherald.elim
  · exact hdisplaces

/-- An operation that computes a value where there is none displaces an expired one. -/
theorem Store.displaces_of_visit (settings : Settings K V Q R) (retries : Nat)
    {operation : Operation K V Q R} {key : K} {h : Holder V} (hkey : operation.key? = some key)
    (hcomputes : operation.computes none = true) (hstale : s.look key now = .stale h) :
    ∃ c, c.key = key ∧ (Stage.visit operation retries now).Displaces s c
      (s.visit settings retries now operation) := by
  have hturn : ∃ c m, c.key = key ∧ (m = s.map ∨ m = s.map.erase c.key) ∧
      (s.visit settings retries now operation).next = .keep (.report c.key h .expired) ∧
      (s.visit settings retries now operation).frames = [.next (.keep (.own c))] ∧
      (s.visit settings retries now operation).state.map = m.insert c.key (.fault c.fault) := by
    cases operation with
    | computeIfAbsent other mapping =>
      obtain rfl := Option.some.inj hkey
      have hvisit : s.visit settings retries now (.computeIfAbsent other mapping) =
          s.visitComputeIfAbsent other mapping retries now := rfl
      rw [hvisit, visitComputeIfAbsent, hstale]
      exact ⟨⟨other, s.faults.size, none, true, fun key _ => mapping key⟩, s.map, rfl, .inl rfl,
        rfl, rfl, rfl⟩
    | compute other remapping =>
      obtain rfl := Option.some.inj hkey
      have hvisit : s.visit settings retries now (.compute other remapping) =
          s.visitCompute other remapping retries now := rfl
      rw [hvisit, visitCompute, hstale]
      exact ⟨⟨other, s.faults.size, none, false, remapping⟩, s.map.erase other, rfl, .inr rfl,
        rfl, rfl, rfl⟩
    | _ => cases hcomputes
  obtain ⟨c, m, rfl, hm, hnext, hframes, hmap⟩ := hturn
  exact ⟨c, rfl, ⟨operation, retries, now, h, rfl, hkey, hcomputes, hstale, hnext⟩, hframes, m, hm,
    hmap⟩

omit [DecidableEq V] in
theorem Stage.Displaces.slot {c : Computation K V Q R} (hdisplaces : stage.Displaces s c turn)
    (hvalid : s.map.Valid) :
    turn.state.map.get? c.key = some (.fault c.fault) := by
  obtain ⟨m, hm, hmap⟩ := hdisplaces.map
  have hvalid' : m.Valid := by
    rcases hm with rfl | rfl
    · exact hvalid
    · exact hvalid.erase c.key
  rw [hmap, hvalid'.get?_insert, if_pos rfl]

/-! ## Steps -/

variable {w : World K V Q R} {t : Thread K V Q R} {step : Step K V Q R}

/-- No step mixes the operations of a thread up. -/
theorem Thread.Stride.isParted (hstride : t.Stride settings w step) (ht : t.IsParted) :
    step.thread.IsParted := by
  obtain ⟨hflat, hstack⟩ := ht
  -- What is below the top frame, where the frame is taken off.
  have hbelow : ∀ {frame rest}, t.stack = frame :: rest →
      Parted (¬ frame.IsPlain) (fun _ => frame = .listening) rest := by
    intro frame rest htop
    rw [htop] at hstack
    exact hstack.2.2.2.mono .inl fun _ => id
  cases hstride with
  | works hplain hsettled _ _ ha hframes =>
    refine ⟨ha.isFlat, (Parted.append_plain hframes ?_).mono (fun hnot => hnot ha) fun _ => id⟩
    refine hstack.mono False.elim fun c hherald => ?_
    cases hcase : t.activity with
    | settle signal => exact hsettled signal hcase
    | keep stage => simp [hcase, Activity.IsPlain] at hplain
    | _ => simp [hcase, Activity.Heralds] at hherald
  | calls hactivity =>
    rw [hactivity] at hstack
    refine ⟨trivial, fun _ => .inl rfl, by simp, by simp [Frame.deferred], ?_⟩
    refine hstack.mono ?_ fun _ => False.elim
    rintro (hnot | ⟨-, hno⟩)
    · exact absurd trivial hnot
    · cases hno
  | @enters i inside hactivity =>
    rw [hactivity] at hstack hflat
    refine ⟨hflat.isFlat, fun hnot => absurd hflat hnot, by simp, by simp [Frame.deferred], ?_⟩
    refine hstack.mono ?_ fun _ => False.elim
    rintro (hnot | ⟨hnot, -⟩)
    · exact absurd trivial hnot
    · exact absurd hflat hnot
  | returns _ htop hplain _ _ ha =>
    refine ⟨ha.isFlat, (hbelow htop).mono (fun hnot => absurd ha hnot) ?_⟩
    rintro c rfl
    exact hplain.elim
  | @proceeds answer a rest _ htop =>
    refine ⟨?_, (hbelow htop).mono id (by simp)⟩
    rw [htop] at hstack
    exact hstack.2.1 a rfl
  | unwinds _ htop =>
    exact ⟨trivial, (hbelow htop).mono (fun hnot => absurd trivial hnot) (by simp)⟩
  | @mapped signal c rest _ htop =>
    obtain ⟨-, hframes, stage, hnext, -⟩ := w.store.mapped_spec c signal
    have hthread : (Step.ofStore w t.popped (w.store.mapped c signal)).thread =
        ⟨.keep stage, rest, t.binding⟩ := by
      simp [Step.ofStore, Thread.goOn, Thread.popped, hnext, hframes, htop]
    rw [hthread]
    exact ⟨trivial, (hbelow htop).mono (fun _ => id) (by simp)⟩
  | @listened signal rest _ htop =>
    have hthread : (Step.ofStore w t.popped (w.store.listened signal)).thread =
        ⟨.settle (.done .unit), rest, t.binding⟩ := by
      cases signal <;> simp [Step.ofStore, Thread.goOn, Thread.popped, htop, Store.listened]
    rw [hthread]
    exact ⟨trivial, (hbelow htop).mono (fun _ => id) fun _ _ => trivial⟩
  | @keeps stage draws turn hactivity hturn =>
    rw [hactivity] at hstack
    refine ⟨?_, Stage.parted hturn (hstack.mono (fun _ => id) fun _ => id)⟩
    rcases (Stage.follows hturn).next with hfresh | hleads
    · exact hfresh.isFlat
    · obtain ⟨next, hkeep⟩ := hleads.isKeep
      change turn.next.IsFlat
      rw [hkeep]
      trivial

/-- A thread gets to a report above a computation only by putting that computation off. -/
theorem Thread.Stride.displaces (hstride : t.Stride settings w step) (ht : t.IsParted) {key : K}
    {h : Holder V} {cause : RemovalCause} {a : Activity K V Q R} {rest : List (Frame K V Q R)}
    {c : Computation K V Q R} {progress : Progress V}
    (hnext : step.thread.activity = .keep (.report key h cause))
    (htop : step.thread.stack = .next a :: rest) (hmem : .computes c progress ∈ a.ongoing) :
    ∃ stage turn, t.activity = .keep stage ∧ step = .ofStore w t turn ∧
      stage.Displaces w.store c turn := by
  cases hstride with
  | works _ _ _ _ ha => exact absurd hnext (ha.ne_keep _)
  | calls => cases hnext
  | enters hactivity =>
    have hflat := ht.flat
    rw [hactivity] at hflat
    exact absurd hnext (Activity.IsPlain.ne_keep hflat _)
  | returns _ _ _ _ _ ha => exact absurd hnext (ha.ne_keep _)
  | @proceeds answer b below _ hstack =>
    -- The computation would be directly below an activity that was put off itself.
    have hparted := ht.stack
    rw [hstack] at hparted
    have hbelow := hparted.2.2.2
    obtain rfl : below = .next a :: rest := htop
    cases hbelow.2.2.1 c progress hmem
  | unwinds => cases hnext
  | @mapped signal c' =>
    obtain ⟨-, -, stage, hstage, hongoing⟩ := w.store.mapped_spec c' signal
    obtain rfl := Activity.keep.inj (hstage.symm.trans hnext)
    cases hongoing
  | @listened signal => cases signal <;> cases hnext
  | @keeps stage draws turn hactivity hturn =>
    have hstack := ht.stack
    rw [hactivity] at hstack
    exact ⟨stage, turn, hactivity, rfl, Stage.displaces hturn hstack hnext htop hmem⟩

/-- A section leaves no fault in a slot but a new one, unless it was there before. -/
theorem Stage.Deed.slot_of_fault (hdeed : stage.Deed settings s turn) (hvalid : s.map.Valid)
    {key : K} {fault : Nat} (hslot : turn.state.map.get? key = some (.fault fault)) :
    s.map.get? key = some (.fault fault) ∨ fault = s.faults.size := by
  have hsame : turn.state.map = s.map →
      s.map.get? key = some (.fault fault) ∨ fault = s.faults.size := fun hmap =>
    .inl (hmap ▸ hslot)
  have herased : ∀ {other}, turn.state.map = s.map.erase other →
      s.map.get? key = some (.fault fault) ∨ fault = s.faults.size := by
    intro other hmap
    rw [hmap, hvalid.get?_erase] at hslot
    split at hslot
    · cases hslot
    · exact .inl hslot
  cases hdeed with
  | visits hvisit =>
    cases hvisit with
    | keeps _ _ hstill => exact hsame hstill.map
    | waits _ _ hspares => exact hsame hspares.map
    | writes _ _ _ _ _ hmap =>
      rw [hmap, hvalid.get?_insert] at hslot
      split at hslot
      · cases hslot
      · exact .inl hslot
    | removes _ _ hmap => exact herased hmap
    | @begins c m _ _ _ hc hm hmap =>
      have hvalid' : m.Valid := by
        rcases hm with rfl | ⟨-, rfl⟩
        · exact hvalid
        · exact hvalid.erase c.key
      rw [hmap, hvalid'.get?_insert] at hslot
      split at hslot
      · rw [← Slot.fault.inj (Option.some.inj hslot), hc]
        exact .inr rfl
      · rename_i hkey
        rcases hm with rfl | ⟨-, rfl⟩
        · exact .inl hslot
        · rw [hvalid.get?_erase, if_neg hkey] at hslot
          exact .inl hslot
  | keeps _ hstill => exact hsame hstill.map
  | looks _ _ hspares => exact hsame hspares.map
  | resumes _ _ _ _ hspares => exact hsame hspares.map
  | shares _ _ hstill => exact hsame hstill.map
  | givesUp _ _ hstill => exact hsame hstill.map
  | expels _ _ hmap => exact herased hmap
  | sweeps hmap =>
    rw [hmap, EntryMap.get?_clearSegment] at hslot
    split at hslot
    · cases hslot
    · exact .inl hslot
  | calls _ _ _ _ hspares => exact hsame hspares.map
  | unwinds _ _ _ _ hspares => exact hsame hspares.map
  | composes _ _ _ _ _ hspares => exact hsame hspares.map
  | @ends _ c left _ _ _ _ hmap =>
    rw [hmap] at hslot
    split at hslot
    · rw [hvalid.get?_leave] at hslot
      split at hslot
      · cases left <;> cases hslot
      · exact .inl hslot
    · exact .inl hslot

end Section

/-! ## Runs -/

/-- The slot of the key holds a fault that the operation of the moving thread has put there. -/
def Passage.Blocks [DecidableEq K] (p : Passage K V Q R) (key : K) : Prop :=
  ∃ t fault, p.thread? = some t ∧ fault ∈ t.installed ∧ p.before.slot? key = some (.fault fault)

/-- In the passage an operation that computes a value where there is none finds an expired one. -/
def Passage.FindsExpired [DecidableEq K] (p : Passage K V Q R) (key : K) : Prop :=
  ∃ operation retries now h, p.stage? = some (.visit operation retries now) ∧
    operation.key? = some key ∧ operation.computes none = true ∧
    p.before.world.store.look key now = .stale h

/-- What is in the slot of a key whenever the listener is called about the key. -/
structure BlocksOnlyExpired [DecidableEq K] (trace : List (Passage K V Q R)) : Prop where
  /-- The slot is blocked just when the thread has found the value expired in its last step and
  nobody has written the slot since. -/
  blocks_iff : ∀ {front back : List (Passage K V Q R)} {p : Passage K V Q R} {i : Nat} {key : K}
    {value : V} {cause : RemovalCause}, trace = front ++ p :: back → p.mover = some i →
    .listened key value cause ∈ p.events →
      (p.Blocks key ↔ ∃ before q since, IsLastStep front i before q since ∧ q.FindsExpired key ∧
        ∀ r ∈ since, r.after.slot? key = r.before.slot? key)
  /-- No other removal is told about while the slot is blocked. -/
  expired : ∀ {front back : List (Passage K V Q R)} {p : Passage K V Q R} {key : K} {value : V}
    {cause : RemovalCause}, trace = front ++ p :: back → .listened key value cause ∈ p.events →
      p.Blocks key → cause = .expired
  /-- A slot that is not blocked is never blocked by the same computations later on. -/
  free : ∀ {front back : List (Passage K V Q R)} {p : Passage K V Q R} {key : K} {value : V}
    {cause : RemovalCause}, trace = front ++ p :: back → .listened key value cause ∈ p.events →
      ¬ p.Blocks key → ∀ t, p.thread? = some t → ∀ fault ∈ t.installed, ∀ r ∈ p :: back,
        r.after.slot? key ≠ some (.fault fault)

theorem Thread.installed_subset (t : Thread K V Q R) : t.installed ⊆ faultsOf t.ongoing := by
  intro fault hfault
  rw [installed, faultsOf_append, List.mem_append] at hfault
  rw [ongoing, faultsOf_append, List.mem_append]
  refine hfault.imp_right fun hbelow => ?_
  obtain ⟨o, ho, hof⟩ := List.mem_filterMap.mp hbelow
  obtain ⟨frame, hframe, hmem⟩ := List.mem_flatMap.mp ho
  have hstack : frame ∈ t.stack := List.takeWhile_subset _ hframe
  exact List.mem_filterMap.mpr ⟨o, List.mem_flatMap.mpr ⟨frame, hstack, hmem⟩, hof⟩

section Runs

variable [DecidableEq K] [DecidableEq V] {settings : Settings K V Q R} {start m : Machine K V Q R}
  {trace front back : List (Passage K V Q R)} {p : Passage K V Q R} {key : K} {fault : Nat}

/-- The listener is called in a report of the removal that it is told about. -/
theorem Passage.Lawful.reports_of_listened (hp : p.Lawful settings) {value : V}
    {cause : RemovalCause} (hevent : .listened key value cause ∈ p.events) :
    ∃ h, p.stage? = some (.report key h cause) := by
  rcases hp.emitted hevent with hexecutors | ⟨stage, hstage, hemits⟩
  · cases hexecutors
  · rcases hemits.report_or_mapped rfl with ⟨other, h, cause', rfl⟩ | ⟨_, _, _, hmapped⟩
    · obtain hevent | hevent | ⟨_, hevent⟩ := hemits
      · cases hevent
      · cases hevent
      · obtain ⟨rfl, -, rfl⟩ := Event.listened.inj hevent
        exact ⟨h, hstage⟩
    · cases hmapped

theorem Passage.Lawful.slot_of_fault (hp : p.Lawful settings) (hm : p.before.Reachable settings)
    (hlt : fault < p.before.world.store.faults.size)
    (hslot : p.after.slot? key = some (.fault fault)) :
    p.before.slot? key = some (.fault fault) := by
  obtain ⟨_, _, _, _, _, _, hturnover⟩ := hp.turnover
  have hspared : p.Spares → p.before.slot? key = some (.fault fault) := fun hspares => by
    rw [← hslot, Machine.slot?, Machine.slot?, hspares.map]
  cases hturnover with
  | rests _ hspares => exact hspared hspares
  | calls _ _ hspares => exact hspared hspares
  | drops _ _ _ hspares => exact hspared hspares
  | moves _ _ _ hspares => exact hspared hspares
  | acts hsection hdeed =>
    rw [Machine.slot?, hsection.store] at hslot
    rcases hdeed.slot_of_fault hm.accounted.map.valid hslot with hbefore | hnew
    · exact hbefore
    · omega

/-- A fault that is in a slot at the end of a run was there all the time, if it is not new. -/
theorem Run.slot_of_fault (hstart : start.Reachable settings) (run : Run settings start trace m)
    (hlt : fault < start.world.store.faults.size) (hslot : m.slot? key = some (.fault fault)) :
    start.slot? key = some (.fault fault) ∧
      ∀ q ∈ trace, q.after.slot? key = q.before.slot? key := by
  induction run with
  | rest => exact ⟨hslot, by simp⟩
  | @move trace p run hp ih =>
    have hsize : fault < p.before.world.store.faults.size := by
      refine run.invariant (P := fun m => fault < m.world.store.faults.size) hlt ?_
      intro q hq hbefore
      obtain ⟨_, _, _, _, _, _, hturnover⟩ := hq.turnover
      exact Nat.lt_of_lt_of_le hbefore hturnover.faultChange.size_le
    have hbefore := hp.slot_of_fault (run.reachable_of_reachable hstart) hsize hslot
    obtain ⟨hfirst, hsame⟩ := ih hbefore
    refine ⟨hfirst, fun q hq => ?_⟩
    rcases List.mem_append.mp hq with hold | hnew
    · exact hsame q hold
    · rw [List.mem_singleton.mp hnew, hslot, hbefore]

theorem Machine.Reachable.isParted (hm : m.Reachable settings) {i : Nat} {t : Thread K V Q R}
    (ht : m.threads[i]? = some t) : t.IsParted :=
  hm.all_threads (P := Thread.IsParted)
    (fun script => ⟨trivial, by simp [Thread.running, Parted]⟩)
    (fun hstride ht => hstride.isParted ht) i t ht

/-- A thread that does not move stays as it is. -/
theorem Run.thread_eq (run : Run settings start trace m) {i : Nat} {t : Thread K V Q R}
    (hrests : ∀ q ∈ trace, q.mover ≠ some i) (ht : start.threads[i]? = some t) :
    m.threads[i]? = some t := by
  induction run with
  | rest => exact ht
  | @move trace p _ hp ih =>
    have hbefore := ih fun q hq => hrests q (List.mem_append_left _ hq)
    exact hp.thread_eq (hrests p (by simp)) hbefore

/-- Where the slot is blocked while a removal is about to be reported, the thread has found the
value expired in its last step. -/
theorem Run.displaced (hstart : start.Fresh settings) (run : Run settings start trace m) {i : Nat}
    {t : Thread K V Q R} {h : Holder V} {cause : RemovalCause} (ht : m.threads[i]? = some t)
    (hactivity : t.activity = .keep (.report key h cause)) (hfault : fault ∈ t.installed)
    (hslot : m.slot? key = some (.fault fault)) :
    cause = .expired ∧ ∃ before q since, IsLastStep trace i before q since ∧ q.FindsExpired key ∧
      ∀ r ∈ since, r.after.slot? key = r.before.slot? key := by
  have hparted := ((run.reachable hstart).isParted ht).stack
  rw [hactivity] at hparted
  have hown : fault ∈ faultsOf (stackOngoing (callFrames t.stack)) := by
    simpa [Thread.installed, hactivity, Stage.ongoing] using hfault
  obtain ⟨a, rest, c, progress, hstack, hmem, rfl, rfl, rfl⟩ :=
    (hparted.mono (fun _ => id) fun _ => id).of_installed hown
  refine ⟨rfl, ?_⟩
  rcases run.last_step hstart ht with ⟨script, rfl⟩ | ⟨before, q, since, hlast, hafter⟩
  · cases hactivity
  obtain ⟨hbefore, hq, hsince⟩ := run.split hlast.trace
  rcases hq.thread_cases hafter with ⟨hother, -⟩ | ⟨script, rfl⟩ | ⟨-, t', s, ht', hstride, -, rfl⟩
  · exact absurd hlast.mover hother
  · cases hactivity
  obtain ⟨stage, turn, hstage, rfl, hdisplaces⟩ :=
    hstride.displaces ((hbefore.reachable hstart).isParted ht') hactivity hstack hmem
  obtain ⟨operation, retries, now, h, rfl, hkey, hcomputes, hstale, -⟩ := hdisplaces.visits
  have hreachable : q.after.Reachable settings := (hbefore.move hq).reachable hstart
  have hpending := hreachable.pending hafter (Thread.installed_subset _ hfault)
  have hlt := (Array.getElem?_eq_some_iff.mp hpending).1
  exact ⟨before, q, since, hlast,
    ⟨operation, retries, now, h, Passage.stage?_of_keep hlast.mover ht' hstage, hkey, hcomputes,
      hstale⟩, (hsince.slot_of_fault hreachable hlt hslot).2⟩

/-- Where a thread has found a value expired in its last step and nobody has written the slot since,
the slot is blocked. -/
theorem Run.installed_of_displaced (hstart : start.Fresh settings)
    (run : Run settings start trace m) {i : Nat} {t : Thread K V Q R}
    (ht : m.threads[i]? = some t) {before since : List (Passage K V Q R)} {q : Passage K V Q R}
    (hlast : IsLastStep trace i before q since) (hexpired : q.FindsExpired key)
    (hsame : ∀ r ∈ since, r.after.slot? key = r.before.slot? key) :
    ∃ fault ∈ t.installed, m.slot? key = some (.fault fault) := by
  obtain ⟨operation, retries, now, h, hstage, hkey, hcomputes, hstale⟩ := hexpired
  obtain ⟨hbefore, hq, hsince⟩ := run.split hlast.trace
  obtain ⟨j, t', hj, ht', hactivity⟩ := Passage.keep_of_stage? hstage
  obtain rfl := Option.some.inj (hlast.mover.symm.trans hj)
  obtain ⟨draws, turn, hturn, hstore, hthread, -⟩ := hq.own_turn hlast.mover ht' hactivity
  obtain rfl := Option.some.inj hturn
  obtain ⟨c, rfl, hdisplaces⟩ := Store.displaces_of_visit settings retries hkey hcomputes hstale
  obtain rfl := Option.some.inj ((hsince.thread_eq hlast.rests hthread).symm.trans ht)
  refine ⟨c.fault, ?_, ?_⟩
  · rw [Thread.installed, hdisplaces.frames, faultsOf_append]
    refine List.mem_append_right _ ?_
    change c.fault ∈ faultsOf (stackOngoing (.next (.keep (.own c)) :: callFrames t'.stack))
    simp [Stage.ongoing]
  · rw [hsince.kept (fun m => m.slot? c.key) hsame, Machine.slot?, hstore]
    exact hdisplaces.slot (hbefore.reachable hstart).accounted.map.valid

/-- The listener is told about a key while the slot is blocked in one case only: an operation that
computes a value has found an expired one. -/
theorem Run.blocksOnlyExpired (hstart : start.Fresh settings) (run : Run settings start trace m) :
    BlocksOnlyExpired trace := by
  have hreport : ∀ {front back : List (Passage K V Q R)} {p : Passage K V Q R} {key : K} {value : V}
      {cause : RemovalCause}, trace = front ++ p :: back → .listened key value cause ∈ p.events →
      ∃ i t h, p.mover = some i ∧ p.before.threads[i]? = some t ∧ p.thread? = some t ∧
        t.activity = .keep (.report key h cause) := by
    intro front back p key value cause htrace hevent
    obtain ⟨-, hp, -⟩ := run.split htrace
    obtain ⟨h, hstage⟩ := hp.reports_of_listened hevent
    obtain ⟨i, t, hmover, ht, hactivity⟩ := Passage.keep_of_stage? hstage
    exact ⟨i, t, h, hmover, ht, by simp [Passage.thread?, hmover, ht], hactivity⟩
  constructor
  case blocks_iff =>
    intro front back p i key value cause htrace hmover hevent
    obtain ⟨hfront, -, -⟩ := run.split htrace
    obtain ⟨j, t, h, hj, ht, hthread, hactivity⟩ := hreport htrace hevent
    obtain rfl := Option.some.inj (hmover.symm.trans hj)
    constructor
    · rintro ⟨t', fault, ht', hfault, hslot⟩
      obtain rfl := Option.some.inj (hthread.symm.trans ht')
      exact (hfront.displaced hstart ht hactivity hfault hslot).2
    · rintro ⟨before, q, since, hlast, hexpired, hsame⟩
      obtain ⟨fault, hfault, hslot⟩ :=
        hfront.installed_of_displaced hstart ht hlast hexpired hsame
      exact ⟨t, fault, hthread, hfault, hslot⟩
  case expired =>
    intro front back p key value cause htrace hevent hblocks
    obtain ⟨hfront, -, -⟩ := run.split htrace
    obtain ⟨i, t, h, hmover, ht, hthread, hactivity⟩ := hreport htrace hevent
    obtain ⟨t', fault, ht', hfault, hslot⟩ := hblocks
    obtain rfl := Option.some.inj (hthread.symm.trans ht')
    exact (hfront.displaced hstart ht hactivity hfault hslot).1
  case free =>
    intro front back p key value cause htrace hevent hfree t ht fault hfault r hr hslot
    obtain ⟨hfront, hp, hback⟩ := run.split htrace
    obtain ⟨i, -, ht'⟩ := Option.bind_eq_some_iff.mp ht
    have hreachable := hfront.reachable hstart
    have hpending := hreachable.pending ht' (t.installed_subset hfault)
    have hlt := (Array.getElem?_eq_some_iff.mp hpending).1
    obtain ⟨between, later, hsplit⟩ := List.append_of_mem hr
    obtain ⟨hbetween, hr, -⟩ := ((Run.rest.move hp).append hback).split hsplit
    exact hfree ⟨t, fault, ht, hfault,
      ((hbetween.move hr).slot_of_fault hreachable hlt hslot).1⟩

end Runs

/-! ## A listener that asks for the key it is told about -/

/-- Whether a thread waits for a computation that it is in the middle of itself. -/
def Thread.waitsForItself (t : Thread K V Q R) : Bool :=
  match t.activity with
  | .keep (.await _ _ fault) => decide (fault ∈ faultsOf (stackOngoing t.stack))
  | _ => false

/-- A store whose entries live for ten nanoseconds and whose listener gets the key again. -/
def askingSettings : Settings Nat Nat Unit Unit :=
  { plainSettings with
    expiry := some ((Lifetime.mk (some (.ofNanos 10)) none).expiry Nat Nat)
    listener := some fun key _ _ => .call (.get key) .finish }

/-- A value is put and expires, and the key is computed again. -/
def askingMoves : List (Move Nat Nat Unit Unit) :=
  .spawn (.call (.put 1 5) fun _ =>
    .call (.compute 1 fun _ _ => .finish (.value (some 6))) .finish) ::
    List.replicate 6 (.step 0 .none) ++ .advance (.ofNanos 10) :: List.replicate 7 (.step 0 .none)

/-- The listener is told about the key while the slot is blocked, and its `get` waits for its own
thread. -/
theorem blocked_by_expired : ∃ (start m : Machine Nat Nat Unit Unit)
    (trace : List (Passage Nat Nat Unit Unit)) (p : Passage Nat Nat Unit Unit),
    start.Fresh askingSettings ∧ Run askingSettings start trace m ∧ BlocksOnlyExpired trace ∧
      p ∈ trace ∧ .listened 1 5 .expired ∈ p.events ∧ p.Blocks 1 ∧
      m.threads[0]?.any Thread.waitsForItself = true := by
  have hfacts : (Machine.replay askingSettings askingMoves).map (fun run =>
      (run.1.any fun p => decide (.listened 1 5 .expired ∈ p.events) &&
          p.thread?.any (fun t => decide (0 ∈ t.installed)) &&
          decide (p.before.slot? 1 = some (.fault 0)),
        run.2.threads[0]?.any Thread.waitsForItself)) = some (true, true) := by
    decide +kernel
  obtain ⟨⟨trace, m⟩, hreplay, hpair⟩ := Option.map_eq_some_iff.mp hfacts
  obtain ⟨hany, hwaits⟩ := Prod.mk.inj hpair
  obtain ⟨start, hstart, run⟩ := Machine.run_of_replay hreplay
  obtain ⟨p, hp, hfound⟩ := List.any_eq_true.mp hany
  rw [Bool.and_eq_true, Bool.and_eq_true, decide_eq_true_eq, decide_eq_true_eq] at hfound
  obtain ⟨⟨hevent, hthread⟩, hslot⟩ := hfound
  obtain ⟨t, ht, hinstalled⟩ := (Option.any_eq_true _ _).mp hthread
  exact ⟨start, m, trace, p, hstart, run, Run.blocksOnlyExpired hstart run, hp, hevent,
    ⟨t, 0, ht, of_decide_eq_true hinstalled, hslot⟩, hwaits⟩

end SharedCache
