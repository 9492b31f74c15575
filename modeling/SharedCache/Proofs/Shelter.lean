import SharedCache.Proofs.SectionEffects

/-!
# Shelter

A panic gives up everything that was put off in the frames it passes.  For two things that would
be a loss: an enforcement of the capacity, and a computation whose fault is in a slot already.  Both
are put off only for the report of a removal, and a report ends with an answer whatever the
listener does, as long as a value can be copied out of the store.  So no panic ever reaches them.
-/

namespace SharedCache

variable {K V Q R : Type}

/-- An activity is calm when it can only end with an answer. -/
def Activity.IsCalm : Activity K V Q R → Prop
  | .keep (.report ..) | .keep (.judge ..) | .settle (.done _) => True
  | _ => False

/-- A frame is calm when it turns every end into an answer. -/
def Frame.IsCalm : Frame K V Q R → Prop
  | .listening => True
  | _ => False

/-- A frame is vital when it must not be given up. -/
def Frame.IsVital : Frame K V Q R → Prop
  | .next (.keep (.enforce _)) | .next (.keep (.own _)) => True
  | _ => False

/-- Every vital frame is directly below something calm.  `calm` tells whether what is above all
frames is calm. -/
def Sheltered (calm : Prop) : List (Frame K V Q R) → Prop
  | [] => True
  | frame :: rest => (frame.IsVital → calm) ∧ Sheltered frame.IsCalm rest

/-- No panic will reach a vital frame of the thread. -/
def Thread.IsSheltered (t : Thread K V Q R) : Prop := Sheltered t.activity.IsCalm t.stack

/-- A turn of an activity that is calm or not keeps vital frames sheltered, whatever waits below. -/
def Turn.Shelters {σ : Type} (calm : Prop) (turn : Turn σ K V Q R) : Prop :=
  ∀ rest, Sheltered calm rest → Sheltered turn.next.IsCalm (turn.frames ++ rest)

theorem Sheltered.mono {calm calm' : Prop} {stack : List (Frame K V Q R)} (h : calm → calm')
    (hstack : Sheltered calm stack) : Sheltered calm' stack := by
  cases stack with
  | nil => trivial
  | cons frame rest => exact ⟨fun hvital => h (hstack.1 hvital), hstack.2⟩

theorem Frame.IsPlain.not_isVital {frame : Frame K V Q R} (hframe : frame.IsPlain) :
    ¬ frame.IsVital := by
  cases frame with
  | next a =>
    cases a with
    | keep stage => exact absurd hframe id
    | _ => exact id
  | _ => exact id

theorem Frame.IsPlain.not_isCalm {frame : Frame K V Q R} (hframe : frame.IsPlain) :
    ¬ frame.IsCalm := by
  cases frame with
  | listening => exact absurd hframe id
  | _ => exact id

/-- Plain frames need no shelter and give none. -/
theorem Sheltered.append_plain {calm : Prop} {frames rest : List (Frame K V Q R)}
    (hframes : ∀ frame ∈ frames, frame.IsPlain) (hrest : Sheltered False rest) :
    Sheltered calm (frames ++ rest) := by
  induction frames generalizing calm with
  | nil => exact hrest.mono False.elim
  | cons frame frames ih =>
    have hplain := hframes frame List.mem_cons_self
    exact ⟨fun hvital => absurd hvital hplain.not_isVital,
      ih fun other hother => hframes other (List.mem_cons_of_mem frame hother)⟩

namespace Turn

variable {σ : Type} {turn : Turn σ K V Q R} {calm : Prop}

/-- A turn that puts no frame on the stack. -/
theorem shelters_of_alone (hframes : turn.frames = []) (ha : calm → turn.next.IsCalm) :
    turn.Shelters calm := by
  intro rest hrest
  rw [hframes]
  exact hrest.mono ha

end Turn

namespace Store

variable {s : Store K V}

/-- A report may be put before anything that needs no shelter. -/
theorem shelters_report {turn : StoreTurn K V Q R} {a : Activity K V Q R}
    (hnext : turn.next.IsCalm) (hframes : turn.frames = [.next a]) : turn.Shelters False := by
  intro rest hrest
  rw [hframes]
  exact ⟨fun _ => hnext, hrest.mono False.elim⟩

/-- The capacity is enforced after a report, and something that needs no shelter is done then. -/
theorem shelters_report_enforce {turn : StoreTurn K V Q R} {a : Activity K V Q R}
    (hnext : turn.next.IsCalm)
    (hframes : turn.frames = [.next (.keep (.enforce 0)), .next a])
    (ha : ¬ (Frame.next a).IsVital) : turn.Shelters False := by
  intro rest hrest
  rw [hframes]
  exact ⟨fun _ => hnext, fun hvital => absurd hvital ha, hrest.mono False.elim⟩

theorem shelters_enforcing (s : Store K V) (answer : Answer V) :
    (s.enforcing answer : StoreTurn K V Q R).Shelters False := by
  intro rest hrest
  exact ⟨id, hrest.mono False.elim⟩

end Store

section Step

variable {settings : Settings K V Q R} {s : Store K V}

theorem Store.shelters_mapped (c : Computation K V Q R) (signal : Signal V) :
    (s.mapped c signal).Shelters False := by
  obtain ⟨-, hframes, -⟩ := s.mapped_spec c signal
  intro rest hrest
  rw [hframes]
  exact hrest.mono False.elim

/-- The listener's end is turned into an answer. -/
theorem Store.shelters_listened (signal : Signal V) :
    (s.listened signal : StoreTurn K V Q R).Shelters True := by
  cases signal <;> exact fun _ hrest => hrest.mono fun _ => trivial

variable [DecidableEq K] [DecidableEq V]

/-- Whatever a visit puts off that is vital waits for a report. -/
theorem Operation.Finds.shelters {operation : Operation K V Q R} {retries : Nat} {now : Instant}
    {turn : StoreTurn K V Q R} (hfinds : operation.Finds settings s retries now turn) :
    turn.Shelters False := by
  cases hfinds with
  | drops | removesEqual | beginsStale => exact Store.shelters_report trivial rfl
  | overwrites | putsStale | replaces | replacesEqual =>
    exact Store.shelters_report_enforce trivial rfl id
  | puts | putsAbsent => exact Store.shelters_enforcing _ _
  | _ => exact Turn.shelters_of_alone rfl False.elim

theorem Stage.shelters (hcopy : ∀ value, ∃ copy, settings.copyOut value = .ok copy)
    {stage : Stage K V Q R} {now : Instant} {interrupted : Bool} {draws : List K}
    {turn : StoreTurn K V Q R}
    (hturn : stage.turn settings s now interrupted draws = some turn) :
    turn.Shelters (Activity.keep stage).IsCalm := by
  cases Stage.sections hturn with
  | visits => exact (s.finds _).shelters
  | @resumes operation retries _ resolution =>
    obtain ⟨a, heq, -⟩ := s.resume_eq operation retries resolution
    exact heq ▸ Turn.shelters_of_alone rfl False.elim
  | judges | counts => exact Turn.shelters_of_alone rfl fun _ => trivial
  | expels | dismissesStale | dismisses | removes | evicts =>
    exact Store.shelters_report trivial rfl
  | handsOutFirst | installs => exact Store.shelters_enforcing _ _
  | replaces => exact Store.shelters_report_enforce trivial rfl id
  -- The listener is called below a frame that lets no panic pass.
  | tells => exact fun rest hrest => ⟨fun hvital => absurd hvital id, hrest.mono fun _ => trivial⟩
  | @balksAtReport _ h _ _ _ _ _ hpanic =>
    obtain ⟨copy, hok⟩ := hcopy h.value
    cases hpanic.symm.trans hok
  | maps => exact fun rest hrest => ⟨fun hvital => absurd hvital id, hrest.mono False.elim⟩
  | _ => exact Turn.shelters_of_alone rfl False.elim

/-- No step brings a vital frame within the reach of a panic. -/
theorem Thread.Stride.isSheltered {w : World K V Q R} {t : Thread K V Q R} {s : Step K V Q R}
    (hcopy : ∀ value, ∃ copy, settings.copyOut value = .ok copy)
    (hstride : t.Stride settings w s) (ht : t.IsSheltered) : s.thread.IsSheltered := by
  rw [Thread.IsSheltered] at ht ⊢
  cases hstride with
  | works hactivity hsettled hcalls hstore ha hframes hevents =>
    refine Sheltered.append_plain hframes (ht.mono fun hcalm => ?_)
    cases hcase : t.activity with
    | settle signal => exact hsettled signal hcase
    | keep stage => simp [hcase, Activity.IsPlain] at hactivity
    | _ => simp [hcase, Activity.IsCalm] at hcalm
  | calls hactivity =>
    rw [hactivity] at ht
    exact ⟨fun hvital => absurd hvital id, ht⟩
  | enters hactivity =>
    rw [hactivity] at ht
    exact ⟨fun hvital => absurd hvital id, ht⟩
  | returns hactivity hstack hplain hnext hstore ha hevents =>
    rw [hstack] at ht
    exact ht.2.mono fun hcalm => absurd hcalm hplain.not_isCalm
  | proceeds hactivity hstack =>
    rw [hstack] at ht
    exact ht.2.mono False.elim
  | unwinds hactivity hstack =>
    rw [hstack] at ht
    exact ht.2
  | @mapped signal c rest hactivity hstack =>
    rw [hstack] at ht
    have hrest : Sheltered False rest := ht.2
    exact Store.shelters_mapped c signal _ (by simpa [Thread.popped, hstack] using hrest)
  | @listened signal rest hactivity hstack =>
    rw [hstack] at ht
    have hrest : Sheltered True rest := ht.2
    exact Store.shelters_listened signal _ (by simpa [Thread.popped, hstack] using hrest)
  | @keeps stage draws turn hactivity hturn =>
    rw [hactivity] at ht
    exact Stage.shelters hcopy hturn t.stack ht

/-- No panic will ever reach a vital frame. -/
theorem Machine.Reachable.isSheltered {m : Machine K V Q R} (hm : m.Reachable settings)
    (hcopy : ∀ value, ∃ copy, settings.copyOut value = .ok copy) :
    ∀ (i : Nat) t, m.threads[i]? = some t → t.IsSheltered := by
  refine hm.all_threads (fun script => trivial) fun hstride ht => ?_
  exact hstride.isSheltered hcopy ht

end Step

end SharedCache
