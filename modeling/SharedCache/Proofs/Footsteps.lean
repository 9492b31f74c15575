import SharedCache.Proofs.SectionEffects
import SharedCache.Proofs.Victims

/-!
# Footsteps

How a thread came to where it is.  Some sections only ever continue another section of the same
thread: what is looked at after the clock was read, what is read after it was found or received, and
what is evicted after it was drawn.  `Stage.Leads` says which section leads to which, `Stage.Stems`
says the same the other way around, and `Run.led` finds the step of a run that led a thread to the
section it is in.
-/

namespace SharedCache

variable {K V Q R : Type}

/-- Whether a section continues another one of the same thread directly. -/
def Stage.isInner : Stage K V Q R → Bool
  | .visit .. | .receive .. | .consult .. | .refresh .. | .handOut .. => true
  | .draw .. | .pick .. | .evict .. => true
  | _ => false

/-- The entries that an eviction has drawn so far. -/
def Stage.sample? : Stage K V Q R → Option (List (K × Holder V))
  | .draw _ sample _ => some sample
  | .pick _ sample => some sample
  | _ => none

/-- An activity is outer when it begins with nothing that continues a section directly. -/
def Activity.IsOuter : Activity K V Q R → Prop
  | .keep stage => stage.isInner = false
  | .enter _ inside => inside.IsOuter
  | .code _ | .settle _ | .dispatch _ => True

/-- What is put off in a frame is outer, or hands out a value that its call has taken away. -/
def Frame.IsOuter : Frame K V Q R → Prop
  | .next activity => activity.IsOuter ∨ ∃ h, activity = .keep (.handOut h false)
  | _ => True

/-- The thread has put off nothing that continues a section directly, but for the handing out. -/
structure Thread.IsOuter (t : Thread K V Q R) : Prop where
  inside : ∀ i inside, t.activity = .enter i inside → inside.IsOuter
  stack : ∀ frame ∈ t.stack, frame.IsOuter

theorem Activity.IsPlain.isOuter {a : Activity K V Q R} (ha : a.IsPlain) : a.IsOuter := by
  induction a with
  | enter _ inside ih => exact ih ha
  | keep stage => exact ha.elim
  | _ => trivial

theorem Frame.IsPlain.isOuter {frame : Frame K V Q R} (hframe : frame.IsPlain) :
    frame.IsOuter := by
  cases frame with
  | next activity => exact .inl (Activity.IsPlain.isOuter hframe)
  | _ => trivial

/-- An activity is fresh when it is none of an executor and begins with nothing that continues a
section directly. -/
def Activity.IsFresh : Activity K V Q R → Prop
  | .keep stage => stage.isInner = false
  | .code _ | .settle _ => True
  | .enter .. | .dispatch _ => False

/-- What is put off in a frame is fresh, or hands out a value that its call has taken away. -/
def Frame.IsFresh : Frame K V Q R → Prop
  | .next activity => activity.IsFresh ∨ ∃ h, activity = .keep (.handOut h false)
  | .computing _ | .listening => True
  | _ => False

theorem Activity.IsFresh.isOuter {a : Activity K V Q R} (ha : a.IsFresh) : a.IsOuter := by
  cases a with
  | keep stage => exact ha
  | enter => exact ha.elim
  | _ => trivial

theorem Frame.IsFresh.isOuter {frame : Frame K V Q R} (hframe : frame.IsFresh) :
    frame.IsOuter := by
  cases frame with
  | next activity => exact hframe.imp_left Activity.IsFresh.isOuter
  | _ => trivial

theorem Frame.isFresh_next {a : Activity K V Q R} (ha : a.IsFresh) : (Frame.next a).IsFresh :=
  .inl ha

theorem Frame.isFresh_handOut (h : Holder V) :
    (Frame.next (.keep (.handOut h false)) : Frame K V Q R).IsFresh := .inr ⟨h, rfl⟩

/-! ## Following -/

variable [DecidableEq K]

/-- Where a section leads directly, if not to something outer. -/
def Stage.Leads (s : Store K V) (now : Instant) : Stage K V Q R → Activity K V Q R → Prop
  | .round operation retries, a => a = .keep (.visit operation retries now)
  | .visit operation _ time, a => ∃ key h thenEnforce, operation.key? = some key ∧
      operation.reads = true ∧ s.look key time = .live h ∧
      a = .keep (.consult key h time thenEnforce)
  | .await operation _ fault, a => ∃ key h, operation.key? = some key ∧ operation.reads = true ∧
      s.resolution? fault = some (.ready h) ∧ a = .keep (.receive key h)
  | .receive key h, a => a = .keep (.consult key h now false)
  | .consult _ h _ thenEnforce, a => ∃ deadline, a = .keep (.refresh h deadline thenEnforce)
  | .refresh h _ thenEnforce, a => a = .keep (.handOut h thenEnforce)
  | .enforce failed, a => ∃ left, a = .keep (.draw failed [] left)
  | .draw _ sample _, a => ∃ draws next, a = .keep next ∧
      next.sample? = some (sample ++ s.map.sample draws)
  | .pick failed sample, a => ∃ entry ∈ sample, ∃ cause,
      a = .keep (.evict failed entry.1 entry.2 cause)
  | _, _ => False

/-- What a section stems from, if it continues another one. -/
def Stage.Stems (s : Store K V) (now : Instant) (stage : Stage K V Q R) : Stage K V Q R → Prop
  | .visit operation retries time => stage = .round operation retries ∧ time = now
  | .receive key h => ∃ operation retries fault, stage = .await operation retries fault ∧
      operation.key? = some key ∧ operation.reads = true ∧
      s.resolution? fault = some (.ready h)
  | .consult key h time _ => (∃ operation retries, stage = .visit operation retries time ∧
      operation.key? = some key ∧ operation.reads = true ∧ s.look key time = .live h) ∨
      stage = .receive key h ∧ time = now
  | .refresh h _ thenEnforce => ∃ key time, stage = .consult key h time thenEnforce
  | .handOut h thenEnforce => ∃ deadline, stage = .refresh h deadline thenEnforce
  | .draw _ sample _ | .pick _ sample => sample = [] ∨ ∃ failed drawn left draws,
      stage = .draw failed drawn left ∧ sample = drawn ++ s.map.sample draws
  | .evict failed key h _ => ∃ sample, stage = .pick failed sample ∧ (key, h) ∈ sample
  | _ => False

/-- A turn goes on with something fresh or where its section leads, and puts off nothing but what is
fresh.  Only a report calls the listener.  No interrupter is tripped.  Where something is called
back, one frame waits for that alone. -/
structure Turn.Follows (s : Store K V) (now : Instant) (stage : Stage K V Q R)
    (turn : StoreTurn K V Q R) : Prop where
  next : turn.next.IsFresh ∨ stage.Leads s now turn.next
  frames : ∀ frame ∈ turn.frames, frame.IsFresh
  hears : .listening ∈ turn.frames → ∃ key h cause, stage = .report key h cause
  trips : turn.trips = []
  putsOff : ∃ (called : Option (Frame K V Q R)) (later : List (Activity K V Q R)),
    turn.frames = called.toList ++ later.map .next ∧ (called.isSome → turn.next.IsPlain)

namespace Turn

variable {s s' : Store K V} {now : Instant} {stage : Stage K V Q R} {turn : StoreTurn K V Q R}
  {a : Activity K V Q R}

theorem Follows.after (events : List (Event K V)) (hturn : turn.Follows s now stage) :
    (turn.after events).Follows s now stage :=
  ⟨hturn.next, hturn.frames, hturn.hears, hturn.trips, hturn.putsOff⟩

theorem Follows.andThen (hturn : turn.Follows s now stage) (ha : (Frame.next a).IsFresh) :
    (turn.andThen a).Follows s now stage := by
  obtain ⟨hnext, hframes, hhears, htrips, called, later, heq, hcalled⟩ := hturn
  refine ⟨hnext, fun frame hframe => ?_, fun hlistening => hhears ?_, htrips, called, later ++ [a],
    by simp [heq], hcalled⟩
  rcases List.mem_append.mp hframe with hold | hnew
  · exact hframes frame hold
  · rw [List.mem_singleton.mp hnew]
    exact ha
  · simpa using hlistening

theorem follows_fresh (ha : a.IsFresh) : (goTo s' a).Follows s now stage :=
  ⟨.inl ha, by simp, by simp, rfl, none, [], rfl, by simp⟩

theorem follows_leads (ha : stage.Leads s now a) : (goTo s' a).Follows s now stage :=
  ⟨.inr ha, by simp, by simp, rfl, none, [], rfl, by simp⟩

/-- Code is called back with a frame that waits for it. -/
theorem follows_calls {script : Script K V Q R} {frame : Frame K V Q R} (hframe : frame.IsFresh)
    (hhears : frame = .listening → ∃ key h cause, stage = .report key h cause) :
    ((goTo s' (.code script)).above frame).Follows s now stage :=
  ⟨.inl trivial, by simpa using hframe, fun hmem => hhears (List.mem_singleton.mp hmem).symm,
    rfl, some frame, [], rfl, fun _ => trivial⟩

end Turn

/-! ## Sections -/

namespace Store

variable {settings : Settings K V Q R} {s s' : Store K V} {now time : Instant}
  {stage : Stage K V Q R}

theorem follows_answer (answer : Answer V) :
    (Turn.answer s' answer : StoreTurn K V Q R).Follows s now stage := Turn.follows_fresh trivial

theorem follows_enforcing (answer : Answer V) :
    (s'.enforcing answer : StoreTurn K V Q R).Follows s now stage :=
  Turn.Follows.andThen (Turn.follows_fresh (by rfl)) (Frame.isFresh_next trivial)

theorem follows_reporting {key : K} {h : Holder V} {cause : RemovalCause}
    {a : Activity K V Q R} (ha : (Frame.next a).IsFresh) :
    ((s'.reporting key h cause).andThen a).Follows s now stage :=
  Turn.Follows.andThen (Turn.follows_fresh (by rfl)) ha

/-- An overwritten holder is judged, the capacity enforced, and an answer given. -/
theorem follows_judging {key : K} {h : Holder V} {answer : Answer V} :
    (((Turn.goTo s' (.keep (.judge key h time))).andThen (.keep (.enforce 0))).andThen
      (.settle (.done answer)) : StoreTurn K V Q R).Follows s now stage :=
  ((Turn.follows_fresh (by rfl)).andThen (Frame.isFresh_next (by rfl))).andThen
    (Frame.isFresh_next trivial)

/-- A visit reads a live value at once, and leads nowhere else directly. -/
theorem follows_finds [DecidableEq V] {operation : Operation K V Q R} {retries : Nat}
    {turn : StoreTurn K V Q R} (hfinds : operation.Finds settings s retries time turn) :
    turn.Follows s now (.visit operation retries time) := by
  cases hfinds with
  | reads hkey hreads hlook => exact Turn.follows_leads ⟨_, _, _, hkey, hreads, hlook, rfl⟩
  | puts | putsAbsent => exact (follows_enforcing _).after _
  | overwrites | putsStale => exact follows_judging.after _
  | replaces =>
    exact ((follows_reporting (Frame.isFresh_next (by rfl))).andThen
      (Frame.isFresh_handOut _)).after _
  | replacesEqual =>
    exact ((follows_reporting (Frame.isFresh_next (by rfl))).andThen
      (Frame.isFresh_next (by trivial))).after _
  | drops | removesEqual | beginsStale => exact follows_reporting (Frame.isFresh_next (by trivial))
  | balks => exact (Turn.follows_fresh (by trivial)).after _
  | _ => exact Turn.follows_fresh (by trivial)

theorem follows_resume (operation : Operation K V Q R) (retries : Nat) {fault : Nat}
    {resolution : Resolution V} (hresolved : s.resolution? fault = some resolution) :
    (s.resume operation retries resolution).Follows s now (.await operation retries fault) := by
  obtain ⟨a, heq, hresumes⟩ := s.resume_eq operation retries resolution
  rw [heq]
  cases hresumes with
  | @receives _ key h hkey hshares =>
    have hreads : operation.reads = true := by
      cases operation <;> first | rfl | cases hshares
    exact Turn.follows_leads ⟨key, h, hkey, hreads, hresolved, rfl⟩
  | _ => exact Turn.follows_fresh (by trivial)

end Store

section Step

variable [DecidableEq V] {settings : Settings K V Q R} {s : Store K V} {turn : StoreTurn K V Q R}
  {now : Instant}

/-- Every section goes on as it should. -/
theorem Stage.follows {stage : Stage K V Q R} {interrupted : Bool} {draws : List K}
    (hturn : stage.turn settings s now interrupted draws = some turn) :
    turn.Follows s now stage := by
  cases Stage.sections hturn with
  | visits => exact Store.follows_finds (s.finds _)
  | resumes hresolved => exact Store.follows_resume _ _ hresolved
  | looks | receives | hits | moves => exact Turn.follows_leads rfl
  | consults => exact Turn.Follows.after _ (Turn.follows_leads ⟨_, rfl⟩)
  | exceeds => exact Turn.follows_leads ⟨_, rfl⟩
  | draws | drawsLast => exact Turn.follows_leads ⟨_, _, rfl, rfl⟩
  | picks hchoice =>
    exact Turn.Follows.after _ (Turn.follows_leads ⟨_, Store.mem_of_victim hchoice, _, rfl⟩)
  | handsOutFirst => exact (Store.follows_enforcing _).after _
  | installs => exact Store.follows_enforcing _
  | expels | dismissesStale | removes | evicts =>
    exact Store.follows_reporting (Frame.isFresh_next (by trivial))
  | dismisses => exact Store.follows_reporting (Frame.isFresh_handOut _)
  | replaces =>
    exact (Store.follows_reporting (Frame.isFresh_next (by rfl))).andThen
      (Frame.isFresh_next trivial)
  | @tells key h cause =>
    have hlistening : (Frame.listening : Frame K V Q R).IsFresh := trivial
    exact (((Turn.follows_calls hlistening fun _ => ⟨key, h, cause, rfl⟩).after _).after _).after _
  | @maps c =>
    have hcomputing : (Frame.computing c).IsFresh := trivial
    exact ((Turn.follows_calls hcomputing (by simp)).after _).after _
  | balksAtRead | balksAtCopy | counts | unwinds | unwindsDraft | givesUp | picksNothing |
      balksAtPick => exact (Turn.follows_fresh (by trivial)).after _
  | balksAtReport | composes | unwindsCopy =>
    exact ((Turn.follows_fresh (by trivial)).after _).after _
  | handsOut => exact (Store.follows_answer _).after _
  | _ => exact Turn.follows_fresh (by trivial)

omit [DecidableEq V] in
theorem Stage.Leads.isKeep {stage : Stage K V Q R} {a : Activity K V Q R}
    (hleads : stage.Leads s now a) : ∃ next, a = .keep next := by
  cases stage with
  | round operation retries => exact ⟨_, hleads⟩
  | visit operation retries time =>
    obtain ⟨key, h, thenEnforce, -, -, -, rfl⟩ := hleads
    exact ⟨_, rfl⟩
  | await operation retries fault =>
    obtain ⟨key, h, -, -, -, rfl⟩ := hleads
    exact ⟨_, rfl⟩
  | receive key h => exact ⟨_, hleads⟩
  | consult key h time thenEnforce =>
    obtain ⟨deadline, rfl⟩ := hleads
    exact ⟨_, rfl⟩
  | refresh h deadline thenEnforce => exact ⟨_, hleads⟩
  | enforce failed =>
    obtain ⟨left, rfl⟩ := hleads
    exact ⟨_, rfl⟩
  | draw failed sample left =>
    obtain ⟨draws, next, rfl, -⟩ := hleads
    exact ⟨_, rfl⟩
  | pick failed sample =>
    obtain ⟨entry, -, cause, rfl⟩ := hleads
    exact ⟨_, rfl⟩
  | _ => exact hleads.elim

omit [DecidableEq V] in
/-- What leads to a section is what the section stems from. -/
theorem Stage.Leads.stems {stage next : Stage K V Q R} (hleads : stage.Leads s now (.keep next)) :
    stage.Stems s now next := by
  cases stage with
  | round operation retries =>
    obtain rfl := Activity.keep.inj hleads
    exact ⟨rfl, rfl⟩
  | visit operation retries time =>
    obtain ⟨key, h, thenEnforce, hkey, hreads, hlook, hnext⟩ := hleads
    obtain rfl := Activity.keep.inj hnext
    exact .inl ⟨operation, retries, rfl, hkey, hreads, hlook⟩
  | await operation retries fault =>
    obtain ⟨key, h, hkey, hreads, hresolved, hnext⟩ := hleads
    obtain rfl := Activity.keep.inj hnext
    exact ⟨operation, retries, fault, rfl, hkey, hreads, hresolved⟩
  | receive key h =>
    obtain rfl := Activity.keep.inj hleads
    exact .inr ⟨rfl, rfl⟩
  | consult key h time thenEnforce =>
    obtain ⟨deadline, hnext⟩ := hleads
    obtain rfl := Activity.keep.inj hnext
    exact ⟨key, time, rfl⟩
  | refresh h deadline thenEnforce =>
    obtain rfl := Activity.keep.inj hleads
    exact ⟨deadline, rfl⟩
  | enforce failed =>
    obtain ⟨left, hnext⟩ := hleads
    obtain rfl := Activity.keep.inj hnext
    exact .inl rfl
  | draw failed drawn left =>
    obtain ⟨draws, next', hnext, hlonger⟩ := hleads
    obtain rfl := Activity.keep.inj hnext
    cases next with
    | draw _ sample => exact .inr ⟨failed, drawn, left, draws, rfl, Option.some.inj hlonger⟩
    | pick _ sample => exact .inr ⟨failed, drawn, left, draws, rfl, Option.some.inj hlonger⟩
    | _ => cases hlonger
  | pick failed drawn =>
    obtain ⟨entry, hmem, cause, hnext⟩ := hleads
    obtain rfl := Activity.keep.inj hnext
    exact ⟨drawn, rfl, hmem⟩
  | _ => exact hleads.elim

/-! ## Steps -/

variable {w : World K V Q R} {t : Thread K V Q R} {step : Step K V Q R}

/-- No step puts off anything that continues a section. -/
theorem Thread.Stride.isOuter (hstride : t.Stride settings w step) (ht : t.IsOuter) :
    step.thread.IsOuter := by
  -- The inside of a scope is outer as soon as the whole activity is.
  have hwhole : ∀ {a : Activity K V Q R}, a.IsOuter →
      ∀ i inside, a = .enter i inside → inside.IsOuter := by
    rintro _ ha i inside rfl
    exact ha
  have hpush : ∀ frames : List (Frame K V Q R), (∀ frame ∈ frames, frame.IsOuter) →
      ∀ frame ∈ frames ++ t.stack, frame.IsOuter := by
    intro frames hframes frame hframe
    rcases List.mem_append.mp hframe with hnew | hold
    · exact hframes frame hnew
    · exact ht.stack frame hold
  have hpop : ∀ {top : Frame K V Q R} {rest}, t.stack = top :: rest →
      ∀ frame ∈ rest, frame.IsOuter := fun hstack frame hframe =>
    ht.stack frame (hstack ▸ List.mem_cons_of_mem _ hframe)
  cases hstride with
  | works _ _ _ _ ha hframes =>
    exact ⟨hwhole ha.isOuter, hpush _ fun frame hframe => (hframes frame hframe).isOuter⟩
  | @calls operation code =>
    exact ⟨by simp, hpush [.calling code] (by simp [Frame.IsOuter])⟩
  | @enters i inside hactivity =>
    exact ⟨hwhole (ht.inside i inside hactivity),
      hpush [.scoped t.binding] (by simp [Frame.IsOuter])⟩
  | returns _ hstack _ _ _ ha => exact ⟨hwhole ha.isOuter, hpop hstack⟩
  | @proceeds answer a rest _ hstack =>
    refine ⟨?_, hpop hstack⟩
    rcases ht.stack _ (hstack ▸ List.mem_cons_self) with houter | ⟨h, rfl⟩
    · exact hwhole houter
    · simp
  | unwinds _ hstack => exact ⟨by simp, hpop hstack⟩
  | @mapped signal c rest _ hstack =>
    obtain ⟨-, hframes, stage, hnext, -⟩ := w.store.mapped_spec c signal
    refine ⟨by simp [Step.ofStore, Thread.goOn, hnext], fun frame hframe => ?_⟩
    apply hpop hstack frame
    simpa [Step.ofStore, Thread.goOn, Thread.popped, hframes, hstack] using hframe
  | @listened signal rest _ hstack =>
    refine ⟨by cases signal <;> simp [Step.ofStore, Thread.goOn, Store.listened], ?_⟩
    obtain ⟨-, hframes⟩ := w.store.listened_spec (Q := Q) (R := R) signal
    intro frame hframe
    apply hpop hstack frame
    simpa [Step.ofStore, Thread.goOn, Thread.popped, hframes, hstack] using hframe
  | keeps _ hturn =>
    obtain ⟨hnext, hframes, -⟩ := Stage.follows hturn
    refine ⟨?_, hpush _ fun frame hframe => (hframes frame hframe).isOuter⟩
    rcases hnext with hfresh | hleads
    · exact hwhole hfresh.isOuter
    · obtain ⟨next, hkeep⟩ := hleads.isKeep
      intro i inside henter
      cases hkeep.symm.trans henter

/-- A step gets to a section that continues another one only from where that section leads, or by
handing out what was put off. -/
theorem Thread.Stride.led (hstride : t.Stride settings w step) (ht : t.IsOuter)
    {next : Stage K V Q R} (hnext : step.thread.activity = .keep next)
    (hinner : next.isInner = true) :
    (∃ stage, t.activity = .keep stage ∧ stage.Leads w.store w.clock.now (.keep next)) ∨
      (∃ h, next = .handOut h false) ∧ ∀ stage, t.activity ≠ .keep stage := by
  have hnever : ∀ {a : Activity K V Q R}, a.IsOuter → a ≠ .keep next := by
    rintro _ houter rfl
    rw [houter] at hinner
    cases hinner
  cases hstride with
  | works _ _ _ _ ha => exact absurd hnext (hnever ha.isOuter)
  | calls => exact absurd hnext (hnever rfl)
  | enters hactivity => exact absurd hnext (hnever (ht.inside _ _ hactivity))
  | returns _ _ _ _ _ ha => exact absurd hnext (hnever ha.isOuter)
  | @proceeds answer a rest hactivity hstack =>
    rcases ht.stack _ (hstack ▸ List.mem_cons_self) with houter | ⟨h, rfl⟩
    · exact absurd hnext (hnever houter)
    · exact .inr ⟨⟨h, (Activity.keep.inj hnext).symm⟩, by simp [hactivity]⟩
  | unwinds => cases hnext
  | @mapped signal c =>
    obtain ⟨-, -, stage, hstage, hongoing⟩ := w.store.mapped_spec c signal
    refine absurd (hstage.symm.trans hnext) (hnever ?_)
    cases stage <;> first | rfl | cases hongoing
  | @listened signal => cases signal <;> cases hnext
  | keeps hactivity hturn =>
    rcases (Stage.follows hturn).next with hfresh | hleads
    · exact absurd hnext (hnever hfresh.isOuter)
    · exact .inl ⟨_, hactivity, hnext ▸ hleads⟩

end Step

/-! ## Runs -/

/-- The last step that a thread has taken in the course of a trace. -/
structure IsLastStep (trace : List (Passage K V Q R)) (i : Nat) (front : List (Passage K V Q R))
    (p : Passage K V Q R) (back : List (Passage K V Q R)) : Prop where
  trace : trace = front ++ p :: back
  mover : p.mover = some i
  rests : ∀ q ∈ back, q.mover ≠ some i

omit [DecidableEq K] in
theorem IsLastStep.snoc {trace front back : List (Passage K V Q R)} {i : Nat}
    {p q : Passage K V Q R} (hlast : IsLastStep trace i front p back) (hq : q.mover ≠ some i) :
    IsLastStep (trace ++ [q]) i front p (back ++ [q]) := by
  refine ⟨by simp [hlast.trace], hlast.mover, fun r hr => ?_⟩
  rcases List.mem_append.mp hr with hold | hnew
  · exact hlast.rests r hold
  · rwa [List.mem_singleton.mp hnew]

section Run

variable [DecidableEq V] {settings : Settings K V Q R} {start m : Machine K V Q R}
  {trace : List (Passage K V Q R)} {i : Nat} {t : Thread K V Q R}

/-- A thread has not moved since it began, or is where its last step has left it. -/
theorem Run.last_step (hstart : start.Fresh settings) (run : Run settings start trace m)
    (ht : m.threads[i]? = some t) :
    (∃ script, t = .running script) ∨
      ∃ front p back, IsLastStep trace i front p back ∧ p.after.threads[i]? = some t := by
  induction run with
  | rest => simp [hstart.threads] at ht
  | @move trace p run hp ih =>
    rcases hp.thread_cases ht with ⟨hother, hsame⟩ | hspawned | ⟨hmover, -⟩
    · rcases ih hsame with hrunning | ⟨front, q, back, hlast, hafter⟩
      · exact .inl hrunning
      · exact .inr ⟨front, q, back ++ [p], hlast.snoc hother, hafter⟩
    · exact .inl hspawned
    · exact .inr ⟨trace, p, [], ⟨rfl, hmover, by simp⟩, ht⟩

theorem Machine.Reachable.isOuter (hm : m.Reachable settings) (ht : m.threads[i]? = some t) :
    t.IsOuter :=
  hm.all_threads (P := Thread.IsOuter)
    (fun script => ⟨by simp [Thread.running], by simp [Thread.running]⟩)
    (fun hstride ht => hstride.isOuter ht) i t ht

/-- A passage gets a thread to a section that continues another one only from where that leads, or
by handing out what was put off. -/
theorem Passage.Lawful.led {p : Passage K V Q R} (hp : p.Lawful settings)
    (hm : p.before.Reachable settings) (hmover : p.mover = some i)
    (ht : p.after.threads[i]? = some t) {next : Stage K V Q R} (hnext : t.activity = .keep next)
    (hinner : next.isInner = true) :
    (∃ stage, p.stage? = some stage ∧
      stage.Stems p.before.world.store p.before.world.clock.now next) ∨
      (∃ h, next = .handOut h false) ∧ p.stage? = none := by
  rcases hp.thread_cases ht with ⟨hother, -⟩ | ⟨script, rfl⟩ | ⟨-, t', step, ht', hstride, -, rfl⟩
  · exact absurd hmover hother
  · cases hnext
  · rcases hstride.led (hm.isOuter ht') hnext hinner with
      ⟨stage, hactivity, hleads⟩ | ⟨hhands, hapart⟩
    · exact .inl ⟨stage, Passage.stage?_of_keep hmover ht' hactivity, hleads.stems⟩
    · exact .inr ⟨hhands, Passage.stage?_of_apart hmover ht' hapart⟩

/-- A section that is no handing out is led to. -/
theorem Passage.Lawful.stems {p : Passage K V Q R} (hp : p.Lawful settings)
    (hm : p.before.Reachable settings) (hmover : p.mover = some i)
    (ht : p.after.threads[i]? = some t) {next : Stage K V Q R} (hnext : t.activity = .keep next)
    (hinner : next.isInner = true) (hhands : ∀ h thenEnforce, next ≠ .handOut h thenEnforce) :
    ∃ stage, p.stage? = some stage ∧
      stage.Stems p.before.world.store p.before.world.clock.now next := by
  rcases hp.led hm hmover ht hnext hinner with hled | ⟨⟨h, rfl⟩, -⟩
  · exact hled
  · exact absurd rfl (hhands h false)

/-- The last step of a thread has led it to the section that it is in, if that continues another
one, or has let it hand out what was put off. -/
theorem Run.led (hstart : start.Fresh settings) (run : Run settings start trace m)
    (ht : m.threads[i]? = some t) {next : Stage K V Q R} (hnext : t.activity = .keep next)
    (hinner : next.isInner = true) :
    ∃ front p back, IsLastStep trace i front p back ∧
      ((∃ stage, p.stage? = some stage ∧
        stage.Stems p.before.world.store p.before.world.clock.now next) ∨
      (∃ h, next = .handOut h false) ∧ p.stage? = none) := by
  rcases run.last_step hstart ht with ⟨script, rfl⟩ | ⟨front, p, back, hlast, hp⟩
  · cases hnext
  · obtain ⟨hfront, hlawful, -⟩ := run.split hlast.trace
    exact ⟨front, p, back, hlast,
      hlawful.led (hfront.reachable hstart) hlast.mover hp hnext hinner⟩

theorem Run.stems (hstart : start.Fresh settings) (run : Run settings start trace m)
    (ht : m.threads[i]? = some t) {next : Stage K V Q R} (hnext : t.activity = .keep next)
    (hinner : next.isInner = true) (hhands : ∀ h thenEnforce, next ≠ .handOut h thenEnforce) :
    ∃ front p back stage, IsLastStep trace i front p back ∧ p.stage? = some stage ∧
      stage.Stems p.before.world.store p.before.world.clock.now next := by
  obtain ⟨front, p, back, hlast, ⟨stage, hstage, hstems⟩ | ⟨⟨h, rfl⟩, -⟩⟩ :=
    run.led hstart ht hnext hinner
  · exact ⟨front, p, back, stage, hlast, hstage, hstems⟩
  · exact absurd rfl (hhands h false)

end Run

end SharedCache
