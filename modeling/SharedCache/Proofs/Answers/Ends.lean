import SharedCache.Proofs.Acts
import SharedCache.Proofs.Outlook

/-!
# From the reply to the end

What comes after the section in which the reply of a call is settled only reports a removal,
enforces the capacity or copies a value.  It does nothing more about the key, and changes the end of
the call only where a collaborator panics.
-/

namespace SharedCache

variable {K V Q R : Type}

/-- A call may end like this that has been told a reply. -/
def Reply.Allows (settings : Settings K V Q R) (signal : Signal V) : Reply V → Prop
  | .ends told => signal = told ∨ ∃ p, signal = .raised p ∧ settings.Interferes p
  | .copies value =>
    (∃ copy, settings.copyOut value = .ok copy ∧ signal = .done (.value (some copy))) ∨
      ∃ p, signal = .raised p ∧ (settings.Interferes p ∨ settings.ReadRaises p)

/-- An activity leads to the end that a call has been told. -/
def Activity.Honours (settings : Settings K V Q R) (reply : Reply V) (a : Activity K V Q R) :
    Prop :=
  a.reply? = some reply ∨ ∃ signal, a = .settle signal ∧ reply.Allows settings signal

/-- What a call may have on its thread once its reply is settled: its activity, and the frames above
those that wait for the call. -/
inductive Reply.Binds (settings : Settings K V Q R) (reply : Reply V) :
    Activity K V Q R → List (Frame K V Q R) → Prop where
  | arrives {a : Activity K V Q R} : a.Honours settings reply → Binds settings reply a []
  | postpones {enforces : Prop} {a later : Activity K V Q R} {above : List (Frame K V Q R)} :
      Postponed settings enforces later a above → later.Honours settings reply →
      Binds settings reply a above

section Binds

variable {settings : Settings K V Q R} {reply : Reply V} {s : Store K V} {a : Activity K V Q R}
  {turn : StoreTurn K V Q R} {enforces : Prop} {later : Activity K V Q R} {p : Panic}

theorem Reply.allows_told (settings : Settings K V Q R) (signal : Signal V) :
    (Reply.ends signal).Allows settings signal := .inl rfl

/-- The panic of a collaborator that reports and enforcements consult is an end of any call. -/
theorem Reply.allows_interference (reply : Reply V) (hpanic : settings.Interferes p) :
    reply.Allows settings (.raised p) := by
  cases reply with
  | ends told => exact .inr ⟨p, rfl, hpanic⟩
  | copies value => exact .inr ⟨p, rfl, .inl hpanic⟩

theorem Activity.Honours.allows {signal : Signal V}
    (ha : (Activity.settle signal : Activity K V Q R).Honours settings reply) :
    reply.Allows settings signal := by
  rcases ha with hreply | ⟨told, hsettle, hallows⟩
  · obtain rfl := Option.some.inj hreply
    exact Reply.allows_told settings signal
  · rw [Activity.settle.inj hsettle]
    exact hallows

theorem Activity.honours_settle {signal : Signal V} (hallows : reply.Allows settings signal) :
    (Activity.settle signal : Activity K V Q R).Honours settings reply :=
  .inr ⟨signal, rfl, hallows⟩

/-- What a turn leaves on the thread leads to this end. -/
def Turn.Honours (settings : Settings K V Q R) (reply : Reply V) (turn : StoreTurn K V Q R) :
    Prop :=
  reply.Binds settings turn.next turn.frames

theorem Store.honours_enforcing {answer : Answer V} (s : Store K V)
    (ha : (Activity.settle (.done answer) : Activity K V Q R).Honours settings reply) :
    (s.enforcing answer : StoreTurn K V Q R).Honours settings reply :=
  .postpones (.sees (.enforces trivial trivial : Errand settings True (.keep (.enforce 0)) [])) ha

theorem Store.honours_reporting (s : Store K V) (key : K) (h : Holder V) (cause : RemovalCause)
    (ha : a.Honours settings reply) :
    ((s.reporting key h cause).andThen a).Honours settings reply :=
  .postpones (.sees (.reports (.inl rfl) : Errand settings False _ [])) ha

theorem Store.honours_replacing (s : Store K V) (key : K) (h : Holder V) (cause : RemovalCause)
    (ha : a.Honours settings reply) :
    (((s.reporting key h cause).andThen (.keep (.enforce 0))).andThen a).Honours settings reply :=
  .postpones (.sees (.reports (.inr ⟨trivial, rfl⟩) : Errand settings True _ _)) ha

/-- Something that is put off is what its thread comes to in the end. -/
theorem Postponed.upshot?_eq {frames : List (Frame K V Q R)}
    (ha : Postponed settings enforces later a frames) : upshot? a frames = some later := by
  cases ha with
  | judges => rfl
  | sees => simp [upshot?]

/-- A section in which a reply is settled. -/
def Turn.Settles (settings : Settings K V Q R) (turn : StoreTurn K V Q R) : Prop :=
  ∃ reply, turn.upshot?.bind Activity.reply? = some reply ∧ turn.Honours settings reply

theorem Turn.settles_of_next (hframes : turn.frames = []) (hreply : turn.next.reply? = some reply) :
    turn.Settles settings := by
  refine ⟨reply, ?_, ?_⟩
  · rw [Turn.upshot?_of_frames hframes]
    exact hreply
  · rw [Turn.Honours, hframes]
    exact .arrives (.inl hreply)

theorem Turn.settles_of_postponed
    (hpostponed : Postponed settings enforces later turn.next turn.frames)
    (hreply : later.reply? = some reply) : turn.Settles settings := by
  refine ⟨reply, ?_, .postpones hpostponed (.inl hreply)⟩
  rw [Turn.upshot?, hpostponed.upshot?_eq]
  exact hreply

variable [DecidableEq K] [DecidableEq V]

/-- A section of a call whose reply is settled leads on to its end. -/
theorem Stage.honours_turn {stage : Stage K V Q R} {now : Instant} {interrupted : Bool}
    {draws : List K} (hreply : (Activity.keep stage : Activity K V Q R).reply? = some reply)
    (hturn : stage.turn settings s now interrupted draws = some turn) :
    turn.Honours settings reply := by
  cases Stage.sections hturn with
  | receives | consults | hits | moves =>
    obtain rfl := Option.some.inj hreply
    exact .arrives (.inl rfl)
  | @balksAtRead _ _ _ _ panic hresult =>
    obtain rfl := Option.some.inj hreply
    exact .arrives (Activity.honours_settle
      (.inr ⟨panic, rfl, .inr (Settings.readRaises_of_deadlineOfRead hresult)⟩))
  | @handsOut h value hresult =>
    obtain rfl := Option.some.inj hreply
    exact .arrives (Activity.honours_settle (.inl ⟨value, hresult, rfl⟩))
  | @handsOutFirst h value hresult =>
    obtain rfl := Option.some.inj hreply
    exact Store.honours_enforcing s (Activity.honours_settle (.inl ⟨value, hresult, rfl⟩))
  | @balksAtCopy h _ panic hresult =>
    obtain rfl := Option.some.inj hreply
    exact .arrives (Activity.honours_settle
      ((Reply.copies h.value).allows_interference (.inr ⟨h.value, hresult⟩)))
  | misses =>
    obtain rfl := Option.some.inj hreply
    exact .arrives (.inl rfl)
  | expels =>
    obtain rfl := Option.some.inj hreply
    exact Store.honours_reporting _ _ _ _ (.inl rfl)
  | expelsNothing =>
    obtain rfl := Option.some.inj hreply
    exact .arrives (.inl rfl)
  | _ => cases hreply

variable {chance : Chance K R} {w : World K V Q R} {t : Thread K V Q R} {step : Step K V Q R}
  {above base : List (Frame K V Q R)}

/-- A call whose reply is settled goes on to its end, and does not come to another one. -/
theorem Reply.Binds.step_cases (ht : reply.Binds settings t.activity above)
    (hstack : t.stack = above ++ base) (hstep : t.step settings chance w = some step) :
    above = [] ∧ (∃ signal, t.activity = .settle signal) ∨
      ∃ above', step.thread.stack = above' ++ base ∧
        reply.Binds settings step.thread.activity above' := by
  generalize hactivity : t.activity = a at ht
  cases ht with
  | arrives ha =>
    rcases ha with hreply | ⟨signal, rfl, -⟩
    · cases a with
      | settle signal => exact .inl ⟨rfl, signal, rfl⟩
      | keep stage =>
        obtain ⟨turn, hturn, rfl⟩ := Thread.turn_of_step hactivity hstep
        refine .inr ⟨turn.frames, ?_, Stage.honours_turn hreply hturn⟩
        simp [Step.ofStore, Thread.goOn, hstack]
      | _ => cases hreply
    · exact .inl ⟨rfl, signal, rfl⟩
  | postpones hpostponed hlater =>
    subst hactivity
    right
    rcases hpostponed.step_cases hstack hstep with
      ⟨above', hstack', hpostponed'⟩ | ⟨hstack', hnext | ⟨panic, hnext, hpanic⟩⟩
    · exact ⟨above', hstack', .postpones hpostponed' hlater⟩
    · exact ⟨[], hstack', .arrives (hnext ▸ hlater)⟩
    · refine ⟨[], hstack', .arrives (hnext ▸ Activity.honours_settle ?_)⟩
      exact reply.allows_interference (hpanic.imp_left And.right)

omit [DecidableEq V] in
/-- A call whose reply is settled does nothing more about its key. -/
theorem Reply.Binds.act?_eq_none {key : K} {passage : Passage K V Q R}
    (ht : passage.thread? = some t) (hbinds : reply.Binds settings t.activity above)
    (hstack : t.stack = above ++ base) (hattends : t.attends base.length = true)
    (hgoes : above = [] → ∀ signal, t.activity ≠ .settle signal) :
    passage.act? settings key = none := by
  have hstaged : ∀ stage, t.activity = .keep stage → passage.sectionAct? key stage = none →
      passage.act? settings key = none := by
    intro stage hactivity hnone
    obtain ⟨activity, stack, binding⟩ := t
    obtain rfl : activity = .keep stage := hactivity
    rw [Passage.act?, ht]
    exact hnone
  generalize hactivity : t.activity = a at hbinds
  cases hbinds with
  | arrives ha =>
    rcases ha with hreply | ⟨signal, rfl, -⟩
    · cases a with
      | settle signal => exact absurd hactivity (hgoes rfl signal)
      | keep stage =>
        refine hstaged stage hactivity ?_
        cases stage <;> first | rfl | cases hreply
      | _ => cases hreply
    · exact absurd hactivity (hgoes rfl signal)
  | postpones hpostponed =>
    subst hactivity
    rcases hpostponed.attended hstack hattends with
      ⟨stage, hactivity, hstage⟩ | ⟨signal, frame, rest, hsettle, htop, hframe⟩
    · refine hstaged stage hactivity ?_
      rcases hstage with hstage | ⟨other, h, cause, rfl⟩ | ⟨other, h, now, rfl⟩
      · cases stage <;> first | rfl | cases hstage
      · rfl
      · rfl
    · obtain ⟨activity, stack, binding⟩ := t
      obtain rfl : activity = .settle signal := hsettle
      obtain rfl : stack = frame :: rest := htop
      rw [Passage.act?, ht]
      cases frame with
      | computing c => exact absurd rfl (hframe c)
      | _ => rfl

omit [DecidableEq K] [DecidableEq V] in
/-- A call that is over has an end that its reply allows. -/
theorem Reply.Binds.allows {signal : Signal V}
    (hbinds : reply.Binds settings (.settle signal : Activity K V Q R) []) :
    reply.Allows settings signal := by
  generalize habove : ([] : List (Frame K V Q R)) = above at hbinds
  cases hbinds with
  | arrives ha => exact ha.allows
  | postpones hpostponed => exact absurd habove.symm hpostponed.ne_nil

end Binds

end SharedCache
