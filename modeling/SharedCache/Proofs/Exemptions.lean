import SharedCache.Proofs.Patience
import SharedCache.Proofs.Readings

/-!
# Exemptions

An entry without a deadline never expires.  Whether it has one is decided by the answers of the
expiry and by nothing else: a holder gets a deadline for any lifetime that it is granted, however
long, and loses it only if the expiry, asked about a read of it and told how much time it has left,
answers that it is not to expire.
-/

namespace SharedCache

variable {K V Q R : Type}

/-- The event is a question to the expiry about a value that is written, or about one that is read
and has a deadline, and the answer is no lifetime at all. -/
def Expiry.Exempts (e : Expiry K V) : Event K V → Prop
  | .askedOnCreate key value now => e.onCreate key value now = .ok none
  | .askedOnUpdate key value now left => e.onUpdate key value now left = .ok none
  | .askedOnRead key value now left writtenAt =>
    left ≠ none ∧ e.onRead key value now left writtenAt = .ok none
  | _ => False

/-- In the passage the holder with this number is made, or the expiry asked about a read of it, and
the answer exempts it. -/
def Passage.Exempts (e : Expiry K V) (p : Passage K V Q R) (id : Nat) : Prop :=
  (p.before.world.store.Makes p.after.world.store id ∨ ∃ key h now thenEnforce,
    p.stage? = some (.consult key h now thenEnforce) ∧ h.id = id) ∧
  ∃ event ∈ p.events, e.Exempts event

/-- The holder with this number has a deadline. -/
def Store.Dated (s : Store K V) (id : Nat) : Prop :=
  ∃ mark deadline, s.deadlines[id]? = some mark ∧ mark.instant? = some deadline

theorem Store.Dated.congr {s s' : Store K V} {id : Nat} (hdated : s.Dated id)
    (hsame : s'.deadlines[id]? = s.deadlines[id]?) : s'.Dated id := by
  obtain ⟨mark, deadline, hmark, hdeadline⟩ := hdated
  exact ⟨mark, deadline, hsame.trans hmark, hdeadline⟩

theorem Store.Dated.exists_deadline {s : Store K V} {h : Holder V} (hdated : s.Dated h.id) :
    ∃ deadline, s.deadline h = some deadline := by
  obtain ⟨mark, deadline, hmark, hdeadline⟩ := hdated
  refine ⟨deadline, ?_⟩
  rw [Store.deadline, hmark]
  exact hdeadline

/-! ## Answers -/

section Answers

namespace Consultation

variable {α β : Type} {c : Consultation K V α} {next : α → Consultation K V β}
  {event : Event K V} {a : α}

theorem mem_events_bind_left (hevent : event ∈ c.events) : event ∈ (c >>= next).events := by
  change event ∈ (c.andThen next).events
  rw [andThen]
  split
  · exact hevent
  · exact List.mem_append_left _ hevent

theorem mem_events_bind_right (hresult : c.result = .ok a) (hevent : event ∈ (next a).events) :
    event ∈ (c >>= next).events := by
  change event ∈ (c.andThen next).events
  rw [andThen, hresult]
  exact List.mem_append_right _ hevent

end Consultation

variable {settings : Settings K V Q R} {e : Expiry K V} {key : K} {value : V} {now : Instant}

/-- A value that is written with no lifetime was exempted. -/
theorem Settings.exempts_of_lifetimeOfWrite (hexpiry : settings.expiry = some e)
    {previous : Option (Option Duration)}
    (hresult : (settings.lifetimeOfWrite key value now previous).result = .ok none) :
    ∃ event ∈ (settings.lifetimeOfWrite key value now previous).events, e.Exempts event := by
  cases previous with
  | none =>
    simp only [lifetimeOfWrite, hexpiry] at hresult ⊢
    exact ⟨.askedOnCreate key value now, List.mem_singleton_self _, hresult⟩
  | some left =>
    simp only [lifetimeOfWrite, hexpiry] at hresult ⊢
    exact ⟨.askedOnUpdate key value now left, List.mem_singleton_self _, hresult⟩

/-- A draft without a deadline was exempted. -/
theorem Settings.exempts_of_draft (hexpiry : settings.expiry = some e)
    {previous : Option (Option Duration)} {d : Draft V}
    (hdraft : (settings.draft key value now previous).result = .ok d)
    (hnone : d.deadline = none) :
    ∃ event ∈ (settings.draft key value now previous).events, e.Exempts event := by
  obtain ⟨stored, hstored, hrest⟩ := Consultation.result_bind hdraft
  obtain ⟨lifetime, hlifetime, hrest⟩ := Consultation.result_bind hrest
  obtain ⟨weight, -, hpure⟩ := Consultation.result_bind hrest
  obtain rfl := Except.ok.inj hpure
  obtain rfl : lifetime = none := Option.map_eq_none_iff.mp hnone
  obtain ⟨event, hevent, hexempts⟩ := exempts_of_lifetimeOfWrite hexpiry hlifetime
  refine ⟨event, ?_, hexempts⟩
  exact Consultation.mem_events_bind_right hstored (Consultation.mem_events_bind_left hevent)

theorem Settings.exempts_of_deadlineOfRead (hexpiry : settings.expiry = some e)
    {left : Option Duration} {writtenAt : Instant} (hleft : left ≠ none)
    (hresult : (settings.deadlineOfRead key value now left writtenAt).result = .ok (some none)) :
    ∃ event ∈ (settings.deadlineOfRead key value now left writtenAt).events,
      e.Exempts event := by
  simp only [deadlineOfRead, hexpiry] at hresult ⊢
  obtain ⟨lifetime, hanswer, hpure⟩ := Consultation.result_bind hresult
  obtain rfl : lifetime = none := Option.map_eq_none_iff.mp (Option.some.inj (Except.ok.inj hpure))
  exact ⟨.askedOnRead key value now left writtenAt,
    Consultation.mem_events_bind_left (List.mem_singleton_self _), hleft, hanswer⟩

/-- A read that is about to take a deadline away has been told so by the expiry. -/
theorem Store.exempts_of_consult (hexpiry : settings.expiry = some e) {s : Store K V}
    {h h' : Holder V} {thenEnforce thenEnforce' : Bool} (hleft : s.timeLeft h now ≠ none)
    (hnext : (s.consult settings key h now thenEnforce).next =
      .keep (.refresh h' (some none) thenEnforce')) :
    ∃ event ∈ (s.consult settings key h now thenEnforce).events, e.Exempts event := by
  rw [consult, Turn.consulting] at hnext ⊢
  split at hnext
  · rename_i deadline hresult
    obtain ⟨-, rfl, -⟩ := Stage.refresh.inj (Activity.keep.inj hnext)
    obtain ⟨event, hevent, hexempts⟩ := Settings.exempts_of_deadlineOfRead hexpiry hleft hresult
    exact ⟨event, List.mem_append_left _ hevent, hexempts⟩
  · cases hnext

end Answers

variable [DecidableEq K] [DecidableEq V] {settings : Settings K V Q R} {e : Expiry K V}
  {start m : Machine K V Q R} {trace : List (Passage K V Q R)} {id : Nat}

/-! ## Passages -/

omit [DecidableEq K] [DecidableEq V] in
/-- A holder that is made without a deadline is exempted. -/
theorem Passage.IsSection.dated_or_exempts {p : Passage K V Q R} {stage : Stage K V Q R}
    {turn : StoreTurn K V Q R} (hsection : p.IsSection stage turn)
    (hexpiry : settings.expiry = some e) (hdates : turn.Dates settings p.before.world.store)
    (hold : p.before.world.store.deadlines.size ≤ id)
    (hid : id < p.after.world.store.deadlines.size) :
    p.after.world.store.Dated id ∨ p.Exempts e id := by
  rw [hsection.store] at hid ⊢
  cases hdates with
  | keeps hdeadlines =>
    rw [hdeadlines] at hid
    omega
  | @adds key value now previous d hdraft hevents hdeadlines =>
    have hsize : id = p.before.world.store.deadlines.size := by
      rw [hdeadlines, Array.size_push] at hid
      omega
    cases hdeadline : d.deadline with
    | some deadline =>
      exact .inl ⟨Mark.ofInstant? d.deadline, deadline, by rw [hdeadlines, hsize]; simp,
        by rw [Mark.instant?_ofInstant?, hdeadline]⟩
    | none =>
      obtain ⟨event, hevent, hexempts⟩ := Settings.exempts_of_draft hexpiry hdraft hdeadline
      have hmakes : p.before.world.store.Makes p.after.world.store id := by
        refine ⟨hsize, ?_⟩
        rw [hsection.store, hdeadlines, Array.size_push]
        omega
      exact .inr ⟨.inl hmakes, event, by rw [hsection.events]; exact hevents event hevent,
        hexempts⟩

/-- A holder has a deadline after a passage if it had one before, unless the passage takes it
away; and a holder that is made has one or is exempted. -/
theorem Passage.Lawful.dated_cases {p : Passage K V Q R} (hp : p.Lawful settings)
    (hm : p.before.Reachable settings) (hexpiry : settings.expiry = some e)
    (hid : id < p.after.world.store.deadlines.size) :
    p.after.world.store.Dated id ∨ p.Exempts e id ∨
      (id < p.before.world.store.deadlines.size ∧ ¬ p.before.world.store.Dated id) ∨
      ∃ h thenEnforce, p.stage? = some (.refresh h (some none) thenEnforce) ∧ h.id = id := by
  by_cases hold : id < p.before.world.store.deadlines.size
  · by_cases hrefreshes : p.Refreshes id
    · obtain ⟨h, deadline, thenEnforce, hstage, rfl⟩ := hrefreshes
      obtain ⟨interrupted, draws, turn, hturn, hsection⟩ := hp.isSection hstage
      obtain rfl := Option.some.inj hturn
      rcases deadline with - | - | deadline
      · by_cases hdated : p.before.world.store.Dated h.id
        · exact .inl (hdated.congr (by rw [hsection.store]; rfl))
        · exact .inr (.inr (.inl ⟨hold, hdated⟩))
      · exact .inr (.inr (.inr ⟨h, thenEnforce, hstage, rfl⟩))
      · refine .inl ⟨Mark.ofInstant? (some deadline), deadline, ?_, Mark.instant?_ofInstant? _⟩
        rw [hsection.store]
        exact Array.getElem?_setIfInBounds_self_of_lt hold
    · by_cases hdated : p.before.world.store.Dated id
      · exact .inl (hdated.congr (hp.deadlines_eq hm hold hrefreshes))
      · exact .inr (.inr (.inl ⟨hold, hdated⟩))
  · have hgrows : p.before.world.store.deadlines.size < p.after.world.store.deadlines.size :=
      Nat.lt_of_le_of_lt (Nat.le_of_not_lt hold) hid
    rcases hp.transfer_cases hm with ⟨stage, -, hstage, -, -⟩ | ⟨-, hdeadlines, -⟩
    · obtain ⟨interrupted, draws, turn, hturn, hsection⟩ := hp.isSection hstage
      have hdates : turn.Dates settings p.before.world.store := by
        refine Stage.dates hturn fun h deadline thenEnforce heq => ?_
        subst heq
        obtain rfl := Option.some.inj hturn
        rw [hsection.store] at hgrows
        cases deadline with
        | none => exact absurd hgrows (Nat.lt_irrefl _)
        | some deadline =>
          refine absurd hgrows (Nat.not_lt_of_le (Nat.le_of_eq ?_))
          exact Array.size_setIfInBounds
      rcases hsection.dated_or_exempts hexpiry hdates (Nat.le_of_not_lt hold) hid with
        hdated | hexempts
      · exact .inl hdated
      · exact .inr (.inl hexempts)
    · rw [hdeadlines] at hgrows
      exact absurd hgrows (Nat.lt_irrefl _)

/-! ## Holders of a read -/

/-- What a fault is resolved to was given a deadline. -/
theorem Run.id_lt_of_ready (hstart : start.Fresh settings) (run : Run settings start trace m)
    {fault : Nat} {h : Holder V} (hready : m.world.store.resolution? fault = some (.ready h)) :
    h.id < m.world.store.deadlines.size := by
  induction run with
  | rest =>
    obtain ⟨_, hstore⟩ := Store.of_eq_ok hstart.store
    rw [hstore] at hready
    cases hready
  | @move trace p run hp ih =>
    have hreachable := run.reachable hstart
    have hsize := hp.deadlines_size_le hreachable
    rcases hp.resolved_cases hready with hbefore | ⟨i, t, stage, e, hends, -, hresolution⟩
    · exact Nat.lt_of_lt_of_le (ih hbefore) hsize
    · obtain ⟨c, value, rfl⟩ :=
        run.installs hstart hends.thread hends.activity hends.ending hresolution
      have hmade : t.activity.made = some (c.key, h.id) := by
        rw [hends.activity]
        exact Stage.made_install c h value
      exact Nat.lt_of_lt_of_le (hreachable.numbered.made i t hends.thread _ _ hmade) hsize

/-- What the expiry is asked about at a read was given a deadline. -/
theorem Run.id_lt_of_consult (hstart : start.Fresh settings) (run : Run settings start trace m)
    {front back : List (Passage K V Q R)} {p : Passage K V Q R}
    (htrace : trace = front ++ p :: back)
    {key : K} {h : Holder V} {now : Instant} {thenEnforce : Bool}
    (hstage : p.stage? = some (.consult key h now thenEnforce)) :
    h.id < p.before.world.store.deadlines.size := by
  obtain ⟨i, t, hmover, -, -⟩ := Passage.keep_of_stage? hstage
  obtain ⟨hfront, -, -⟩ := run.split htrace
  -- The number was given before the read has found the holder, and no number is taken back.
  have hlater : ∀ {early late : List (Passage K V Q R)} {q : Passage K V Q R},
      front = early ++ q :: late → h.id < q.before.world.store.deadlines.size →
      h.id < p.before.world.store.deadlines.size := by
    intro early late q hsplit hid
    obtain ⟨hearly, hq, hlate⟩ := hfront.split hsplit
    have hrest := (Run.rest.move hq).append hlate
    exact Nat.lt_of_lt_of_le hid (hrest.deadlines_size_le (hearly.reachable hstart))
  rcases run.found_or_received hstart htrace hmover hstage with ⟨early, hfound⟩ | hreceived
  · cases hfound with
    | looked hlast _ _ _ hlook =>
      obtain ⟨hearly, -, -⟩ := hfront.split hlast.trace
      exact hlater hlast.trace ((hearly.reachable hstart).id_lt (Store.slot_of_live hlook).1)
  · cases hreceived with
    | waited hlast _ _ hlast' _ _ _ hready =>
      have hsplit := hlast.trace
      rw [hlast'.trace, List.append_assoc, List.cons_append] at hsplit
      obtain ⟨hearly, -, -⟩ := hfront.split hsplit
      exact hlater hsplit (hearly.id_lt_of_ready hstart hready)

/-! ## Runs -/

/-- Whoever takes a deadline away has asked the expiry before, which has exempted the holder unless
there was no deadline at that time. -/
theorem Run.asked_of_refresh (hstart : start.Fresh settings) (hexpiry : settings.expiry = some e)
    {p : Passage K V Q R} (run : Run settings start trace p.before) {h : Holder V}
    {thenEnforce : Bool} (hstage : p.stage? = some (.refresh h (some none) thenEnforce)) :
    ∃ front q back, trace = front ++ q :: back ∧ h.id < q.before.world.store.deadlines.size ∧
      (q.before.world.store.Dated h.id → q.Exempts e h.id) := by
  obtain ⟨i, t, -, ht, hactivity⟩ := Passage.keep_of_stage? hstage
  rcases run.last_step hstart ht with ⟨script, rfl⟩ | ⟨front, q, back, hlast, hafter⟩
  · cases hactivity
  obtain ⟨hfront, hlawful, -⟩ := run.split hlast.trace
  obtain ⟨stage, hconsult, hstems⟩ :=
    hlawful.stems (hfront.reachable hstart) hlast.mover hafter hactivity rfl (by simp)
  obtain ⟨key, now, rfl⟩ := hstems
  refine ⟨front, q, back, hlast.trace, run.id_lt_of_consult hstart hlast.trace hconsult,
    fun hdated => ?_⟩
  obtain ⟨interrupted, draws, turn, hturn, hsection⟩ := hlawful.isSection hconsult
  obtain rfl := Option.some.inj hturn
  -- The thread has not moved since, so it is still where the answer has led it.
  have hnext := hsection.next
  rw [Passage.next?, hlast.mover, Option.bind_some, hafter, Option.map_some, hactivity] at hnext
  have hleft : q.before.world.store.timeLeft h now ≠ none := by
    obtain ⟨deadline, hdeadline⟩ := hdated.exists_deadline
    simp [Store.timeLeft, hdeadline]
  obtain ⟨event, hevent, hexempts⟩ :=
    Store.exempts_of_consult hexpiry hleft (Option.some.inj hnext).symm
  refine ⟨.inr ⟨key, h, now, thenEnforce, hconsult, rfl⟩, event, ?_, hexempts⟩
  rw [hsection.events]
  exact hevent

/-- In every run a holder has a deadline, unless an answer of the expiry has exempted it. -/
theorem Run.dated_or_exempted (hstart : start.Fresh settings) (hexpiry : settings.expiry = some e)
    (run : Run settings start trace m) (hid : id < m.world.store.deadlines.size) :
    m.world.store.Dated id ∨ ∃ p ∈ trace, p.Exempts e id := by
  -- The answer that a refresh brings can be older than the step before, so the induction is on the
  -- length.
  induction hlength : trace.length using Nat.strong_induction_on generalizing trace m with
  | _ length ih =>
    cases run with
    | rest =>
      obtain ⟨_, hstore⟩ := Store.of_eq_ok hstart.store
      rw [hstore] at hid
      exact absurd hid (Nat.not_lt_zero id)
    | @move trace p run hp =>
      have hearlier : ∀ {front back : List (Passage K V Q R)}, trace = front ++ back →
          (∃ q ∈ front, q.Exempts e id) → ∃ q ∈ trace ++ [p], q.Exempts e id := by
        rintro front back rfl ⟨q, hq, hexempts⟩
        exact ⟨q, by simp [hq], hexempts⟩
      have hshorter : trace.length < length := by
        rw [← hlength, List.length_append]
        exact Nat.lt_succ_self _
      rcases hp.dated_cases (run.reachable hstart) hexpiry hid with
        hdated | hexempts | ⟨hold, hnone⟩ | ⟨h, thenEnforce, hstage, rfl⟩
      · exact .inl hdated
      · exact .inr ⟨p, by simp, hexempts⟩
      · have hexempted := (ih trace.length hshorter run hold rfl).resolve_left hnone
        exact .inr (hearlier (List.append_nil trace).symm hexempted)
      · obtain ⟨front, q, back, hsplit, hold, hasked⟩ :=
          run.asked_of_refresh hstart hexpiry hstage
        obtain ⟨hfront, -, -⟩ := run.split hsplit
        have hfrontShorter : front.length < length := by
          rw [hsplit, List.length_append] at hshorter
          omega
        rcases ih front.length hfrontShorter hfront hold rfl with hdated | hexempted
        · exact .inr ⟨q, by simp [hsplit], hasked hdated⟩
        · exact .inr (hearlier hsplit hexempted)

end SharedCache
