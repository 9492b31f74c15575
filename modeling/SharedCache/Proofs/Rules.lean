import SharedCache.Proofs.Records

/-!
# Steady references

Where no collaborator panics the reference decides every operation, and the store consults its
collaborators as the reference does: it prepares the same records, reads the same deadlines and
hands out the same copies.
-/

namespace SharedCache

variable {K V Q R : Type} {settings : Settings K V Q R} {ref : Reference K V} {now : Instant}
  {key : K} {value : V} {r : Record V} {h : Holder V}

/-! ## Nothing is left undecided -/

namespace Settings.Steady

theorem lifetime (hsteady : settings.Steady) (ref : Reference K V) (now : Instant) (key : K)
    (stored : V) : ∃ lifetime, ref.lifetime settings now key stored = .ok lifetime := by
  unfold Reference.lifetime
  cases hexpiry : settings.expiry with
  | none => exact ⟨none, rfl⟩
  | some e =>
    cases ref.visible now key with
    | none => exact hsteady.onCreate e hexpiry key stored now
    | some r => exact hsteady.onUpdate e hexpiry key stored now (r.left now)

theorem record (hsteady : settings.Steady) (ref : Reference K V) (now : Instant) (key : K)
    (value : V) : ∃ r, ref.record settings now key value = .ok r := by
  obtain ⟨stored, hstored⟩ := hsteady.copyIn value
  obtain ⟨lifetime, hlifetime⟩ := hsteady.lifetime ref now key stored
  refine ⟨⟨stored, now, lifetime.map now.saturatingAdd⟩, ?_⟩
  rw [Reference.record, hstored]
  change (ref.lifetime settings now key stored >>= _) = _
  rw [hlifetime]
  rfl

theorem deadline (hsteady : settings.Steady) (now : Instant) (key : K) (r : Record V) :
    ∃ deadline, Reference.deadline settings now key r = .ok deadline := by
  unfold Reference.deadline
  cases hexpiry : settings.expiry with
  | none => exact ⟨r.deadline, rfl⟩
  | some e =>
    obtain ⟨lifetime, hlifetime⟩ :=
      hsteady.onRead e hexpiry key r.value now (r.left now) r.writtenAt
    refine ⟨lifetime.map now.saturatingAdd, ?_⟩
    dsimp only
    rw [hlifetime]
    rfl

variable [DecidableEq K]

theorem write (hsteady : settings.Steady) (ref : Reference K V) (now : Instant) (key : K)
    (value : V) (answer : Answer V) :
    ∃ r, ref.record settings now key value = .ok r ∧
      (ref.write settings now key value answer : Except Panic (Course K V Q R)) =
        .ok (.decided (Function.update ref key (some r)) answer) := by
  obtain ⟨r, hr⟩ := hsteady.record ref now key value
  refine ⟨r, hr, ?_⟩
  rw [Reference.write, hr]
  rfl

theorem read (hsteady : settings.Steady) (ref : Reference K V) (now : Instant) (key : K)
    (r : Record V) : ∃ deadline copy, Reference.deadline settings now key r = .ok deadline ∧
      settings.copyOut r.value = .ok copy ∧
      (ref.read settings now key r : Except Panic (Course K V Q R)) =
        .ok (.decided (Function.update ref key (some { r with deadline := deadline }))
          (.value (some copy))) := by
  obtain ⟨deadline, hdeadline⟩ := hsteady.deadline now key r
  obtain ⟨copy, hcopy⟩ := hsteady.copyOut r.value
  refine ⟨deadline, copy, hdeadline, hcopy, ?_⟩
  rw [Reference.read, hdeadline]
  change (settings.copyOut r.value >>= _) = _
  rw [hcopy]
  rfl

omit [DecidableEq K] in
/-- What a mapping function is shown is a copy of what the key has. -/
theorem ask (hsteady : settings.Steady) (ref : Reference K V) (now : Instant) (key : K)
    (code : K → Option V → Script K V Q R) (r : Option (Record V)) :
    ∃ shown, settings.Shows (r.map Record.value) shown ∧
      ref.ask settings now key code r = .ok (.asking ref now key shown (code key shown)) := by
  cases r with
  | none => exact ⟨none, rfl, rfl⟩
  | some r =>
    obtain ⟨copy, hcopy⟩ := hsteady.copyOut r.value
    refine ⟨some copy, ⟨copy, hcopy, rfl⟩, ?_⟩
    rw [Reference.ask, hcopy]
    rfl

/-- The reference begins every operation. -/
theorem begin [DecidableEq V] (hsteady : settings.Steady) (ref : Reference K V) (now : Instant)
    (operation : Operation K V Q R) : ∃ course, ref.begin settings now operation = .ok course := by
  have hwrite : ∀ key value answer, ∃ course,
      (ref.write settings now key value answer : Except Panic (Course K V Q R)) = .ok course :=
    fun key value answer =>
      let ⟨_, _, hcourse⟩ := hsteady.write ref now key value answer
      ⟨_, hcourse⟩
  have hread : ∀ key r, ∃ course,
      (ref.read settings now key r : Except Panic (Course K V Q R)) = .ok course :=
    fun key r =>
      let ⟨_, _, _, _, hcourse⟩ := hsteady.read ref now key r
      ⟨_, hcourse⟩
  have hask : ∀ key (code : K → Option V → Script K V Q R) r, ∃ course,
      ref.ask settings now key code r = .ok course :=
    fun key code r =>
      let ⟨_, _, hcourse⟩ := hsteady.ask ref now key code r
      ⟨_, hcourse⟩
  cases operation with
  | get key =>
    cases hvisible : ref.visible now key with
    | none => exact ⟨_, by rw [Reference.begin, hvisible]; rfl⟩
    | some r => simpa [Reference.begin, hvisible] using hread key r
  | contains key => exact ⟨_, rfl⟩
  | put key value => exact hwrite _ value _
  | putIfAbsent key value =>
    cases hvisible : ref.visible now (settings.copyKey key) with
    | none => simpa [Reference.begin, hvisible] using hwrite _ value _
    | some r => simpa [Reference.begin, hvisible] using hread _ r
  | replace key value =>
    cases hvisible : ref.visible now (settings.copyKey key) with
    | none => exact ⟨_, by rw [Reference.begin, hvisible]; rfl⟩
    | some r =>
      obtain ⟨copy, hcopy⟩ := hsteady.copyOut r.value
      obtain ⟨course, hcourse⟩ := hwrite (settings.copyKey key) value (.value (some copy))
      refine ⟨course, ?_⟩
      rw [Reference.begin, hvisible]
      dsimp only
      rw [hcopy]
      exact hcourse
  | replaceIfEqual key expected value =>
    cases hvisible : ref.visible now (settings.copyKey key) with
    | none => exact ⟨_, by rw [Reference.begin, hvisible]; rfl⟩
    | some r =>
      by_cases hequal : r.value = expected
      · simpa [Reference.begin, hvisible, hequal] using hwrite _ value _
      · exact ⟨_, by rw [Reference.begin, hvisible]; exact if_neg hequal⟩
  | remove key =>
    cases hvisible : ref.visible now key with
    | none => exact ⟨_, by rw [Reference.begin, hvisible]; rfl⟩
    | some r =>
      obtain ⟨copy, hcopy⟩ := hsteady.copyOut r.value
      refine ⟨.decided (Function.update ref key none) (.value (some copy)), ?_⟩
      rw [Reference.begin, hvisible]
      dsimp only
      rw [hcopy]
      rfl
  | removeIfEqual key expected =>
    cases hvisible : ref.visible now key with
    | none => exact ⟨_, by rw [Reference.begin, hvisible]; rfl⟩
    | some r =>
      by_cases hequal : r.value = expected
      · exact ⟨_, by rw [Reference.begin, hvisible]; exact if_pos hequal⟩
      · exact ⟨_, by rw [Reference.begin, hvisible]; exact if_neg hequal⟩
  | clear => exact ⟨_, rfl⟩
  | computeIfAbsent key mapping =>
    cases hvisible : ref.visible now (settings.copyKey key) with
    | none => simpa [Reference.begin, hvisible] using hask _ _ none
    | some r => simpa [Reference.begin, hvisible] using hread _ r
  | compute key remapping => exact hask _ _ _
  | computeIfPresent key remapping =>
    cases hvisible : ref.visible now (settings.copyKey key) with
    | none => exact ⟨_, by rw [Reference.begin, hvisible]; rfl⟩
    | some r => simpa [Reference.begin, hvisible] using hask _ _ (some r)

end Settings.Steady

/-! ## The store consults as the reference does -/

theorem Reference.record_eq_ok (hrecord : ref.record settings now key value = .ok r) :
    settings.copyIn value = .ok r.value ∧ r.writtenAt = now ∧ ∃ lifetime,
      ref.lifetime settings now key r.value = .ok lifetime ∧
        r.deadline = lifetime.map now.saturatingAdd := by
  unfold record at hrecord
  cases hstored : settings.copyIn value with
  | error p =>
    rw [hstored] at hrecord
    cases hrecord
  | ok stored =>
    rw [hstored] at hrecord
    change (ref.lifetime settings now key stored >>= _) = _ at hrecord
    cases hlifetime : ref.lifetime settings now key stored with
    | error p =>
      rw [hlifetime] at hrecord
      cases hrecord
    | ok lifetime =>
      rw [hlifetime] at hrecord
      obtain rfl := Except.ok.inj hrecord
      exact ⟨rfl, rfl, lifetime, hlifetime, rfl⟩

namespace Settings.Steady

variable {s : Store K V}

/-- A draft is the record that the reference writes, with a weight. -/
theorem draft_of_record (hsteady : settings.Steady) {previous : Option (Holder V)}
    (hvisible : ref.visible now key = previous.map (Holder.record s.deadlines))
    (hrecord : ref.record settings now key value = .ok r) :
    ∃ weight, (settings.draft key value now (previous.map fun h => s.timeLeft h now)).result =
      .ok ⟨r.value, r.writtenAt, r.deadline, weight⟩ := by
  obtain ⟨hstored, hwritten, lifetime, hlifetime, hdeadline⟩ := Reference.record_eq_ok hrecord
  have htake : (settings.takeIn value).result = .ok r.value := hstored
  have hlives : (settings.lifetimeOfWrite key r.value now
      (previous.map fun h => s.timeLeft h now)).result = .ok lifetime := by
    rw [← hlifetime, Reference.lifetime, hvisible]
    cases hexpiry : settings.expiry with
    | none => simp [Settings.lifetimeOfWrite, hexpiry, Consultation.answer, pure, Except.pure]
    | some e =>
      cases previous <;> simp only [Settings.lifetimeOfWrite, hexpiry] <;> rfl
  obtain ⟨weight, hweight⟩ := hsteady.weigh key r.value
  refine ⟨weight, ?_⟩
  rw [Settings.draft, Consultation.result_bind_of_ok htake, Consultation.result_bind_of_ok hlives,
    Consultation.result_bind_of_ok hweight, hwritten, hdeadline]
  rfl

end Settings.Steady

/-- The deadline that a read leaves is the one that the reference gives the record. -/
theorem Settings.deadlineOfRead_of_deadline {s : Store K V} {deadline : Option Instant}
    (hdeadline : Reference.deadline settings now key (h.record s.deadlines) = .ok deadline) :
    ∃ moved, (settings.deadlineOfRead key h.value now (s.timeLeft h now) h.writtenAt).result =
      .ok moved ∧ deadline = moved.getD (h.record s.deadlines).deadline := by
  unfold Reference.deadline at hdeadline
  unfold Settings.deadlineOfRead
  cases hexpiry : settings.expiry with
  | none =>
    rw [hexpiry] at hdeadline
    exact ⟨none, rfl, (Except.ok.inj hdeadline).symm⟩
  | some e =>
    rw [hexpiry] at hdeadline
    change (e.onRead key h.value now (s.timeLeft h now) h.writtenAt >>= _) = _ at hdeadline
    cases hlifetime : e.onRead key h.value now (s.timeLeft h now) h.writtenAt with
    | error p =>
      rw [hlifetime] at hdeadline
      cases hdeadline
    | ok lifetime =>
      rw [hlifetime] at hdeadline
      have hcall : (Consultation.call (.askedOnRead key h.value now (s.timeLeft h now) h.writtenAt)
          (Except.ok lifetime)).result = .ok lifetime := rfl
      refine ⟨some (lifetime.map now.saturatingAdd), ?_, (Except.ok.inj hdeadline).symm⟩
      dsimp only
      rw [hlifetime, Consultation.result_bind_of_ok hcall]
      rfl

end SharedCache
