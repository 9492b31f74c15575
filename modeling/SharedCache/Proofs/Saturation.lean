import SharedCache.Proofs.Exemptions

/-!
# Saturation

Time ends at the horizon.  Whatever is added to an instant, and however it is written down, the only
thing that can happen to the result is that it comes to lie at the horizon: no sum wraps around, and
no instant becomes the word that stands for none.  So the longest lifetime is still a finite one,
and an entry lives for ever only if the expiry has said so.
-/

namespace SharedCache

/-- The words that an instant can have which is made from the origin, from a duration and by
addition. -/
inductive Word.Reached : UInt64 → Prop where
  | origin : Reached 0
  | ofDuration (d : Duration) : Reached (ofDuration d)
  | later {w : UInt64} (d : Duration) : Reached w → Reached (later w d)

namespace Word

variable {w : UInt64}

theorem Reached.le_last (hw : Reached w) : w ≤ last := by
  rw [le_last_iff]
  cases hw with
  | origin => exact Nat.zero_le _
  | ofDuration d =>
    rw [toNat_ofDuration]
    exact Nat.min_le_right _ _
  | later d =>
    rw [toNat_later]
    exact Nat.min_le_right _ _

/-- A word that is a time is the one of the duration that is as long. -/
theorem reached_of_le_last (hw : w ≤ last) : Reached w := by
  have hbound := le_last_iff.1 hw
  have hshort : w.toNat ≤ longestNanos := by
    unfold horizon UInt64.size at hbound
    unfold longestNanos nanosPerSecond UInt64.size
    omega
  have hsame : Word.ofDuration ⟨w.toNat, hshort⟩ = w := by
    rw [← UInt64.toNat_inj, toNat_ofDuration]
    exact Nat.min_eq_left hbound
  exact hsame ▸ Reached.ofDuration _

theorem reached_iff : Reached w ↔ w ≤ last := ⟨Reached.le_last, reached_of_le_last⟩

theorem reached_iff_exists_instant : Reached w ↔ ∃ t : Instant, t.word = w := by
  rw [reached_iff]
  constructor
  · intro hw
    exact ⟨⟨w, hw⟩, rfl⟩
  · rintro ⟨t, rfl⟩
    exact t.word_le

end Word

namespace Instant

/-- The calculation with an instant and with what is made from it. -/
structure Saturates (t : Instant) : Prop where
  /-- No sum wraps around. -/
  sum : ∀ d : Duration, (t.saturatingAdd d).nanos = min (t.nanos + d.nanos) (2 ^ 64 - 2)
  /-- A later instant and a longer duration give no earlier sum. -/
  monotone : ∀ (t' : Instant) (d d' : Duration), t ≤ t' → d.nanos ≤ d'.nanos →
    t.saturatingAdd d ≤ t'.saturatingAdd d'
  /-- Two durations can be added one after the other or at once. -/
  together : ∀ d₁ d₂ d : Duration, d₁.add? d₂ = some d →
    (t.saturatingAdd d₁).saturatingAdd d₂ = t.saturatingAdd d
  /-- The time that is left until a deadline ends there, unless the deadline has passed. -/
  left : ∀ deadline : Instant,
    (t.saturatingAdd (deadline.saturatingSince t)).nanos = max t.nanos deadline.nanos
  /-- The deadline of any lifetime is read as it was written, and is not the word for none. -/
  mark : ∀ d : Duration,
    (Mark.ofInstant? ((some d).map t.saturatingAdd)).instant? = some (t.saturatingAdd d) ∧
      (Mark.ofInstant? ((some d).map t.saturatingAdd)).word.toNat ≠ 2 ^ 64 - 1 ∧
      Mark.unset.word.toNat = 2 ^ 64 - 1

theorem saturates (t : Instant) : t.Saturates := by
  constructor
  case sum =>
    intro d
    exact nanos_saturatingAdd t d
  case monotone =>
    intro t' d d' hle hd
    exact saturatingAdd_le_saturatingAdd hle hd
  case together =>
    intro d₁ d₂ d hd
    exact saturatingAdd_saturatingAdd hd
  case left =>
    intro deadline
    exact nanos_saturatingAdd_saturatingSince t deadline
  case mark =>
    intro d
    refine ⟨Mark.instant?_ofInstant? _, ?_, rfl⟩
    have hbound : (t.saturatingAdd d).word.toNat ≤ 2 ^ 64 - 2 := (t.saturatingAdd d).nanos_le
    change (t.saturatingAdd d).word.toNat ≠ 2 ^ 64 - 1
    omega

end Instant

variable {K V Q R : Type} [DecidableEq K]

/-- Every entry that no answer of the expiry has exempted has a deadline, tells how much time is
left until then, and is expired from then on. -/
def Machine.Ends (m : Machine K V Q R) (e : Expiry K V) (trace : List (Passage K V Q R)) : Prop :=
  ∀ key h, m.slot? key = some (.holder h) → (∀ p ∈ trace, ¬ p.Exempts e h.id) →
    ∃ deadline, m.world.store.deadline h = some deadline ∧ ∀ now,
      m.world.store.timeLeft h now = some (deadline.saturatingSince now) ∧
      (m.world.store.expired h now = true ↔ deadline ≤ now)

variable [DecidableEq V]

/-- In every run the entries end that are not exempted. -/
theorem Run.ends {settings : Settings K V Q R} {e : Expiry K V} {start m : Machine K V Q R}
    {trace : List (Passage K V Q R)} (hstart : start.Fresh settings)
    (hexpiry : settings.expiry = some e) (run : Run settings start trace m) : m.Ends e trace := by
  intro key h hslot hgranted
  have hid := (run.reachable hstart).id_lt hslot
  rcases run.dated_or_exempted hstart hexpiry hid with hdated | ⟨p, hp, hexempts⟩
  · obtain ⟨deadline, hdeadline⟩ := hdated.exists_deadline
    refine ⟨deadline, hdeadline, fun now => ⟨?_, ?_⟩⟩
    · rw [Store.timeLeft, hdeadline]
      rfl
    · rw [Store.expired, hdeadline]
      exact decide_eq_true_iff
  · exact absurd hexempts (hgranted p hp)

/-- Time saturates: no word that is ever reached lies beyond the horizon, all calculation with
instants is exact up to there, and the entries of every run end whose lifetimes are finite. -/
theorem timeSaturates :
    (∀ w, (Word.Reached w ↔ w.toNat ≤ 2 ^ 64 - 2) ∧ (Word.Reached w ↔ ∃ t : Instant, t.word = w)) ∧
      (∀ t : Instant, t.Saturates) ∧
      ∀ (settings : Settings K V Q R) (e : Expiry K V) (start m : Machine K V Q R)
        (trace : List (Passage K V Q R)), settings.expiry = some e → start.Fresh settings →
        Run settings start trace m → m.Ends e trace := by
  refine ⟨fun w => ⟨?_, Word.reached_iff_exists_instant⟩, Instant.saturates, ?_⟩
  · rw [Word.reached_iff, Word.le_last_iff]
    rfl
  · intro settings e start m trace hexpiry hstart run
    exact run.ends hstart hexpiry

/-! ## The longest lifetime -/

omit [DecidableEq K] [DecidableEq V] in
/-- A lifetime exempts nobody, unless it is unlimited. -/
theorem Lifetime.not_exempts {l : Lifetime} (hlimited : l ≠ .unlimited) (event : Event K V) :
    ¬ (l.expiry K V).Exempts event := by
  have hwrite : l.afterWrite ≠ none := by
    obtain ⟨live, idle⟩ := l
    cases live <;> cases idle <;> simp_all [afterWrite, unlimited]
  cases event with
  | askedOnCreate | askedOnUpdate => exact fun hexempts => hwrite (Except.ok.inj hexempts)
  | askedOnRead key value now left writtenAt =>
    rintro ⟨hleft, hanswer⟩
    have hread : l.afterRead now left writtenAt = none := Except.ok.inj hanswer
    obtain ⟨live, idle⟩ := l
    cases live <;> cases idle <;> simp_all [afterRead]
  | _ => exact id

/-- A store whose entries live for as long as can be. -/
def longestSettings : Settings Nat Nat Unit Unit :=
  { plainSettings with expiry := some ((Lifetime.mk (some .longest) none).expiry Nat Nat) }

/-- A thread puts a value and reads it, five nanoseconds past the origin.  Then the clock goes to
the horizon. -/
def longestMoves : List (Move Nat Nat Unit Unit) :=
  [.advance (.ofNanos 5), .spawn (.call (.put 1 7) fun _ => .call (.get 1) .finish)] ++
    List.replicate 13 (.step 0 .none) ++ [.advance (.ofNanos horizon)]

/-- Even the longest lifetime is over at the horizon. -/
theorem longest_lifetime_ends : ∃ (start m : Machine Nat Nat Unit Unit)
    (trace : List (Passage Nat Nat Unit Unit)) (h : Holder Nat), start.Fresh longestSettings ∧
      Run longestSettings start trace m ∧ m.slot? 1 = some (.holder h) ∧
      m.world.clock.now.nanos = horizon ∧ m.world.store.expired h m.world.clock.now = true := by
  have hfacts : (Machine.replay longestSettings longestMoves).map (fun run =>
      (((run.2.slot? 1).bind Slot.holder?).isSome, run.2.world.clock.now.nanos)) =
      some (true, horizon) := by
    decide +kernel
  obtain ⟨⟨trace, m⟩, hreplay, hpair⟩ := Option.map_eq_some_iff.mp hfacts
  obtain ⟨hheld, hnow⟩ := Prod.mk.inj hpair
  obtain ⟨start, hstart, run⟩ := Machine.run_of_replay hreplay
  obtain ⟨h, hholder⟩ := Option.isSome_iff_exists.mp hheld
  obtain ⟨slot, hslot, hh⟩ := Option.bind_eq_some_iff.mp hholder
  obtain rfl := Slot.holder?_eq_some_iff.mp hh
  have hends := timeSaturates.2.2 longestSettings _ start m trace rfl hstart run
  obtain ⟨deadline, -, hdeadline⟩ := hends 1 h hslot fun p _ hexempts => by
    obtain ⟨-, event, -, hevent⟩ := hexempts
    exact Lifetime.not_exempts (by decide) event hevent
  have hreached : deadline ≤ m.world.clock.now := by
    rw [Instant.le_def, hnow]
    exact deadline.nanos_le
  exact ⟨start, m, trace, h, hstart, run, hslot, hnow,
    (hdeadline m.world.clock.now).2.mpr hreached⟩

end SharedCache
