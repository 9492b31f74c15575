import Mathlib.Algebra.Order.BigOperators.Group.List
import Mathlib.Algebra.Order.Ring.Nat
import SharedCache.Proofs.SectionEffects

/-!
# Accounting

The two counters of a store are right between any two sections, whatever the threads do: the number
of entries is the number of keys whose slot has a holder, and the total weight is the sum over just
these of what the weigher gave for the stored value, but at least one each.

The weight of a holder is settled when the holder is made, before it has a slot, so the invariant
speaks about holders outside the map, too: those that a computation is about to install, and those
that it would put back.
-/

namespace SharedCache

variable {K V Q R : Type}

/-- The holders that a computation may put into the slot of its key have the weights they should
have there. -/
structure Progress.Weighed (settings : Settings K V Q R) (c : Computation K V Q R)
    (progress : Progress V) : Prop where
  previous : ∀ h, c.previous = some h → settings.Weighs c.key h.value h.weight
  leaving : ∀ h resolution signal, progress = .leaving (some h) resolution signal →
    settings.Weighs c.key h.value h.weight

/-- All computations among what is going on do. -/
def Weighed (settings : Settings K V Q R) (ongoing : List (Ongoing K V Q R)) : Prop :=
  ∀ c progress, .computes c progress ∈ ongoing → progress.Weighed settings c

/-- A function whose end lets the computation leave a holder lets it leave the previous one. -/
theorem Computation.previous_of_progress {c : Computation K V Q R} {signal out : Signal V}
    {h : Holder V} {resolution : Resolution V}
    (hprogress : c.progress signal = .leaving (some h) resolution out) : c.previous = some h := by
  obtain ⟨key, fault, previous, isRequest, code⟩ := c
  cases signal with
  | raised p => exact (Progress.leaving.inj hprogress).1
  | done answer =>
    cases answer with
    | complaint text =>
      cases previous with
      | none => cases hprogress
      | some h' => exact (Progress.leaving.inj hprogress).1
    | value v => cases v <;> cases hprogress
    | _ => cases hprogress

/-- A computation goes on with holders of the right weight. -/
theorem Progress.Weighed.goesOn {settings : Settings K V Q R} {c : Computation K V Q R}
    {progress progress' : Progress V} (hweighed : progress.Weighed settings c)
    (hprogress : ∀ h resolution signal, progress' = .leaving (some h) resolution signal →
      c.previous = some h) : progress'.Weighed settings c :=
  ⟨hweighed.previous, fun h resolution signal hleaving =>
    hweighed.previous h (hprogress h resolution signal hleaving)⟩

theorem Weighed.of_singleton {settings : Settings K V Q R} {c : Computation K V Q R}
    {progress : Progress V} {ongoing : List (Ongoing K V Q R)}
    (hongoing : ongoing = [.computes c progress]) (hweighed : progress.Weighed settings c) :
    Weighed settings ongoing := by
  intro c' progress' hmem
  rw [hongoing, List.mem_singleton] at hmem
  obtain ⟨rfl, rfl⟩ := Ongoing.computes.inj hmem
  exact hweighed

theorem Weighed.of_no_computes {settings : Settings K V Q R} {ongoing : List (Ongoing K V Q R)}
    (hnone : ∀ c progress, .computes c progress ∉ ongoing) : Weighed settings ongoing :=
  fun c progress hmem => absurd hmem (hnone c progress)

theorem Weighed.of_nil {settings : Settings K V Q R} {ongoing : List (Ongoing K V Q R)}
    (hongoing : ongoing = []) : Weighed settings ongoing := by
  intro c progress hmem
  rw [hongoing] at hmem
  cases hmem

theorem Weighed.append {settings : Settings K V Q R} {front back : List (Ongoing K V Q R)} :
    Weighed settings (front ++ back) ↔ Weighed settings front ∧ Weighed settings back := by
  constructor
  · intro hweighed
    exact ⟨fun c progress hmem => hweighed c progress (List.mem_append_left _ hmem),
      fun c progress hmem => hweighed c progress (List.mem_append_right _ hmem)⟩
  · rintro ⟨hfront, hback⟩ c progress hmem
    rcases List.mem_append.mp hmem with hmem | hmem
    · exact hfront c progress hmem
    · exact hback c progress hmem

variable [DecidableEq K]

/-- The counters of a map are right. -/
structure EntryMap.Accounted (settings : Settings K V Q R) (m : EntryMap K V) : Prop where
  valid : m.Valid
  balanced : m.Balanced
  weighed : ∀ key h, m.get? key = some (.holder h) → settings.Weighs key h.value h.weight

/-- A change puts only holders of the right weight into slots. -/
def Edit.Weighed (settings : Settings K V Q R) : Edit K V → Prop
  | .put key (.holder h) => settings.Weighs key h.value h.weight
  | _ => True

namespace EntryMap

variable {settings : Settings K V Q R} {m : EntryMap K V}

theorem Accounted.edit (hm : m.Accounted settings) {e : Edit K V} (he : e.Weighed settings) :
    (m.edit e).Accounted settings := by
  refine ⟨hm.valid.edit e, hm.balanced.edit hm.valid e, fun key h hget => ?_⟩
  cases e with
  | put other slot =>
    rw [EntryMap.edit, hm.valid.get?_insert] at hget
    split at hget
    · rename_i hkey
      obtain rfl := Option.some.inj hget
      rw [hkey]
      exact he
    · exact hm.weighed key h hget
  | erase other =>
    rw [EntryMap.edit, hm.valid.get?_erase] at hget
    split at hget
    · cases hget
    · exact hm.weighed key h hget
  | clear segment =>
    rw [EntryMap.edit, get?_clearSegment] at hget
    split at hget
    · cases hget
    · exact hm.weighed key h hget

theorem Accounted.edited (hm : m.Accounted settings) {edits : List (Edit K V)}
    (hedits : ∀ e ∈ edits, e.Weighed settings) : (m.edited edits).Accounted settings := by
  induction edits generalizing m with
  | nil => exact hm
  | cons e edits ih =>
    have hfirst := hm.edit (hedits e List.mem_cons_self)
    exact ih hfirst fun later hlater => hedits later (List.mem_cons_of_mem e hlater)

end EntryMap

variable [DecidableEq V]

section Step

variable {settings : Settings K V Q R} {s : Store K V} {stage : Stage K V Q R}
  {turn : StoreTurn K V Q R} {now : Instant}

/-- A visit writes a weighed value, and keeps no other holder for later than the live one. -/
theorem Store.Visit.accounts {operation : Operation K V Q R}
    (hvisit : s.Visit settings now operation turn) (hm : s.map.Accounted settings) :
    (∃ edits, turn.state.map = s.map.edited edits ∧ ∀ e ∈ edits, e.Weighed settings) ∧
      Weighed settings turn.ongoing := by
  cases hvisit with
  | keeps _ _ hstill => exact ⟨⟨[], hstill.map, by simp⟩, .of_nil hstill.ongoing⟩
  | waits _ _ hspares hnext hframes =>
    refine ⟨⟨[], hspares.map, by simp⟩, .of_no_computes fun c progress => ?_⟩
    simp [Turn.ongoing, hnext, hframes, Stage.ongoing]
  | @writes key value h hkey _ hgives hvalue hweight hmap hfaults hnone henforces =>
    exact ⟨⟨[.put key (.holder h)], hmap, by simpa [Edit.Weighed] using hweight⟩, .of_nil hnone⟩
  | @removes key hkey hwhy hmap hfaults hnone =>
    exact ⟨⟨[.erase key], hmap, by simp [Edit.Weighed]⟩, .of_nil hnone⟩
  | @begins c m hkey hcomputes hfree hc hm' hmap hfaults hone hthread =>
    constructor
    · rcases hm' with rfl | ⟨-, rfl⟩
      · exact ⟨[.put c.key (.fault c.fault)], hmap, by simp [Edit.Weighed]⟩
      · exact ⟨[.erase c.key, .put c.key (.fault c.fault)], hmap, by simp [Edit.Weighed]⟩
    · refine .of_singleton hone ⟨fun h hprevious => ?_, by simp⟩
      rw [hc] at hprevious
      exact hm.weighed c.key h (Store.get?_of_live hprevious)

/-- Every section changes the counters together with the slots. -/
theorem Stage.Deed.accounts (hdeed : stage.Deed settings s turn)
    (hm : s.map.Accounted settings) (hstage : Weighed settings stage.ongoing) :
    (∃ edits, turn.state.map = s.map.edited edits ∧ ∀ e ∈ edits, e.Weighed settings) ∧
      Weighed settings turn.ongoing := by
  cases hdeed with
  | visits hvisit => exact hvisit.accounts hm
  | keeps _ hstill => exact ⟨⟨[], hstill.map, by simp⟩, .of_nil hstill.ongoing⟩
  | looks hnext hframes hspares =>
    refine ⟨⟨[], hspares.map, by simp⟩, .of_no_computes fun c progress => ?_⟩
    simp [Turn.ongoing, hnext, hframes, Stage.ongoing]
  | resumes _ _ hnext hframes hspares =>
    refine ⟨⟨[], hspares.map, by simp⟩, .of_no_computes fun c progress => ?_⟩
    simp [Turn.ongoing, hnext, hframes, Stage.ongoing]
  | shares _ _ hstill => exact ⟨⟨[], hstill.map, by simp⟩, .of_nil hstill.ongoing⟩
  | givesUp _ _ hstill => exact ⟨⟨[], hstill.map, by simp⟩, .of_nil hstill.ongoing⟩
  | @expels _ _ key h _ _ hmap hfaults hnone =>
    exact ⟨⟨[.erase key], hmap, by simp [Edit.Weighed]⟩, .of_nil hnone⟩
  | @sweeps segment _ hmap hfaults hnone =>
    exact ⟨⟨[.clear segment], hmap, by simp [Edit.Weighed]⟩, .of_nil hnone⟩
  | @calls c current _ hshows hnext hframes hone hspares =>
    have hturn : turn.ongoing = [.computes c .running] := by
      simp [Turn.ongoing, hnext, hframes]
    have hbegun := hstage c .begun List.mem_cons_self
    exact ⟨⟨[], hspares.map, by simp⟩, .of_singleton hturn (hbegun.goesOn (by simp))⟩
  | @unwinds _ c p _ hcause _ hnext hframes hspares =>
    have hturn : turn.ongoing = [.computes c (.leaving c.previous .retry (.raised p))] := by
      simp [Turn.ongoing, hnext, hframes, Stage.ongoing]
    have hprevious : ∀ h resolution signal,
        (Progress.leaving c.previous .retry (.raised p) : Progress V) =
            .leaving (some h) resolution signal → c.previous = some h :=
      fun h resolution signal hleaving => (Progress.leaving.inj hleaving).1
    refine ⟨⟨[], hspares.map, by simp⟩, .of_singleton hturn ?_⟩
    rcases hcause with ⟨rfl, -⟩ | ⟨value, rfl⟩
    · exact (hstage c .begun List.mem_cons_self).goesOn hprevious
    · exact (hstage c (.given value) List.mem_cons_self).goesOn hprevious
  | @composes c value copy h _ hin hweight hout hnext hframes hspares =>
    have hturn : turn.ongoing =
        [.computes c (.leaving (some h) (.ready h) (.done (.value (some copy))))] := by
      simp [Turn.ongoing, hnext, hframes, Stage.ongoing]
    have hgiven := hstage c (.given value) List.mem_cons_self
    refine ⟨⟨[], hspares.map, by simp⟩, .of_singleton hturn ⟨hgiven.previous, ?_⟩⟩
    intro h' resolution signal hleaving
    rw [← Option.some.inj (Progress.leaving.inj hleaving).1]
    exact hweight
  | @ends _ c left resolution signal _ hongoing hmap hfaults hnone henforces =>
    refine ⟨?_, .of_nil hnone⟩
    have hweighed := hstage c (.leaving left resolution signal) (by simp [hongoing])
    split at hmap
    · cases left with
      | none => exact ⟨[.erase c.key], hmap, by simp [Edit.Weighed]⟩
      | some h =>
        exact ⟨[.put c.key (.holder h)], hmap, by
          simpa [Edit.Weighed] using hweighed.leaving h resolution signal rfl⟩
    · exact ⟨[], hmap, by simp⟩

/-- Every step of a thread does. -/
theorem Thread.Effect.accounts {w : World K V Q R} {t : Thread K V Q R} {s : Step K V Q R}
    (heffect : t.Effect settings w s) (hm : w.store.map.Accounted settings)
    (ht : Weighed settings t.ongoing) :
    (∃ edits, s.world.store.map = w.store.map.edited edits ∧ ∀ e ∈ edits, e.Weighed settings) ∧
      Weighed settings s.thread.ongoing := by
  cases heffect with
  | rests _ _ _ hmap _ hsame => exact ⟨⟨[], hmap, by simp⟩, by rwa [hsame]⟩
  | calls _ hmap _ hseeks =>
    refine ⟨⟨[], hmap, by simp⟩, fun c progress hmem => ?_⟩
    rw [hseeks, List.mem_cons] at hmem
    rcases hmem with hfirst | hold
    · cases hfirst
    · exact ht c progress hold
  | drops _ _ hmap _ hsame =>
    rw [hsame, Weighed.append] at ht
    exact ⟨⟨[], hmap, by simp⟩, ht.2⟩
  | @moves c signal rest base _ _ hmap _ hbefore hafter =>
    refine ⟨⟨[], hmap, by simp⟩, ?_⟩
    rw [hbefore, ← List.singleton_append, Weighed.append] at ht
    rw [hafter, ← List.singleton_append, Weighed.append]
    have hrunning := ht.1 c .running List.mem_cons_self
    exact ⟨.of_singleton rfl (hrunning.goesOn fun h resolution signal hleaving =>
      Computation.previous_of_progress hleaving), ht.2⟩
  | @acts stage turn base _ hdeed hstep hbefore hafter =>
    subst hstep
    rw [hbefore, Weighed.append] at ht
    obtain ⟨hedits, hturn⟩ := hdeed.accounts hm ht.1
    rw [hafter, Weighed.append]
    exact ⟨hedits, hturn, ht.2⟩

end Step

/-- The counters are right, and so are the weights of all holders that are yet to be put into a
slot. -/
structure Machine.Accounted (settings : Settings K V Q R) (m : Machine K V Q R) : Prop where
  map : m.world.store.map.Accounted settings
  ongoing : Weighed settings m.ongoing

/-- A passage changes the slots by weighed edits and keeps the counters right. -/
theorem Passage.Lawful.accounts {settings : Settings K V Q R} {p : Passage K V Q R}
    (hp : p.Lawful settings) (hbefore : p.before.Accounted settings) :
    (∃ edits, p.after.world.store.map = p.before.world.store.map.edited edits ∧
      ∀ e ∈ edits, e.Weighed settings) ∧ p.after.Accounted settings := by
  cases hp.course with
  | @step i t s hmover ht hstride hafter hevents =>
    obtain ⟨front, back, hongoing, hset⟩ := Machine.ongoing_set ht s.world
    have hparts := hbefore.ongoing
    rw [hongoing, Weighed.append, Weighed.append] at hparts
    obtain ⟨⟨edits, hmap, hedits⟩, hthread⟩ :=
      hstride.effect.accounts hbefore.map hparts.1.2
    have hafterMap : p.after.world.store.map = p.before.world.store.map.edited edits := by
      rw [hafter]
      exact hmap
    refine ⟨⟨edits, hafterMap, hedits⟩, ⟨?_, ?_⟩⟩
    · rw [hafterMap]
      exact hbefore.map.edited hedits
    · rw [hafter, hset, Weighed.append, Weighed.append]
      exact ⟨⟨hparts.1.1, hthread⟩, hparts.2⟩
  | outside hmover houtside hevents =>
    have hstore := houtside.store_eq
    refine ⟨⟨[], by rw [hstore]; rfl, by simp⟩, ⟨?_, ?_⟩⟩
    · rw [hstore]
      exact hbefore.map
    · rw [houtside.ongoing_eq]
      exact hbefore.ongoing

omit [DecidableEq V] in
theorem EntryMap.accounted_empty (settings : Settings K V Q R) (place : K → Nat) (segments : Nat)
    (h : 0 < segments) : (EntryMap.empty place segments h : EntryMap K V).Accounted settings := by
  have hvalid : (EntryMap.empty place segments h : EntryMap K V).Valid :=
    EntryMap.valid_empty place segments h
  refine ⟨hvalid, EntryMap.balanced_empty place segments h, fun key holder hget => ?_⟩
  have hslot := (hvalid.mem_slots_iff key (.holder holder)).mpr hget
  rw [EntryMap.slots_empty] at hslot
  cases hslot

omit [DecidableEq K] [DecidableEq V] in
theorem Store.of_eq_ok {settings : Settings K V Q R} {s : Store K V}
    (hs : Store.of settings = .ok s) :
    ∃ h, s = Store.empty settings.place settings.blueprint.segments h := by
  unfold Store.of at hs
  split at hs
  · exact ⟨_, (Except.ok.inj hs).symm⟩
  · cases hs

omit [DecidableEq V] in
theorem Machine.Fresh.accounted {settings : Settings K V Q R} {m : Machine K V Q R}
    (hm : m.Fresh settings) : m.Accounted settings := by
  obtain ⟨h, hstore⟩ := Store.of_eq_ok hm.store
  constructor
  · rw [hstore]
    exact EntryMap.accounted_empty settings _ _ h
  · exact .of_nil (by simp [Machine.ongoing, hm.threads])

omit [DecidableEq V] in
/-- The slots of an unused machine are empty. -/
theorem Machine.Fresh.get?_eq_none {settings : Settings K V Q R} {m : Machine K V Q R}
    (hm : m.Fresh settings) (key : K) : m.world.store.map.get? key = none := by
  obtain ⟨h, hstore⟩ := Store.of_eq_ok hm.store
  rw [Option.eq_none_iff_forall_ne_some]
  intro slot hslot
  have hmem := (hm.accounted.map.valid.mem_slots_iff key slot).mpr hslot
  rw [hstore, Store.empty, EntryMap.slots_empty] at hmem
  cases hmem

theorem Machine.Reachable.accounted {settings : Settings K V Q R} {m : Machine K V Q R}
    (hm : m.Reachable settings) : m.Accounted settings :=
  hm.invariant (fun _ hstart => hstart.accounted) fun _ hp hbefore => (hp.accounts hbefore).2

/-- The number of segments stays what the blueprint says. -/
theorem Machine.Reachable.size_segments {settings : Settings K V Q R} {m : Machine K V Q R}
    (hm : m.Reachable settings) :
    m.world.store.map.segments.size = settings.blueprint.segments := by
  have hboth : m.Accounted settings ∧
      m.world.store.map.segments.size = settings.blueprint.segments := by
    apply hm.invariant
    · intro start hstart
      obtain ⟨h, hstore⟩ := Store.of_eq_ok hstart.store
      refine ⟨hstart.accounted, ?_⟩
      rw [hstore]
      exact Array.size_replicate
    · intro p hp hbefore
      obtain ⟨⟨edits, hmap, -⟩, hafter⟩ := hp.accounts hbefore.1
      refine ⟨hafter, ?_⟩
      rw [hmap, EntryMap.size_edited]
      exact hbefore.2
  exact hboth.2

/-! ## What the counters tell -/

/-- The counters tell the exact number and weight of the entries, and stay within their range. -/
structure Machine.CountsExactly (settings : Settings K V Q R) (m : Machine K V Q R) : Prop where
  /-- The entries are the keys whose slot has a holder, each of them once: a fault is no entry. -/
  entries : ∀ key h, (key, h) ∈ m.world.store.map.entries ↔
    m.world.store.map.get? key = some (.holder h)
  nodup : (m.world.store.map.entries.map Prod.fst).Nodup
  entryCount : m.world.store.map.entryCount = m.world.store.map.entries.length
  weightedSize : m.world.store.map.weightedSize =
    (m.world.store.map.entries.map fun entry => entry.2.weight).sum
  /-- The weight of an entry is what the weigher gives for its value. -/
  weights : ∀ entry ∈ m.world.store.map.entries,
    settings.Weighs entry.1 entry.2.value entry.2.weight
  /-- Whatever happens next changes the slots step by step, and no decrement goes below zero. -/
  decrements : ∀ p : Passage K V Q R, p.before = m → p.Lawful settings →
    ∃ edits, p.after.world.store.map = m.world.store.map.edited edits ∧
      m.world.store.map.CoversAll edits
  /-- With weights of 32 bits and fewer than 2 ^ 32 entries, there is room for one more in 64
  bits. -/
  room : (∀ weigher, settings.weigher = some weigher →
      ∀ key value raw, weigher key value = .ok raw → raw < 2 ^ 32) →
    m.world.store.map.entries.length < 2 ^ 32 →
    m.world.store.map.weightedSize + (2 ^ 32 - 1) < 2 ^ 64

omit [DecidableEq K] [DecidableEq V] in
/-- A weigher of 32 bits gives weights of 32 bits. -/
theorem Settings.Weighs.lt {settings : Settings K V Q R} {key : K} {value : V} {weight : Nat}
    (hweight : settings.Weighs key value weight)
    (hbits : ∀ weigher, settings.weigher = some weigher →
      ∀ key value raw, weigher key value = .ok raw → raw < 2 ^ 32) : weight < 2 ^ 32 := by
  unfold Settings.Weighs at hweight
  split at hweight
  · omega
  · rename_i weigher hweigher
    obtain ⟨raw, hraw, rfl⟩ := hweight
    have hlt := hbits weigher hweigher key value raw hraw
    omega

/-- Between any two sections of any run, the counters tell the exact number and weight of the
entries. -/
theorem Machine.countsExactly {settings : Settings K V Q R} {m : Machine K V Q R}
    (hm : m.Reachable settings) : m.CountsExactly settings := by
  have haccounted := hm.accounted
  obtain ⟨hvalid, hbalanced, hweighed⟩ := haccounted.map
  have hweights : ∀ entry ∈ m.world.store.map.entries,
      settings.Weighs entry.1 entry.2.value entry.2.weight := fun entry hentry =>
    hweighed entry.1 entry.2 ((hvalid.mem_entries entry.1 entry.2).mp hentry)
  have hsum : m.world.store.map.weightedSize =
      (m.world.store.map.entries.map fun entry => entry.2.weight).sum := by
    rw [hbalanced.weightedSize, EntryMap.sum_weight_entries]
  refine ⟨hvalid.mem_entries, hvalid.nodup_entries, ?_, hsum, hweights, ?_, ?_⟩
  · rw [hbalanced.entryCount, EntryMap.length_entries]
  · rintro p rfl hp
    obtain ⟨⟨edits, hmap, -⟩, -⟩ := hp.accounts haccounted
    exact ⟨edits, hmap, hbalanced.coversAll hvalid edits⟩
  · intro hbits hcount
    have hbound : (m.world.store.map.entries.map fun entry => entry.2.weight).sum ≤
        m.world.store.map.entries.length * (2 ^ 32 - 1) := by
      have hle := List.sum_le_card_nsmul
        (m.world.store.map.entries.map fun entry => entry.2.weight) (2 ^ 32 - 1) ?_
      · simpa using hle
      · intro weight hweight
        obtain ⟨entry, hentry, rfl⟩ := List.mem_map.mp hweight
        have hlt := (hweights entry hentry).lt hbits
        omega
    rw [hsum]
    have hproduct := Nat.mul_le_mul_right (2 ^ 32 - 1) (Nat.le_sub_one_of_lt hcount)
    omega

/-- A store that weighs a value by its size. -/
def sizedSettings : Settings Nat Nat Unit Unit :=
  { Settings.plain ⟨none, none, none, 2, Sampling.standard⟩ id with
    weigher := some fun _ value => .ok value }

/-- A thread puts two values and begins to compute another value for the first key. -/
def sizedMoves : List (Move Nat Nat Unit Unit) :=
  .spawn (.call (.put 1 7) fun _ => .call (.put 2 0) fun _ =>
    .call (.compute 1 fun _ _ => .finish (.value none)) .finish) ::
  List.replicate 15 (.step 0 .none)

/-- While the first key is computed only the second one counts, with a weight raised to one. -/
theorem counters_while_computing : ∃ m : Machine Nat Nat Unit Unit,
    m.Reachable sizedSettings ∧ m.CountsExactly sizedSettings ∧
      m.world.store.map.get? 1 = some (.fault 0) ∧ m.world.store.map.entryCount = 1 ∧
      m.world.store.map.weightedSize = 1 := by
  have hmap : (Machine.replay sizedSettings sizedMoves).map (fun run =>
      (run.2.world.store.map.get? 1, run.2.world.store.map.entryCount,
        run.2.world.store.map.weightedSize)) = some (some (.fault 0), 1, 1) := by decide
  obtain ⟨⟨trace, m⟩, hreplay, hm⟩ := Option.map_eq_some_iff.mp hmap
  obtain ⟨start, hstart, run⟩ := Machine.run_of_replay hreplay
  have hreachable := run.reachable hstart
  obtain ⟨hslot, hrest⟩ := Prod.mk.inj hm
  obtain ⟨hcount, hweight⟩ := Prod.mk.inj hrest
  exact ⟨m, hreachable, Machine.countsExactly hreachable, hslot, hcount, hweight⟩

end SharedCache
