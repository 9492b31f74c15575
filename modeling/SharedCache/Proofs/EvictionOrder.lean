import SharedCache.Proofs.Enforcement

/-!
# Eviction order

An enforcement whose rounds draw all entries removes the expired ones first, and then the entries
that are not vetoed in ascending order, until the rest fits.  What one round removes is a local
choice; `Culled` says what the choices so far amount to.
-/

namespace SharedCache

variable {K V Q R : Type}

open Settings (Below Ranks)

/-- What some entries weigh together. -/
def weighAll (entries : List (K × Holder V)) : Nat := (entries.map fun entry => entry.2.weight).sum

section Weights

variable {entries entries' : List (K × Holder V)} {entry : K × Holder V}

@[simp]
theorem weighAll_nil : weighAll ([] : List (K × Holder V)) = 0 := rfl

@[simp]
theorem weighAll_cons : weighAll (entry :: entries) = entry.2.weight + weighAll entries := rfl

@[simp]
theorem weighAll_append :
    weighAll (entries ++ entries') = weighAll entries + weighAll entries' := by
  simp [weighAll]

theorem weighAll_perm (hperm : entries.Perm entries') : weighAll entries = weighAll entries' :=
  (hperm.map _).sum_eq

end Weights

/-- Entries that are totally ordered can be put in order. -/
theorem Settings.Ranks.exists_ascending {rank : K → V → K → V → Ordering}
    {entries : List (K × Holder V)} (hranks : Ranks rank entries) (hnodup : entries.Nodup) :
    ∃ order : List (K × Holder V), order.Perm entries ∧ order.Pairwise (Below rank) := by
  classical
  induction entries with
  | nil => exact ⟨[], .refl _, .nil⟩
  | cons first rest ih =>
    obtain ⟨hfresh, hnodup⟩ := List.nodup_cons.mp hnodup
    obtain ⟨order, hperm, hascending⟩ := ih (hranks.of_subset (List.subset_cons_self _ _)) hnodup
    have hfirst : first ∈ first :: rest := List.mem_cons_self
    have hrest : ∀ {entry}, entry ∈ order → entry ∈ first :: rest := fun hentry =>
      List.mem_cons_of_mem _ (hperm.mem_iff.mp hentry)
    -- The first entry goes between the smaller and the greater ones.
    refine ⟨order.filter (fun entry => Below rank entry first) ++
      first :: order.filter (fun entry => !decide (Below rank entry first)), ?_, ?_⟩
    · exact List.perm_middle.trans (((List.filter_append_perm _ order).trans hperm).cons first)
    · rw [List.pairwise_append, List.pairwise_cons]
      have habove : ∀ entry ∈ order.filter fun entry => !decide (Below rank entry first),
          Below rank first entry := by
        intro entry hentry
        obtain ⟨hmem, hnot⟩ := List.mem_filter.mp hentry
        refine (hranks.below_or_below hfirst (hrest hmem) ?_).resolve_right (by simpa using hnot)
        rintro rfl
        exact hfresh (hperm.mem_iff.mp hmem)
      refine ⟨hascending.filter _, ⟨habove, hascending.filter _⟩, fun a ha b hb => ?_⟩
      obtain ⟨hmem, hbelow⟩ := List.mem_filter.mp ha
      have hbelow : Below rank a first := by simpa using hbelow
      rcases List.mem_cons.mp hb with rfl | hb
      · exact hbelow
      · exact hranks.trans a (hrest hmem) first hfirst b (hrest (List.mem_of_mem_filter hb)) hbelow
          (habove b hb)

/-- Of a list in order this beginning is the shortest that suffices, or everything if nothing
suffices. -/
structure Fewest (makesRoom : List (K × Holder V) → Prop) (order gone : List (K × Holder V)) :
    Prop where
  beginning : gone <+: order
  enough : makesRoom gone ∨ gone = order
  fewest : ∀ fewer, fewer <+: gone → fewer ≠ gone → ¬ makesRoom fewer

/-! ## Culls -/

/-- Of all these entries the `old` ones have been taken out because they are dead, and the `victims`
because the others weigh more than there is room for; the `rest` is left. -/
structure Culled (rank : K → V → K → V → Ordering) (dead free : K × Holder V → Bool) (room : Nat)
    (all old victims rest : List (K × Holder V)) : Prop where
  perm : (old ++ (victims ++ rest)).Perm all
  dead_of_old : ∀ entry ∈ old, dead entry = true
  free_of_victim : ∀ entry ∈ victims, dead entry = false ∧ free entry = true
  /-- The dead entries go first. -/
  first : victims ≠ [] → ∀ entry ∈ rest, dead entry = false
  ascending : victims.Pairwise (Below rank)
  below : ∀ victim ∈ victims, ∀ entry ∈ rest, free entry = true → Below rank victim entry
  /-- No entry goes that need not. -/
  needed : ∀ count < victims.length,
    room + weighAll (all.filter dead) + weighAll (victims.take count) < weighAll all

namespace Culled

variable {rank : K → V → K → V → Ordering} {dead free : K × Holder V → Bool} {room : Nat}
  {all old victims rest rest' : List (K × Holder V)} {entry : K × Holder V}

theorem rest_subset (hculled : Culled rank dead free room all old victims rest) : rest ⊆ all :=
  fun _ hentry =>
    hculled.perm.mem_iff.mp (List.mem_append_right _ (List.mem_append_right _ hentry))

/-- The dead entries have gone or are left. -/
theorem perm_dead (hculled : Culled rank dead free room all old victims rest) :
    (old ++ rest.filter dead).Perm (all.filter dead) := by
  have hvictims : victims.filter dead = [] := List.filter_eq_nil_iff.mpr fun entry hentry => by
    simp [(hculled.free_of_victim entry hentry).1]
  have hfilter := hculled.perm.filter dead
  rwa [List.filter_append, List.filter_append, List.filter_eq_self.mpr hculled.dead_of_old,
    hvictims, List.nil_append] at hfilter

/-- What all entries weigh: the dead ones, the victims, and of the rest those that are not dead. -/
theorem weighAll_all (hculled : Culled rank dead free room all old victims rest) :
    weighAll all + weighAll (rest.filter dead) =
      weighAll (all.filter dead) + weighAll victims + weighAll rest := by
  have hdead := weighAll_perm hculled.perm_dead
  have hweight := weighAll_perm hculled.perm
  rw [weighAll_append] at hdead
  rw [weighAll_append, weighAll_append] at hweight
  omega

/-- The entries that may have to go are the victims and those of the rest. -/
theorem perm_victims (hculled : Culled rank dead free room all old victims rest) :
    (victims ++ rest.filter fun entry => !dead entry && free entry).Perm
      (all.filter fun entry => !dead entry && free entry) := by
  have hold : (old.filter fun entry => !dead entry && free entry) = [] :=
    List.filter_eq_nil_iff.mpr fun entry hentry => by simp [hculled.dead_of_old entry hentry]
  have hvictims : (victims.filter fun entry => !dead entry && free entry) = victims :=
    List.filter_eq_self.mpr fun entry hentry => by simp [hculled.free_of_victim entry hentry]
  have hfilter := hculled.perm.filter fun entry => !dead entry && free entry
  rwa [List.filter_append, List.filter_append, hold, hvictims, List.nil_append] at hfilter

/-- A dead entry is taken out. -/
theorem takes_dead (hculled : Culled rank dead free room all old victims rest)
    (hrest : rest.Perm (entry :: rest')) (hdead : dead entry = true) :
    Culled rank dead free room all (old ++ [entry]) victims rest' := by
  have hmem : entry ∈ rest := hrest.mem_iff.mpr List.mem_cons_self
  have hnone : victims = [] := by
    by_contra hsome
    have halive := hculled.first hsome entry hmem
    simp [hdead] at halive
  subst hnone
  refine ⟨?_, ?_, by simp, by simp, .nil, by simp, by simp⟩
  · have hperm := (hrest.append_left old).symm.trans hculled.perm
    simpa using hperm
  · intro found hfound
    rcases List.mem_append.mp hfound with hold | hnew
    · exact hculled.dead_of_old found hold
    · rwa [List.mem_singleton.mp hnew]

/-- The smallest of the entries is taken out that are free to go. -/
theorem takes_smallest (hculled : Culled rank dead free room all old victims rest)
    (hnodup : all.Nodup) (hrest : rest.Perm (entry :: rest'))
    (halive : ∀ entry ∈ rest, dead entry = false) (hfree : free entry = true)
    (hsmallest : ∀ other ∈ rest, free other = true → entry = other ∨ Below rank entry other)
    (hheavy : room < weighAll rest) :
    Culled rank dead free room all old (victims ++ [entry]) rest' := by
  have hmem : entry ∈ rest := hrest.mem_iff.mpr List.mem_cons_self
  have hsubset : ∀ other ∈ rest', other ∈ rest := fun other hother =>
    hrest.mem_iff.mpr (List.mem_cons_of_mem _ hother)
  have hperm : (old ++ (victims ++ [entry] ++ rest')).Perm all := by
    have hperm := ((hrest.append_left victims).append_left old).symm.trans hculled.perm
    simpa using hperm
  -- No entry occurs twice.
  have hgone : entry ∉ rest' := by
    have hall := hperm.nodup_iff.mpr hnodup
    rw [List.append_assoc] at hall
    exact (List.nodup_cons.mp hall.of_append_right.of_append_right).1
  refine ⟨hperm, hculled.dead_of_old, ?_,
    fun _ other hother => halive other (hsubset other hother), ?_, ?_, ?_⟩
  · intro found hfound
    rcases List.mem_append.mp hfound with hold | hnew
    · exact hculled.free_of_victim found hold
    · rw [List.mem_singleton.mp hnew]
      exact ⟨halive entry hmem, hfree⟩
  · refine List.pairwise_append.mpr ⟨hculled.ascending, List.pairwise_singleton _ _, ?_⟩
    intro victim hvictim other hother
    rw [List.mem_singleton.mp hother]
    exact hculled.below victim hvictim entry hmem hfree
  · intro victim hvictim other hother hfree'
    rcases List.mem_append.mp hvictim with hold | hnew
    · exact hculled.below victim hold other (hsubset other hother) hfree'
    · obtain rfl := List.mem_singleton.mp hnew
      refine (hsmallest other (hsubset other hother) hfree').resolve_left ?_
      rintro rfl
      exact hgone hother
  · intro count hcount
    rw [List.length_append, List.length_singleton] at hcount
    rcases Nat.lt_succ_iff_lt_or_eq.mp hcount with hless | rfl
    · rw [List.take_append_of_le_length hless.le]
      exact hculled.needed count hless
    · have hnone : rest.filter dead = [] := List.filter_eq_nil_iff.mpr fun entry hentry => by
        simp [halive entry hentry]
      have hweight := hculled.weighAll_all
      rw [hnone, weighAll_nil] at hweight
      rw [List.take_left]
      omega

/-- In the end the victims are the fewest that make room, in ascending order. -/
theorem fewest (hculled : Culled rank dead free room all old victims rest)
    (hranks : Ranks rank all) (hnodup : all.Nodup)
    (hends : weighAll rest ≤ room ∨ ∀ entry ∈ rest, dead entry = false ∧ free entry = false) :
    ∃ order : List (K × Holder V), order.Perm (all.filter fun entry => !dead entry && free entry) ∧
      order.Pairwise (Below rank) ∧
      Fewest (fun gone => weighAll all ≤ room + weighAll (all.filter dead) + weighAll gone) order
        victims := by
  have hdistinct : rest.Nodup :=
    (hculled.perm.nodup_iff.mpr hnodup).of_append_right.of_append_right
  obtain ⟨later, hperm, hascending⟩ :=
    ((hranks.of_subset hculled.rest_subset).of_subset List.filter_sublist.subset).exists_ascending
      (hdistinct.filter fun entry => !dead entry && free entry)
  refine ⟨victims ++ later, (hperm.append_left victims).trans hculled.perm_victims,
    List.pairwise_append.mpr ⟨hculled.ascending, hascending, fun victim hvictim entry hentry => ?_⟩,
    ⟨List.prefix_append _ _, ?_, fun fewer hfewer hne => ?_⟩⟩
  · obtain ⟨hmem, hfree⟩ := List.mem_filter.mp (hperm.mem_iff.mp hentry)
    exact hculled.below victim hvictim entry hmem (by simp_all)
  · rcases hends with hfits | hspent
    · have hweight := hculled.weighAll_all
      exact .inl (by omega)
    · have hnone : (rest.filter fun entry => !dead entry && free entry) = [] :=
        List.filter_eq_nil_iff.mpr fun entry hentry => by simp [hspent entry hentry]
      rw [hnone, List.perm_nil] at hperm
      exact .inr (by rw [hperm, List.append_nil])
  · have hless : fewer.length < victims.length :=
      lt_of_le_of_ne hfewer.length_le fun heq => hne (hfewer.eq_of_length heq)
    have hneeded := hculled.needed fewer.length hless
    rw [← List.prefix_iff_eq_take.mp hfewer] at hneeded
    exact Nat.not_le.mpr hneeded

end Culled

/-! ## Enforcements -/

/-- The veto lets the entry go. -/
def Settings.frees (settings : Settings K V Q R) (entry : K × Holder V) : Bool :=
  match (settings.spares entry).result with
  | .ok spared => !spared
  | .error _ => false

/-- Whether an entry has reached its deadline now. -/
def Machine.lapsed (m : Machine K V Q R) (entry : K × Holder V) : Bool :=
  m.world.store.expired entry.2 m.world.clock.now

theorem Settings.frees_eq_true {settings : Settings K V Q R} {entry : K × Holder V} :
    settings.frees entry = true ↔ (settings.spares entry).result = .ok false := by
  rw [frees]
  cases hresult : (settings.spares entry).result with
  | ok spared => cases spared <;> simp
  | error p => simp

theorem Machine.lapsed_congr {m m' : Machine K V Q R}
    (hdeadlines : m'.world.store.deadlines = m.world.store.deadlines)
    (hnow : m'.world.clock.now = m.world.clock.now) : m'.lapsed = m.lapsed := by
  funext entry
  rw [lapsed, lapsed, Store.expired, Store.expired, Store.deadline, Store.deadline, hdeadlines,
    hnow]

section Map

variable [DecidableEq K] {m : EntryMap K V}

omit [DecidableEq K] in
theorem EntryMap.Balanced.weighAll_entries (hm : m.Balanced) :
    weighAll m.entries = m.weightedSize :=
  m.sum_weight_entries.trans hm.weightedSize.symm

theorem EntryMap.Valid.nodup (hm : m.Valid) : m.entries.Nodup :=
  hm.nodup_entries.of_map _

theorem EntryMap.Valid.perm_entries_erase (hm : m.Valid) {key : K} {h : Holder V}
    (hslot : m.get? key = some (.holder h)) (herase : (m.erase key).Valid) :
    m.entries.Perm ((key, h) :: (m.erase key).entries) := by
  have hgone : (key, h) ∉ (m.erase key).entries := fun hmem => by
    have hfound := (herase.mem_entries key h).mp hmem
    rw [hm.get?_erase, if_pos rfl] at hfound
    cases hfound
  refine (List.perm_ext_iff_of_nodup hm.nodup (List.nodup_cons.mpr ⟨hgone, herase.nodup⟩)).mpr ?_
  rintro ⟨other, h'⟩
  rw [List.mem_cons, hm.mem_entries, herase.mem_entries, hm.get?_erase]
  by_cases hother : other = key
  · subst hother
    simp [hslot, eq_comm]
  · simp [hother]

end Map

namespace Enforcement

variable [DecidableEq K] {e : Enforcement K V Q R} {settings : Settings K V Q R}
  {trace : List (Passage K V Q R)} {p : Passage K V Q R} {cause : RemovalCause}

/-- The entries that the enforcement has evicted for this cause, one after the other. -/
def evicted (e : Enforcement K V Q R) (cause : RemovalCause) (trace : List (Passage K V Q R)) :
    List (K × Holder V) :=
  ((trace.filter e.isOwn).filterMap Passage.evicted?).filterMap fun victim =>
    if victim.2 = cause then some victim.1 else none

theorem evicted_snoc_still (hstill : e.isOwn p = true → p.evicted? = none) :
    e.evicted cause (trace ++ [p]) = e.evicted cause trace := by
  cases hown : e.isOwn p with
  | true => simp [evicted, hown, hstill hown]
  | false => simp [evicted, hown]

theorem evicted_snoc (hown : e.isOwn p = true) {victim : (K × Holder V) × RemovalCause}
    (hvictim : p.evicted? = some victim) : e.evicted cause (trace ++ [p]) =
      e.evicted cause trace ++ if victim.2 = cause then [victim.1] else [] := by
  rw [evicted, evicted, List.filter_append, List.filter_singleton, hown]
  split <;> simp [*]

/-- Nobody moves a deadline meanwhile, time stands still, and every round of the enforcement has
drawn all entries when it picks its victim. -/
structure Surveys (e : Enforcement K V Q R) (trace : List (Passage K V Q R)) : Prop where
  deadlines : ∀ p ∈ trace, e.isOwn p = false →
    p.after.world.store.deadlines = p.before.world.store.deadlines
  now : ∀ p ∈ trace, p.after.world.clock.now = p.before.world.clock.now
  samples : ∀ p ∈ trace, e.isOwn p = true → ∀ failed sample,
    p.stage? = some (.pick failed sample) →
      ∀ entry ∈ p.before.world.store.map.entries, entry ∈ sample

section Runs

variable [DecidableEq V] {start m : Machine K V Q R} {t : Thread K V Q R} {capacity : Nat}
  {rank : K → V → K → V → Ordering} {front round : List (Passage K V Q R)} {q : Passage K V Q R}

omit [DecidableEq K] [DecidableEq V] in
theorem Surveys.of_append (hsurveys : e.Surveys (front ++ round)) : e.Surveys front :=
  ⟨fun p hp => hsurveys.deadlines p (List.mem_append_left round hp),
    fun p hp => hsurveys.now p (List.mem_append_left round hp),
    fun p hp => hsurveys.samples p (List.mem_append_left round hp)⟩

/-- What has expired at one time of the enforcement has expired at all times. -/
theorem lapsed_eq (run : Run settings start trace m) (hsurveys : e.Surveys trace)
    (htreated : e.HasTreated settings trace) : m.lapsed = start.lapsed := by
  refine Machine.lapsed_congr (run.kept (fun m => m.world.store.deadlines) fun p hp => ?_)
    (run.kept (fun m => m.world.clock.now) hsurveys.now)
  cases hown : e.isOwn p with
  | true =>
    obtain ⟨front, back, hsplit⟩ := List.append_of_mem hp
    exact (htreated front p back hsplit hown).deadlines
  | false => exact hsurveys.deadlines p hp hown

/-- The slots are what they were when the last victim was looked for, unless one was removed. -/
theorem map_eq_of_quiet (run : Run settings start (front ++ q :: round) m)
    (hundisturbed : e.Undisturbed (front ++ q :: round))
    (htreated : e.HasTreated settings (front ++ q :: round))
    (hquiet : ∀ r ∈ q :: round, e.isOwn r = true → r.evicted? = none) :
    m.world.store.map = q.before.world.store.map := by
  have hkept : ∀ r ∈ q :: round, r.after.world.store.map = r.before.world.store.map := by
    intro r hr
    have hmem : r ∈ front ++ q :: round := List.mem_append_right front hr
    cases hown : e.isOwn r with
    | true =>
      obtain ⟨early, late, hsplit⟩ := List.append_of_mem hmem
      exact (htreated early r late hsplit hown).spares (hquiet r hr hown)
    | false => exact hundisturbed.calm r hmem hown
  exact ((run.split rfl).2.2.kept (fun m => m.world.store.map) fun r hr =>
    hkept r (List.mem_cons_of_mem q hr)).trans (hkept q List.mem_cons_self)

/-- Why a victim was picked that is about to be removed. -/
inductive Verdict (start : Machine K V Q R) (settings : Settings K V Q R)
    (rank : K → V → K → V → Ordering) (entries : List (K × Holder V)) (entry : K × Holder V) :
    RemovalCause → Prop where
  | lapsed : start.lapsed entry = true → Verdict start settings rank entries entry .expired
  | smallest : (∀ other ∈ entries, start.lapsed other = false) → settings.frees entry = true →
      (∀ other ∈ entries, settings.frees other = true → entry = other ∨ Below rank entry other) →
      Verdict start settings rank entries entry .size

/-- Nothing happens to the entries between the choice of a victim and its removal, so that the
choice is still right. -/
theorem HasPicked.verdict {entry : K × Holder V} (hpicked : e.HasPicked settings trace entry cause)
    (hpriority : settings.priority = some rank)
    (hranks : Ranks rank m.world.store.map.entries) (hm : m.Reachable settings)
    (run : Run settings start trace m) (hundisturbed : e.Undisturbed trace)
    (hsurveys : e.Surveys trace) (htreated : e.HasTreated settings trace) :
    m.world.store.map.get? entry.1 = some (.holder entry.2) ∧
      Verdict start settings rank m.world.store.map.entries entry cause := by
  obtain ⟨front, q, round, rfl, ⟨hown, failed, sample, hstage, -, -, hlive, hresult⟩, hround⟩ :=
    hpicked
  have hmap := map_eq_of_quiet run hundisturbed htreated fun r hr hownr => by
    rcases List.mem_cons.mp hr with rfl | hr
    · exact evicted?_of_stage hstage (by simp)
    · simp [hround r hr] at hownr
  have hlapsed : q.before.lapsed = start.lapsed :=
    lapsed_eq (run.split rfl).1 hsurveys.of_append fun early r late hsplit =>
      htreated early r (late ++ q :: round) (by simp [hsplit])
  rw [← hmap] at hlive
  have hall : ∀ other ∈ m.world.store.map.entries, other ∈ sample := by
    rw [hmap]
    exact hsurveys.samples q (by simp) hown failed sample hstage
  have hsample : sample ⊆ m.world.store.map.entries := fun drawn hdrawn =>
    (hm.accounted.map.valid.mem_entries drawn.1 drawn.2).mpr (hlive drawn hdrawn)
  refine ⟨hlive _ (Store.mem_of_victim hresult), ?_⟩
  rcases Store.victim_spec hresult with ⟨rfl, hdead⟩ | ⟨rfl, hfresh, hspares⟩
  · exact .lapsed (hlapsed ▸ hdead)
  · have hsmallest := Store.eq_or_below_of_victim hpriority (hranks.of_subset hsample) hresult
    exact .smallest (fun other hother => hlapsed ▸ hfresh other (hall other hother))
      (Settings.frees_eq_true.mpr hspares) fun other hother hfree =>
        hsmallest other (hall other hother) (Settings.frees_eq_true.mp hfree)

/-- What the victims so far amount to. -/
theorem culled_of_run (hstart : start.Reachable settings) (ht : start.threads[e.thread]? = some t)
    (hstack : t.stack = e.base) (hbegins : t.activity = .keep (.enforce 0))
    (hcapacity : settings.blueprint.capacity = some capacity)
    (hpriority : settings.priority = some rank) (hranks : Ranks rank start.world.store.map.entries)
    (run : Run settings start trace m) (hundisturbed : e.Undisturbed trace)
    (hsurveys : e.Surveys trace) :
    Culled rank start.lapsed settings.frees capacity start.world.store.map.entries
      (e.evicted .expired trace) (e.evicted .size trace) m.world.store.map.entries := by
  have hstands := stands_of_run hstart ht hstack hbegins run hundisturbed
  induction run with
  | rest => exact ⟨.refl _, by simp [evicted], by simp [evicted], by simp [evicted],
      by simp [evicted], by simp [evicted], by simp [evicted]⟩
  | @move trace p run hp ih =>
    have hbefore := stands_of_run hstart ht hstack hbegins run hundisturbed.of_append
    have hculled := ih hundisturbed.of_append hsurveys.of_append hbefore
    have hm := (run.reachable_of_reachable hstart).accounted.map
    have hsame : (e.isOwn p = true → p.evicted? = none) →
        p.after.world.store.map = p.before.world.store.map →
        Culled rank start.lapsed settings.frees capacity start.world.store.map.entries
          (e.evicted .expired (trace ++ [p])) (e.evicted .size (trace ++ [p]))
          p.after.world.store.map.entries := fun hstill hmap => by
      rwa [evicted_snoc_still hstill, evicted_snoc_still hstill, hmap]
    cases hown : e.isOwn p with
    | false =>
      exact hsame (fun hyes => by simp [hown] at hyes) (hundisturbed.calm p (by simp) hown)
    | true =>
      have htreats := hstands.treated trace p [] rfl hown
      cases hevicted : p.evicted? with
      | none => exact hsame (fun _ => hevicted) (htreats.spares hevicted)
      | some victim =>
        obtain ⟨entry, cause⟩ := victim
        obtain ⟨⟨_, hsome, hover⟩, hpicked, hmap, -⟩ := htreats.removes _ _ hevicted
        obtain rfl := Option.some.inj (hcapacity.symm.trans hsome)
        obtain ⟨hslot, hverdict⟩ := hpicked.verdict hpriority
          (hranks.of_subset hculled.rest_subset) (run.reachable_of_reachable hstart) run
          hundisturbed.of_append hsurveys.of_append hbefore.treated
        have hafter := ((run.move hp).reachable_of_reachable hstart).accounted.map.valid
        have hperm : p.before.world.store.map.entries.Perm
            (entry :: p.after.world.store.map.entries) := by
          rw [hmap] at hafter ⊢
          exact hm.valid.perm_entries_erase hslot hafter
        rw [evicted_snoc hown hevicted, evicted_snoc hown hevicted]
        cases hverdict with
        | lapsed hdead => simpa using hculled.takes_dead hperm hdead
        | smallest halive hfree hsmallest =>
          simpa using hculled.takes_smallest hstart.accounted.map.valid.nodup hperm halive hfree
            hsmallest (hm.balanced.weighAll_entries ▸ hover)

/-- No entry that has not expired is removed while one that has expired remains. -/
theorem lapsed_of_evicted (hstart : start.Reachable settings)
    (ht : start.threads[e.thread]? = some t) (hstack : t.stack = e.base)
    (hbegins : t.activity = .keep (.enforce 0))
    (hcapacity : settings.blueprint.capacity = some capacity)
    (hpriority : settings.priority = some rank) (hranks : Ranks rank start.world.store.map.entries)
    (run : Run settings start (front ++ p :: round) m)
    (hundisturbed : e.Undisturbed (front ++ p :: round))
    (hsurveys : e.Surveys (front ++ p :: round)) (hown : e.isOwn p = true)
    {entry other : K × Holder V} (hevicted : p.evicted? = some (entry, cause))
    (hother : other ∈ p.before.world.store.map.entries) (hdead : p.before.lapsed other = true) :
    p.before.lapsed entry = true ∧ cause = .expired := by
  have htreated := (stands_of_run hstart ht hstack hbegins run hundisturbed).treated
  have hearlier : e.HasTreated settings front := fun early r late hsplit =>
    htreated early r (late ++ p :: round) (by simp [hsplit])
  obtain ⟨-, hpicked, -, -⟩ := (htreated front p round rfl hown).removes _ _ hevicted
  have hbefore := (run.split rfl).1
  have hculled := culled_of_run hstart ht hstack hbegins hcapacity hpriority hranks hbefore
    hundisturbed.of_append hsurveys.of_append
  obtain ⟨-, hverdict⟩ := hpicked.verdict hpriority (hranks.of_subset hculled.rest_subset)
    (hbefore.reachable_of_reachable hstart) hbefore hundisturbed.of_append hsurveys.of_append
    hearlier
  rw [lapsed_eq hbefore hsurveys.of_append hearlier] at hdead ⊢
  cases hverdict with
  | lapsed hentry => exact ⟨hentry, rfl⟩
  | smallest halive => simp [halive other hother] at hdead

/-- A round without a victim, after which nothing was removed, has found neither an expired entry
nor one that the veto lets go. -/
theorem Barren.spent (hbarren : e.Barren settings trace) (run : Run settings start trace m)
    (hundisturbed : e.Undisturbed trace) (hsurveys : e.Surveys trace)
    (htreated : e.HasTreated settings trace) :
    ∀ entry ∈ m.world.store.map.entries,
      start.lapsed entry = false ∧ settings.frees entry = false := by
  obtain ⟨front, q, round, rfl, hown, ⟨failed, sample, hstage, hresult⟩, hround⟩ := hbarren
  have hmap := map_eq_of_quiet run hundisturbed htreated fun r hr hownr => by
    rcases List.mem_cons.mp hr with rfl | hr
    · exact evicted?_of_stage hstage (by simp)
    · exact hround r hr hownr
  have hlapsed : q.before.lapsed = start.lapsed :=
    lapsed_eq (run.split rfl).1 hsurveys.of_append fun early r late hsplit =>
      htreated early r (late ++ q :: round) (by simp [hsplit])
  rw [hmap]
  intro entry hentry
  obtain ⟨hfresh, hspares⟩ := Store.victim_none_spec hresult entry
    (hsurveys.samples q (by simp) hown failed sample hstage entry hentry)
  exact ⟨hlapsed ▸ hfresh, by simp [Settings.frees, hspares]⟩

end Runs

/-- What an enforcement that has ended has removed. -/
structure Selects (e : Enforcement K V Q R) (settings : Settings K V Q R)
    (rank : K → V → K → V → Ordering) (capacity : Nat) (start m : Machine K V Q R)
    (trace : List (Passage K V Q R)) : Prop where
  /-- No entry that has not expired is removed while one that has expired remains. -/
  lapsedFirst : ∀ p ∈ trace, e.isOwn p = true → ∀ entry cause, p.evicted? = some (entry, cause) →
    (∃ other ∈ p.before.world.store.map.entries, p.before.lapsed other = true) →
      p.before.lapsed entry = true ∧ cause = .expired
  /-- In ascending order, the victims are the shortest beginning of the entries that have not
  expired and are not vetoed that makes room together with all expired ones, or all of them. -/
  fewest : ∃ order : List (K × Holder V), order.Perm (start.world.store.map.entries.filter
      fun entry => !start.lapsed entry && settings.frees entry) ∧ order.Pairwise (Below rank) ∧
    Fewest (fun gone => start.world.store.map.weightedSize ≤
      capacity + weighAll (start.world.store.map.entries.filter start.lapsed) + weighAll gone) order
      (e.evicted .size trace)
  /-- Nothing is evicted that the expired entries make up for. -/
  spares : start.world.store.map.weightedSize ≤
    capacity + weighAll (start.world.store.map.entries.filter start.lapsed) →
      e.evicted .size trace = []
  survivors : ∀ entry ∈ m.world.store.map.entries, settings.frees entry = true →
    ∀ victim ∈ e.evicted .size trace, Below rank victim entry
  lapsed : ∀ entry ∈ e.evicted .expired trace, start.lapsed entry = true
  /-- All other entries are left. -/
  rest : (e.evicted .expired trace ++ (e.evicted .size trace ++ m.world.store.map.entries)).Perm
    start.world.store.map.entries

end Enforcement

/-- An enforcement of the capacity removes the expired entries first, and then the smallest ones
that are not vetoed, as few as will do.

It begins in `start` and is over in `m`, and meanwhile no one else changes a slot or a deadline,
time stands still, and every round draws all entries.  Unless a callback panics, no entry goes
before an expired one, and the victims that have not expired are the shortest beginning, in
ascending order, of those that are not vetoed that brings the weight within the capacity after the
expired ones. -/
theorem Run.evictsInOrder [DecidableEq K] [DecidableEq V] {settings : Settings K V Q R}
    {start m : Machine K V Q R} {trace : List (Passage K V Q R)} {e : Enforcement K V Q R}
    {t t' : Thread K V Q R} {signal : Signal V} {capacity : Nat} {rank : K → V → K → V → Ordering}
    (hcapacity : settings.blueprint.capacity = some capacity)
    (hpriority : settings.priority = some rank)
    (hstart : start.Reachable settings) (hranks : Ranks rank start.world.store.map.entries)
    (run : Run settings start trace m)
    (ht : start.threads[e.thread]? = some t) (hstack : t.stack = e.base)
    (hbegins : t.activity = .keep (.enforce 0))
    (ht' : m.threads[e.thread]? = some t') (hstack' : t'.stack = e.base)
    (hended : t'.activity = .settle signal)
    (hundisturbed : e.Undisturbed trace) (hsurveys : e.Surveys trace) :
    signal = .done .unit ∧ e.Selects settings rank capacity start m trace ∨
      ∃ panic, signal = .raised panic ∧
        (settings.VetoPanics ∨ ∃ value, settings.copyOut value = .error panic) := by
  have hculled := Enforcement.culled_of_run hstart ht hstack hbegins hcapacity hpriority hranks run
    hundisturbed hsurveys
  obtain ⟨⟨n, t'', above, hfound, habove, hat, -⟩, htreated⟩ :=
    Enforcement.stands_of_run hstart ht hstack hbegins run hundisturbed
  obtain rfl := Option.some.inj (ht'.symm.trans hfound)
  rw [hended] at hat
  have hselects : (weighAll m.world.store.map.entries ≤ capacity ∨
      ∀ entry ∈ m.world.store.map.entries,
        start.lapsed entry = false ∧ settings.frees entry = false) →
      e.Selects settings rank capacity start m trace := fun hends => by
    have hfewest := hculled.fewest hranks hstart.accounted.map.valid.nodup hends
    rw [hstart.accounted.map.balanced.weighAll_entries] at hfewest
    refine ⟨fun p hp hown entry cause hevicted ⟨other, hother, hdead⟩ => ?_, hfewest,
      fun hmakes => ?_,
      fun entry hentry hfree victim hvictim => hculled.below victim hvictim entry hentry hfree,
      hculled.dead_of_old, hculled.perm⟩
    · obtain ⟨front, back, rfl⟩ := List.append_of_mem hp
      exact Enforcement.lapsed_of_evicted hstart ht hstack hbegins hcapacity hpriority hranks run
        hundisturbed hsurveys hown hevicted hother hdead
    · obtain ⟨order, -, -, hfew⟩ := hfewest
      by_contra hsome
      exact hfew.fewest [] List.nil_prefix (Ne.symm hsome) (by simpa using hmakes)
  cases hat.of_settled (by simpa [habove] using hstack') with
  | fits hfits =>
    refine .inl ⟨rfl, hselects (.inl (Nat.not_lt.mp fun hheavy => hfits ⟨capacity, hcapacity, ?_⟩))⟩
    rwa [← (run.reachable_of_reachable hstart).accounted.map.balanced.weighAll_entries]
  | givesUp _ _ hbarren =>
    exact .inl ⟨rfl, hselects (.inr (hbarren.spent run hundisturbed hsurveys htreated))⟩
  | panics hcause => exact .inr ⟨_, rfl, hcause⟩

/-! ## An enforcement with an expired entry and a vetoed one -/

/-- A store for a weight of six.  The smallest key goes first, but key 2 is vetoed, and key 5
expires after ten nanoseconds. -/
def orderedSettings : Settings Nat Nat Unit Unit :=
  { (.plain ⟨none, some 6, none, 1, ⟨5, 1, Nat.succ_pos 4, Nat.one_pos⟩⟩ id :
      Settings Nat Nat Unit Unit) with
    weigher := some fun _ value => .ok value
    veto := some fun key _ => .ok (key = 2)
    priority := some fun key _ key' _ => compare key key'
    expiry := some { Expiry.keep Nat Nat with
      onCreate := fun key _ _ => .ok (if key = 5 then some (.ofNanos 10) else none) } }

/-- Steps that draw all entries. -/
def orderedSteps (count : Nat) : List (Move Nat Nat Unit Unit) :=
  List.replicate count (.step 0 ⟨[5, 4, 3, 2, 9], .none, false⟩)

/-- Puts four values that fit, and then a fifth one when the first has expired. -/
def orderedMoves : List (Move Nat Nat Unit Unit) :=
  .spawn (.call (.put 5 1) fun _ => .call (.put 2 1) fun _ => .call (.put 3 2) fun _ =>
    .call (.put 4 2) fun _ => .call (.put 9 3) .finish) ::
    (orderedSteps 24 ++ .advance (.ofNanos 10) :: orderedSteps 3)

/-- Whether the passage is a step of the enforcement that takes no time and, if it picks a victim,
has all entries to pick from. -/
def Enforcement.surveys (e : Enforcement Nat Nat Unit Unit) (p : Passage Nat Nat Unit Unit) :
    Bool :=
  e.isOwn p && p.after.world.clock.now = p.before.world.clock.now &&
    match p.stage? with
    | some (.pick _ sample) => p.before.world.store.map.entries.all (· ∈ sample)
    | _ => true

theorem Enforcement.surveys_of_all {e : Enforcement Nat Nat Unit Unit}
    {trace : List (Passage Nat Nat Unit Unit)} (hall : trace.all e.surveys = true) :
    e.Surveys trace := by
  have hp : ∀ p ∈ trace, e.surveys p = true := List.all_eq_true.mp hall
  simp only [Enforcement.surveys, Bool.and_eq_true, decide_eq_true_eq] at hp
  refine ⟨fun p hmem hother => ?_, fun p hmem => (hp p hmem).1.2,
    fun p hmem _ failed sample hstage entry hentry => ?_⟩
  · simp [(hp p hmem).1.1] at hother
  · have hpick := (hp p hmem).2
    rw [hstage] at hpick
    simpa using List.all_eq_true.mp hpick entry hentry

/-- Keys order the entries. -/
theorem EntryMap.Valid.ranks_compare {m : EntryMap Nat V} (hm : m.Valid) :
    Ranks (fun key _ key' _ => compare key key') m.entries := by
  refine ⟨fun a ha b hb heq => ?_, fun a _ b _ => ?_, fun a _ b _ c _ hab hbc => ?_⟩
  · obtain ⟨key, h⟩ := a
    obtain ⟨key', h'⟩ := b
    obtain rfl : key = key' := Nat.compare_eq_eq.mp heq
    have hslot := (hm.mem_entries key h).mp ha
    rw [(hm.mem_entries key h').mp hb] at hslot
    rw [Slot.holder.inj (Option.some.inj hslot)]
  · exact (Nat.compare_swap a.1 b.1).symm
  · exact Nat.compare_eq_lt.mpr (lt_trans (Nat.compare_eq_lt.mp hab) (Nat.compare_eq_lt.mp hbc))

/-- The value of key 5 has expired and goes first, then the value of key 3 as the smallest that is
not vetoed, and the others fit. -/
theorem ordered_selects : ∃ (start m : Machine Nat Nat Unit Unit)
    (trace : List (Passage Nat Nat Unit Unit)) (t t' : Thread Nat Nat Unit Unit),
    start.Reachable orderedSettings ∧
      Ranks (fun key _ key' _ => compare key key') start.world.store.map.entries ∧
      Run orderedSettings start trace m ∧
      start.threads[0]? = some t ∧ t.stack = lastPut.base ∧ t.activity = .keep (.enforce 0) ∧
      m.threads[0]? = some t' ∧ t'.stack = lastPut.base ∧ t'.activity = .settle (.done .unit) ∧
      lastPut.Undisturbed trace ∧ lastPut.Surveys trace ∧
      (lastPut.evicted .expired trace).map Prod.fst = [5] ∧
      (lastPut.evicted .size trace).map Prod.fst = [3] ∧
      lastPut.Selects orderedSettings (fun key _ key' _ => compare key key') 6 start m trace := by
  have hruns : (Machine.replayFrom orderedSettings orderedMoves (orderedSteps 13)).map (fun run =>
      (run.1.threads[0]?, run.2.2.threads[0]?, run.2.1.all lastPut.spares,
        run.2.1.all lastPut.surveys, (lastPut.evicted .expired run.2.1).map Prod.fst,
        (lastPut.evicted .size run.2.1).map Prod.fst)) =
      some (some ⟨.keep (.enforce 0), lastPut.base, none⟩,
        some ⟨.settle (.done .unit), lastPut.base, none⟩, true, true, [5], [3]) := rfl
  obtain ⟨⟨start, trace, m⟩, hrun, hfacts⟩ := Option.map_eq_some_iff.mp hruns
  obtain ⟨hbegins, hrest⟩ := Prod.mk.inj hfacts
  obtain ⟨hended, hrest⟩ := Prod.mk.inj hrest
  obtain ⟨hspares, hrest⟩ := Prod.mk.inj hrest
  obtain ⟨hsurveys, hrest⟩ := Prod.mk.inj hrest
  obtain ⟨hexpired, hsized⟩ := Prod.mk.inj hrest
  obtain ⟨hstart, run⟩ := Machine.run_of_replayFrom hrun
  have hundisturbed := Enforcement.undisturbed_of_spares run hspares
  have hsurveys := Enforcement.surveys_of_all hsurveys
  have hranks := hstart.accounted.map.valid.ranks_compare
  refine ⟨start, m, trace, _, _, hstart, hranks, run, hbegins, rfl, rfl, hended, rfl, rfl,
    hundisturbed, hsurveys, hexpired, hsized, ?_⟩
  rcases Run.evictsInOrder rfl rfl hstart hranks run hbegins rfl rfl hended rfl rfl hundisturbed
    hsurveys with ⟨-, hselects⟩ | ⟨panic, hraised, -⟩
  · exact hselects
  · cases hraised

end SharedCache
