import SharedCache.Proofs.Visits

/-!
# Victims

What an eviction picks is one of the entries that it drew.  It has expired, or it is not vetoed, and
nothing is picked only where no entry is of either kind.  Where a comparison orders the entries, one
that has not expired is the smallest that is not vetoed.
-/

namespace SharedCache

variable {K V Q R : Type}

namespace Settings

variable {s : Settings K V Q R} {sample rest : List (K × Holder V)} {entry : K × Holder V}
  {rank : K → V → K → V → Ordering} {best : Option (K × Holder V)}

/-! ## Picking among the entries -/

/-- The smaller of two entries is one of them. -/
theorem mem_of_smaller {a b : K × Holder V} (hresult : (smaller rank a b).result = .ok entry)
    (ha : a ∈ sample) (hb : b ∈ sample) : entry ∈ sample := by
  obtain rfl := Except.ok.inj hresult
  split
  · exact hb
  · exact ha

theorem mem_of_firstUnspared (hresult : (s.firstUnspared rest).result = .ok (some entry)) :
    entry ∈ rest := by
  induction rest with
  | nil => cases hresult
  | cons first rest ih =>
    unfold firstUnspared at hresult
    obtain ⟨spared, -, hresult⟩ := Consultation.result_bind hresult
    cases spared with
    | true => exact List.mem_cons_of_mem first (ih hresult)
    | false =>
      obtain rfl : first = entry := Option.some.inj (Except.ok.inj hresult)
      exact List.mem_cons_self

/-- The smallest entry is the smallest one so far or comes later. -/
theorem mem_of_smallestUnspared (hrest : rest ⊆ sample) (hbest : ∀ b ∈ best, b ∈ sample)
    (hresult : (s.smallestUnspared rank best rest).result = .ok (some entry)) :
    entry ∈ sample := by
  induction rest generalizing best with
  | nil => exact hbest entry (Except.ok.inj hresult)
  | cons next rest ih =>
    obtain ⟨hnext, hrest⟩ := List.cons_subset.mp hrest
    unfold smallestUnspared at hresult
    obtain ⟨spared, -, hresult⟩ := Consultation.result_bind hresult
    cases spared with
    | true => exact ih hrest hbest hresult
    | false =>
      cases best with
      | none => exact ih hrest (by simpa using hnext) hresult
      | some b =>
        obtain ⟨least, hleast, hresult⟩ := Consultation.result_bind hresult
        refine ih hrest (fun found hfound => ?_) hresult
        obtain rfl := Option.some.inj hfound
        exact mem_of_smaller hleast (hbest b rfl) hnext

/-! ## With a veto -/

/-- What is picked is not vetoed. -/
theorem spares_of_firstUnspared (hresult : (s.firstUnspared rest).result = .ok (some entry)) :
    (s.spares entry).result = .ok false := by
  induction rest with
  | nil => cases hresult
  | cons first rest ih =>
    unfold firstUnspared at hresult
    obtain ⟨spared, hspared, hresult⟩ := Consultation.result_bind hresult
    cases spared with
    | true => exact ih hresult
    | false =>
      obtain rfl : first = entry := Option.some.inj (Except.ok.inj hresult)
      exact hspared

/-- Nothing is picked only where all entries are vetoed. -/
theorem spares_of_firstUnspared_none (hresult : (s.firstUnspared rest).result = .ok none) :
    ∀ entry ∈ rest, (s.spares entry).result = .ok true := by
  induction rest with
  | nil => simp
  | cons first rest ih =>
    unfold firstUnspared at hresult
    obtain ⟨spared, hspared, hresult⟩ := Consultation.result_bind hresult
    cases spared with
    | true => exact List.forall_mem_cons.mpr ⟨hspared, ih hresult⟩
    | false => cases hresult

/-- The smallest entry is not vetoed, unless it is the smallest one so far. -/
theorem spares_of_smallestUnspared (hbest : ∀ b ∈ best, (s.spares b).result = .ok false)
    (hresult : (s.smallestUnspared rank best rest).result = .ok (some entry)) :
    (s.spares entry).result = .ok false := by
  induction rest generalizing best with
  | nil => exact hbest entry (Except.ok.inj hresult)
  | cons next rest ih =>
    unfold smallestUnspared at hresult
    obtain ⟨spared, hspared, hresult⟩ := Consultation.result_bind hresult
    cases spared with
    | true => exact ih hbest hresult
    | false =>
      cases best with
      | none => exact ih (by simpa using hspared) hresult
      | some b =>
        obtain ⟨least, hleast, hresult⟩ := Consultation.result_bind hresult
        refine ih (fun found hfound => ?_) hresult
        obtain rfl := Option.some.inj hfound
        obtain rfl := Except.ok.inj hleast
        split
        · exact hspared
        · exact hbest b rfl

/-- Nothing is the smallest only where all entries are vetoed and there was none before. -/
theorem spares_of_smallestUnspared_none
    (hresult : (s.smallestUnspared rank best rest).result = .ok none) :
    best = none ∧ ∀ entry ∈ rest, (s.spares entry).result = .ok true := by
  induction rest generalizing best with
  | nil => exact ⟨Except.ok.inj hresult, by simp⟩
  | cons next rest ih =>
    unfold smallestUnspared at hresult
    obtain ⟨spared, hspared, hresult⟩ := Consultation.result_bind hresult
    cases spared with
    | true =>
      obtain ⟨hnone, hrest⟩ := ih hresult
      exact ⟨hnone, List.forall_mem_cons.mpr ⟨hspared, hrest⟩⟩
    | false =>
      cases best with
      | none => cases (ih hresult).1
      | some b =>
        obtain ⟨least, -, hresult⟩ := Consultation.result_bind hresult
        cases (ih hresult).1

/-! ## The smallest entry -/

/-- The first entry is evicted before the second one. -/
def Below (rank : K → V → K → V → Ordering) (a b : K × Holder V) : Prop :=
  rank a.1 a.2.value b.1 b.2.value = .lt

/-- These entries are totally ordered. -/
structure Ranks (rank : K → V → K → V → Ordering) (entries : List (K × Holder V)) : Prop where
  eq : ∀ a ∈ entries, ∀ b ∈ entries, rank a.1 a.2.value b.1 b.2.value = .eq → a = b
  swap : ∀ a ∈ entries, ∀ b ∈ entries,
    rank b.1 b.2.value a.1 a.2.value = (rank a.1 a.2.value b.1 b.2.value).swap
  trans : ∀ a ∈ entries, ∀ b ∈ entries, ∀ c ∈ entries,
    Below rank a b → Below rank b c → Below rank a c

namespace Ranks

variable {entries : List (K × Holder V)} {a b c : K × Holder V}

theorem of_subset (hranks : Ranks rank entries) (hsubset : rest ⊆ entries) : Ranks rank rest :=
  ⟨fun a ha b hb => hranks.eq a (hsubset ha) b (hsubset hb),
    fun a ha b hb => hranks.swap a (hsubset ha) b (hsubset hb),
    fun a ha b hb c hc => hranks.trans a (hsubset ha) b (hsubset hb) c (hsubset hc)⟩

theorem below_of_gt (hranks : Ranks rank entries) (ha : a ∈ entries) (hb : b ∈ entries)
    (hgt : rank a.1 a.2.value b.1 b.2.value = .gt) : Below rank b a := by
  rw [Below, hranks.swap a ha b hb, hgt]
  rfl

/-- Of two different entries one is below the other. -/
theorem below_or_below (hranks : Ranks rank entries) (ha : a ∈ entries) (hb : b ∈ entries)
    (hne : a ≠ b) : Below rank a b ∨ Below rank b a := by
  cases horder : rank a.1 a.2.value b.1 b.2.value with
  | lt => exact .inl horder
  | eq => exact absurd (hranks.eq a ha b hb horder) hne
  | gt => exact .inr (hranks.below_of_gt ha hb horder)

theorem eq_or_below_trans (hranks : Ranks rank entries) (ha : a ∈ entries) (hb : b ∈ entries)
    (hc : c ∈ entries) (hab : a = b ∨ Below rank a b) (hbc : b = c ∨ Below rank b c) :
    a = c ∨ Below rank a c := by
  rcases hab with rfl | hab
  · exact hbc
  · rcases hbc with rfl | hbc
    · exact .inr hab
    · exact .inr (hranks.trans a ha b hb c hc hab hbc)

end Ranks

/-- The smaller of two entries is not above either of them. -/
theorem eq_or_below_of_smaller {a b least : K × Holder V} (hranks : Ranks rank sample)
    (ha : a ∈ sample) (hb : b ∈ sample) (hresult : (smaller rank a b).result = .ok least) :
    (least = a ∨ Below rank least a) ∧ (least = b ∨ Below rank least b) := by
  obtain rfl := Except.ok.inj hresult
  split
  · rename_i hgt
    exact ⟨.inr (hranks.below_of_gt ha hb hgt), .inl rfl⟩
  · rename_i hnot
    refine ⟨.inl rfl, ?_⟩
    cases horder : rank a.1 a.2.value b.1 b.2.value with
    | lt => exact .inr horder
    | eq => exact .inl (hranks.eq a ha b hb horder)
    | gt => exact absurd horder hnot

/-- The smallest entry is the smallest one so far, or below it, and likewise for all entries that
come later and are not vetoed. -/
theorem eq_or_below_of_smallestUnspared (hranks : Ranks rank sample) (hrest : rest ⊆ sample)
    (hbest : ∀ b ∈ best, b ∈ sample)
    (hresult : (s.smallestUnspared rank best rest).result = .ok (some entry)) :
    (∀ b ∈ best, entry = b ∨ Below rank entry b) ∧
      ∀ other ∈ rest, (s.spares other).result = .ok false →
        entry = other ∨ Below rank entry other := by
  induction rest generalizing best with
  | nil =>
    obtain rfl := Except.ok.inj hresult
    exact ⟨fun b hb => .inl (Option.some.inj hb), by simp⟩
  | cons next rest ih =>
    obtain ⟨hnext, hrest⟩ := List.cons_subset.mp hrest
    unfold smallestUnspared at hresult
    obtain ⟨spared, hspared, hresult⟩ := Consultation.result_bind hresult
    cases spared with
    | true =>
      obtain ⟨hleast, hlater⟩ := ih hrest hbest hresult
      refine ⟨hleast, List.forall_mem_cons.mpr ⟨fun hfree => ?_, hlater⟩⟩
      rw [hspared] at hfree
      cases hfree
    | false =>
      cases best with
      | none =>
        obtain ⟨hleast, hlater⟩ := ih hrest (by simpa using hnext) hresult
        exact ⟨by simp, List.forall_mem_cons.mpr ⟨fun _ => hleast next rfl, hlater⟩⟩
      | some b =>
        have hb : b ∈ sample := hbest b rfl
        obtain ⟨least, hsmaller, hresult⟩ := Consultation.result_bind hresult
        have hmem : least ∈ sample := mem_of_smaller hsmaller hb hnext
        have hfound : ∀ b ∈ some least, b ∈ sample := fun found hsome =>
          Option.some.inj hsome ▸ hmem
        obtain ⟨hleast, hlater⟩ := ih hrest hfound hresult
        have hentry : entry ∈ sample := mem_of_smallestUnspared hrest hfound hresult
        have hboth := eq_or_below_of_smaller hranks hb hnext hsmaller
        refine ⟨fun found hsome => ?_, List.forall_mem_cons.mpr ⟨fun _ => ?_, hlater⟩⟩
        · obtain rfl := Option.some.inj hsome
          exact hranks.eq_or_below_trans hentry hmem hb (hleast least rfl) hboth.1
        · exact hranks.eq_or_below_trans hentry hmem hnext (hleast least rfl) hboth.2

/-! ## Without a veto -/

theorem spares_eq_false (hveto : s.veto = none) (entry : K × Holder V) :
    (s.spares entry).result = .ok false := by
  unfold spares
  rw [hveto]
  rfl

/-- Without a veto the first entry is picked. -/
theorem firstUnspared_cons (hveto : s.veto = none) (entry : K × Holder V)
    (rest : List (K × Holder V)) :
    (s.firstUnspared (entry :: rest)).result = .ok (some entry) := by
  unfold firstUnspared
  rw [Consultation.result_bind_of_ok (spares_eq_false hveto entry)]
  rfl

/-- Without a veto one of the entries is the smallest. -/
theorem exists_smallestUnspared (hveto : s.veto = none) (rank : K → V → K → V → Ordering)
    (best : Option (K × Holder V)) (hsome : best.toList ++ rest ≠ []) :
    ∃ entry, (s.smallestUnspared rank best rest).result = .ok (some entry) := by
  induction rest generalizing best with
  | nil =>
    cases best with
    | none => exact absurd rfl hsome
    | some entry => exact ⟨entry, rfl⟩
  | cons entry rest ih =>
    unfold smallestUnspared
    rw [Consultation.result_bind_of_ok (spares_eq_false hveto entry)]
    cases best with
    | none => exact ih (some entry) (by simp)
    | some b =>
      obtain ⟨least, hsmaller⟩ : ∃ least, (smaller rank b entry).result = .ok least := ⟨_, rfl⟩
      obtain ⟨found, hresult⟩ := ih (some least) (by simp)
      exact ⟨found, (Consultation.result_bind_of_ok hsmaller _).trans hresult⟩

end Settings

namespace Store

variable {settings : Settings K V Q R} {s : Store K V} {now : Instant}
  {sample : List (K × Holder V)}

/-- A victim is one of the entries that it was picked among. -/
theorem mem_of_victim {victim : (K × Holder V) × RemovalCause}
    (hresult : (s.victim settings now sample).result = .ok (some victim)) :
    victim.1 ∈ sample := by
  rw [Store.victim] at hresult
  split at hresult
  · rename_i entry hfind
    obtain rfl := Option.some.inj (Except.ok.inj hresult)
    exact List.mem_of_find?_eq_some hfind
  · dsimp only at hresult
    split at hresult
    · obtain ⟨choice, hchoice, hresult⟩ := Consultation.result_bind hresult
      obtain ⟨entry, rfl, rfl⟩ := Option.map_eq_some_iff.mp (Except.ok.inj hresult)
      exact Settings.mem_of_firstUnspared hchoice
    · obtain ⟨choice, hchoice, hresult⟩ := Consultation.result_bind hresult
      obtain ⟨entry, rfl, rfl⟩ := Option.map_eq_some_iff.mp (Except.ok.inj hresult)
      exact Settings.mem_of_smallestUnspared (List.Subset.refl _) (by simp) hchoice

/-- A victim has expired, or nothing in the sample has and the victim is not vetoed. -/
theorem victim_spec {entry : K × Holder V} {cause : RemovalCause}
    (hresult : (s.victim settings now sample).result = .ok (some (entry, cause))) :
    cause = .expired ∧ s.expired entry.2 now = true ∨
      cause = .size ∧ (∀ drawn ∈ sample, s.expired drawn.2 now = false) ∧
        (settings.spares entry).result = .ok false := by
  rw [Store.victim] at hresult
  split at hresult
  · rename_i found hfind
    obtain ⟨rfl, rfl⟩ := Prod.mk.inj (Option.some.inj (Except.ok.inj hresult))
    exact .inl ⟨rfl, by simpa using List.find?_some hfind⟩
  · rename_i hfind
    have hfresh : ∀ drawn ∈ sample, s.expired drawn.2 now = false := by simpa using hfind
    dsimp only at hresult
    split at hresult
    · obtain ⟨choice, hchoice, hresult⟩ := Consultation.result_bind hresult
      obtain ⟨found, rfl, hpair⟩ := Option.map_eq_some_iff.mp (Except.ok.inj hresult)
      obtain ⟨rfl, rfl⟩ := Prod.mk.inj hpair
      exact .inr ⟨rfl, hfresh, Settings.spares_of_firstUnspared hchoice⟩
    · obtain ⟨choice, hchoice, hresult⟩ := Consultation.result_bind hresult
      obtain ⟨found, rfl, hpair⟩ := Option.map_eq_some_iff.mp (Except.ok.inj hresult)
      obtain ⟨rfl, rfl⟩ := Prod.mk.inj hpair
      exact .inr ⟨rfl, hfresh, Settings.spares_of_smallestUnspared (by simp) hchoice⟩

/-- A victim that has not expired is the smallest entry of the sample that is not vetoed. -/
theorem eq_or_below_of_victim {rank : K → V → K → V → Ordering} {entry : K × Holder V}
    (hpriority : settings.priority = some rank) (hranks : Settings.Ranks rank sample)
    (hresult : (s.victim settings now sample).result = .ok (some (entry, .size))) :
    ∀ other ∈ sample, (settings.spares other).result = .ok false →
      entry = other ∨ Settings.Below rank entry other := by
  rw [Store.victim, hpriority] at hresult
  split at hresult
  · cases hresult
  · obtain ⟨choice, hchoice, hresult⟩ := Consultation.result_bind hresult
    obtain ⟨found, rfl, hpair⟩ := Option.map_eq_some_iff.mp (Except.ok.inj hresult)
    obtain ⟨rfl, -⟩ := Prod.mk.inj hpair
    exact (Settings.eq_or_below_of_smallestUnspared hranks (List.Subset.refl _) (by simp)
      hchoice).2

/-- A sample without a victim has nothing that has expired and nothing that is not vetoed. -/
theorem victim_none_spec (hresult : (s.victim settings now sample).result = .ok none) :
    ∀ drawn ∈ sample,
      s.expired drawn.2 now = false ∧ (settings.spares drawn).result = .ok true := by
  rw [Store.victim] at hresult
  split at hresult
  · cases hresult
  · rename_i hfind
    have hfresh : ∀ drawn ∈ sample, s.expired drawn.2 now = false := by simpa using hfind
    dsimp only at hresult
    split at hresult
    · obtain ⟨choice, hchoice, hresult⟩ := Consultation.result_bind hresult
      obtain rfl := Option.map_eq_none_iff.mp (Except.ok.inj hresult)
      exact fun drawn hdrawn =>
        ⟨hfresh drawn hdrawn, Settings.spares_of_firstUnspared_none hchoice drawn hdrawn⟩
    · obtain ⟨choice, hchoice, hresult⟩ := Consultation.result_bind hresult
      obtain rfl := Option.map_eq_none_iff.mp (Except.ok.inj hresult)
      exact fun drawn hdrawn =>
        ⟨hfresh drawn hdrawn, (Settings.spares_of_smallestUnspared_none hchoice).2 drawn hdrawn⟩

/-- Without a veto every sample with an entry has a victim. -/
theorem exists_victim (hveto : settings.veto = none) (hsome : sample ≠ []) :
    ∃ victim, (s.victim settings now sample).result = .ok (some victim) := by
  unfold Store.victim
  split
  · exact ⟨_, rfl⟩
  · cases settings.priority with
    | none =>
      cases sample with
      | nil => exact absurd rfl hsome
      | cons entry rest =>
        exact ⟨_, Consultation.result_bind_of_ok (Settings.firstUnspared_cons hveto entry rest) _⟩
    | some rank =>
      obtain ⟨entry, hresult⟩ :=
        Settings.exists_smallestUnspared hveto rank none (by simpa using hsome)
      exact ⟨_, Consultation.result_bind_of_ok hresult _⟩

end Store

end SharedCache
