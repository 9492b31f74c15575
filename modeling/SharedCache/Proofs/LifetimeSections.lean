import SharedCache.Proofs.Upkeep

/-!
# Sections and lifetimes

Every section of a store operation pays what it owes and leaves the next one to owe no more than
its own part: from one section to the next slots and deadlines go by what was written and used.
-/

namespace SharedCache

open Function

variable {K V Q R : Type} [DecidableEq K]

theorem Undertakes.observes_of_free {l : Lifetime} {s : Store K V} {slots : K → Option (Slot V)}
    {usages : K → Option Usage} {since : Instant} {a : Activity K V Q R}
    (howes : Undertakes l s slots usages since a) (hfree : a.IsFree) :
    Observes l s.deadlines slots usages since := by
  cases howes with
  | rests _ hobserves => exact hobserves
  | _ => cases hfree

variable {settings : Settings K V Q R} {l : Lifetime} {s : Store K V}
  {front back : List (Ongoing K V Q R)} {usages : K → Option Usage} {since now : Instant}
  {c : Computation K V Q R} {h : Holder V}

namespace Store

/-! ## Reads -/

theorem owes_consult {key : K} {thenEnforce : Bool}
    (hexpiry : settings.expiry = some (l.expiry K V))
    (howes : Undertakes l s (lodgings (front ++ [] ++ back) s.map.get?) usages since
      (.keep (.consult key h now thenEnforce) : Activity K V Q R)) :
    (s.consult settings key h now thenEnforce).Owes l front back usages since := by
  cases howes with
  | rests hfree => cases hfree
  | @consults _ _ u before _ hobserves hslot hu hgoes hvisible husages =>
    rw [Store.consult]
    refine Turn.consulting_induction (P := Turn.Owes l front back usages since)
      (fun turn events hturn => ⟨hturn.next, hturn.frames⟩) (fun p hp => ?_) fun deadline hd => ?_
    · rw [Settings.deadlineOfRead_eq hexpiry] at hp
      cases hp
    · rw [Settings.deadlineOfRead_eq hexpiry] at hd
      obtain rfl := Except.ok.inj hd
      have hle : u.writtenAt ≤ since := hobserves.written_le key u hu
      have hbounds := hgoes.2.afterRead hle ((hgoes.2 since).mp hvisible)
      have hwritten : h.writtenAt = u.writtenAt := hgoes.1
      refine ⟨.refreshes ?_, by simp⟩
      rw [husages, hwritten]
      exact hobserves.refresh hslot hwritten.symm hle hbounds

theorem owes_refresh {deadline : Option (Option Instant)} {thenEnforce : Bool}
    (howes : Undertakes l s (lodgings (front ++ [] ++ back) s.map.get?) usages since
      (.keep (.refresh h deadline thenEnforce) : Activity K V Q R)) :
    (s.refresh h deadline thenEnforce : StoreTurn K V Q R).Owes l front back usages since := by
  cases howes with
  | rests hfree => cases hfree
  | refreshes hobserves => exact ⟨.rests rfl hobserves, by simp [Store.refresh]⟩

theorem owes_handOut {thenEnforce : Bool}
    (hobserves : Observes l s.deadlines (lodgings (front ++ [] ++ back) s.map.get?) usages since) :
    (s.handOut settings h thenEnforce).Owes l front back usages since := by
  rw [handOut]
  refine Turn.consulting_induction (P := Turn.Owes l front back usages since)
    (fun turn events hturn => ⟨hturn.next, hturn.frames⟩) (fun p _ => ?_) fun value _ => ?_
  · exact Turn.owes_keep hobserves rfl rfl (fun _ _ => rfl) trivial (by simp)
  · split
    · exact Turn.owes_keep hobserves rfl rfl (fun _ _ => rfl) rfl (by simp [enforcing])
    · exact Turn.owes_keep hobserves rfl rfl (fun _ _ => rfl) trivial (by simp)

theorem owes_expel {key : K} (hvalid : s.map.Valid)
    (howes : Undertakes l s (lodgings (front ++ [] ++ back) s.map.get?) usages since
      (.keep (.expel key h) : Activity K V Q R)) :
    (s.expel key h : StoreTurn K V Q R).Owes l front back usages since := by
  cases howes with
  | rests hfree => cases hfree
  | expels hobserves hdead =>
    rw [expel]
    split
    · refine ⟨.rests rfl ?_, by simp [reporting]⟩
      rw [show (_ : StoreTurn K V Q R).ongoing = [] from rfl,
        lodgings_empty [] [] hvalid rfl fun _ _ _ => rfl]
      exact hobserves.drop hdead
    · exact ⟨.rests rfl hobserves, by simp⟩

theorem owes_report {key : K} {cause : RemovalCause}
    (hobserves : Observes l s.deadlines (lodgings (front ++ [] ++ back) s.map.get?) usages since) :
    (s.report settings key h cause).Owes l front back usages since := by
  have hspent : ∀ turn : StoreTurn K V Q R, turn.Owes l front back usages since →
      (turn.after [.reported h.id cause]).Owes l front back usages since :=
    fun turn hturn => ⟨hturn.next, hturn.frames⟩
  rw [report]
  refine hspent _ ?_
  split
  · exact Turn.owes_keep hobserves rfl rfl (fun _ _ => rfl) trivial (by simp)
  · split
    · refine Turn.consulting_induction (P := Turn.Owes l front back usages since)
        (fun turn events hturn => ⟨hturn.next, hturn.frames⟩) (fun p _ => ?_) fun value _ => ?_
      · exact Turn.owes_keep hobserves rfl rfl (fun _ _ => rfl) trivial (by simp)
      · exact Turn.owes_keep hobserves rfl rfl (fun _ _ => rfl) trivial (by simp [Frame.IsLater])
    · exact Turn.owes_keep hobserves rfl rfl (fun _ _ => rfl) trivial (by simp)

/-! ## Computations -/

/-- What the key of a computation has while its fault is in the slot. -/
theorem lodgings_withheld {progress : Progress V}
    (howned : Owned s (front ++ [.computes c progress] ++ back))
    (hpending : s.pendingIn c.key c.fault = true) :
    lodgings (front ++ [.computes c progress] ++ back) s.map.get? c.key =
      c.previous.map .holder := by
  have hmem : .computes c progress ∈ front ++ [.computes c progress] ++ back := by simp
  rw [lodgings_of_fault (pendingIn_iff.mp hpending), withheld_of_mem howned.nodup hmem]

/-- A slot that gets back what the fault has taken the place of has stood for that all the time. -/
theorem lodgings_restored {progress : Progress V}
    (howned : Owned s (front ++ [.computes c progress] ++ back))
    (hpending : s.pendingIn c.key c.fault = true) :
    update (lodgings (front ++ [.computes c progress] ++ back) s.map.get?) c.key
        (c.previous.map .holder) =
      lodgings (front ++ [.computes c progress] ++ back) s.map.get? :=
  update_eq_self_iff.mpr (lodgings_withheld howned hpending).symm

/-- What a computation withholds does not depend on how far it has come. -/
theorem withheld_progress (c : Computation K V Q R) (progress progress' : Progress V) (key : K)
    (fault : Nat) :
    withheld [.computes c progress] key fault = withheld [.computes c progress'] key fault := by
  rw [withheld_computes, withheld_computes]

/-- A computation whose fault is in no slot any more does not matter when it ends. -/
theorem owes_gone {progress : Progress V} {turn : StoreTurn K V Q R}
    (hobserves : Observes l s.deadlines
      (lodgings (front ++ [.computes c progress] ++ back) s.map.get?) usages since)
    (hgone : ¬ s.pendingIn c.key c.fault = true) (hmap : turn.state.map = s.map)
    (hdeadlines : turn.state.deadlines = s.deadlines) (hnone : turn.ongoing = [])
    (hfree : turn.next.IsFree) (hframes : ∀ frame ∈ turn.frames, frame.IsLater) :
    turn.Owes l front back usages since := by
  refine ⟨.rests hfree ?_, hframes⟩
  have hslots : lodgings (front ++ [] ++ back) s.map.get? =
      lodgings (front ++ [.computes c progress] ++ back) s.map.get? := by
    refine lodgings_congr fun key fault hslot => withheld_replace ?_
    rw [withheld_computes, if_neg, withheld_nil]
    rintro ⟨rfl, rfl⟩
    exact hgone (pendingIn_iff.mpr hslot)
  rw [hdeadlines, hmap, hnone, hslots]
  exact hobserves

/-- A computation ends and leaves this in its slot. -/
theorem owes_left {progress : Progress V} {left : Option (Holder V)} {turn : StoreTurn K V Q R}
    (hobserves : Observes l s.deadlines
      (update (lodgings (front ++ [.computes c progress] ++ back) s.map.get?) c.key
        (left.map .holder)) usages since)
    (hvalid : s.map.Valid) (hmap : turn.state.map = s.map.leave c.key left)
    (hdeadlines : turn.state.deadlines = s.deadlines) (hnone : turn.ongoing = [])
    (hfree : turn.next.IsFree) (hframes : ∀ frame ∈ turn.frames, frame.IsLater) :
    turn.Owes l front back usages since := by
  refine ⟨.rests hfree ?_, hframes⟩
  have hget : (s.map.leave c.key left).get? = update s.map.get? c.key (left.map .holder) := by
    funext other
    rw [hvalid.get?_leave, update_apply]
  have hothers : ∀ other, other ≠ c.key → ∀ fault,
      withheld (front ++ [] ++ back) other fault =
        withheld (front ++ [.computes c progress] ++ back) other fault := by
    refine fun other hother fault => withheld_replace ?_
    rw [withheld_computes, if_neg fun hsame => hother hsame.1.symm, withheld_nil]
  have hlodger : ((left.map .holder).bind (Slot.lodger (front ++ [] ++ back) c.key)).map
      Slot.holder = left.map Slot.holder := by
    cases left <;> rfl
  rw [hdeadlines, hmap, hnone, hget, lodgings_update hothers, hlodger]
  exact hobserves

theorem owes_own (hobserves : Observes l s.deadlines
      (lodgings (front ++ [.computes c .begun] ++ back) s.map.get?) usages since) :
    (s.own settings c).Owes l front back usages since := by
  rw [own_eq]
  refine Turn.consulting_induction (P := Turn.Owes l front back usages since)
    (fun turn events hturn => ⟨hturn.next, hturn.frames⟩) (fun p _ => ?_) fun current _ => ?_
  · exact Turn.owes_keep hobserves s.map_asked s.deadlines_asked
      (fun _ _ => withheld_progress ..) rfl (by simp [unwinding])
  · exact Turn.owes_keep hobserves s.map_asked s.deadlines_asked
      (fun _ _ => withheld_progress ..) trivial (by simp [Frame.IsLater])

theorem owes_compose {value : V} (hexpiry : settings.expiry = some (l.expiry K V))
    (hobserves : Observes l s.deadlines
      (lodgings (front ++ [.computes c (.given value)] ++ back) s.map.get?) usages now) :
    (s.compose settings c value now).Owes l front back usages now := by
  rw [compose]
  refine Turn.consulting_induction (P := Turn.Owes l front back usages now)
    (fun turn events hturn => ⟨hturn.next, hturn.frames⟩) (fun p _ => ?_) fun d hd => ?_
  · exact Turn.owes_keep hobserves rfl rfl (fun _ _ => withheld_progress ..) rfl
      (by simp [unwinding])
  have hpushed := hobserves.push (Mark.ofInstant? d.deadline)
  refine Turn.consulting_induction (P := Turn.Owes l front back usages now)
    (fun turn events hturn => ⟨hturn.next, hturn.frames⟩) (fun p _ => ?_) fun value' _ => ?_
  · exact Turn.owes_keep (s := (s.newHolder d).1) hpushed rfl rfl
      (fun _ _ => withheld_progress ..) rfl (by simp [unwinding])
  · have hslots : ∀ progress, lodgings (front ++ [.computes c progress] ++ back) s.map.get? =
        lodgings (front ++ [.computes c (.given value)] ++ back) s.map.get? := fun progress =>
      lodgings_keep rfl fun _ _ => withheld_progress ..
    rw [← hslots (.leaving (some (s.newHolder d).2) (.ready (s.newHolder d).2)
      (.done (.value (some value'))))] at hobserves
    obtain ⟨rfl, hbounds⟩ := Settings.bounds_draft hexpiry hd
    exact ⟨.installs (hobserves.push _) (hobserves.write c.key (Nat.le_refl _) hbounds),
      by simp⟩

variable [DecidableEq V] {raises : Bool}

theorem owes_install {value : V} (hvalid : s.map.Valid)
    (howes : Undertakes l s
      (lodgings (front ++ [.computes c (.leaving (some h) (.ready h) (.done (.value (some value))))]
        ++ back) s.map.get?) usages since (.keep (.install c h value))) :
    (s.install c h value).Owes l front back
      ((Stage.install c h value).treats s raises usages) since := by
  cases howes with
  | rests hfree => cases hfree
  | installs hobserves hwritten =>
    rw [install]
    split <;> rename_i hpending
    · have hwrites : (Stage.install c h value).treatment? s raises c.key =
          some (.written h.writtenAt) := if_pos ⟨rfl, hpending⟩
      have htreats : (Stage.install c h value).treats s raises usages =
          update usages c.key (some ⟨h.writtenAt, h.writtenAt⟩) :=
        Stage.treats_eq_update hwrites fun other hother => if_neg fun hboth => hother hboth.1.symm
      have hleft : Observes l s.deadlines
          (update (lodgings (front ++
            [.computes c (.leaving (some h) (.ready h) (.done (.value (some value))))] ++ back)
            s.map.get?) c.key ((some h).map .holder))
          (update usages c.key (some ⟨h.writtenAt, h.writtenAt⟩)) since := hwritten
      rw [htreats]
      dsimp only
      split
      · exact owes_left hleft hvalid (map_resolve ..) (deadlines_resolve ..) rfl rfl
          (by simp [enforcing])
      · exact owes_left hleft hvalid (map_resolve ..) (deadlines_resolve ..) rfl rfl
          (by simp [reporting])
    · have htreats : (Stage.install c h value).treats s raises usages = usages :=
        Stage.treats_eq_self fun key => if_neg fun hboth => hpending hboth.2
      rw [htreats]
      exact owes_gone hobserves hpending (map_resolve ..) (deadlines_resolve ..) rfl trivial
        (by simp)

/-- A computation that gives nothing removes the value from its slot, and one that has failed had
none there. -/
theorem observes_vacated {resolution : Resolution V} {answer : Answer V} (raises : Bool)
    (howned : Owned s (front ++ [.computes c (.leaving none resolution (.done answer))] ++ back))
    (hobserves : Observes l s.deadlines
      (lodgings (front ++ [.computes c (.leaving none resolution (.done answer))] ++ back)
        s.map.get?) usages since)
    (hwhy : resolution = .absent ∨ c.previous = none ∧ (∃ error, resolution = .failed error))
    (hpending : s.pendingIn c.key c.fault = true) :
    Observes l s.deadlines
      (update
        (lodgings (front ++ [.computes c (.leaving none resolution (.done answer))] ++ back)
          s.map.get?)
        c.key ((none : Option (Holder V)).map .holder))
      ((Stage.vacate c resolution answer).treats s raises usages) since := by
  rcases hwhy with rfl | ⟨hprevious, error, rfl⟩
  · have hremoves : (Stage.vacate c .absent answer).treatment? s raises c.key = some .removed :=
      if_pos ⟨rfl, hpending⟩
    have htreats : (Stage.vacate c .absent answer).treats s raises usages =
        update usages c.key none :=
      Stage.treats_eq_update hremoves fun other hother => if_neg fun hboth => hother hboth.1.symm
    rw [htreats]
    exact hobserves.erase c.key
  · have hsame := lodgings_restored howned hpending
    rw [hprevious] at hsame
    rw [hsame]
    exact hobserves

/-- A computation that gives nothing removes the value, and one that has failed had none. -/
theorem owes_vacate {resolution : Resolution V} {answer : Answer V} (hvalid : s.map.Valid)
    (howned : Owned s (front ++ [.computes c (.leaving none resolution (.done answer))] ++ back))
    (howes : Undertakes l s
      (lodgings (front ++ [.computes c (.leaving none resolution (.done answer))] ++ back)
        s.map.get?) usages since (.keep (.vacate c resolution answer))) :
    (s.vacate c resolution answer).Owes l front back
      ((Stage.vacate c resolution answer).treats s raises usages) since := by
  cases howes with
  | rests hfree => cases hfree
  | vacates hobserves hwhy =>
    by_cases hpending : s.pendingIn c.key c.fault = true
    · have herased := observes_vacated raises howned hobserves hwhy hpending
      rw [vacate, if_pos hpending]
      dsimp only
      split
      · exact owes_left herased hvalid (map_resolve ..) (deadlines_resolve ..) rfl trivial
          (by simp)
      · exact owes_left herased hvalid (map_resolve ..) (deadlines_resolve ..) rfl rfl
          (by simp [reporting])
    · have htreats : (Stage.vacate c resolution answer).treats s raises usages = usages := by
        refine Stage.treats_eq_self fun key => ?_
        rcases hwhy with rfl | ⟨-, error, rfl⟩
        · exact if_neg fun hboth => hpending hboth.2
        · rfl
      rw [htreats, vacate, if_neg hpending]
      exact owes_gone hobserves hpending (map_resolve ..) (deadlines_resolve ..) rfl trivial
        (by simp)

omit [DecidableEq V] in
theorem owes_restore {resolution : Resolution V} {signal : Signal V} (hvalid : s.map.Valid)
    (howned : Owned s (front ++ [.computes c (.leaving c.previous resolution signal)] ++ back))
    (hobserves : Observes l s.deadlines
      (lodgings (front ++ [.computes c (.leaving c.previous resolution signal)] ++ back) s.map.get?)
      usages since) :
    (s.restore c resolution signal).Owes l front back usages since := by
  by_cases hpending : s.pendingIn c.key c.fault = true
  · rw [← lodgings_restored howned hpending] at hobserves
    have hmap : (s.restore c resolution signal).state.map = s.map.leave c.key c.previous := by
      rw [restore, Turn.state_goTo, map_resolve, if_pos hpending]
      split <;> rename_i hprevious <;> rw [hprevious] <;> rfl
    exact owes_left hobserves hvalid hmap (deadlines_restore ..) rfl trivial (by
      simp [restore])
  · have hmap : (s.restore c resolution signal).state.map = s.map := by
      rw [restore, if_neg hpending]
      exact map_resolve ..
    exact owes_gone hobserves hpending hmap (deadlines_restore ..) rfl trivial (by
      simp [restore])

/-! ## Clearing -/

theorem owes_sweep {segment : Nat} (hobserves : Observes l s.deadlines
      (lodgings (front ++ [] ++ back) s.map.get?) usages since) :
    (s.sweep segment : StoreTurn K V Q R).Owes l front back
      ((Stage.sweep segment : Stage K V Q R).treats s raises usages) since := by
  have hslots : lodgings (front ++ [] ++ back) (s.map.clearSegment segment).get? = fun key =>
      if s.map.segmentOf key = segment then none
      else lodgings (front ++ [] ++ back) s.map.get? key := by
    funext key
    rw [lodgings, EntryMap.get?_clearSegment]
    split <;> rfl
  have htreats : (Stage.sweep segment : Stage K V Q R).treats s raises usages = fun key =>
      if s.map.segmentOf key = segment then none else usages key := by
    funext key
    rw [Stage.treats, Stage.treatment?]
    split <;> rfl
  have hswept := hobserves.sweep fun key => s.map.segmentOf key = segment
  rw [← hslots, ← htreats] at hswept
  rw [sweep]
  dsimp only
  split
  · exact ⟨.rests rfl hswept, by simp⟩
  · exact ⟨.rests trivial hswept, by simp⟩

end Store

/-! ## Sections -/

variable [DecidableEq V]

/-- Every section pays what it owes. -/
theorem Stage.owes {stage : Stage K V Q R} {turn : StoreTurn K V Q R} {interrupted : Bool}
    {draws : List K} (hcapacity : settings.blueprint.capacity = none)
    (hsound : s.Sound settings l (front ++ stage.ongoing ++ back))
    (howes : Undertakes l s (lodgings (front ++ stage.ongoing ++ back) s.map.get?) usages since
      (.keep stage)) (hle : since ≤ now)
    (hturn : stage.turn settings s now interrupted draws = some turn) :
    ∃ since' ≤ now, turn.Owes l front back (stage.treats s turn.raises usages) since' := by
  cases stage with
  | round operation retries =>
    obtain rfl := Option.some.inj hturn
    have hobserves := (howes.observes_of_free rfl).mono hle
    exact ⟨now, Nat.le_refl _, .visits hobserves, by simp⟩
  | visit operation retries reading =>
    obtain rfl := Option.some.inj hturn
    cases howes with
    | rests hfree => cases hfree
    | visits hobserves => exact ⟨since, hle, Store.owes_finds ⟨hsound, hobserves⟩ (s.finds _)⟩
  | await operation retries fault =>
    cases howes with
    | rests hfree => cases hfree
    | awaits hunresolved hobserves =>
      rw [Stage.turn, hunresolved] at hturn
      dsimp only at hturn
      split at hturn
      · obtain rfl := Option.some.inj hturn
        exact ⟨since, hle, Turn.owes_keep hobserves rfl rfl (fun _ _ => rfl) trivial (by simp)⟩
      · cases hturn
  | consult key h reading thenEnforce =>
    obtain rfl := Option.some.inj hturn
    exact ⟨since, hle, Store.owes_consult hsound.expiry howes⟩
  | refresh h deadline thenEnforce =>
    obtain rfl := Option.some.inj hturn
    exact ⟨since, hle, Store.owes_refresh howes⟩
  | handOut h thenEnforce =>
    obtain rfl := Option.some.inj hturn
    exact ⟨since, hle, Store.owes_handOut (howes.observes_of_free rfl)⟩
  | missed =>
    obtain rfl := Option.some.inj hturn
    have hobserves := howes.observes_of_free rfl
    exact ⟨since, hle, Turn.owes_keep hobserves rfl rfl (fun _ _ => rfl) trivial (by simp)⟩
  | expel key h =>
    obtain rfl := Option.some.inj hturn
    exact ⟨since, hle, Store.owes_expel hsound.valid howes⟩
  | sweep segment =>
    obtain rfl := Option.some.inj hturn
    exact ⟨since, hle, Store.owes_sweep (howes.observes_of_free rfl)⟩
  | judge key h reading =>
    obtain rfl := Option.some.inj hturn
    have hobserves := howes.observes_of_free rfl
    exact ⟨since, hle, Turn.owes_keep hobserves rfl rfl (fun _ _ => rfl) rfl
      (by simp [Store.judge, Store.reporting])⟩
  | dismiss key h reading =>
    obtain rfl := Option.some.inj hturn
    have hobserves := howes.observes_of_free rfl
    refine ⟨since, hle, ?_⟩
    rw [Store.dismiss]
    split <;> exact Turn.owes_keep hobserves rfl rfl (fun _ _ => rfl) rfl
      (by simp [Store.reporting])
  | report key h cause =>
    obtain rfl := Option.some.inj hturn
    exact ⟨since, hle, Store.owes_report (howes.observes_of_free rfl)⟩
  | own c =>
    obtain rfl := Option.some.inj hturn
    exact ⟨since, hle, Store.owes_own (howes.observes_of_free rfl)⟩
  | compose c value =>
    obtain rfl := Option.some.inj hturn
    have hobserves := (howes.observes_of_free rfl).mono hle
    exact ⟨now, Nat.le_refl _, Store.owes_compose hsound.expiry hobserves⟩
  | install c h value =>
    obtain rfl := Option.some.inj hturn
    exact ⟨since, hle, Store.owes_install hsound.valid howes⟩
  | vacate c resolution answer =>
    obtain rfl := Option.some.inj hturn
    exact ⟨since, hle, Store.owes_vacate hsound.valid hsound.owned howes⟩
  | restore c resolution signal =>
    obtain rfl := Option.some.inj hturn
    exact ⟨since, hle, Store.owes_restore hsound.valid hsound.owned (howes.observes_of_free rfl)⟩
  | enforce failed =>
    obtain rfl := Option.some.inj hturn
    have hobserves := howes.observes_of_free rfl
    refine ⟨since, hle, ?_⟩
    rw [Store.enforce, hcapacity]
    exact Turn.owes_keep hobserves rfl rfl (fun _ _ => rfl) trivial (by simp)
  | receive | draw | pick | evict =>
    cases howes with
    | rests hfree => cases hfree

end SharedCache
