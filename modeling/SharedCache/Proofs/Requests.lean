import SharedCache.Proofs.Invocations

/-!
# Requests

The requests that a call counts, from its beginning to its end.  Whatever the rounds in between, a
`get` counts one hit or one miss, `putIfAbsent` at most one hit, `computeIfAbsent` one hit or one
miss unless it is told of the failure of another call, and no other operation counts anything.
-/

namespace SharedCache

variable {K V Q R : Type}

/-- What a call has counted by its own steps is what it should have by the way it has ended. -/
structure Invocation.CountsRequests (call : Invocation K V Q R) (trace : List (Passage K V Q R))
    (signal : Signal V) : Prop where
  hits : call.adds Statistics.hits trace = (call.operation.requests (call.asks trace) signal).1
  misses : call.adds Statistics.misses trace = (call.operation.requests (call.asks trace) signal).2
  /-- A call that gives up has counted nothing. -/
  givesUp : signal.givesUp = true → call.asks trace = false ∧
    call.adds Statistics.hits trace = 0 ∧ call.adds Statistics.misses trace = 0

variable [DecidableEq K] [DecidableEq V] {settings : Settings K V Q R} {start m : Machine K V Q R}
  {trace : List (Passage K V Q R)} {call : Invocation K V Q R} {signal : Signal V}

omit [DecidableEq K] [DecidableEq V] in
/-- A call that gives up has nothing to count. -/
theorem Operation.requests_of_givesUp (operation : Operation K V Q R)
    (hgivesUp : signal.givesUp = true) : operation.requests false signal = (0, 0) := by
  cases signal with
  | raised p => cases hgivesUp
  | done answer =>
    cases answer with
    | failed error =>
      cases error with
      | computation error => cases hgivesUp
      | interrupted => cases operation <;> rfl
      | abandoned attempts => cases operation <;> rfl
    | _ => cases hgivesUp

omit [DecidableEq K] [DecidableEq V] in
theorem Invocation.Traceless.countsRequests_of_givesUp (htraceless : call.Traceless trace)
    (hgivesUp : signal.givesUp = true) : call.CountsRequests trace signal := by
  obtain ⟨hhits, hmisses, hasked⟩ := htraceless.tallies
  have hrequests : call.operation.requests (call.asks trace) signal = (0, 0) := by
    rw [hasked]
    exact call.operation.requests_of_givesUp hgivesUp
  constructor
  case hits => rw [hhits, hrequests]; rfl
  case misses => rw [hmisses, hrequests]; rfl
  case givesUp => exact fun _ => ⟨hasked, hhits, hmisses⟩

/-- If neither the expiry nor the copying of values panics, every call counts its request exactly
once, however often it waits and looks its key up again. -/
theorem Run.countsRequests (hreads : ¬ settings.BalksAtReads) (run : Run settings start trace m)
    (hspans : call.Spans start trace) (hover : call.IsOver m signal) :
    call.CountsRequests trace signal := by
  cases (Invocation.at_of_run run hspans).ends hover with
  | isInterrupted _ htraceless => exact htraceless.countsRequests_of_givesUp rfl
  | givesUp htraceless => exact htraceless.countsRequests_of_givesUp rfl
  | accounts haccounts htallies =>
    obtain ⟨hends, hbalks | haccounts⟩ := haccounts
    · exact absurd hbalks hreads
    constructor
    case hits => rw [htallies.asked, haccounts, htallies.hits]
    case misses => rw [htallies.asked, haccounts, htallies.misses]
    case givesUp =>
      intro hgivesUp
      rw [hends] at hgivesUp
      cases hgivesUp

/-- The computation of a key that another thread is computing. -/
def sharingCall : Invocation Nat Nat Unit Unit :=
  ⟨1, [.calling .finish], .computeIfAbsent 1 fun _ => .finish (.value (some 99))⟩

/-- One thread computes the key, in vain at first; another one is about to compute it, too. -/
def sharingOpening : List (Move Nat Nat Unit Unit) :=
  .spawn (.guard (.call (.computeIfAbsent 1 fun _ => .raise .silent) .finish) fun _ =>
    .call (.computeIfAbsent 1 fun _ => .finish (.value (some 10))) .finish) ::
    stepsOf 0 5 ++ .spawn (.call sharingCall.operation .finish) :: stepsOf 1 1

/-- The second thread waits for both computations of the first one. -/
def sharingMoves : List (Move Nat Nat Unit Unit) :=
  stepsOf 1 2 ++ stepsOf 0 8 ++ stepsOf 1 3 ++ stepsOf 0 6 ++ stepsOf 1 5

/-- The call looks its key up twice, shares the value of the second computation, and counts one
hit. -/
theorem shared_once : ∃ (start m : Machine Nat Nat Unit Unit)
    (trace : List (Passage Nat Nat Unit Unit)),
    ¬ plainSettings.BalksAtReads ∧ start.Reachable plainSettings ∧
      Run plainSettings start trace m ∧ sharingCall.Spans start trace ∧
      sharingCall.IsOver m (.done (.value (some 10))) ∧
      (sharingCall.observes trace).length = 2 ∧ sharingCall.asks trace = false ∧
      sharingCall.CountsRequests trace (.done (.value (some 10))) ∧
      sharingCall.adds Statistics.hits trace = 1 := by
  have hfacts : (Machine.replayFrom plainSettings sharingOpening sharingMoves).map (fun run =>
      (run.1.threads[1]?, run.2.2.threads[1]?, run.2.1.all sharingCall.outlasts,
        (sharingCall.observes run.2.1).length, sharingCall.asks run.2.1)) =
      some (some ⟨.keep (.round sharingCall.operation 0), sharingCall.base, none⟩,
        some ⟨.settle (.done (.value (some 10))), sharingCall.base, none⟩, true, 2, false) := rfl
  obtain ⟨⟨start, trace, m⟩, hreplay, hall⟩ := Option.map_eq_some_iff.mp hfacts
  obtain ⟨hbegins, hrest⟩ := Prod.mk.inj hall
  obtain ⟨hended, hrest⟩ := Prod.mk.inj hrest
  obtain ⟨houtlasts, hrest⟩ := Prod.mk.inj hrest
  obtain ⟨hobserves, hasks⟩ := Prod.mk.inj hrest
  obtain ⟨hstart, run⟩ := Machine.run_of_replayFrom hreplay
  have hreads : ¬ plainSettings.BalksAtReads := by
    rintro (⟨_, _, _, _, _, _, _, hexpiry, -⟩ | ⟨_, _, hcopy⟩)
    · cases hexpiry
    · cases hcopy
  have hspans := Invocation.spans_of_outlasts hbegins houtlasts
  have hcounts := Run.countsRequests hreads run hspans ⟨none, hended⟩
  refine ⟨start, m, trace, hreads, hstart, run, hspans, ⟨none, hended⟩, hobserves, hasks, hcounts,
    ?_⟩
  rw [hcounts.hits, hasks]
  rfl

end SharedCache
