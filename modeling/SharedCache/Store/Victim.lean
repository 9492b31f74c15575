import SharedCache.Store.State

/-!
# Victims

How an eviction picks its victim among drawn entries.  An expired entry comes first, whether it is
vetoed or not.  Otherwise the smallest entry that is not vetoed is picked or, where entries are not
compared, the first one that is not vetoed.
-/

namespace SharedCache

variable {K V Q R : Type}

namespace Settings

/-- Asks the veto about an entry. -/
def spares (s : Settings K V Q R) (entry : K × Holder V) : Consultation K V Bool :=
  match s.veto with
  | none => .answer false
  | some veto => .call (.vetoAsked entry.1 entry.2.value) (veto entry.1 entry.2.value)

/-- The first entry that is not vetoed. -/
def firstUnspared (s : Settings K V Q R) :
    List (K × Holder V) → Consultation K V (Option (K × Holder V))
  | [] => .answer none
  | entry :: rest => do
    if ← s.spares entry then s.firstUnspared rest else return some entry

/-- The smaller of two entries, and the first one if neither is smaller. -/
def smaller (rank : K → V → K → V → Ordering) (a b : K × Holder V) :
    Consultation K V (K × Holder V) :=
  let order := rank a.1 a.2.value b.1 b.2.value
  .call (.ranked a.1 a.2.value b.1 b.2.value) (.ok (if order = .gt then b else a))

/-- The smallest entry that is not vetoed, given the smallest one so far. -/
def smallestUnspared (s : Settings K V Q R) (rank : K → V → K → V → Ordering)
    (best : Option (K × Holder V)) :
    List (K × Holder V) → Consultation K V (Option (K × Holder V))
  | [] => .answer best
  | entry :: rest => do
    if ← s.spares entry then
      s.smallestUnspared rank best rest
    else
      match best with
      | none => s.smallestUnspared rank (some entry) rest
      | some b => do
        let least ← smaller rank b entry
        s.smallestUnspared rank (some least) rest

end Settings

/-- The victim among the entries of a sample, and the cause of its eviction. -/
def Store.victim (settings : Settings K V Q R) (s : Store K V) (now : Instant)
    (sample : List (K × Holder V)) : Consultation K V (Option ((K × Holder V) × RemovalCause)) :=
  match sample.find? fun entry => s.expired entry.2 now with
  | some entry => .answer (some (entry, .expired))
  | none => do
    let choice ← match settings.priority with
      | none => settings.firstUnspared sample
      | some rank => settings.smallestUnspared rank none sample
    return choice.map fun entry => (entry, .size)

end SharedCache
