import SharedCache.Failure

/-!
# Pools

A pool has a fixed number of threads, at least one, whose names follow a template.  The name of a
thread is handed to the system as bytes that end in a zero byte, so it contains none.  Two pools are
shared by everyone in a process and known by a name of their own.
-/

namespace SharedCache

/-- The mark in a template that stands for the number of a thread. -/
def threadMark : String := "\x7b\x7d"

/-- The name of a thread of a pool. -/
def threadName (template : String) (number : Nat) : String :=
  (toString number).intercalate (template.splitOn threadMark)

/-- A zero byte in a thread's name is a panic that shows its position and all bytes. -/
def checkThreadName (name : String) : Except Panic Unit :=
  let bytes := name.toUTF8.toList
  match bytes.findIdx? (· == 0) with
  | none => .ok ()
  | some i =>
    let shown := ", ".intercalate (bytes.map fun b => toString b.toNat)
    .error (.text ("thread name may not contain interior null bytes: " ++
      Text.tagged "NulError" (toString i ++ ", [" ++ shown ++ "]")))

/-- The number of threads of a new pool.  A pool needs a thread, and the first one a name. -/
def checkThreads (template : String) (threads : Nat) : Except Panic Nat :=
  if threads = 0 then
    .error (.text "a thread pool needs at least one thread")
  else do
    checkThreadName (threadName template 0)
    return threads

/-- The pools that are shared in a process, the smaller one first. -/
inductive PoolName where
  | writeBehind
  | eventDispatch
  deriving DecidableEq

namespace PoolName

/-- The name of a shared pool. -/
def describe : PoolName → String
  | .writeBehind => "WriteBehind"
  | .eventDispatch => "EventDispatch"

/-- The template of the names of the pool's threads, which begin with the name of their owner. -/
def template (owner : String) : PoolName → String
  | .writeBehind => owner ++ "-write-behind-" ++ threadMark
  | .eventDispatch => owner ++ "-events-" ++ threadMark

/-- The place of a shared pool among the others. -/
def rank : PoolName → Nat
  | .writeBehind => 0
  | .eventDispatch => 1

end PoolName

end SharedCache
