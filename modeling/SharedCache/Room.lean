import SharedCache.Failure

/-!
# Room

The segments of a store, the partitions of an executor and the index of a segment are laid out in
one block of memory each.  A block has fewer than `2 ^ 63` bytes, and whoever asks for a larger one
panics before anything is laid out.  So does whoever adds up sizes beyond a 64-bit word.
-/

namespace SharedCache

/-- A sum of sizes must fit in a word. -/
def checkSum (sum : Nat) : Except Panic Unit :=
  if sum < UInt64.size then .ok () else .error (.text "attempt to add with overflow")

/-- The most segments or partitions in one block, where each of them takes 128 bytes: the first
number whose product with 128 reaches `2 ^ 63` is one more. -/
def mostCells : Nat := 72057594037927935

/-- Segments and partitions must fit in one block. -/
def checkCells (cells : Nat) : Except Panic Unit :=
  if cells ≤ mostCells then .ok () else .error (.text "capacity overflow")

/-- The most entries for which an index can set room aside.  An index has a power of two of places
and keeps one in eight free, and a place takes 17 bytes.  So the largest index has `2 ^ 58` places,
and seven eighths of them are for entries. -/
def mostIndexed : Nat := 252201579132747776

/-- An index must fit in one block. -/
def checkIndex (entries : Nat) : Except Panic Unit :=
  if entries ≤ mostIndexed then .ok () else .error (.text "Hash table capacity overflow")

end SharedCache
