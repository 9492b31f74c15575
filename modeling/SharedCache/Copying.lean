/-!
# Copying

A value can be kept in a cell that several holders share.  A sharing copy is another reference to
the same cell; a deep copy has the same contents in a cell of its own.
-/

namespace SharedCache

/-- Contents in a cell.  Two references share their contents when their cells are equal. -/
structure Shared (α : Type) where
  contents : α
  cell : Nat
  deriving DecidableEq

/-- How a copier treats the cell of a value. -/
inductive CopyDepth where
  | sharing
  | deep
  deriving DecidableEq

namespace Shared

variable {α : Type}

/-- A copy, and the next cell that is not in use. -/
def copy (depth : CopyDepth) (fresh : Nat) (a : Shared α) : Shared α × Nat :=
  match depth with
  | .sharing => (a, fresh)
  | .deep => ({ a with cell := fresh }, fresh + 1)

/-- Whether two references share one cell. -/
def shares (a b : Shared α) : Bool := a.cell == b.cell

theorem copy_contents (depth : CopyDepth) (fresh : Nat) (a : Shared α) :
    (a.copy depth fresh).1.contents = a.contents := by
  cases depth <;> rfl

end Shared

/-- The name of a copier. -/
def CopyDepth.describe : CopyDepth → String
  | .sharing => "IdentityCopier"
  | .deep => "DeepCopier"

end SharedCache
