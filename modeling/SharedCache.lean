import SharedCache.Copying
import SharedCache.Machine
import SharedCache.Pool
import SharedCache.Proofs.Accounting
import SharedCache.Proofs.Capacity
import SharedCache.Proofs.Endings
import SharedCache.Proofs.Entry.Histories
import SharedCache.Proofs.EvictionOrder
import SharedCache.Proofs.Executor.Outcomes
import SharedCache.Proofs.Executor.Termination
import SharedCache.Proofs.Functions
import SharedCache.Proofs.Hearing
import SharedCache.Proofs.LifetimeLaw
import SharedCache.Proofs.Orphans
import SharedCache.Proofs.Patience
import SharedCache.Proofs.Readings
import SharedCache.Proofs.Refinement
import SharedCache.Proofs.Requests
import SharedCache.Proofs.Samples
import SharedCache.Proofs.Saturation
import SharedCache.Proofs.Scopes
import SharedCache.Proofs.Serial
import SharedCache.Proofs.Sharing
import SharedCache.Proofs.Touch
import SharedCache.Proofs.Undone
import SharedCache.Text.Bits
