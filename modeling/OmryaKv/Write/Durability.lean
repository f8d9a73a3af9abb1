import OmryaKv.Write.BatchCommit
import OmryaKv.Write.CrashSafety

set_option autoImplicit false

namespace OmryaKv.Write

open Journal Lib

variable (deps : Dependencies)

section Possible

variable {deps}

end Possible

namespace DurableLog

variable {log stage next : DurableLog} {kind : Crash} {batch : Batch}

structure Ordered (log : DurableLog) : Prop where
  synced : log.synced ≤ log.flushed
  flushed : log.flushed ≤ log.active.length

-- How many batches of the active journal a mode is to have secured.
def secured (log : DurableLog) : PersistMode → Nat
  | .buffer => log.flushed
  | .syncData => log.synced
  | .syncAll => log.synced

def Holds (log : DurableLog) (mode : PersistMode) (batch : Batch) : Prop :=
  batch ∈ log.active.take (log.secured mode)

end DurableLog

-- The operation that an event completes or cuts short.
def Event.operation : Event → Option Operation
  | .call op | .crash _ op _ => some op
  | .crashOpening _ _ | .opened _ | .refused _ => none

end OmryaKv.Write
