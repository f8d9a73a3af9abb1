import OmryaKv.Lib.Ledger
import OmryaKv.Lib.Effect
import Mathlib.Data.List.Basic

set_option autoImplicit false

namespace OmryaKv.Background

open Lib

inductive WorkerMessage (Keyspace : Type) where
  | flush
  | compact (keyspace : Keyspace)
  | close
  | rotateMemtable (keyspace : Keyspace) (memtableId : Nat)
deriving DecidableEq

-- send waits until there is room in the channel, try_send gives up.
inductive Send (Keyspace : Type) where
  | send (item : WorkerMessage Keyspace)
  | trySend (item : WorkerMessage Keyspace)
deriving DecidableEq

-- A call inside worker_tick may return an error, or panic and unwind the thread.
inductive Failure (Error : Type) where
  | error (e : Error)
  | panic
deriving DecidableEq

-- What the calls find and return while one message is handled. rotates says
-- whether inner_rotate_memtable gets to seal the memtable of the message, and
-- stragglers come with the ids of their active memtables.
structure Calls (Keyspace Error : Type) where
  rotates : Bool
  dequeue : Option Keyspace
  pos : Except (Failure Error) Nat
  rotateJournal : Except (Failure Error) Unit
  diskSpaceUsed : Nat
  maxJournalingSizeInBytes : Nat
  stragglers : List (Keyspace × Nat)
  runFlush : Except (Failure Error) Unit
  runCompaction : Except (Failure Error) Unit
  maintenance : Except (Failure Error) Unit

abbrev TickM (Keyspace Error : Type) := EStateM (Failure Error) (List (Send Keyspace))

section Tick

variable {Keyspace Error α : Type}

def called (result : Except (Failure Error) α) : TickM Keyspace Error α :=
  match result with
  | .ok a => pure a
  | .error e => throw e

def sending (items : List (Send Keyspace)) : TickM Keyspace Error Unit := modify (· ++ items)

def innerRotateMemtable (calls : Calls Keyspace Error) : TickM Keyspace Error Bool := do
  if calls.rotates then
    sending [.send .flush]
    called calls.maintenance
    return true
  else
    return false

end Tick

-- What a spawned thread is doing. handling holds what recv returned.
inductive Worker (Keyspace : Type) where
  | waiting
  | handling (item : Option (WorkerMessage Keyspace))
  | closed
  | crashed
deriving DecidableEq

def Worker.alive {Keyspace : Type} : Worker Keyspace → Bool
  | .waiting => true
  | .handling _ => true
  | .closed => false
  | .crashed => false

-- returned carries whether WorkerPool::start gave back Ok.
inductive StartPhase where
  | prepared
  | spawning
  | returned (ok : Bool)
deriving DecidableEq

-- Where DatabaseInner::drop stands in its wait loop.
inductive DropPhase where
  | opened
  | waiting
  | done
deriving DecidableEq

-- workers lists the threads that were spawned, by worker id.
structure WorkerPool (Keyspace : Type) where
  poolSize : Nat
  start : StartPhase
  activeThreadCounter : Nat
  workers : List (Worker Keyspace)
  channel : List (WorkerMessage Keyspace)
  isPoisoned : Bool
  drop : DropPhase
deriving DecidableEq

def channelCapacity : Nat := 1000

section Pool

variable {Keyspace Error : Type}

namespace WorkerPool

def alive (pool : WorkerPool Keyspace) : Nat := pool.workers.countP Worker.alive

end WorkerPool

end Pool

end OmryaKv.Background
