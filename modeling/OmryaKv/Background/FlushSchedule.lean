import OmryaKv.Background.WorkerPool
import OmryaKv.Background.WriteBuffer
import OmryaKv.Lib.Crew

set_option autoImplicit false

namespace OmryaKv.Background

open Lib

-- The flush manager's queue is bounded, as the channel to the workers is.
def taskCapacity : Nat := 1000

structure Schedule (Keyspace E : Type) where
  channel : List (WorkerMessage Keyspace)
  tasks : List Keyspace
  trees : Keyspace → MemTree E
  l0RunCount : Keyspace → Nat
  isPoisoned : Bool

-- Where a thread is. A writer that has given the journal lock back checks the
-- keyspaces it wrote to one after the other: for each it may ask for a rotation, then
-- waits in local_backpressure, first for the runs of level 0 and then for the sealed
-- memtables. The rest is inner_rotate_memtable and the arms of worker_tick; a worker
-- is idle while it waits for a message.
inductive Phase (Keyspace : Type) where
  | idle
  | checking (todo : List Keyspace)
  | halted (ks : Keyspace) (todo : List Keyspace)
  | throttled (ks : Keyspace) (todo : List Keyspace)
  | rotating (ks : Keyspace) (memtableId : Nat)
  | enqueueing (ks : Keyspace)
  | notifying
  | maintaining
  | dequeuing
  | journaling (ks : Keyspace)
  | flushing (ks : Keyspace)
  | writing (ks : Keyspace)
  | announcing (ks : Keyspace)
  | compacting (ks : Keyspace)
  | resending (ks : Keyspace)
  | closed
  | crashed
deriving DecidableEq

-- large says whether the memtable exceeds max_memtable_size, stragglers are the keyspaces
-- that hold back the oldest journal, runs is what a compaction leaves of level 0.
inductive Move (Keyspace E : Type) where
  | write (items : List (Keyspace × E))
  | clear (ks : Keyspace)
  | rotate (ks : Keyspace)
  | check (large : Bool)
  | unhalt
  | resume
  | finish
  | receive
  | rotateMemtable
  | enqueue
  | notify
  | maintain
  | dequeue
  | rotateJournal (stragglers : List Keyspace)
  | flush
  | registerTables
  | announce
  | compact (runs : Nat)
  | resend
  | fail
deriving DecidableEq

section Schedule

variable {Keyspace E : Type}

namespace Schedule

def trySend (s : Schedule Keyspace E) (item : WorkerMessage Keyspace) : Schedule Keyspace E :=
  { s with channel := if s.channel.length < channelCapacity then s.channel ++ [item] else s.channel }

def requestRotation (s : Schedule Keyspace E) (ks : Keyspace) : Schedule Keyspace E :=
  s.trySend (.rotateMemtable ks (s.trees ks).activeMemtable.id)

def checkMemtableRotate (s : Schedule Keyspace E) (ks : Keyspace) (large : Bool) : Schedule Keyspace E :=
  if large then s.requestRotation ks else s

def sealedMemtableCount (s : Schedule Keyspace E) (ks : Keyspace) : Nat := (s.trees ks).sealedMemtables.length

variable [DecidableEq Keyspace]

def setTree (s : Schedule Keyspace E) (ks : Keyspace) (t : MemTree E) : Schedule Keyspace E :=
  { s with trees := Function.update s.trees ks t }

def put (s : Schedule Keyspace E) (item : Keyspace × E) : Schedule Keyspace E := s.setTree item.1 ((s.trees item.1).put item.2)

-- What recovery queues before the workers start: a task and a message for every
-- keyspace with sealed memtables.
def opened (trees : Keyspace → MemTree E) (l0RunCount : Keyspace → Nat) (recovered : List Keyspace) : Schedule Keyspace E :=
  ⟨recovered.map fun _ => .flush, recovered, trees, l0RunCount, false⟩

end Schedule

-- inner_rotate_memtable seals the memtable it was asked for, unless another one is
-- active by now or nothing was written to it.
def MemTree.Rotates (t : MemTree E) (memtableId : Nat) : Prop := t.activeMemtable.id = memtableId ∧ t.activeMemtable.entries ≠ []

def Phase.receiving (poolSize worker : Nat) : WorkerMessage Keyspace → Phase Keyspace
  | .close => .closed
  | .rotateMemtable ks memtableId => .rotating ks memtableId
  | .flush => .dequeuing
  | .compact ks => if 1 < poolSize ∧ worker = 0 then .resending ks else .compacting ks

variable [DecidableEq Keyspace] (size : E → Nat) (poolSize : Nat)

-- The first poolSize threads are the workers, the others call into the database.
inductive Act : Nat → Schedule Keyspace E → Phase Keyspace → Move Keyspace E → Schedule Keyspace E → Phase Keyspace → Prop where
  | write (i : Nat) (s : Schedule Keyspace E) (items : List (Keyspace × E)) (todo : List Keyspace) (client : poolSize ≤ i)
      (healthy : s.isPoisoned = false) (distinct : todo.Nodup) (touched : ∀ ks, ks ∈ todo ↔ ks ∈ items.map Prod.fst) :
      Act i s .idle (.write items) (items.foldl Schedule.put s) (.checking todo)
  | clear (i : Nat) (s : Schedule Keyspace E) (ks : Keyspace) (client : poolSize ≤ i) (healthy : s.isPoisoned = false) :
      Act i s .idle (.clear ks) { s.setTree ks (s.trees ks).clear with l0RunCount := Function.update s.l0RunCount ks 0 } .idle
  | rotate (i : Nat) (s : Schedule Keyspace E) (ks : Keyspace) (client : poolSize ≤ i)
      (rotates : (s.trees ks).Rotates (s.trees ks).activeMemtable.id) :
      Act i s .idle (.rotate ks) (s.setTree ks (s.trees ks).rotateMemtable) (.enqueueing ks)
  | check (i : Nat) (s : Schedule Keyspace E) (ks : Keyspace) (todo : List Keyspace) (large : Bool) :
      Act i s (.checking (ks :: todo)) (.check large) (s.checkMemtableRotate ks large) (.halted ks todo)
  | unhalt (i : Nat) (s : Schedule Keyspace E) (ks : Keyspace) (todo : List Keyspace) (below : s.l0RunCount ks < 30) :
      Act i s (.halted ks todo) .unhalt s (.throttled ks todo)
  | resume (i : Nat) (s : Schedule Keyspace E) (ks : Keyspace) (todo : List Keyspace) (below : s.sealedMemtableCount ks < 4) :
      Act i s (.throttled ks todo) .resume s (.checking todo)
  | finish (i : Nat) (s : Schedule Keyspace E) : Act i s (.checking []) .finish s .idle
  | receive (i : Nat) (s : Schedule Keyspace E) (item : WorkerMessage Keyspace) (rest : List (WorkerMessage Keyspace))
      (worker : i < poolSize) (first : s.channel = item :: rest) :
      Act i s .idle .receive { s with channel := rest } (.receiving poolSize i item)
  | rotateMemtable (i : Nat) (s : Schedule Keyspace E) (ks : Keyspace) (memtableId : Nat) (rotates : (s.trees ks).Rotates memtableId) :
      Act i s (.rotating ks memtableId) .rotateMemtable (s.setTree ks (s.trees ks).rotateMemtable) (.enqueueing ks)
  | beaten (i : Nat) (s : Schedule Keyspace E) (ks : Keyspace) (memtableId : Nat) (stale : ¬ (s.trees ks).Rotates memtableId) :
      Act i s (.rotating ks memtableId) .rotateMemtable s .idle
  | enqueue (i : Nat) (s : Schedule Keyspace E) (ks : Keyspace) (room : s.tasks.length < taskCapacity) :
      Act i s (.enqueueing ks) .enqueue { s with tasks := s.tasks ++ [ks] } .notifying
  | notify (i : Nat) (s : Schedule Keyspace E) (room : s.channel.length < channelCapacity) :
      Act i s .notifying .notify { s with channel := s.channel ++ [.flush] } .maintaining
  | maintain (i : Nat) (s : Schedule Keyspace E) : Act i s .maintaining .maintain s .idle
  | dequeue (i : Nat) (s : Schedule Keyspace E) (ks : Keyspace) (rest : List Keyspace) (first : s.tasks = ks :: rest) :
      Act i s .dequeuing .dequeue { s with tasks := rest } (.journaling ks)
  | empty (i : Nat) (s : Schedule Keyspace E) (none : s.tasks = []) : Act i s .dequeuing .dequeue s .idle
  | rotateJournal (i : Nat) (s : Schedule Keyspace E) (ks : Keyspace) (stragglers : List Keyspace) :
      Act i s (.journaling ks) (.rotateJournal stragglers) (stragglers.foldl Schedule.requestRotation s) (.flushing ks)
  -- The flush lock of the tree lets one flush of a keyspace run at a time.
  | flush (i : Nat) (s : Schedule Keyspace E) (ks : Keyspace) (unlocked : (s.trees ks).flush = .idle)
      (some : (s.trees ks).sealedMemtables ≠ []) :
      Act i s (.flushing ks) .flush (s.setTree ks ((s.trees ks).startFlush size)) (.writing ks)
  | nothing (i : Nat) (s : Schedule Keyspace E) (ks : Keyspace) (unlocked : (s.trees ks).flush = .idle)
      (none : (s.trees ks).sealedMemtables = []) : Act i s (.flushing ks) .flush s (.announcing ks)
  | registerTables (i : Nat) (s : Schedule Keyspace E) (ks : Keyspace) (sealedIds : List Nat) (flushedSize : Nat)
      (phase : (s.trees ks).flush = .writing sealedIds flushedSize) :
      Act i s (.writing ks) .registerTables
        { s.setTree ks { (s.trees ks).registerTables sealedIds flushedSize with flush := .idle } with
          l0RunCount := Function.update s.l0RunCount ks (s.l0RunCount ks + 1) } (.announcing ks)
  | announce (i : Nat) (s : Schedule Keyspace E) (ks : Keyspace) :
      Act i s (.announcing ks) .announce ((List.replicate poolSize (.compact ks)).foldl Schedule.trySend s) .maintaining
  | compact (i : Nat) (s : Schedule Keyspace E) (ks : Keyspace) (runs : Nat) (fewer : runs ≤ s.l0RunCount ks) :
      Act i s (.compacting ks) (.compact runs) { s with l0RunCount := Function.update s.l0RunCount ks runs } .idle
  | resend (i : Nat) (s : Schedule Keyspace E) (ks : Keyspace) (room : s.channel.length < channelCapacity) :
      Act i s (.resending ks) .resend { s with channel := s.channel ++ [.compact ks] } .idle
  -- A worker whose tick goes wrong poisons the database and is gone; a caller gets the error.
  | tickFails (i : Nat) (s : Schedule Keyspace E) (phase : Phase Keyspace) (worker : i < poolSize)
      (fallible : phase = .maintaining ∨ (∃ ks, phase = .journaling ks) ∨ ∃ ks, phase = .compacting ks) :
      Act i s phase .fail { s with isPoisoned := true } .crashed
  | flushFails (i : Nat) (s : Schedule Keyspace E) (ks : Keyspace) (worker : i < poolSize) :
      Act i s (.writing ks) .fail { s.setTree ks { s.trees ks with flush := .idle } with isPoisoned := true } .crashed
  | callFails (i : Nat) (s : Schedule Keyspace E) (client : poolSize ≤ i) : Act i s .maintaining .fail s .idle

-- A move that carries on with what a thread has begun or what has been posted.
def Move.carriesOn : Move Keyspace E → Bool
  | .write _ | .clear _ | .rotate _ | .fail => false
  | _ => true

end Schedule

end OmryaKv.Background
