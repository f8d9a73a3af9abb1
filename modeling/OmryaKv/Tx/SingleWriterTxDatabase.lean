import OmryaKv.Lib.Threads
import OmryaKv.Tx.OptimisticTxDatabase
import OmryaKv.Tx.Readable

set_option autoImplicit false

namespace OmryaKv.Tx.SingleWriter

open Lib Snapshot

-- A call on a write transaction together with what it returned.
inductive Action (K : Type) where
  | call (op : TxOp K UserValue) (answer : Answer K UserValue)
  | read (request : ReadCall K) (result : ReadResult K UserValue)

-- ticket and history are not in the source: the place of the transaction in the
-- order in which the lock was taken, and the calls made so far.
structure Session (K : Type) where
  ticket : Nat
  tx : BaseTransaction K UserValue
  history : List (Action K)

structure Ended (K : Type) where
  ticket : Nat
  history : List (Action K)
  committed : Bool

-- finished is the number of transactions that had ended when the snapshot was
-- opened. A commit ends where it publishes, before it gives the lock back and returns.
structure Reader (K : Type) where
  instant : Nat
  finished : Nat
  history : List (ReadCall K × ReadResult K UserValue)

-- single_writer_lock is held by writer. The fields from tickets on are a record of
-- the run: how often the lock was taken, the transactions that have ended, and
-- the read snapshots that were dropped.
structure TxDatabase (T K : Type) where
  trees : Trees K UserValue
  seqno : Nat
  snapshotTracker : SnapshotTracker
  writer : Option T
  tickets : Nat
  ended : List (Ended K)
  observed : List (Reader K)

-- Where a thread is. A transaction that is over gives back its nonce and the
-- lock: commit and rollback drop the nonce first, a plain drop the lock first.
inductive Phase (K : Type) where
  | idle
  | locked (ticket : Nat)
  | writing (session : Session K)
  | applying (session : Session K) (seqno : Nat) (pending : List ((Nat × K) × Option UserValue))
  | ending (instant : Nat)
  | nonceDropped
  | lockReleased (instant : Nat)
  | reading (reader : Reader K)

inductive Move (K : Type) where
  | lock
  | openSnapshot
  | call (op : TxOp K UserValue)
  | read (call : ReadCall K)
  | commit
  | applyItem
  | publish
  | rollback
  | dropNonce (order : IterationOrder Nat)
  | unlock
  | readTx
  | dropSnapshot (order : IterationOrder Nat)

def Phase.Holding {K : Type} : Phase K → Prop
  | .locked _ | .writing _ | .applying _ _ _ | .ending _ | .nonceDropped => True
  | .idle | .lockReleased _ | .reading _ => False

variable {T K : Type}

namespace TxDatabase

def visible (db : TxDatabase T K) : Nat := db.snapshotTracker.get

def close (db : TxDatabase T K) (instant : Nat) (order : IterationOrder Nat) : TxDatabase T K :=
  { db with snapshotTracker := db.snapshotTracker.closeRaw instant order }

def record (db : TxDatabase T K) (session : Session K) (committed : Bool) : TxDatabase T K :=
  { db with ended := db.ended ++ [⟨session.ticket, session.history, committed⟩] }

def unlock (db : TxDatabase T K) : TxDatabase T K := { db with writer := none }

end TxDatabase

section

variable [LinearOrder K] (prefixToRange : K → Bound K × Bound K)

def Session.call (session : Session K) (trees : Trees K UserValue) (op : TxOp K UserValue) : Session K :=
  let (tx, answer) := session.tx.perform prefixToRange trees op
  { session with tx := tx, history := session.history ++ [.call op answer] }

def Session.read (session : Session K) (trees : Trees K UserValue) (call : ReadCall K) : Session K :=
  { session with history := session.history ++ [.read call (session.tx.read prefixToRange trees call)] }

-- A snapshot reads the trees at its instant, with no memtable of its own.
def Reader.read (reader : Reader K) (trees : Trees K UserValue) (call : ReadCall K) : Reader K :=
  { reader with
    history := reader.history ++ [(call, (BaseTransaction.new reader.instant).read prefixToRange trees call)] }

-- The batch goes into the trees item by item, in whatever order the map of
-- memtables was visited, under a seqno that is taken before and published after.
inductive Act : T → TxDatabase T K → Phase K → Move K → TxDatabase T K → Phase K → Prop where
  | lock (t : T) (db : TxDatabase T K) (free : db.writer = none) :
      Act t db .idle .lock { db with writer := some t, tickets := db.tickets + 1 } (.locked db.tickets)
  | openSnapshot (t : T) (db : TxDatabase T K) (ticket : Nat) :
      Act t db (.locked ticket) .openSnapshot { db with snapshotTracker := db.snapshotTracker.openSnapshot.2 }
        (.writing ⟨ticket, .new db.snapshotTracker.openSnapshot.1, []⟩)
  | call (t : T) (db : TxDatabase T K) (session : Session K) (op : TxOp K UserValue) :
      Act t db (.writing session) (.call op) db (.writing (session.call prefixToRange db.trees op))
  | read (t : T) (db : TxDatabase T K) (session : Session K) (call : ReadCall K) :
      Act t db (.writing session) (.read call) db (.writing (session.read prefixToRange db.trees call))
  | commitEmpty (t : T) (db : TxDatabase T K) (session : Session K) (empty : session.tx.memtables.entries = []) :
      Act t db (.writing session) .commit (db.record session true) (.ending session.tx.instant)
  | commit (t : T) (db : TxDatabase T K) (session : Session K) (items : List ((Nat × K) × Option UserValue))
      (written : session.tx.memtables.entries ≠ []) (listed : items.Perm session.tx.batchData)
      (room : db.seqno < reservedSeqno) :
      Act t db (.writing session) .commit { db with seqno := db.seqno + 1 } (.applying session db.seqno items)
  | applyItem (t : T) (db : TxDatabase T K) (session : Session K) (seqno : Nat) (item : (Nat × K) × Option UserValue)
      (rest : List ((Nat × K) × Option UserValue)) :
      Act t db (.applying session seqno (item :: rest)) .applyItem { db with trees := applyItem db.trees seqno item }
        (.applying session seqno rest)
  | publish (t : T) (db : TxDatabase T K) (session : Session K) (seqno : Nat) :
      Act t db (.applying session seqno []) .publish
        ({ db with snapshotTracker := db.snapshotTracker.publish seqno }.record session true) (.ending session.tx.instant)
  | rollback (t : T) (db : TxDatabase T K) (session : Session K) :
      Act t db (.writing session) .rollback (db.record session false) (.ending session.tx.instant)
  | dropNonce (t : T) (db : TxDatabase T K) (instant : Nat) (order : IterationOrder Nat) :
      Act t db (.ending instant) (.dropNonce order) (db.close instant order) .nonceDropped
  | dropLateNonce (t : T) (db : TxDatabase T K) (instant : Nat) (order : IterationOrder Nat) :
      Act t db (.lockReleased instant) (.dropNonce order) (db.close instant order) .idle
  | unlock (t : T) (db : TxDatabase T K) : Act t db .nonceDropped .unlock db.unlock .idle
  | unlockEarly (t : T) (db : TxDatabase T K) (instant : Nat) :
      Act t db (.ending instant) .unlock db.unlock (.lockReleased instant)
  | readTx (t : T) (db : TxDatabase T K) :
      Act t db .idle .readTx { db with snapshotTracker := db.snapshotTracker.openSnapshot.2 }
        (.reading ⟨db.snapshotTracker.openSnapshot.1, db.ended.length, []⟩)
  | readSnapshot (t : T) (db : TxDatabase T K) (reader : Reader K) (call : ReadCall K) :
      Act t db (.reading reader) (.read call) db (.reading (reader.read prefixToRange db.trees call))
  | dropSnapshot (t : T) (db : TxDatabase T K) (reader : Reader K) (order : IterationOrder Nat) :
      Act t db (.reading reader) (.dropSnapshot order)
        { db.close reader.instant order with observed := db.observed ++ [reader] } .idle

def Action.Holds : Action K → View K UserValue → Prop
  | .call op answer, view => TxOp.Holds prefixToRange (op, answer) view
  | .read request result, view => request.Returns prefixToRange view result

def Action.apply : Action K → View K UserValue → View K UserValue
  | .call op answer, view => TxOp.apply (op, answer) view
  | .read _ _, view => view

-- The committed transactions of a list run one after another; those rolled back leave no trace.
def stateAfter (initial : View K UserValue) (transactions : List (Ended K)) : View K UserValue :=
  afterAll Action.apply initial ((transactions.filter Ended.committed).map Ended.history)

-- Everything the snapshot has read is what the first so many transactions leave
-- behind, and they include those that were over when it was opened.
structure Observes (initial : View K UserValue) (ended : List (Ended K)) (reader : Reader K) (count : Nat) : Prop where
  within : count ≤ ended.length
  finished : reader.finished ≤ count
  answers : ∀ entry ∈ reader.history, entry.1.Returns prefixToRange (stateAfter initial (ended.take count)) entry.2

-- A database that has just been opened, with whatever it already holds.
structure Opened (db : TxDatabase T K) : Prop where
  writer : db.writer = none
  ended : db.ended = []
  observed : db.observed = []
  visible : db.visible ≤ db.seqno
  published : ∀ keyspaceId, ∀ version ∈ db.trees keyspaceId, version.seqno < db.visible
  bounded : ∀ keyspaceId, ∀ version ∈ db.trees keyspaceId, version.seqno < reservedSeqno

end

end OmryaKv.Tx.SingleWriter
