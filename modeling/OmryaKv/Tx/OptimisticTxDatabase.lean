import OmryaKv.Lib.Run
import OmryaKv.Tx.Oracle
import OmryaKv.Tx.WriteTransaction

set_option autoImplicit false

namespace OmryaKv.Tx

open Lib Snapshot

-- An open transaction. history and begun are not in the source: they record the
-- answers it got and how many transactions had committed when it began.
structure Session (K V : Type) where
  tx : WriteTransaction K V
  history : List (TxOp K V × Answer K V)
  begun : Nat

structure Committed (K V : Type) where
  history : List (TxOp K V × Answer K V)
  timestamp : Nat
  cm : ConflictManager K

-- A commit that holds write_serialize_lock and has passed the check: its batch
-- has a seqno and goes into the trees item by item.
structure Applying (K V : Type) where
  session : Session K V
  seqno : Nat
  pending : List ((Nat × K) × Option V)

-- commits and readOnly record who has committed, in commit order.
structure TxDatabase (K V : Type) where
  trees : Trees K V
  seqno : Nat
  oracle : Oracle K
  sessions : Nat → Option (Session K V)
  applying : Option (Applying K V)
  commits : List (Committed K V)
  readOnly : List (Session K V)

-- What read snapshots, iterators and background work do to the tracker.
inductive NonceOp where
  | openSnapshot
  | cloneSnapshot (instant : Nat)
  | closeRaw (instant : Nat) (order : IterationOrder Nat)
  | gc (order : IterationOrder Nat)
  | pullup

-- drop is the iteration order of the close_raw that comes with the nonce's Drop.
-- An abort may come before or after the batch has taken a seqno.
inductive Outcome where
  | conflicted (drop : IterationOrder Nat)
  | aborted (drop : IterationOrder Nat) (seqnoTaken : Bool)
  | proceeds

-- commitReadOnly is a commit with an empty write set. Any other one is commit
-- and then, if it proceeds, applyItem for each item of the batch and finishCommit.
inductive TxLabel (K V : Type) where
  | writeTx (name : Nat)
  | act (name : Nat) (op : TxOp K V)
  | rollback (name : Nat) (drop : IterationOrder Nat)
  | commitReadOnly (name : Nat) (drop : IterationOrder Nat)
  | commit (name : Nat) (order : IterationOrder Nat) (outcome : Outcome)
  | applyItem
  | finishCommit (drop : IterationOrder Nat)
  | nonce (op : NonceOp)
  | maintain (trees : Trees K V)

def NonceOp.apply (tracker : SnapshotTracker) : NonceOp → SnapshotTracker
  | .openSnapshot => tracker.openSnapshot.2
  | .cloneSnapshot instant => tracker.cloneSnapshot instant
  | .closeRaw instant order => tracker.closeRaw instant order
  | .gc order => tracker.gc order
  | .pullup => tracker.pullup

theorem nonce_op_seqno (tracker : SnapshotTracker) (op : NonceOp) : (op.apply tracker).seqno = tracker.seqno := by
  cases op with
  | closeRaw instant order => exact tracker.close_raw_seqno instant order
  | pullup => exact tracker.pullup_seqno
  | _ => rfl

section

variable {K V : Type}

def Session.instant (session : Session K V) : Nat := session.tx.inner.instant

namespace TxDatabase

def tracker (db : TxDatabase K V) : SnapshotTracker := db.oracle.snapshotTracker

def visible (db : TxDatabase K V) : Nat := db.tracker.get

def withTracker (db : TxDatabase K V) (tracker : SnapshotTracker) : TxDatabase K V :=
  { db with oracle := { db.oracle with snapshotTracker := tracker } }

def close (db : TxDatabase K V) (name : Nat) (session : Session K V) (drop : IterationOrder Nat) : TxDatabase K V :=
  { db.withTracker (db.tracker.closeRaw session.instant drop) with sessions := Function.update db.sessions name none }

-- The batch is published and the nonce dropped before the oracle records the commit.
def finish (db : TxDatabase K V) (session : Session K V) (batchSeqno : Nat) (drop : IterationOrder Nat) : TxDatabase K V :=
  let published := db.withTracker ((db.tracker.publish batchSeqno).closeRaw session.instant drop)
  { published with
    oracle := published.oracle.finishCommit session.tx.cm
    applying := none
    commits := db.commits ++ [⟨session.history, published.visible, session.tx.cm⟩] }

def histories (db : TxDatabase K V) : List (List (TxOp K V × Answer K V)) := db.commits.map Committed.history

end TxDatabase

def TxDatabase.view [LinearOrder K] (db : TxDatabase K V) : View K V := viewAt db.trees db.visible

def applyItem (trees : Trees K V) (seqno : Nat) (item : (Nat × K) × Option V) : Trees K V :=
  Function.update trees item.1.1 (⟨item.1.2, seqno, item.2⟩ :: trees item.1.1)

variable [LinearOrder K] [DecidableEq V] (prefixToRange : K → Bound K × Bound K)

inductive TxStep : TxDatabase K V → TxLabel K V → TxDatabase K V → Prop where
  | writeTx (db : TxDatabase K V) (name : Nat) (fresh : db.sessions name = none) (unlocked : db.applying = none) :
      TxStep db (.writeTx name)
        { db.withTracker db.tracker.openSnapshot.2 with
          sessions := Function.update db.sessions name
            (some ⟨.new db.tracker.openSnapshot.1, [], db.commits.length⟩) }
  | act (db : TxDatabase K V) (name : Nat) (op : TxOp K V) (session : Session K V)
      (found : db.sessions name = some session) (ranged : op.ValidRange prefixToRange) :
      TxStep db (.act name op)
        { db with
          sessions := Function.update db.sessions name
            (some { session with
              tx := (session.tx.perform prefixToRange db.trees op).1
              history := session.history ++ [(op, (session.tx.perform prefixToRange db.trees op).2)] }) }
  | rollback (db : TxDatabase K V) (name : Nat) (drop : IterationOrder Nat) (session : Session K V)
      (found : db.sessions name = some session) :
      TxStep db (.rollback name drop) (db.close name session drop)
  | commitReadOnly (db : TxDatabase K V) (name : Nat) (drop : IterationOrder Nat) (session : Session K V)
      (found : db.sessions name = some session) (unwritten : session.tx.inner.memtables.entries = []) :
      TxStep db (.commitReadOnly name drop)
        { db.close name session drop with readOnly := db.readOnly ++ [session] }
  | conflicted (db : TxDatabase K V) (name : Nat) (order drop : IterationOrder Nat) (session : Session K V)
      (oracle : Oracle K) (found : db.sessions name = some session)
      (written : session.tx.inner.memtables.entries ≠ []) (unlocked : db.applying = none)
      (started : db.oracle.startCommit session.instant session.tx.cm order = some (true, oracle)) :
      TxStep db (.commit name order (.conflicted drop)) ({ db with oracle := oracle }.close name session drop)
  | aborted (db : TxDatabase K V) (name : Nat) (order drop : IterationOrder Nat) (seqnoTaken : Bool)
      (session : Session K V) (oracle : Oracle K) (found : db.sessions name = some session)
      (written : session.tx.inner.memtables.entries ≠ []) (unlocked : db.applying = none)
      (started : db.oracle.startCommit session.instant session.tx.cm order = some (false, oracle)) :
      TxStep db (.commit name order (.aborted drop seqnoTaken))
        ({ db with oracle := oracle, seqno := if seqnoTaken then db.seqno + 1 else db.seqno }.close name session drop)
  | proceeds (db : TxDatabase K V) (name : Nat) (order : IterationOrder Nat) (session : Session K V)
      (oracle : Oracle K) (found : db.sessions name = some session)
      (written : session.tx.inner.memtables.entries ≠ []) (unlocked : db.applying = none)
      (started : db.oracle.startCommit session.instant session.tx.cm order = some (false, oracle))
      (room : db.seqno < reservedSeqno) :
      TxStep db (.commit name order .proceeds)
        { db with
          oracle := oracle
          seqno := db.seqno + 1
          sessions := Function.update db.sessions name none
          applying := some ⟨session, db.seqno, session.tx.inner.batchData⟩ }
  | applyItem (db : TxDatabase K V) (session : Session K V) (seqno : Nat) (item : (Nat × K) × Option V)
      (rest : List ((Nat × K) × Option V)) (locked : db.applying = some ⟨session, seqno, item :: rest⟩) :
      TxStep db .applyItem
        { db with trees := applyItem db.trees seqno item, applying := some ⟨session, seqno, rest⟩ }
  | finishCommit (db : TxDatabase K V) (drop : IterationOrder Nat) (session : Session K V) (seqno : Nat)
      (locked : db.applying = some ⟨session, seqno, []⟩) :
      TxStep db (.finishCommit drop) (db.finish session seqno drop)
  | nonce (db : TxDatabase K V) (op : NonceOp) : TxStep db (.nonce op) (db.withTracker (op.apply db.tracker))
  -- Flushes and compactions of lsm-tree. They may drop versions, but none that a
  -- reader at or above the watermark or a reader of the latest state can see.
  | maintain (db : TxDatabase K V) (trees : Trees K V)
      (fewer : ∀ keyspaceId, ∀ version ∈ trees keyspaceId, version ∈ db.trees keyspaceId)
      (kept : ∀ instant, db.tracker.getSeqnoSafeToGc ≤ instant ∨ db.visible ≤ instant →
        viewAt trees instant = viewAt db.trees instant) :
      TxStep db (.maintain trees) { db with trees := trees }

-- Whenever the watermark is put to use, it has not passed the instant of a transaction that is open.
def WatermarkBelow (db : TxDatabase K V) : TxLabel K V → Prop
  | .commit name order _ => ∀ session, db.sessions name = some session → ∀ other rival, other ≠ name →
      db.sessions other = some rival → (db.tracker.closeRaw session.instant order).getSeqnoSafeToGc ≤ rival.instant
  | .maintain _ => ∀ name session, db.sessions name = some session → db.tracker.getSeqnoSafeToGc ≤ session.instant
  | _ => True

-- A database that has just been opened, with whatever it already holds.
structure Opened (db : TxDatabase K V) : Prop where
  sessions : ∀ name, db.sessions name = none
  applying : db.applying = none
  commits : db.commits = []
  readOnly : db.readOnly = []
  committedTxns : db.oracle.committedTxns = []
  visible : db.visible ≤ db.seqno
  published : ∀ keyspaceId, ∀ version ∈ db.trees keyspaceId, version.seqno < db.visible
  bounded : ∀ keyspaceId, ∀ version ∈ db.trees keyspaceId, version.seqno < reservedSeqno

end

end OmryaKv.Tx
