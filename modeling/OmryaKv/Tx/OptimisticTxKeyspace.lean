import OmryaKv.Lib.Linearizable
import OmryaKv.Lib.Threads
import OmryaKv.Snapshot.KeyspaceIter
import OmryaKv.Tx.OptimisticTxDatabase

set_option autoImplicit false

namespace OmryaKv.Tx

open Lib Snapshot

-- The calls on an OptimisticTxKeyspace, which carries the id of its keyspace.
inductive KeyspaceCall (K V : Type) where
  | get (keyspaceId : Nat) (key : K)
  | containsKey (keyspaceId : Nat) (key : K)
  | take (keyspaceId : Nat) (key : K)
  | fetchUpdate (keyspaceId : Nat) (key : K) (f : Option V → Option V)
  | updateFetch (keyspaceId : Nat) (key : K) (f : Option V → Option V)
  | insert (keyspaceId : Nat) (key : K) (value : V)
  | remove (keyspaceId : Nat) (key : K)

namespace KeyspaceCall

variable {K V : Type}

-- What the call asks of its transaction, or of a store that it has to itself.
def op : KeyspaceCall K V → TxOp K V
  | .get keyspaceId key => .get keyspaceId key
  | .containsKey keyspaceId key => .containsKey keyspaceId key
  | .take keyspaceId key => .fetchUpdate keyspaceId key fun _ => none
  | .fetchUpdate keyspaceId key f => .fetchUpdate keyspaceId key f
  | .updateFetch keyspaceId key f => .updateFetch keyspaceId key f
  | .insert keyspaceId key value => .insert keyspaceId key value
  | .remove keyspaceId key => .remove keyspaceId key

-- get and contains_key go to the tree of the keyspace without a transaction,
-- and there they see everything that has been written.
def read [LinearOrder K] (trees : Trees K V) : KeyspaceCall K V → Option (Answer K V)
  | .get keyspaceId key => some (.value (treeGet (trees keyspaceId) seqnoMax key))
  | .containsKey keyspaceId key => some (.present (treeGet (trees keyspaceId) seqnoMax key).isSome)
  | _ => none

-- Whether a conflict sends the call around its loop again. insert and remove have
-- no loop and expect that there is none.
def loops : KeyspaceCall K V → Bool
  | .insert _ _ _ => false
  | .remove _ _ => false
  | _ => true

end KeyspaceCall

-- since and calledAt are not in the source: how many writes had taken effect
-- when the call was made, and when that was.
structure Ticket (K V : Type) where
  call : KeyspaceCall K V
  calledAt : Nat
  since : Nat
  retries : Nat

inductive CallPhase (K V : Type) where
  | idle
  | trying (ticket : Ticket K V)
  | begun (ticket : Ticket K V)
  | performed (ticket : Ticket K V) (answer : Answer K V)
  | committing (ticket : Ticket K V) (answer : Answer K V)
  | panicked (ticket : Ticket K V)

-- clock, writes and records belong to the run, not to the code: the number of
-- steps so far, the writes in the order in which they reached the trees, and the
-- calls that have returned.
structure Calls (K V : Type) where
  db : TxDatabase K V
  clock : Nat
  writes : List (TxOp K V × Answer K V)
  records : List (CallRecord (TxOp K V × Answer K V))

inductive CallMove (K V : Type) where
  | call (call : KeyspaceCall K V)
  | read
  | writeTx
  | perform
  | commitReadOnly (drop : IterationOrder Nat)
  | commit (order : IterationOrder Nat) (outcome : Outcome)
  | applyItem
  | finishCommit (drop : IterationOrder Nat)
  | background (label : TxLabel K V)

variable {K V : Type}

def CallPhase.Committing : CallPhase K V → Prop
  | .committing _ _ => True
  | _ => False

def TxLabel.Background : TxLabel K V → Prop
  | .nonce _ => True
  | .maintain _ => True
  | _ => False

namespace Calls

def tick (s : Calls K V) (db : TxDatabase K V) : Calls K V := { s with db := db, clock := s.clock + 1 }

def finish (s : Calls K V) (db : TxDatabase K V) (ticket : Ticket K V) (answer : Answer K V) (position : Nat) (wrote : Bool) :
    Calls K V :=
  { s.tick db with records := s.records ++ [⟨(ticket.call.op, answer), ticket.calledAt, s.clock, position, wrote⟩] }

end Calls

variable [LinearOrder K] [DecidableEq V] (prefixToRange : K → Bound K × Bound K)

-- A thread's transaction goes by the thread's own number.
inductive CallAct : Nat → Calls K V → CallPhase K V → CallMove K V → Calls K V → CallPhase K V → Prop where
  | call (t : Nat) (s : Calls K V) (call : KeyspaceCall K V) :
      CallAct t s .idle (.call call) (s.tick s.db) (.trying ⟨call, s.clock, s.writes.length, 0⟩)
  | read (t : Nat) (s : Calls K V) (ticket : Ticket K V) (answer : Answer K V)
      (direct : ticket.call.read s.db.trees = some answer) :
      CallAct t s (.trying ticket) .read (s.finish s.db ticket answer s.writes.length false) .idle
  | writeTx (t : Nat) (s : Calls K V) (ticket : Ticket K V) (db : TxDatabase K V)
      (transactional : ticket.call.read s.db.trees = none) (step : TxStep prefixToRange s.db (.writeTx t) db) :
      CallAct t s (.trying ticket) .writeTx (s.tick db) (.begun ticket)
  | perform (t : Nat) (s : Calls K V) (ticket : Ticket K V) (session : Session K V) (db : TxDatabase K V)
      (found : s.db.sessions t = some session) (step : TxStep prefixToRange s.db (.act t ticket.call.op) db) :
      CallAct t s (.begun ticket) .perform (s.tick db)
        (.performed ticket (session.tx.perform prefixToRange s.db.trees ticket.call.op).2)
  | commitReadOnly (t : Nat) (s : Calls K V) (ticket : Ticket K V) (answer : Answer K V) (drop : IterationOrder Nat)
      (session : Session K V) (db : TxDatabase K V) (found : s.db.sessions t = some session)
      (step : TxStep prefixToRange s.db (.commitReadOnly t drop) db) :
      CallAct t s (.performed ticket answer) (.commitReadOnly drop) (s.finish db ticket answer session.begun false) .idle
  | retry (t : Nat) (s : Calls K V) (ticket : Ticket K V) (answer : Answer K V) (order drop : IterationOrder Nat)
      (db : TxDatabase K V) (looping : ticket.call.loops = true)
      (step : TxStep prefixToRange s.db (.commit t order (.conflicted drop)) db) :
      CallAct t s (.performed ticket answer) (.commit order (.conflicted drop)) (s.tick db)
        (.trying { ticket with retries := ticket.retries + 1 })
  | expect (t : Nat) (s : Calls K V) (ticket : Ticket K V) (answer : Answer K V) (order drop : IterationOrder Nat)
      (db : TxDatabase K V) (blind : ticket.call.loops = false)
      (step : TxStep prefixToRange s.db (.commit t order (.conflicted drop)) db) :
      CallAct t s (.performed ticket answer) (.commit order (.conflicted drop)) (s.tick db) (.panicked ticket)
  -- The call returns an error.
  | abort (t : Nat) (s : Calls K V) (ticket : Ticket K V) (answer : Answer K V) (order drop : IterationOrder Nat)
      (seqnoTaken : Bool) (db : TxDatabase K V)
      (step : TxStep prefixToRange s.db (.commit t order (.aborted drop seqnoTaken)) db) :
      CallAct t s (.performed ticket answer) (.commit order (.aborted drop seqnoTaken)) (s.tick db) .idle
  | commit (t : Nat) (s : Calls K V) (ticket : Ticket K V) (answer : Answer K V) (order : IterationOrder Nat)
      (db : TxDatabase K V) (step : TxStep prefixToRange s.db (.commit t order .proceeds) db) :
      CallAct t s (.performed ticket answer) (.commit order .proceeds) (s.tick db) (.committing ticket answer)
  | applyItem (t : Nat) (s : Calls K V) (ticket : Ticket K V) (answer : Answer K V) (db : TxDatabase K V)
      (step : TxStep prefixToRange s.db .applyItem db) :
      CallAct t s (.committing ticket answer) .applyItem
        { s.tick db with writes := s.writes ++ [(ticket.call.op, answer)] } (.committing ticket answer)
  | finishCommit (t : Nat) (s : Calls K V) (ticket : Ticket K V) (answer : Answer K V) (drop : IterationOrder Nat)
      (db : TxDatabase K V) (step : TxStep prefixToRange s.db (.finishCommit drop) db) :
      CallAct t s (.committing ticket answer) (.finishCommit drop)
        (s.finish db ticket answer (s.writes.length - 1) true) .idle
  | background (t : Nat) (s : Calls K V) (phase : CallPhase K V) (label : TxLabel K V) (db : TxDatabase K V)
      (aside : label.Background) (step : TxStep prefixToRange s.db label db) :
      CallAct t s phase (.background label) (s.tick db) phase

-- The condition on the watermark, at the moves that put it to use.
def CallsBelow (threads : Threads Nat (Calls K V) (CallPhase K V)) : Nat × CallMove K V → Prop
  | (t, .commit order outcome) => WatermarkBelow threads.shared.db (.commit t order outcome)
  | (_, .background label) => WatermarkBelow threads.shared.db label
  | _ => True

end OmryaKv.Tx
