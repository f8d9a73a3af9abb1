import OmryaKv.Journal.Writer
import OmryaKv.Snapshot.Tracker

set_option autoImplicit false

namespace OmryaKv.Write

open Journal Snapshot

inductive WriteError where
  | io
  | storage
  | poisoned
  | keyspaceDeleted
  | unreachable
deriving DecidableEq

structure Keyspace where
  id : UInt64
  isDeleted : Bool
  manualJournalPersist : Bool
deriving DecidableEq

inductive TreeOp where
  | insert (keyspaceId : UInt64) (key : UserKey) (value : UserValue) (seqno : UInt64)
  | remove (keyspaceId : UInt64) (key : UserKey) (seqno : UInt64)
  | removeWeak (keyspaceId : UInt64) (key : UserKey) (seqno : UInt64)
  | clear (keyspaceId : UInt64)
deriving DecidableEq

-- applied lists what has been done to the trees of the keyspaces, latest first.
structure Database where
  writer : Writer
  seqno : UInt64
  isPoisoned : Bool
  tracker : SnapshotTracker
  applied : List TreeOp
deriving DecidableEq

abbrev DatabaseM := EStateM WriteError Database

def withJournal {α : Type} (d : WriterM α) : DatabaseM (Except IoError α) := fun db =>
  match d.run db.writer with
  | .ok a writer => .ok (.ok a) { db with writer := writer }
  | .error e writer => .ok (.error e) { db with writer := writer }

theorem with_journal_ok {α : Type} (d : WriterM α) (db : Database) (a : α) (writer : Writer)
    (run : d.run db.writer = .ok a writer) : (withJournal d).run db = .ok (.ok a) { db with writer := writer } := by
  rw [EStateM.run, withJournal, run]

theorem with_journal_error {α : Type} (d : WriterM α) (db : Database) (e : IoError) (writer : Writer)
    (run : d.run db.writer = .error e writer) : (withJournal d).run db = .ok (.error e) { db with writer := writer } := by
  rw [EStateM.run, withJournal, run]

def checkPoisoned : DatabaseM Unit := do
  if (← get).isPoisoned then
    throw .poisoned

theorem check_poisoned_healthy (db : Database) (healthy : db.isPoisoned = false) : checkPoisoned.run db = .ok () db := by
  simp [checkPoisoned, healthy]

theorem check_poisoned_refuses (db : Database) (poisoned : db.isPoisoned = true) :
    checkPoisoned.run db = .error .poisoned db := by
  simp [checkPoisoned, poisoned]

def nextSeqno : DatabaseM UInt64 := fun db => .ok db.seqno { db with seqno := db.seqno + 1 }

def poison : DatabaseM Unit := modify fun db => { db with isPoisoned := true }

def applyOp (op : TreeOp) : DatabaseM Unit := modify fun db => { db with applied := op :: db.applied }

def publish (seqno : UInt64) : DatabaseM Unit := modify fun db => { db with tracker := db.tracker.publish seqno.toNat }

def persistUnlessManual (ks : Keyspace) : DatabaseM Unit := do
  if ¬ ks.manualJournalPersist then
    match ← withJournal (persist .buffer) with
    | .ok _ => return
    | .error _ =>
      poison
      throw .io

def finishJournaled (ks : Keyspace) (toTree : UInt64 → DatabaseM Unit) (seqno : UInt64) : Except IoError Nat → DatabaseM Unit
  | .ok _ => do
      persistUnlessManual ks
      toTree seqno
      publish seqno
  | .error _ => throw .io

-- What insert, remove, remove_weak and clear share once they hold the journal lock.
def writeJournaled (ks : Keyspace) (journal : UInt64 → WriterM Nat) (toTree : UInt64 → DatabaseM Unit) : DatabaseM Unit := do
  checkPoisoned
  let seqno ← nextSeqno
  let written ← withJournal (journal seqno)
  finishJournaled ks toTree seqno written

variable (deps : Dependencies)

def Keyspace.insert (ks : Keyspace) (key : UserKey) (value : UserValue) : DatabaseM Unit := do
  if ks.isDeleted then
    throw .keyspaceDeleted
  writeJournaled ks (writeRaw deps ks.id key value .value) fun seqno => applyOp (.insert ks.id key value seqno)

def Keyspace.remove (ks : Keyspace) (key : UserKey) : DatabaseM Unit := do
  if ks.isDeleted then
    throw .keyspaceDeleted
  writeJournaled ks (writeRaw deps ks.id key .empty .tombstone) fun seqno => applyOp (.remove ks.id key seqno)

-- The journal gets a weak tombstone, the tree an ordinary one.
def Keyspace.removeWeak (ks : Keyspace) (key : UserKey) : DatabaseM Unit := do
  if ks.isDeleted then
    throw .keyspaceDeleted
  writeJournaled ks (writeRaw deps ks.id key .empty .weakTombstone) fun seqno => applyOp (.remove ks.id key seqno)

-- clear does not look at is_deleted, and the tree itself may fail to clear.
def Keyspace.clear (ks : Keyspace) (treeFails : Bool) : DatabaseM Unit :=
  writeJournaled ks (writeClear deps ks.id) fun _ =>
    if treeFails then throw .storage else applyOp (.clear ks.id)

-- Item::new refuses empty and oversized keys, and no method of WriteBatch makes an indirection.
structure WriteBatch where
  data : List BatchItem
  durability : Option PersistMode
  wellFormed : ∀ item ∈ data, item.key ≠ [] ∧ item.key.length ≤ 65535 ∧ item.valueType ≠ .indirection

def applyItem (seqno : UInt64) (item : BatchItem) : DatabaseM Unit :=
  match item.valueType with
  | .value => applyOp (.insert item.keyspaceId item.key item.value seqno)
  | .tombstone => applyOp (.remove item.keyspaceId item.key seqno)
  | .weakTombstone => applyOp (.removeWeak item.keyspaceId item.key seqno)
  | .indirection => throw .unreachable

def applyItems (seqno : UInt64) : List BatchItem → DatabaseM Unit
  | [] => return
  | item :: items => do
      applyItem seqno item
      applyItems seqno items

def persistAs : Option PersistMode → DatabaseM Unit
  | none => return
  | some mode => do
      match ← withJournal (persist mode) with
      | .ok _ => return
      | .error _ =>
        poison
        throw .poisoned

def WriteBatch.commit (batch : WriteBatch) : DatabaseM Unit := do
  if batch.data.isEmpty then
    return
  checkPoisoned
  let batchSeqno ← nextSeqno
  -- The result of write_batch is dropped.
  let _ ← withJournal (writeBatch deps batch.data batch.data.length batchSeqno)
  persistAs batch.durability
  applyItems batchSeqno batch.data
  publish batchSeqno

-- What persistence does to the rest of an operation, in one equation for both kinds.
def persistOutcome (mode : Option PersistMode) (e : WriteError) (db : Database) : EStateM.Result WriteError Database Unit :=
  match mode with
  | none => .ok () db
  | some mode =>
    match (persist mode).run db.writer with
    | .ok _ writer => .ok () { db with writer := writer }
    | .error _ writer => .error e { db with writer := writer, isPoisoned := true }

theorem persist_or_poison_run (mode : PersistMode) (e : WriteError) (db : Database) (rest : Except IoError Unit → DatabaseM Unit)
    (kept : ∀ done, rest (.ok done) = pure ()) (lost : ∀ failure, rest (.error failure) = do poison; throw e) :
    (withJournal (persist mode) >>= rest).run db = persistOutcome (some mode) e db := by
  rw [EStateM.run_bind, persistOutcome]
  cases outcome : (persist mode).run db.writer with
  | ok done writer =>
    rw [with_journal_ok _ _ _ _ outcome]
    dsimp only
    rw [kept]
    rfl
  | error failure writer =>
    rw [with_journal_error _ _ _ _ outcome]
    dsimp only
    rw [lost]
    rfl

theorem persist_unless_manual_run (ks : Keyspace) (db : Database) :
    (persistUnlessManual ks).run db =
      persistOutcome (if ks.manualJournalPersist then none else some .buffer) .io db := by
  by_cases manual : ks.manualJournalPersist = true
  · simp [persistUnlessManual, persistOutcome, manual]
  · rw [persistUnlessManual, if_pos manual, if_neg manual]
    exact persist_or_poison_run .buffer .io db _ (fun _ => rfl) fun _ => rfl

theorem persist_as_run (durability : Option PersistMode) (db : Database) :
    (persistAs durability).run db = persistOutcome durability .poisoned db := by
  cases durability with
  | none => rfl
  | some mode => exact persist_or_poison_run mode .poisoned db _ (fun _ => rfl) fun _ => rfl

theorem persist_dirty (mode : PersistMode) (e : WriteError) (db : Database) (dirty : db.writer.isBufferDirty = true) :
    (true ∉ db.writer.faults.take mode.calls ∧
      ∃ next, persistOutcome (some mode) e db = .ok () { db with writer := next } ∧ next.file = db.writer.file ∧
        next.Settings db.writer.compression db.writer.compressionThreshold) ∨
    (true ∈ db.writer.faults.take mode.calls ∧
      ∃ next, persistOutcome (some mode) e db = .error e { db with writer := next, isPoisoned := true } ∧
        next.file = db.writer.file ∧ next.Settings db.writer.compression db.writer.compressionThreshold) := by
  rcases persist_outcome mode db.writer dirty with ⟨quiet, next, run, kept⟩ | ⟨fails, next, run, kept⟩
  · refine .inl ⟨quiet, next, ?_, kept⟩
    rw [persistOutcome, run]
  · refine .inr ⟨fails, next, ?_, kept⟩
    rw [persistOutcome, run]

theorem persist_outcome_ok (mode : Option PersistMode) (e : WriteError) (db after : Database)
    (persisted : persistOutcome mode e db = .ok () after) : ∃ writer, after = { db with writer := writer } := by
  cases mode with
  | none =>
    cases persisted
    exact ⟨db.writer, rfl⟩
  | some mode =>
    rw [persistOutcome] at persisted
    cases run : (persist mode).run db.writer with
    | ok done writer =>
      rw [run] at persisted
      cases persisted
      exact ⟨writer, rfl⟩
    | error failure writer =>
      rw [run] at persisted
      cases persisted

end OmryaKv.Write
