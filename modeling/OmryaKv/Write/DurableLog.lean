import OmryaKv.Journal.BufferedWriter
import OmryaKv.Write.Poisoning

set_option autoImplicit false

namespace OmryaKv.Write

open Journal Lib

variable (deps : Dependencies)

namespace JournalWrite

def body (compression : CompressionType) (threshold : Nat) : JournalWrite → List Entry
  | single call => [call.entry compression threshold]
  | commit batch => batch.data.map (itemEntry compression threshold)

def batch (seqno : UInt64) : JournalWrite → Batch
  | single call => call.batch seqno
  | commit batch => ⟨seqno, batch.data, []⟩

-- What the writer passes to write_all, call by call.
def pieces (compression : CompressionType) (threshold : Nat) (seqno : UInt64) (w : JournalWrite) : List Bytes :=
  (frame deps seqno (w.body compression threshold)).map (Entry.encodeInto deps)

def Fits (compression : CompressionType) (threshold : Nat) (w : JournalWrite) : Prop :=
  (w.body compression threshold).length < 2 ^ 32 ∧ ∀ entry ∈ w.body compression threshold, entry.Fits deps

end JournalWrite

-- Everything that is done to the journals while a database is open. Eviction takes
-- the oldest sealed journal.
inductive Operation where
  | write (call : JournalWrite) (seqno : UInt64)
  | persist (mode : PersistMode)
  | rotate
  | evict

def Operation.run (disk : Disk FileName) (w : BufferedWriter) : Operation → List (SysCall FileName) × BufferedWriter
  | .write call seqno =>
    if call.returnsEarly then ([], w)
    else
      let (calls, w) := w.write (call.pieces deps w.compression w.compressionThreshold seqno)
      match call.persistMode with
      | none => (calls, w)
      | some mode => (calls ++ (w.persist mode).1, (w.persist mode).2)
  | .persist mode => w.persist mode
  | .rotate => w.rotate disk
  | .evict =>
    match disk.files with
    | [] => ([], w)
    | (oldest, _) :: _ => if oldest = w.path then ([], w) else ([.unlink oldest], w)

-- The process alone ends, or the machine stops.
inductive Crash where
  | killed
  | powerLost
deriving DecidableEq

def Crash.Leaves (disk after : Disk FileName) : Crash → Prop
  | .killed => after = disk
  | .powerLost => disk.PowerLost after

inductive Machine where
  | up (disk : Disk FileName) (writer : BufferedWriter)
  | down (disk : Disk FileName)

-- count is the number of system calls that were made before the crash.
inductive Event where
  | call (op : Operation)
  | crash (kind : Crash) (op : Operation) (count : Nat)
  | crashOpening (kind : Crash) (count : Nat)
  | opened (batches : List Batch)
  | refused (e : OpenError)

-- The folder of the database may be listed in any order and holds other files as well.
def Lists (folder : Folder UInt8) (disk : Disk FileName) : Prop :=
  ∃ others : List (Sigma fun _ : FileName => List UInt8), (∀ other ∈ others, hasJournalExtension other.1 = false) ∧
    folder.entries.Perm (disk.files.map (fun file => ⟨file.1, file.2.contents⟩) ++ others)

inductive Machine.Step : Machine → Event → Machine → Prop where
  | call (disk : Disk FileName) (w : BufferedWriter) (op : Operation) :
      Step (.up disk w) (.call op) (.up (runCalls disk (op.run deps disk w).1) (op.run deps disk w).2)
  | crash (disk after : Disk FileName) (w : BufferedWriter) (kind : Crash) (op : Operation) (count : Nat)
      (leaves : kind.Leaves (runCalls disk ((op.run deps disk w).1.take count)) after) :
      Step (.up disk w) (.crash kind op count) (.down after)
  | crashOpening (disk after : Disk FileName) (kind : Crash) (count : Nat) (folder : Folder UInt8) (lists : Lists folder disk)
      (active : FileName) (reads : List ReadJournal) (read : openJournals deps folder = .ok (active, reads))
      (leaves : kind.Leaves (runCalls disk ((openCalls active reads).take count)) after) :
      Step (.down disk) (.crashOpening kind count) (.down after)
  | opened (disk : Disk FileName) (folder : Folder UInt8) (lists : Lists folder disk) (active : FileName)
      (reads : List ReadJournal) (read : openJournals deps folder = .ok (active, reads)) (compression : CompressionType)
      (threshold : Nat) :
      Step (.down disk) (.opened (reads.flatMap ReadJournal.batches))
        (.up (runCalls disk (openCalls active reads)) (.new active compression threshold))
  | refused (disk : Disk FileName) (folder : Folder UInt8) (lists : Lists folder disk) (e : OpenError)
      (failed : openJournals deps folder = .error e) : Step (.down disk) (.refused e) (.down disk)

def Operation.Allowed (w : BufferedWriter) : Operation → Prop
  | .write call _ => call.Fits deps w.compression w.compressionThreshold
  | .rotate => ∀ id, journalId w.path = some id → id + 1 < 2 ^ 64
  | .persist _ | .evict => True

-- No process is killed after it has created a journal and before the folder is synced.
def Machine.Allowed : Machine → Event → Prop
  | .up _ w, .call op => op.Allowed deps w
  | .up disk w, .crash kind op count =>
    op.Allowed deps w ∧ (kind = .killed → (runCalls disk ((op.run deps disk w).1.take count)).created = [])
  | _, _ => True

def Machine.fresh (compression : CompressionType) (threshold : Nat) : Machine :=
  .up (runCalls ⟨[], [], []⟩ (BufferedWriter.createNew (journalName 0) ++ [.syncFolder])) (.new (journalName 0) compression threshold)

-- The journals as a log of batches. The first so many batches of the active journal
-- outlive the process or the machine; removed journals may come back.
structure DurableLog where
  removed : List (List Batch)
  sealedJournals : List (List Batch)
  active : List Batch
  flushed : Nat
  synced : Nat

namespace DurableLog

def fresh : DurableLog := ⟨[], [], [], 0, 0⟩

def persist (log : DurableLog) : PersistMode → DurableLog
  | .buffer => { log with flushed := log.active.length }
  | .syncData => { log with flushed := log.active.length, synced := log.active.length }
  | .syncAll => { log with flushed := log.active.length, synced := log.active.length }

def append (log : DurableLog) (batch : Batch) (mode : Option PersistMode) : DurableLog :=
  let log := { log with active := log.active ++ [batch] }
  match mode with
  | none => log
  | some mode => log.persist mode

def rotate (log : DurableLog) : DurableLog :=
  { log with sealedJournals := log.sealedJournals ++ [log.active], active := [], flushed := 0, synced := 0 }

def evict (log : DurableLog) : DurableLog :=
  match log.sealedJournals with
  | [] => log
  | oldest :: rest => { log with removed := log.removed ++ [oldest], sealedJournals := rest }

def batches (log : DurableLog) : List Batch := log.sealedJournals.flatten ++ log.active

inductive Survives (log : DurableLog) : Crash → DurableLog → Prop where
  | killed (count : Nat) (kept : log.flushed ≤ count) :
      Survives log .killed { log with active := log.active.take count, flushed := (log.active.take count).length }
  | powerLost (count : Nat) (kept : log.synced ≤ count) (back : List (List Batch)) (old : back.Sublist log.removed) :
      Survives log .powerLost
        ⟨[], back ++ log.sealedJournals, log.active.take count, (log.active.take count).length, (log.active.take count).length⟩

end DurableLog

def Operation.after (log : DurableLog) : Operation → DurableLog
  | .write call seqno => if call.returnsEarly then log else log.append (call.batch seqno) call.persistMode
  | .persist mode => log.persist mode
  | .rotate => { log.rotate with removed := [] }
  | .evict => log.evict

-- A write has handed over its batch before it persists, and a rotation has switched to
-- the new journal before what was removed is gone for good.
def Operation.stages (log : DurableLog) (op : Operation) : List DurableLog :=
  match op with
  | .write call seqno => [log, log.append (call.batch seqno) none, op.after log]
  | .rotate => [log, log.rotate, op.after log]
  | _ => [log, op.after log]

-- What the journals promise: a crash in the middle of an operation is one before or
-- after it, and opening finds every batch that survived, and never fails.
inductive DurableLog.Step : DurableLog → Event → DurableLog → Prop where
  | call (log : DurableLog) (op : Operation) : Step log (.call op) (op.after log)
  | crash (log stage next : DurableLog) (kind : Crash) (op : Operation) (count : Nat) (staged : stage ∈ op.stages log)
      (survives : stage.Survives kind next) : Step log (.crash kind op count) next
  | crashOpening (log next : DurableLog) (kind : Crash) (count : Nat) (survives : log.Survives kind next) :
      Step log (.crashOpening kind count) next
  | opened (log : DurableLog) :
      Step log (.opened log.batches) { log with flushed := log.active.length, synced := log.active.length }

section Record

variable {deps}

theorem single_writes_frame (call : SingleCall) (seqno : UInt64) (w : Writer) :
    ∃ byteCount, Outcome deps w.compression w.compressionThreshold
      (frame deps seqno ((JournalWrite.single call).body w.compression w.compressionThreshold)) byteCount w
      (((JournalWrite.single call).record deps seqno).run w) := by
  cases call with
  | insert ks key value => exact ⟨_, write_raw_outcome ⟨ks.id, key, value, .value⟩ seqno w ⟨rfl, rfl⟩⟩
  | remove ks key => exact ⟨_, write_raw_outcome ⟨ks.id, key, .empty, .tombstone⟩ seqno w ⟨rfl, rfl⟩⟩
  | removeWeak ks key => exact ⟨_, write_raw_outcome ⟨ks.id, key, .empty, .weakTombstone⟩ seqno w ⟨rfl, rfl⟩⟩
  | clear ks treeFails => exact ⟨_, write_clear_outcome ks.id seqno w ⟨rfl, rfl⟩⟩

-- The pieces are what the writer hands to its file when nothing fails.
theorem record_writes_pieces (call : JournalWrite) (seqno : UInt64) (w : Writer) (works : call.returnsEarly = false)
    (quiet : w.faults = []) :
    ∃ byteCount next, (call.record deps seqno).run w = .ok byteCount next ∧
      next.file = w.file ++ (call.pieces deps w.compression w.compressionThreshold seqno).flatten ∧ next.isBufferDirty = true := by
  have outcome : ∃ byteCount, Outcome deps w.compression w.compressionThreshold
      (frame deps seqno (call.body w.compression w.compressionThreshold)) byteCount w ((call.record deps seqno).run w) := by
    cases call with
    | single call => exact single_writes_frame call seqno w
    | commit batch =>
      refine ⟨_, write_batch_outcome batch.data seqno ?_ w ⟨rfl, rfl⟩⟩
      rintro empty
      simp [JournalWrite.returnsEarly, empty] at works
  obtain ⟨byteCount, done | ⟨e, next, written, _, _, _, _, _, fault⟩⟩ := outcome
  · obtain ⟨next, run, file, -, dirty, -, -⟩ := done
    refine ⟨byteCount, next, run, ?_, dirty⟩
    rw [file, JournalWrite.pieces, encodeAll, List.flatMap_def]
  · rw [quiet] at fault
    simp at fault

end Record

end OmryaKv.Write
