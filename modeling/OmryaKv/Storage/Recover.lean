import OmryaKv.Storage.Database

set_option autoImplicit false

namespace OmryaKv.Storage

open Lib

variable {Name K V : Type}

-- What outlives the process. The journals stand oldest first, the last one apart.
structure Disk (Name K V : Type) where
  metaNames : AList fun _ : Nat => Name
  folders : List Keyspace
  tables : Nat → List (Entry K V)
  journal : List (Batch K V)
  sealedJournals : List (List (Batch K V))
  births : Nat

def Database.crash (db : Database Name K V) : Disk Name K V :=
  ⟨db.metaNames, db.folders, fun id => (db.trees id).tables, db.journal, db.sealedJournals.map SealedJournal.batches, db.births⟩

def Disk.bare (disk : Disk Name K V) : Database Name K V :=
  ⟨0, 1, disk.metaNames, ∅, disk.folders, fun _ => .empty, disk.journal, [], disk.births⟩

def raiseWatermark (id lsn : Nat) : List (Nat × Nat) → List (Nat × Nat)
  | [] => [(id, lsn)]
  | (other, prev) :: rest =>
    if other = id then (id, max prev lsn) :: rest else (other, prev) :: raiseWatermark id lsn rest

namespace Database

def sealRecovered (db : Database Name K V) (watermark : Nat × Nat) : Except Failure (Database Name K V) :=
  let t := db.trees watermark.1
  if t.flushedUpTo watermark.2 then
    .ok { db with trees := Function.update db.trees watermark.1 t.clearActiveMemtable }
  else
    match t.rotateMemtable with
    | none => .ok db
    | some (memtable, t) =>
      if highest Entry.seqno memtable = some watermark.2 then
        .ok { db with
          seqno := max db.seqno ((t.getHighestSeqno.map (· + 1)).getD 0)
          trees := Function.update db.trees watermark.1 t }
      else .error .memtableLsnMismatch

def checkRotated (db : Database Name K V) : Except Failure Unit :=
  if db.keyspaces.entries.any fun entry => !(db.trees entry.2.id).activeMemtable.isEmpty then .error .unrecoverable
  else .ok ()

def recoverSeqno (db : Database Name K V) : Database Name K V :=
  { db with
    seqno := db.keyspaces.entries.foldl
      (fun seqno entry => max seqno (((db.trees entry.2.id).getHighestSeqno.map (· + 1)).getD 0)) db.seqno }

variable [DecidableEq Name]

def recoverKeyspace (tables : Nat → List (Entry K V)) (acc : Nat × Database Name K V) (folder : Keyspace) :
    Nat × Database Name K V :=
  let (highestId, db) := acc
  match db.metaNames.lookup folder.id with
  | none => (max highestId folder.id, { db with folders := db.folders.filter fun other => other.id != folder.id })
  | some name =>
    (max highestId folder.id,
      { db with
        keyspaces := db.keyspaces.insert name folder
        trees := Function.update db.trees folder.id (.recovered (tables folder.id)) })

def resolve (db : Database Name K V) (id : Nat) : Option Keyspace :=
  (db.metaNames.lookup id).bind fun name => db.keyspaces.lookup name

def replayItem (db : Database Name K V) (seqno : Nat) (item : Item K V) : Except Failure (Database Name K V) :=
  match db.resolve item.keyspaceId with
  | none => .ok db
  | some ks => do
      let trees ← applyItemTo db.trees ks.id seqno item
      return { db with trees := trees }

def replayClear (db : Database Name K V) (mark : ClearMark) : Database Name K V :=
  match db.resolve mark.keyspaceId with
  | none => db
  | some ks => { db with trees := modifyTree db.trees ks.id Tree.clear }

def replayBatch (db : Database Name K V) (batch : Batch K V) : Except Failure (Database Name K V) := do
  let db ← batch.items.foldlM (fun db item => db.replayItem batch.seqno item) db
  return batch.clearedKeyspaces.foldl replayClear db

def noteWatermark (db : Database Name K V) (id seqno : Nat) (watermarks : List (Nat × Nat)) : List (Nat × Nat) :=
  match db.resolve id with
  | none => watermarks
  | some ks => raiseWatermark ks.id seqno watermarks

-- Sealed journals are replayed like the active one, and the watermarks kept along.
def replaySealedBatch (acc : Database Name K V × List (Nat × Nat)) (batch : Batch K V) :
    Except Failure (Database Name K V × List (Nat × Nat)) := do
  let acc ← batch.items.foldlM (fun (db, watermarks) item => do
    let next ← db.replayItem batch.seqno item
    return (next, db.noteWatermark item.keyspaceId batch.seqno watermarks)) acc
  return batch.clearedKeyspaces.foldl (fun (db, watermarks) mark =>
    (db.replayClear mark, db.noteWatermark mark.keyspaceId batch.seqno watermarks)) acc

-- The watermarks sit in a hash map, so the order in which they come out is open.
def recoverSealedJournal (order : IterationOrder Nat) (db : Database Name K V) (batches : List (Batch K V)) :
    Except Failure (Database Name K V) := do
  let (db, watermarks) ← batches.foldlM replaySealedBatch (db, [])
  let db ← (order.visit watermarks).foldlM sealRecovered db
  return { db with sealedJournals := db.sealedJournals ++ [⟨batches, order.visit watermarks⟩] }

end Database

variable [DecidableEq Name]

def recoverKeyspaces (disk : Disk Name K V) : Database Name K V :=
  let (highestId, db) := disk.folders.foldl (Database.recoverKeyspace disk.tables) (1, disk.bare)
  { db with keyspaceIdCounter := highestId + 1 }

def recover (order : IterationOrder Nat) (disk : Disk Name K V) : Except Failure (Database Name K V) := do
  let db ← disk.sealedJournals.foldlM (Database.recoverSealedJournal order) (recoverKeyspaces disk)
  db.checkRotated
  let db ← disk.journal.foldlM Database.replayBatch db
  return db.recoverSeqno

-- The clears that a recovery replays and the memtables that it seals make lsm-tree
-- take seqnos as well; how many is left open.
inductive Reopens (order : IterationOrder Nat) (disk : Disk Name K V) : Database Name K V → Prop where
  | mk (db : Database Name K V) (taken : Nat) (recovered : recover order disk = .ok db) : Reopens order disk (db.takeSeqnos taken)

end OmryaKv.Storage
