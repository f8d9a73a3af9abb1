import OmryaKv.Storage.Tree
import OmryaKv.Lib.CountMap
import Mathlib.Data.List.AList

set_option autoImplicit false

namespace OmryaKv.Storage

open Lib

-- What a handle stands for. Two creations may share an id, so birth numbers the
-- creations; it is a ghost, like the origin of a record.
structure Keyspace where
  id : Nat
  birth : Nat
deriving DecidableEq

inductive Payload (V : Type) where
  | value (v : V)
  | tombstone
  | weakTombstone
  | indirection
deriving DecidableEq

structure Item (K V : Type) where
  keyspaceId : Nat
  origin : Nat
  key : K
  payload : Payload V
deriving DecidableEq

structure ClearMark where
  keyspaceId : Nat
  origin : Nat
deriving DecidableEq

structure Batch (K V : Type) where
  seqno : Nat
  items : List (Item K V)
  clearedKeyspaces : List ClearMark
deriving DecidableEq

structure SealedJournal (K V : Type) where
  batches : List (Batch K V)
  watermarks : List (Nat × Nat)
deriving DecidableEq

-- insert, remove and remove_weak are the only ways to add to a batch.
structure WriteBatch (K V : Type) where
  data : List (Item K V)
  wellFormed : ∀ item ∈ data, item.payload ≠ .indirection

-- The ways in which the code below stops instead of returning: an unreachable!,
-- the assert_eq! on a sealed memtable, and Error::Unrecoverable.
inductive Failure where
  | unreachable
  | memtableLsnMismatch
  | unrecoverable
deriving DecidableEq

abbrev Trees (K V : Type) := Nat → Tree K V

-- metaNames is the id to name mapping in the meta keyspace, keyspaces the
-- dictionary, folders what stands under keyspaces/ on disk apart from the meta
-- keyspace. births counts the creations so far and is a ghost.
structure Database (Name K V : Type) where
  seqno : Nat
  keyspaceIdCounter : Nat
  metaNames : AList fun _ : Nat => Name
  keyspaces : AList fun _ : Name => Keyspace
  folders : List Keyspace
  trees : Trees K V
  journal : List (Batch K V)
  sealedJournals : List (SealedJournal K V)
  births : Nat

variable {Name K V : Type}

def applyItem (seqno : Nat) (item : Item K V) (t : Tree K V) : Except Failure (Tree K V) :=
  match item.payload with
  | .value v => .ok (t.insert item.key v seqno item.origin)
  | .tombstone => .ok (t.remove item.key seqno item.origin)
  | .weakTombstone => .ok (t.removeWeak item.key seqno item.origin)
  | .indirection => .error .unreachable

def modifyTree (trees : Trees K V) (id : Nat) (f : Tree K V → Tree K V) : Trees K V := Function.update trees id (f (trees id))

def applyItemTo (trees : Trees K V) (id seqno : Nat) (item : Item K V) : Except Failure (Trees K V) := do
  let t ← applyItem seqno item (trees id)
  return Function.update trees id t

namespace Database

def new : Database Name K V := ⟨0, 1, ∅, ∅, [], fun _ => .empty, [], [], 0⟩

def journaled (db : Database Name K V) (batch : Batch K V) (trees : Trees K V) : Database Name K V :=
  { db with seqno := db.seqno + 1, journal := db.journal ++ [batch], trees := trees }

def insert (db : Database Name K V) (ks : Keyspace) (key : K) (value : V) : Database Name K V :=
  db.journaled ⟨db.seqno, [⟨ks.id, ks.birth, key, .value value⟩], []⟩
    (modifyTree db.trees ks.id fun t => t.insert key value db.seqno ks.birth)

def remove (db : Database Name K V) (ks : Keyspace) (key : K) : Database Name K V :=
  db.journaled ⟨db.seqno, [⟨ks.id, ks.birth, key, .tombstone⟩], []⟩
    (modifyTree db.trees ks.id fun t => t.remove key db.seqno ks.birth)

-- The journal gets a weak tombstone, the memtable an ordinary one.
def removeWeak (db : Database Name K V) (ks : Keyspace) (key : K) : Database Name K V :=
  db.journaled ⟨db.seqno, [⟨ks.id, ks.birth, key, .weakTombstone⟩], []⟩
    (modifyTree db.trees ks.id fun t => t.remove key db.seqno ks.birth)

def clear (db : Database Name K V) (ks : Keyspace) : Database Name K V :=
  db.journaled ⟨db.seqno, [], [⟨ks.id, ks.birth⟩]⟩ (modifyTree db.trees ks.id Tree.clear)

def commit (db : Database Name K V) (batch : WriteBatch K V) : Except Failure (Database Name K V) :=
  if batch.data.isEmpty then .ok db
  else do
    let trees ← batch.data.foldlM (fun trees item => applyItemTo trees item.keyspaceId db.seqno item) db.trees
    return db.journaled ⟨db.seqno, batch.data, []⟩ trees

def rotateMemtable (db : Database Name K V) (ks : Keyspace) : Database Name K V :=
  match (db.trees ks.id).rotateMemtable with
  | none => db
  | some (_, t) => { db with trees := Function.update db.trees ks.id t }

def flush (db : Database Name K V) (ks : Keyspace) : Database Name K V :=
  { db with trees := modifyTree db.trees ks.id Tree.flush }

def collect (db : Database Name K V) (ks : Keyspace) (kept : List (Entry K V)) : Database Name K V :=
  { db with trees := modifyTree db.trees ks.id fun t => t.collect kept }

-- lsm-tree numbers the versions of its trees by the shared counter: a clear, a
-- rotation, a flush or a compaction takes as many seqnos as it installs versions.
def takeSeqnos (db : Database Name K V) (count : Nat) : Database Name K V := { db with seqno := db.seqno + count }

def memtableWatermarks (db : Database Name K V) : List (Nat × Nat) :=
  db.keyspaces.entries.filterMap fun entry =>
    (db.trees entry.2.id).getHighestMemtableSeqno.map fun lsn => (entry.2.id, lsn)

def rotateJournal (db : Database Name K V) : Database Name K V :=
  { db with journal := [], sealedJournals := db.sealedJournals ++ [⟨db.journal, db.memtableWatermarks⟩] }

def isDeleted (db : Database Name K V) (id : Nat) : Bool := db.keyspaces.entries.all fun entry => entry.2.id != id

def evictable (db : Database Name K V) (item : SealedJournal K V) : Bool :=
  item.watermarks.all fun watermark => db.isDeleted watermark.1 || (db.trees watermark.1).flushedUpTo watermark.2

def evict (db : Database Name K V) : List (SealedJournal K V) → List (SealedJournal K V)
  | [] => []
  | item :: rest => if db.evictable item then evict db rest else item :: rest

def maintenance (db : Database Name K V) : Database Name K V :=
  { db with sealedJournals := db.evict db.sealedJournals }

-- The new table takes a seqno from the shared counter; the journal sees none of it.
def ingest (db : Database Name K V) (ks : Keyspace) (pairs : List (K × Option V)) : Database Name K V :=
  { db with
    seqno := db.seqno + 1
    trees := modifyTree db.trees ks.id fun t => t.ingest pairs db.seqno ks.birth }

variable [DecidableEq Name]

-- raw_keyspace. Registering the name is an ingestion into the meta keyspace.
def keyspace (db : Database Name K V) (name : Name) : Database Name K V :=
  match db.keyspaces.lookup name with
  | some _ => db
  | none =>
    let ks : Keyspace := ⟨db.keyspaceIdCounter, db.births⟩
    { db with
      seqno := db.seqno + 1
      keyspaceIdCounter := db.keyspaceIdCounter + 1
      metaNames := db.metaNames.insert ks.id name
      keyspaces := db.keyspaces.insert name ks
      folders := ks :: db.folders
      trees := Function.update db.trees ks.id .empty
      births := db.births + 1 }

-- delete_keyspace and the drop of the last handle, which removes the folder.
def deleteKeyspace (db : Database Name K V) (name : Name) : Database Name K V :=
  match db.keyspaces.lookup name with
  | none => db
  | some ks =>
    { db with
      seqno := db.seqno + 2
      metaNames := db.metaNames.erase ks.id
      keyspaces := db.keyspaces.erase name
      folders := db.folders.filter fun folder => folder.id != ks.id
      trees := Function.update db.trees ks.id .empty }

def Live (db : Database Name K V) (ks : Keyspace) : Prop := ∃ name, db.keyspaces.lookup name = some ks

end Database

inductive Op (Name K V : Type) where
  | insert (ks : Keyspace) (key : K) (value : V)
  | remove (ks : Keyspace) (key : K)
  | removeWeak (ks : Keyspace) (key : K)
  | commit (batch : WriteBatch K V)
  | clear (ks : Keyspace)
  | rotateMemtable (ks : Keyspace)
  | flush (ks : Keyspace)
  | collect (ks : Keyspace) (kept : List (Entry K V))
  | takeSeqnos (count : Nat)
  | rotateJournal
  | maintenance
  | ingest (ks : Keyspace) (pairs : List (K × Option V))
  | keyspace (name : Name)
  | deleteKeyspace (name : Name)

variable [DecidableEq Name]

def Op.Enabled (db : Database Name K V) : Op Name K V → Prop
  | .insert ks _ _ | .remove ks _ | .removeWeak ks _ | .clear ks | .rotateMemtable ks | .flush ks => db.Live ks
  | .commit batch => ∀ item ∈ batch.data, db.Live ⟨item.keyspaceId, item.origin⟩
  -- The writer of an ingestion refuses keys out of order.
  | .ingest ks pairs => db.Live ks ∧ (pairs.map Prod.fst).Nodup
  | .collect ks kept => db.Live ks ∧ Collected (db.trees ks.id).tables kept
  | .takeSeqnos _ | .rotateJournal | .maintenance | .keyspace _ | .deleteKeyspace _ => True

def Database.perform (db : Database Name K V) : Op Name K V → Except Failure (Database Name K V)
  | .insert ks key value => .ok (db.insert ks key value)
  | .remove ks key => .ok (db.remove ks key)
  | .removeWeak ks key => .ok (db.removeWeak ks key)
  | .commit batch => db.commit batch
  | .clear ks => .ok (db.clear ks)
  | .rotateMemtable ks => .ok (db.rotateMemtable ks)
  | .flush ks => .ok (db.flush ks)
  | .collect ks kept => .ok (db.collect ks kept)
  | .takeSeqnos count => .ok (db.takeSeqnos count)
  | .rotateJournal => .ok db.rotateJournal
  | .maintenance => .ok db.maintenance
  | .ingest ks pairs => .ok (db.ingest ks pairs)
  | .keyspace name => .ok (db.keyspace name)
  | .deleteKeyspace name => .ok (db.deleteKeyspace name)

def Step (db : Database Name K V) (op : Op Name K V) (next : Database Name K V) : Prop :=
  op.Enabled db ∧ db.perform op = .ok next

end OmryaKv.Storage
