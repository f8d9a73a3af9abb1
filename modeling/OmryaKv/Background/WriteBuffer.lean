import OmryaKv.Lib.Ledger
import Mathlib.Algebra.BigOperators.Group.Finset.Basic
import Mathlib.Algebra.Ring.Nat

set_option autoImplicit false

namespace OmryaKv.Background

open Lib

-- size is what lsm-tree counts for an entry when it goes into a memtable: the
-- item size that insert, remove and remove_weak return.
variable {E : Type} (size : E → Nat)

structure Memtable (E : Type) where
  id : Nat
  entries : List E
deriving DecidableEq

def Memtable.bytes (memtable : Memtable E) : Nat := (memtable.entries.map size).sum

def bytesOf (memtables : List (Memtable E)) : Nat := (memtables.map (Memtable.bytes size)).sum

-- A flush notes which memtables it takes and how large they are, writes its
-- tables, and only then has the memtables dropped. free then loads the counter
-- and retries until the exchange succeeds.
inductive FlushPhase where
  | idle
  | writing (sealedIds : List Nat) (flushedSize : Nat)
  | flushed (bytes : Nat)
  | exchanging (bytes now : Nat)
deriving DecidableEq

structure MemTree (E : Type) where
  activeMemtable : Memtable E
  sealedMemtables : List (Memtable E)
  flush : FlushPhase
deriving DecidableEq

namespace MemTree

def empty : MemTree E := ⟨⟨0, []⟩, [], .idle⟩

def put (t : MemTree E) (entry : E) : MemTree E :=
  { t with activeMemtable := ⟨t.activeMemtable.id, entry :: t.activeMemtable.entries⟩ }

def rotateMemtable (t : MemTree E) : MemTree E :=
  if t.activeMemtable.entries.isEmpty then t
  else ⟨⟨t.activeMemtable.id + 1, []⟩, t.activeMemtable :: t.sealedMemtables, t.flush⟩

def innerRotateMemtable (t : MemTree E) (memtableId : Nat) : MemTree E :=
  if t.activeMemtable.id ≠ memtableId then t else t.rotateMemtable

def clear (t : MemTree E) : MemTree E := ⟨⟨t.activeMemtable.id + 1, []⟩, [], t.flush⟩

def startFlush (t : MemTree E) : MemTree E :=
  if t.sealedMemtables.isEmpty then t
  else { t with flush := .writing (t.sealedMemtables.map Memtable.id) (bytesOf size t.sealedMemtables) }

def without (t : MemTree E) (sealedIds : List Nat) : List (Memtable E) :=
  t.sealedMemtables.filter fun memtable => decide (memtable.id ∉ sealedIds)

def registerTables (t : MemTree E) (sealedIds : List Nat) (flushedSize : Nat) : MemTree E :=
  ⟨t.activeMemtable, t.without sealedIds, .flushed flushedSize⟩

def bytes (t : MemTree E) : Nat := t.activeMemtable.bytes size + bytesOf size t.sealedMemtables

def Empty (t : MemTree E) : Prop := t.activeMemtable.entries = [] ∧ ∀ memtable ∈ t.sealedMemtables, memtable.entries = []

instance emptyDecidable [DecidableEq E] (t : MemTree E) : Decidable t.Empty :=
  inferInstanceAs (Decidable (t.activeMemtable.entries = [] ∧ ∀ memtable ∈ t.sealedMemtables, memtable.entries = []))

end MemTree

inductive JournalLock (E : Type) where
  | free
  | locked (data : List (Nat × E))
  | applying (batchSize : Nat) (todo : List (Nat × E))
deriving DecidableEq

namespace JournalLock

def todo : JournalLock E → List (Nat × E)
  | .free => []
  | .locked data => data
  | .applying _ todo => todo

def batchSize : JournalLock E → Nat
  | .applying batchSize _ => batchSize
  | _ => 0

end JournalLock

-- unallocated holds the sizes of the writes that gave the journal lock back and
-- have not reached the counter yet.
structure Supervisor (E : Type) where
  writeBufferSize : Nat
  keyspaces : Finset Nat
  trees : Nat → MemTree E
  journal : JournalLock E
  unallocated : List Nat

namespace Supervisor

def new (keyspaces : Finset Nat) : Supervisor E := ⟨0, keyspaces, fun _ => .empty, .free, []⟩

def setTree (s : Supervisor E) (ks : Nat) (t : MemTree E) : Supervisor E := { s with trees := Function.update s.trees ks t }

def pending (s : Supervisor E) : Nat := s.journal.batchSize + s.unallocated.sum

def memtableBytes (s : Supervisor E) : Nat := ∑ ks ∈ s.keyspaces, (s.trees ks).bytes size

-- No operation is in progress.
def Idle (s : Supervisor E) : Prop :=
  s.journal = .free ∧ s.unallocated = [] ∧ ∀ ks ∈ s.keyspaces, (s.trees ks).flush = .idle

end Supervisor

-- write is insert, remove or remove_weak of a keyspace. giveUp is a write that
-- fails in the journal, exchange the end of one round of free.
inductive BufferOp (E : Type) where
  | write (ks : Nat) (entry : E)
  | commit (data : List (Nat × E))
  | giveUp
  | journaled
  | apply
  | unlock
  | allocate (itemSize : Nat)
  | rotateMemtable (ks memtableId : Nat)
  | clear (ks : Nat)
  | flush (ks : Nat)
  | registerTables (ks : Nat)
  | flushFails (ks : Nat)
  | load (ks : Nat)
  | exchange (ks : Nat)
deriving DecidableEq

inductive BufferStep : Supervisor E → BufferOp E → Supervisor E → Prop where
  | write (s : Supervisor E) (ks : Nat) (entry : E) (free : s.journal = .free) (opened : ks ∈ s.keyspaces) :
      BufferStep s (.write ks entry) { s with journal := .locked [(ks, entry)] }
  | commit (s : Supervisor E) (data : List (Nat × E)) (free : s.journal = .free) (nonempty : data ≠ [])
      (opened : ∀ item ∈ data, item.1 ∈ s.keyspaces) : BufferStep s (.commit data) { s with journal := .locked data }
  | giveUp (s : Supervisor E) (data : List (Nat × E)) (phase : s.journal = .locked data) :
      BufferStep s .giveUp { s with journal := .free }
  | journaled (s : Supervisor E) (data : List (Nat × E)) (phase : s.journal = .locked data) :
      BufferStep s .journaled { s with journal := .applying 0 data }
  | apply (s : Supervisor E) (batchSize ks : Nat) (entry : E) (todo : List (Nat × E))
      (phase : s.journal = .applying batchSize ((ks, entry) :: todo)) :
      BufferStep s .apply { s.setTree ks ((s.trees ks).put entry) with journal := .applying (batchSize + size entry) todo }
  | unlock (s : Supervisor E) (batchSize : Nat) (phase : s.journal = .applying batchSize []) :
      BufferStep s .unlock { s with journal := .free, unallocated := batchSize :: s.unallocated }
  | allocate (s : Supervisor E) (itemSize : Nat) (written : itemSize ∈ s.unallocated) :
      BufferStep s (.allocate itemSize)
        { s with writeBufferSize := s.writeBufferSize + itemSize, unallocated := s.unallocated.erase itemSize }
  | rotateMemtable (s : Supervisor E) (ks memtableId : Nat) (free : s.journal = .free) (opened : ks ∈ s.keyspaces) :
      BufferStep s (.rotateMemtable ks memtableId) (s.setTree ks ((s.trees ks).innerRotateMemtable memtableId))
  | clear (s : Supervisor E) (ks : Nat) (free : s.journal = .free) (opened : ks ∈ s.keyspaces) :
      BufferStep s (.clear ks) (s.setTree ks (s.trees ks).clear)
  -- The flush lock of the tree lets one flush of a keyspace run at a time.
  | flush (s : Supervisor E) (ks : Nat) (opened : ks ∈ s.keyspaces) (unlocked : (s.trees ks).flush = .idle) :
      BufferStep s (.flush ks) (s.setTree ks ((s.trees ks).startFlush size))
  | registerTables (s : Supervisor E) (ks : Nat) (sealedIds : List Nat) (flushedSize : Nat) (opened : ks ∈ s.keyspaces)
      (phase : (s.trees ks).flush = .writing sealedIds flushedSize) :
      BufferStep s (.registerTables ks) (s.setTree ks ((s.trees ks).registerTables sealedIds flushedSize))
  | flushFails (s : Supervisor E) (ks : Nat) (sealedIds : List Nat) (flushedSize : Nat) (opened : ks ∈ s.keyspaces)
      (phase : (s.trees ks).flush = .writing sealedIds flushedSize) :
      BufferStep s (.flushFails ks) (s.setTree ks { s.trees ks with flush := .idle })
  | load (s : Supervisor E) (ks bytes : Nat) (opened : ks ∈ s.keyspaces) (phase : (s.trees ks).flush = .flushed bytes) :
      BufferStep s (.load ks) (s.setTree ks { s.trees ks with flush := .exchanging bytes s.writeBufferSize })
  | exchanged (s : Supervisor E) (ks bytes : Nat) (opened : ks ∈ s.keyspaces)
      (phase : (s.trees ks).flush = .exchanging bytes s.writeBufferSize) :
      BufferStep s (.exchange ks)
        { s.setTree ks { s.trees ks with flush := .idle } with writeBufferSize := s.writeBufferSize - bytes }
  | retry (s : Supervisor E) (ks bytes now : Nat) (opened : ks ∈ s.keyspaces)
      (phase : (s.trees ks).flush = .exchanging bytes now) (moved : s.writeBufferSize ≠ now) :
      BufferStep s (.exchange ks) (s.setTree ks { s.trees ks with flush := .flushed bytes })

end OmryaKv.Background
