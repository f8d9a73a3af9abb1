import OmryaKv.Lib.Versions

set_option autoImplicit false

namespace OmryaKv.Storage

open Lib

-- value is none for a tombstone, weak or not. origin is a ghost: it numbers the
-- creation of the keyspace the entry was written through, and nothing reads it.
structure Entry (K V : Type) where
  key : K
  seqno : Nat
  value : Option V
  origin : Nat
deriving DecidableEq

-- What the database relies on when lsm-tree leaves entries out of the tables,
-- because a flush, an ingestion or a compaction finds them below the gc watermark.
-- Which ones go is left open.
structure Collected {K V : Type} (tables kept : List (Entry K V)) : Prop where
  stored : List.Sublist kept tables

-- Nothing goes but versions that a newer one of the same key stands above. A value
-- and the weak tombstone on it may go together, and are excluded here.
structure Superseded {K V : Type} [DecidableEq K] (tables kept : List (Entry K V)) : Prop extends Collected tables kept where
  newest : ∀ key, newest Entry.key Entry.seqno key kept = newest Entry.key Entry.seqno key tables

-- An lsm-tree as the database sees it. Memtables and tables list their entries
-- newest first, and the sealed memtables stand newest first as well.
structure Tree (K V : Type) where
  activeMemtable : List (Entry K V)
  sealedMemtables : List (List (Entry K V))
  tables : List (Entry K V)
deriving DecidableEq

namespace Tree

variable {K V : Type}

def empty : Tree K V := ⟨[], [], []⟩

def recovered (tables : List (Entry K V)) : Tree K V := ⟨[], [], tables⟩

def put (t : Tree K V) (entry : Entry K V) : Tree K V := { t with activeMemtable := entry :: t.activeMemtable }

def insert (t : Tree K V) (key : K) (value : V) (seqno origin : Nat) : Tree K V := t.put ⟨key, seqno, some value, origin⟩

def remove (t : Tree K V) (key : K) (seqno origin : Nat) : Tree K V := t.put ⟨key, seqno, none, origin⟩

def removeWeak (t : Tree K V) (key : K) (seqno origin : Nat) : Tree K V := t.put ⟨key, seqno, none, origin⟩

def rotateMemtable (t : Tree K V) : Option (List (Entry K V) × Tree K V) :=
  if t.activeMemtable.isEmpty then none
  else some (t.activeMemtable, ⟨[], t.activeMemtable :: t.sealedMemtables, t.tables⟩)

def clearActiveMemtable (t : Tree K V) : Tree K V := { t with activeMemtable := [] }

def flush (t : Tree K V) : Tree K V := ⟨t.activeMemtable, [], t.sealedMemtables.flatten ++ t.tables⟩

def collect (t : Tree K V) (kept : List (Entry K V)) : Tree K V := { t with tables := kept }

def clear (_ : Tree K V) : Tree K V := empty

def memtables (t : Tree K V) : List (Entry K V) := t.activeMemtable ++ t.sealedMemtables.flatten

def all (t : Tree K V) : List (Entry K V) := t.memtables ++ t.tables

-- Finishing an ingestion flushes the memtables before the new table goes on top.
def ingest (t : Tree K V) (pairs : List (K × Option V)) (seqno origin : Nat) : Tree K V :=
  ⟨[], [], (pairs.map fun pair => ⟨pair.1, seqno, pair.2, origin⟩) ++ t.all⟩

def getHighestMemtableSeqno (t : Tree K V) : Option Nat := highest Entry.seqno t.memtables

def getHighestPersistedSeqno (t : Tree K V) : Option Nat := highest Entry.seqno t.tables

def flushedUpTo (t : Tree K V) (lsn : Nat) : Bool :=
  match t.getHighestPersistedSeqno with
  | none => false
  | some seqno => decide (lsn ≤ seqno)

def getHighestSeqno (t : Tree K V) : Option Nat := highest Entry.seqno t.all

variable [DecidableEq K]

def search (t : Tree K V) (key : K) : Option (Entry K V) :=
  (newest Entry.key Entry.seqno key t.activeMemtable).or
    ((t.sealedMemtables.findSome? (newest Entry.key Entry.seqno key)).or (newest Entry.key Entry.seqno key t.tables))

def get (t : Tree K V) (key : K) : Option V := (t.search key).bind Entry.value

omit [DecidableEq K] in
theorem flushed_up_to_iff (t : Tree K V) (lsn : Nat) : t.flushedUpTo lsn = true ↔ ∃ entry ∈ t.tables, lsn ≤ entry.seqno := by
  unfold flushedUpTo getHighestPersistedSeqno
  cases top : highest Entry.seqno t.tables with
  | none => simp [(highest_eq_none_iff _ _).mp top]
  | some seqno =>
    simp only [decide_eq_true_eq]
    constructor
    · intro reached
      obtain ⟨entry, member, rfl⟩ := highest_attained _ _ _ top
      exact ⟨entry, member, reached⟩
    · rintro ⟨entry, member, reached⟩
      exact Nat.le_trans reached (rank_le_highest _ _ _ top entry member)

omit [DecidableEq K] in
theorem flush_all (t : Tree K V) : t.flush.all = t.all := by
  simp [flush, all, memtables]

omit [DecidableEq K] in
theorem rotate_memtable_shape (t next : Tree K V) (memtable : List (Entry K V))
    (rotated : t.rotateMemtable = some (memtable, next)) : next = ⟨[], t.activeMemtable :: t.sealedMemtables, t.tables⟩ := by
  unfold rotateMemtable at rotated
  split at rotated
  · cases rotated
  · cases rotated
    rfl

omit [DecidableEq K] in
theorem rotate_memtable_active (t next : Tree K V) (memtable : List (Entry K V))
    (rotated : t.rotateMemtable = some (memtable, next)) : memtable = t.activeMemtable := by
  unfold rotateMemtable at rotated
  split at rotated
  · cases rotated
  · cases rotated
    rfl

omit [DecidableEq K] in
theorem rotate_memtable_memtables (t next : Tree K V) (memtable : List (Entry K V))
    (rotated : t.rotateMemtable = some (memtable, next)) : next.memtables = t.memtables := by
  rw [rotate_memtable_shape t next memtable rotated]
  simp [memtables]

omit [DecidableEq K] in
theorem rotate_memtable_all (t next : Tree K V) (memtable : List (Entry K V))
    (rotated : t.rotateMemtable = some (memtable, next)) : next.all = t.all := by
  rw [all, rotate_memtable_memtables t next memtable rotated, rotate_memtable_shape t next memtable rotated]
  rfl

omit [DecidableEq K] in
theorem flush_memtables (t : Tree K V) (entry : Entry K V) (member : entry ∈ t.flush.memtables) : entry ∈ t.memtables := by
  simp only [flush, memtables, List.flatten_nil, List.append_nil] at member
  exact List.mem_append_left _ member

-- Seqnos fall along every part of the tree, though not from one part to the next:
-- recovery may replay into the memtables what the tables already hold.
structure Layered (t : Tree K V) : Prop where
  active : Descending Entry.seqno t.activeMemtable
  sealed : ∀ memtable ∈ t.sealedMemtables, Descending Entry.seqno memtable
  tables : Descending Entry.seqno t.tables

omit [DecidableEq K] in
theorem layered_of_descending (t : Tree K V) (ordered : Descending Entry.seqno t.all) : Layered t := by
  obtain ⟨memtables, tables, -⟩ := List.pairwise_append.mp ordered
  obtain ⟨active, sealed, -⟩ := List.pairwise_append.mp memtables
  exact ⟨active, (List.pairwise_flatten.mp sealed).1, tables⟩

theorem search_eq_find (t : Tree K V) (layered : Layered t) (key : K) :
    t.search key = t.all.find? fun entry => decide (entry.key = key) := by
  rw [search, newest_of_descending _ _ key _ layered.active, newest_of_descending _ _ key _ layered.tables,
    newest_in_layers _ _ key _ layered.sealed, all, memtables, List.find?_append, List.find?_append, Option.or_assoc]

end Tree

end OmryaKv.Storage
