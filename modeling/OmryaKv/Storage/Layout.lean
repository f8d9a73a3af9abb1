import OmryaKv.Storage.Ingestion

set_option autoImplicit false

namespace OmryaKv.Storage

open Lib

variable {K V : Type}

-- Where the log of a keyspace has got to. What follows the flushed records sits in
-- the memtables; a recovery puts records back there that the tables hold, so that
-- the two share a part, and only the pending records are in no table.
structure Layout (K V : Type) where
  flushed : List (Event K V)
  sealed : List (Event K V)
  active : List (Event K V)
  shared : List (Event K V)
  pending : List (Event K V)

def Layout.stored (layout : Layout K V) : List (Event K V) := layout.flushed ++ layout.shared

-- A clear stands behind the items of its batch.
def ClearsLast (events : List (Event K V)) : Prop :=
  events.Pairwise fun earlier later => earlier.isClear = true → later.isClear = false → earlier.seqno < later.seqno

structure Ordered (log : List (Event K V)) : Prop where
  ascending : Ascending log
  clearsLast : ClearsLast log

structure Laid [DecidableEq K] (log : List (Event K V)) (layout : Layout K V) (t : Tree K V) : Prop where
  split : log = layout.flushed ++ (layout.sealed ++ layout.active)
  overlap : layout.sealed ++ layout.active = layout.shared ++ layout.pending
  kept : NoClear (layout.sealed ++ layout.active)
  activeMemtable : t.activeMemtable = contents [] layout.active
  sealedMemtables : t.sealedMemtables.flatten = contents [] layout.sealed
  tables : ∀ key, newest Entry.key Entry.seqno key t.tables = (contents [] layout.stored).find? fun entry => decide (entry.key = key)
  inside : ∀ entry ∈ t.tables, entry ∈ contents [] layout.stored
  rotated : ∀ earlier ∈ layout.flushed ++ layout.sealed, ∀ later ∈ layout.active, earlier.seqno < later.seqno
  cut : ∀ earlier ∈ layout.stored, ∀ later ∈ layout.pending, earlier.seqno < later.seqno

section Trees

variable [DecidableEq K] {log : List (Event K V)} {layout : Layout K V} {t : Tree K V}

theorem laid_log (laid : Laid log layout t) : log = layout.stored ++ layout.pending := by
  rw [laid.split, laid.overlap, Layout.stored, List.append_assoc]

end Trees

end OmryaKv.Storage
