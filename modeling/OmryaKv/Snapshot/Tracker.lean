import OmryaKv.Types
import OmryaKv.Lib.CountMap

set_option autoImplicit false

namespace OmryaKv.Snapshot

open Lib

-- seqno is the visible seqno, which the tracker shares with the trees and the
-- meta keyspace. data counts the open snapshots of each instant.
structure SnapshotTracker where
  seqno : Nat
  data : CountMap Nat
  freedCount : Nat
  lowestFreedInstant : Nat
deriving DecidableEq

namespace SnapshotTracker

def new (seqno : Nat) : SnapshotTracker := ⟨seqno, .empty, 0, 0⟩

def get (t : SnapshotTracker) : Nat := t.seqno

def openSnapshot (t : SnapshotTracker) : Nat × SnapshotTracker :=
  (t.seqno, { t with data := t.data.increment t.seqno })

def cloneSnapshot (t : SnapshotTracker) (instant : Nat) : SnapshotTracker :=
  { t with data := t.data.increment instant }

def publish (t : SnapshotTracker) (batchSeqno : Nat) : SnapshotTracker :=
  { t with seqno := max t.seqno (batchSeqno + 1) }

def getSeqnoSafeToGc (t : SnapshotTracker) : Nat := t.lowestFreedInstant

def pullup (t : SnapshotTracker) : SnapshotTracker :=
  if t.data.entries.isEmpty then { t with lowestFreedInstant := t.seqno - 1 } else t

def shouldBeRetained (threshold : Nat) (entry : Nat × Nat) : Bool :=
  decide (0 < entry.2) || decide (threshold ≤ entry.1)

-- The closure's running minimum: zero doubles as "nothing retained yet".
def lower (lowestRetained instant : Nat) : Nat :=
  match lowestRetained with
  | 0 => instant
  | lo + 1 => min (lo + 1) instant

def visitEntry (threshold : Nat) (acc : Nat × Bool) (entry : Nat × Nat) : Nat × Bool :=
  if shouldBeRetained threshold entry then (lower acc.1 entry.1, false) else acc

def gc (t : SnapshotTracker) (order : IterationOrder Nat) : SnapshotTracker :=
  let threshold := t.seqno
  let (lowestRetained, noneRetained) := (order.visit t.data.entries).foldl (visitEntry threshold) (0, true)
  let lowestRetained := if noneRetained then threshold else lowestRetained
  { t with
    data := t.data.retain order (shouldBeRetained threshold)
    lowestFreedInstant := max t.lowestFreedInstant (lowestRetained - 1) }

-- close_raw up to the point where it lets go of the lock.
def release (t : SnapshotTracker) (instant : Nat) : SnapshotTracker :=
  { t with data := t.data.decrement instant, freedCount := t.freedCount + 1 }

def closeRaw (t : SnapshotTracker) (instant : Nat) (order : IterationOrder Nat) : SnapshotTracker :=
  let released := t.release instant
  if released.freedCount % 10000 = 0 then released.gc order else released

def retainedKeys (t : SnapshotTracker) (order : IterationOrder Nat) : List Nat :=
  ((order.visit t.data.entries).filter (shouldBeRetained t.seqno)).map Prod.fst

theorem visit_entries_fold (threshold : Nat) (entries : List (Nat × Nat)) (acc : Nat × Bool) :
    entries.foldl (visitEntry threshold) acc =
      (((entries.filter (shouldBeRetained threshold)).map Prod.fst).foldl lower acc.1,
        acc.2 && (entries.filter (shouldBeRetained threshold)).isEmpty) := by
  induction entries generalizing acc with
  | nil => simp
  | cons entry tail ih =>
    by_cases kept : shouldBeRetained threshold entry <;> simp [visitEntry, kept, ih]

variable (t : SnapshotTracker)

theorem gc_watermark (order : IterationOrder Nat) : (t.gc order).lowestFreedInstant = max t.lowestFreedInstant
      ((if t.retainedKeys order = [] then t.seqno else (t.retainedKeys order).foldl lower 0) - 1) := by
  simp only [gc, visit_entries_fold, retainedKeys, Bool.true_and, List.isEmpty_iff, List.map_eq_nil_iff]

@[simp] theorem gc_seqno (t : SnapshotTracker) (order : IterationOrder Nat) : (t.gc order).seqno = t.seqno := rfl

@[simp] theorem gc_count (t : SnapshotTracker) (order : IterationOrder Nat) (instant : Nat) :
    (t.gc order).data.count instant = t.data.count instant := by
  apply CountMap.count_retain
  intro entry positive
  simp [shouldBeRetained, positive]

theorem gc_entries (order : IterationOrder Nat) (entry : Nat × Nat)
    (member : entry ∈ (t.gc order).data.entries) : entry ∈ t.data.entries :=
  (order.perm _).mem_iff.mp (List.mem_filter.mp member).1

theorem retained_keys_stored (order : IterationOrder Nat) (instant : Nat)
    (member : instant ∈ t.retainedKeys order) : ∃ value, (instant, value) ∈ t.data.entries := by
  obtain ⟨⟨_, value⟩, kept, rfl⟩ := List.mem_map.mp member
  exact ⟨value, (order.perm _).mem_iff.mp (List.mem_filter.mp kept).1⟩

theorem open_instant_retained (order : IterationOrder Nat) (instant : Nat)
    (live : 0 < t.data.count instant) : instant ∈ t.retainedKeys order := by
  have stored := CountMap.mem_of_count_pos t.data instant live
  refine List.mem_map.mpr ⟨_, List.mem_filter.mpr ⟨(order.perm _).mem_iff.mpr stored, ?_⟩, rfl⟩
  simp [shouldBeRetained, live]

theorem retained_keys_nodup (order : IterationOrder Nat) : (t.retainedKeys order).Nodup :=
  (t.data.retain order (shouldBeRetained t.seqno)).keysNodup

@[simp] theorem pullup_seqno (t : SnapshotTracker) : t.pullup.seqno = t.seqno := by
  unfold pullup
  split <;> rfl

@[simp] theorem pullup_data (t : SnapshotTracker) : t.pullup.data = t.data := by
  unfold pullup
  split <;> rfl

@[simp] theorem close_raw_seqno (t : SnapshotTracker) (instant : Nat) (order : IterationOrder Nat) :
    (t.closeRaw instant order).seqno = t.seqno := by
  unfold closeRaw
  dsimp only
  split <;> rfl

@[simp] theorem close_raw_count (t : SnapshotTracker) (instant other : Nat) (order : IterationOrder Nat) :
    (t.closeRaw instant order).data.count other =
      if other = instant then t.data.count instant - 1 else t.data.count other := by
  unfold closeRaw
  dsimp only
  split
  · rw [gc_count]
    exact CountMap.count_decrement t.data instant other
  · exact CountMap.count_decrement t.data instant other

end SnapshotTracker

end OmryaKv.Snapshot
