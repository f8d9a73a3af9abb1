import OmryaKv.Snapshot.Tracker
import OmryaKv.Tx.ConflictManager

set_option autoImplicit false

namespace OmryaKv.Tx

open Lib Snapshot

-- committedTxns is the map behind write_serialize_lock, from commit timestamps.
structure Oracle (K : Type) where
  committedTxns : List (Nat × ConflictManager K)
  snapshotTracker : SnapshotTracker

namespace Oracle

variable {K : Type} [LinearOrder K]

def conflicted (oracle : Oracle K) (instant : Nat) (conflictChecker : ConflictManager K) : Option Bool :=
  anyHit ((oracle.committedTxns.filter fun entry => decide (instant + 1 ≤ entry.1)).map fun entry =>
    conflictChecker.hasConflict entry.2)

-- with_commit up to the point where it knows whether to call its closure. What
-- the closure does to the tracker happens between startCommit and finishCommit.
def startCommit (oracle : Oracle K) (instant : Nat) (conflictChecker : ConflictManager K) (order : IterationOrder Nat) :
    Option (Bool × Oracle K) :=
  (oracle.conflicted instant conflictChecker).map fun conflicted =>
    let tracker := oracle.snapshotTracker.closeRaw instant order
    let safeToGc := tracker.getSeqnoSafeToGc
    (conflicted, ⟨oracle.committedTxns.filter fun entry => decide (safeToGc < entry.1), tracker⟩)

def finishCommit (oracle : Oracle K) (conflictChecker : ConflictManager K) : Oracle K :=
  let timestamp := oracle.snapshotTracker.get
  { oracle with
    committedTxns := oracle.committedTxns.filter (fun entry => decide (entry.1 ≠ timestamp)) ++ [(timestamp, conflictChecker)] }

theorem start_commit_some (oracle next : Oracle K) (instant : Nat) (cm : ConflictManager K) (order : IterationOrder Nat)
    (conflicted : Bool) (started : oracle.startCommit instant cm order = some (conflicted, next)) :
    oracle.conflicted instant cm = some conflicted ∧
      next.snapshotTracker = oracle.snapshotTracker.closeRaw instant order ∧
      next.committedTxns = oracle.committedTxns.filter fun entry =>
        decide (next.snapshotTracker.getSeqnoSafeToGc < entry.1) := by
  obtain ⟨outcome, known, result⟩ := Option.map_eq_some_iff.mp started
  cases result
  exact ⟨known, rfl, rfl⟩

theorem not_conflicted (oracle : Oracle K) (instant : Nat) (cm : ConflictManager K)
    (clear : oracle.conflicted instant cm = some false) (entry : Nat × ConflictManager K)
    (member : entry ∈ oracle.committedTxns) (later : instant < entry.1) : cm.hasConflict entry.2 = some false := by
  apply any_hit_false _ clear
  exact List.mem_map.mpr ⟨entry, List.mem_filter.mpr ⟨member, decide_eq_true later⟩, rfl⟩

theorem start_commit_defined (oracle : Oracle K) (instant : Nat) (cm : ConflictManager K) (order : IterationOrder Nat)
    (valid : cm.Valid) : oracle.startCommit instant cm order ≠ none := by
  intro panicked
  apply any_hit_defined _ ?_ (Option.map_eq_none_iff.mp panicked)
  intro member
  obtain ⟨entry, _, undefined⟩ := List.mem_map.mp member
  exact cm.has_conflict_defined entry.2 valid undefined

end Oracle

end OmryaKv.Tx
