import OmryaKv.Snapshot.BatchVisibility
import OmryaKv.Journal.Writer
import OmryaKv.Tx.ConflictManager
import OmryaKv.Lib.ByteOrder
import OmryaKv.Lib.Versions

set_option autoImplicit false

namespace OmryaKv.Snapshot

open Lib Journal Tx

-- An entry of the trees with its seqno.
abbrev Stored := Nat × BatchItem

def place (entry : Stored) : UInt64 × UserKey := (entry.2.keyspaceId, entry.2.key)

def seqnoMax : Nat := 2 ^ 64 - 1

inductive IterCall where
  | iter
  | range (start stop : Bound UserKey)
  | startingWith (pfx : UserKey)

-- The seqno that Keyspace::iter, range and prefix pass on to the tree once they have opened the nonce.
def IterCall.treeSeqno (instant : Nat) : IterCall → Nat
  | .iter => instant
  | .range _ _ => seqnoMax
  | .startingWith _ => seqnoMax

def IterCall.covers : IterCall → UserKey → Bool
  | .iter, _ => true
  | .range start stop, key => inRange start stop key
  | .startingWith pfx, key => pfx.isPrefixOf key

def newestBelow (seqno : Nat) (memtables : List Stored) (wanted : UInt64 × UserKey) : Option Stored :=
  newest place Prod.fst wanted (memtables.filter fun entry => decide (entry.1 < seqno))

-- What a read at seqno shows of a key: its newest entry below, unless that is a tombstone.
def visible (seqno : Nat) (memtables : List Stored) (wanted : UInt64 × UserKey) : Option Stored :=
  (newestBelow seqno memtables wanted).filter fun entry => decide (entry.2.valueType = .value)

-- front and back are the last keys reached from either end. opened and inFlight
-- remember the trees and the commit in progress at the time the nonce was opened.
structure Iter where
  call : IterCall
  keyspaceId : UInt64
  instant : Nat
  front : Option UserKey
  back : Option UserKey
  exhausted : Bool
  yielded : List Stored
  yieldedBack : List Stored
  opened : List Stored
  inFlight : Option Nat

namespace Iter

def yields (it : Iter) : List Stored := it.yielded ++ it.yieldedBack

def Reached (it : Iter) (key : UserKey) : Prop :=
  it.exhausted = true ∨ (∃ last, it.front = some last ∧ key ≤ last) ∨ ∃ last, it.back = some last ∧ last ≤ key

-- What reaching a key finds in the trees as they are then.
def finds (it : Iter) (memtables : List Stored) (key : UserKey) : Option Stored :=
  visible (it.call.treeSeqno it.instant) memtables (it.keyspaceId, key)

-- What was visible at the instant of the nonce when it was opened.
def shown (it : Iter) (key : UserKey) : Option Stored := visible it.instant it.opened (it.keyspaceId, key)

structure PointInTime (it : Iter) : Prop where
  ascending : (it.yields.map fun entry => entry.2.key).Pairwise (· < ·)
  exact : ∀ entry, entry ∈ it.yields ↔
    it.call.covers entry.2.key = true ∧ it.Reached entry.2.key ∧ it.shown entry.2.key = some entry
  whole : ∀ entry ∈ it.yields, it.inFlight ≠ some entry.1

end Iter

inductive IterOp where
  | write (op : SupervisorOp BatchItem)
  | openIter (call : IterCall) (keyspaceId : UInt64)
  | reach (key : UserKey)
  | reachBack (key : UserKey)
  | exhaust

-- The keys that an operation reaches for the first time.
def IterOp.Passes (it : Iter) (op : IterOp) (key : UserKey) : Prop :=
  it.call.covers key = true ∧ ¬ it.Reached key ∧
    match op with
    | .reach last => key ≤ last
    | .reachBack last => last ≤ key
    | .exhaust => True
    | _ => False

-- Inserts, removes and batches; a single write is a commit of one item.
def SupervisorOp.writes : SupervisorOp BatchItem → Bool
  | .lockForDeletion | .allocateDeletion | .installVersion | .publishVersion | .raiseVisible | .abandonDeletion
  | .finishDeletion => false
  | _ => true

structure Session where
  supervisor : Supervisor BatchItem
  iter : Option Iter

-- A database that holds some entries, all of them published.
def Session.start (seqno : Nat) (stored : List Stored) : Session := ⟨{ Supervisor.new seqno with memtables := stored }, none⟩

inductive SessionStep : Session → IterOp → Session → Prop where
  | write (s : Session) (op : SupervisorOp BatchItem) (next : Supervisor BatchItem) (writes : op.writes = true)
      (step : SupervisorStep s.supervisor op next) : SessionStep s (.write op) { s with supervisor := next }
  -- The visible seqno is a u64.
  | openIter (s : Session) (call : IterCall) (keyspaceId : UInt64) (closed : s.iter = none)
      (fits : s.supervisor.tracker.get ≤ seqnoMax) :
      SessionStep s (.openIter call keyspaceId)
        ⟨{ s.supervisor with
            tracker := s.supervisor.tracker.openSnapshot.2
            snapshots := s.supervisor.tracker.openSnapshot.1 :: s.supervisor.snapshots },
          some ⟨call, keyspaceId, s.supervisor.tracker.openSnapshot.1, none, none, false, [], [],
            s.supervisor.memtables, s.supervisor.commit.inFlight⟩⟩
  -- On its way to a key the iterator skips those that show nothing.
  | reach (s : Session) (it : Iter) (key : UserKey) (current : s.iter = some it) (passed : IterOp.Passes it (.reach key) key)
      (skipped : ∀ other, IterOp.Passes it (.reach key) other → other ≠ key → it.finds s.supervisor.memtables other = none) :
      SessionStep s (.reach key) { s with
        iter := some { it with front := some key, yielded := it.yielded ++ (it.finds s.supervisor.memtables key).toList } }
  | reachBack (s : Session) (it : Iter) (key : UserKey) (current : s.iter = some it)
      (passed : IterOp.Passes it (.reachBack key) key)
      (skipped : ∀ other, IterOp.Passes it (.reachBack key) other → other ≠ key → it.finds s.supervisor.memtables other = none) :
      SessionStep s (.reachBack key) { s with
        iter := some { it with back := some key, yieldedBack := (it.finds s.supervisor.memtables key).toList ++ it.yieldedBack } }
  | exhaust (s : Session) (it : Iter) (current : s.iter = some it)
      (skipped : ∀ other, IterOp.Passes it .exhaust other → it.finds s.supervisor.memtables other = none) :
      SessionStep s .exhaust { s with iter := some { it with exhausted := true } }

-- The newest entry of the key is older than the instant, or it is a tombstone
-- of a key that had no value at the instant either.
def Undisturbed (memtables : List Stored) (it : Iter) (key : UserKey) : Prop :=
  ∀ entry, newestBelow seqnoMax memtables (it.keyspaceId, key) = some entry → it.instant ≤ entry.1 →
    entry.2.valueType ≠ .value ∧ visible it.instant memtables (it.keyspaceId, key) = none

-- Whatever a range or prefix iterator reaches has not been written over since the instant.
def ReachesUndisturbed (s : Session) (op : IterOp) : Prop :=
  ∀ it, s.iter = some it → it.call ≠ .iter → ∀ key, op.Passes it key → Undisturbed s.supervisor.memtables it key

theorem newest_below_stored (seqno : Nat) (memtables : List Stored) (wanted : UInt64 × UserKey) (entry : Stored)
    (found : newestBelow seqno memtables wanted = some entry) :
    entry ∈ memtables ∧ entry.1 < seqno ∧ place entry = wanted := by
  obtain ⟨member, below⟩ := List.mem_filter.mp (newest_mem _ _ _ _ _ found)
  exact ⟨member, by simpa using below, newest_key _ _ _ _ _ found⟩

theorem visible_iff (seqno : Nat) (memtables : List Stored) (wanted : UInt64 × UserKey) (entry : Stored) :
    visible seqno memtables wanted = some entry ↔
      newestBelow seqno memtables wanted = some entry ∧ entry.2.valueType = .value := by
  rw [visible, Option.filter_eq_some_iff]
  simp

theorem visible_append_newer (seqno : Nat) (added opened : List Stored) (wanted : UInt64 × UserKey)
    (newer : ∀ entry ∈ added, seqno ≤ entry.1) : visible seqno (added ++ opened) wanted = visible seqno opened wanted := by
  have hidden : (added.filter fun entry => decide (entry.1 < seqno)) = [] := by
    rw [List.filter_eq_nil_iff]
    intro entry member
    simpa using newer entry member
  rw [visible, newestBelow, List.filter_append, hidden, List.nil_append]
  rfl

-- A lower bound finds the same entry as long as that one is below it.
theorem newest_below_lower (low high : Nat) (memtables : List Stored) (wanted : UInt64 × UserKey) (entry : Stored)
    (ordered : low ≤ high) (found : newestBelow high memtables wanted = some entry) (below : entry.1 < low) :
    newestBelow low memtables wanted = some entry := by
  rw [← found]
  apply newest_filter_congr
  intro version member matched
  by_cases under : version.1 < high
  · have ranked := rank_le_newest place Prod.fst wanted _ entry found version
      (List.mem_filter.mpr ⟨member, by simpa using under⟩) matched
    have lower : version.1 < low := Nat.lt_of_le_of_lt ranked below
    simp [under, lower]
  · have above : ¬ version.1 < low := fun lower => under (Nat.lt_of_lt_of_le lower ordered)
    simp [under, above]

theorem newest_below_none (low high : Nat) (memtables : List Stored) (wanted : UInt64 × UserKey) (ordered : low ≤ high)
    (absent : newestBelow high memtables wanted = none) : newestBelow low memtables wanted = none := by
  cases found : newestBelow low memtables wanted with
  | none => rfl
  | some entry =>
    obtain ⟨member, below, matched⟩ := newest_below_stored low memtables wanted entry found
    have listed : entry ∈ memtables.filter fun entry => decide (entry.1 < high) :=
      List.mem_filter.mpr ⟨member, by simpa using Nat.lt_of_lt_of_le below ordered⟩
    exact absurd absent (newest_some place Prod.fst wanted _ entry listed matched)

variable (memtables : List Stored)
variable (it : Iter)

theorem visible_agree_iff (key : UserKey) (fits : it.instant ≤ seqnoMax) :
    visible seqnoMax memtables (it.keyspaceId, key) = visible it.instant memtables (it.keyspaceId, key) ↔
      Undisturbed memtables it key := by
  cases found : newestBelow seqnoMax memtables (it.keyspaceId, key) with
  | none =>
    have lower := newest_below_none it.instant seqnoMax memtables _ fits found
    simp [visible, Undisturbed, found, lower]
  | some entry =>
    by_cases recent : it.instant ≤ entry.1
    · have different : visible it.instant memtables (it.keyspaceId, key) ≠ some entry := by
        intro shown
        have below := (newest_below_stored _ _ _ _ ((visible_iff _ _ _ _).mp shown).1).2.1
        exact absurd recent (Nat.not_le.mpr below)
      by_cases live : entry.2.valueType = .value
      · have now : visible seqnoMax memtables (it.keyspaceId, key) = some entry := (visible_iff _ _ _ _).mpr ⟨found, live⟩
        simp [Undisturbed, found, recent, live, now, different.symm]
      · have now : visible seqnoMax memtables (it.keyspaceId, key) = none := by simp [visible, found, live]
        rw [now, eq_comm]
        simp [Undisturbed, found, recent, live]
    · have lower := newest_below_lower it.instant seqnoMax memtables _ entry fits found (Nat.lt_of_not_le recent)
      simp [visible, Undisturbed, found, lower, recent]

theorem finds_agree_iff (key : UserKey) (fits : it.instant ≤ seqnoMax) :
    it.finds memtables key = visible it.instant memtables (it.keyspaceId, key) ↔
      (it.call ≠ .iter → Undisturbed memtables it key) := by
  rw [Iter.finds]
  cases it.call with
  | iter => simp [IterCall.treeSeqno]
  | range start stop => simpa [IterCall.treeSeqno] using visible_agree_iff memtables it key fits
  | startingWith pfx => simpa [IterCall.treeSeqno] using visible_agree_iff memtables it key fits

theorem finds_key (key : UserKey) (entry : Stored) (found : it.finds memtables key = some entry) : entry.2.key = key :=
  congrArg Prod.snd (newest_below_stored _ _ _ _ ((visible_iff _ _ _ _).mp found).1).2.2

theorem shown_stored (key : UserKey) (entry : Stored) (shown : it.shown key = some entry) :
    entry.1 < it.instant ∧ entry.2.key = key := by
  obtain ⟨_, below, matched⟩ := newest_below_stored _ _ _ _ ((visible_iff _ _ _ _).mp shown).1
  exact ⟨below, congrArg Prod.snd matched⟩

-- What an operation of the iterator does, whichever end it works on.
structure Advances (memtables : List Stored) (op : IterOp) (it next : Iter) : Prop where
  call : next.call = it.call
  shown : ∀ key, next.shown key = it.shown key
  reached : ∀ key, it.call.covers key = true → (next.Reached key ↔ it.Reached key ∨ op.Passes it key)
  yields : ∀ entry, entry ∈ next.yields ↔
    entry ∈ it.yields ∨ op.Passes it entry.2.key ∧ it.finds memtables entry.2.key = some entry

def Iter.Exact (it : Iter) : Prop :=
  ∀ entry, entry ∈ it.yields ↔
    it.call.covers entry.2.key = true ∧ it.Reached entry.2.key ∧ it.shown entry.2.key = some entry

-- An iterator that was exact stays so if and only if the keys it reaches show what they showed at the instant.
theorem advance_exact_iff (op : IterOp) (it next : Iter) (advance : Advances memtables op it next)
    (exact : it.Exact) : next.Exact ↔ ∀ key, op.Passes it key → it.finds memtables key = it.shown key := by
  constructor
  · intro nextExact key passed
    have covered : next.call.covers key = true := by rw [advance.call]; exact passed.1
    have reached : next.Reached key := (advance.reached key passed.1).mpr (.inr passed)
    apply Option.ext
    intro entry
    constructor
    · intro found
      have same := finds_key memtables it key entry found
      subst same
      have listed := (advance.yields entry).mpr (.inr ⟨passed, found⟩)
      rw [← advance.shown]
      exact ((nextExact entry).mp listed).2.2
    · intro shown
      have same := (shown_stored it key entry shown).2
      subst same
      have listed := (nextExact entry).mpr ⟨covered, reached, (advance.shown _).trans shown⟩
      cases (advance.yields entry).mp listed with
      | inl before => exact absurd ((exact entry).mp before).2.1 passed.2.1
      | inr now => exact now.2
  · intro agree entry
    rw [advance.yields, exact, advance.call, advance.shown]
    constructor
    · intro yielded
      cases yielded with
      | inl before => exact ⟨before.1, (advance.reached _ before.1).mpr (.inl before.2.1), before.2.2⟩
      | inr now =>
        exact ⟨now.1.1, (advance.reached _ now.1.1).mpr (.inr now.1), (agree _ now.1).symm.trans now.2⟩
    · intro visible
      cases (advance.reached _ visible.1).mp visible.2.1 with
      | inl before => exact .inl ⟨visible.1, before, visible.2.2⟩
      | inr passed => exact .inr ⟨passed, (agree _ passed).trans visible.2.2⟩

theorem not_reached (key : UserKey) (fresh : ¬ it.Reached key) :
    it.exhausted ≠ true ∧ (∀ last, it.front = some last → last < key) ∧ ∀ last, it.back = some last → key < last := by
  simp only [Iter.Reached, not_or, not_exists, not_and, not_le] at fresh
  exact fresh

-- Only the key an operation stops at can yield something, the ones before it are skipped.
theorem yields_at (op : IterOp) (it : Iter) (key : UserKey) (passed : op.Passes it key)
    (skipped : ∀ other, op.Passes it other → other ≠ key → it.finds memtables other = none) (entry : Stored) :
    it.finds memtables key = some entry ↔ op.Passes it entry.2.key ∧ it.finds memtables entry.2.key = some entry := by
  constructor
  · intro found
    rw [finds_key memtables it key entry found]
    exact ⟨passed, found⟩
  · intro found
    by_cases same : entry.2.key = key
    · rw [← same]
      exact found.2
    · exact nomatch (skipped _ found.1 same).symm.trans found.2

theorem reach_advances (key : UserKey) (passed : IterOp.Passes it (.reach key) key)
    (skipped : ∀ other, IterOp.Passes it (.reach key) other → other ≠ key → it.finds memtables other = none) :
    Advances memtables (.reach key) it
      { it with front := some key, yielded := it.yielded ++ (it.finds memtables key).toList } where
  call := rfl
  shown _ := rfl
  reached other covered := by
    obtain ⟨_, behind, _⟩ := not_reached it key passed.2.1
    constructor
    · intro reached
      by_cases before : it.Reached other
      · exact .inl before
      · obtain ⟨fresh, _, ahead⟩ := not_reached it other before
        obtain finished | ⟨last, same, below⟩ | ⟨last, same, above⟩ := reached
        · exact absurd finished fresh
        · cases same
          exact .inr ⟨covered, before, below⟩
        · exact absurd above (not_le.mpr (ahead last same))
    · intro reached
      obtain (finished | ⟨last, same, below⟩ | later) | now := reached
      · exact .inl finished
      · exact .inr (.inl ⟨key, rfl, le_of_lt (lt_of_le_of_lt below (behind last same))⟩)
      · exact .inr (.inr later)
      · exact .inr (.inl ⟨key, rfl, now.2.2⟩)
  yields entry := by
    rw [← yields_at memtables (.reach key) it key passed skipped entry]
    simp only [Iter.yields, List.mem_append, Option.mem_toList]
    tauto

theorem reach_back_advances (key : UserKey) (passed : IterOp.Passes it (.reachBack key) key)
    (skipped : ∀ other, IterOp.Passes it (.reachBack key) other → other ≠ key → it.finds memtables other = none) :
    Advances memtables (.reachBack key) it
      { it with back := some key, yieldedBack := (it.finds memtables key).toList ++ it.yieldedBack } where
  call := rfl
  shown _ := rfl
  reached other covered := by
    obtain ⟨_, _, ahead⟩ := not_reached it key passed.2.1
    constructor
    · intro reached
      by_cases before : it.Reached other
      · exact .inl before
      · obtain ⟨fresh, behind, _⟩ := not_reached it other before
        obtain finished | ⟨last, same, below⟩ | ⟨last, same, above⟩ := reached
        · exact absurd finished fresh
        · exact absurd below (not_le.mpr (behind last same))
        · cases same
          exact .inr ⟨covered, before, above⟩
    · intro reached
      obtain (finished | earlier | ⟨last, same, above⟩) | now := reached
      · exact .inl finished
      · exact .inr (.inl earlier)
      · exact .inr (.inr ⟨key, rfl, le_of_lt (lt_of_lt_of_le (ahead last same) above)⟩)
      · exact .inr (.inr ⟨key, rfl, now.2.2⟩)
  yields entry := by
    rw [← yields_at memtables (.reachBack key) it key passed skipped entry]
    simp only [Iter.yields, List.mem_append, Option.mem_toList]
    tauto

theorem exhaust_advances (skipped : ∀ other, IterOp.Passes it .exhaust other → it.finds memtables other = none) :
    Advances memtables .exhaust it { it with exhausted := true } where
  call := rfl
  shown _ := rfl
  reached other covered := by
    by_cases before : it.Reached other
    · exact ⟨fun _ => .inl before, fun _ => .inl rfl⟩
    · exact ⟨fun _ => .inr ⟨covered, before, trivial⟩, fun _ => .inl rfl⟩
  yields entry := by
    constructor
    · exact .inl
    · intro yielded
      cases yielded with
      | inl before => exact before
      | inr now => exact nomatch (skipped _ now.1).symm.trans now.2

structure Iter.Ordered (it : Iter) : Prop where
  forward : (it.yielded.map fun entry => entry.2.key).Pairwise (· < ·)
  backward : (it.yieldedBack.map fun entry => entry.2.key).Pairwise (· < ·)
  behind : ∀ entry ∈ it.yielded, ∃ last, it.front = some last ∧ entry.2.key ≤ last
  ahead : ∀ entry ∈ it.yieldedBack, ∃ last, it.back = some last ∧ last ≤ entry.2.key
  apart : ∀ entry ∈ it.yielded, ∀ later ∈ it.yieldedBack, entry.2.key < later.2.key

theorem fresh_between (key : UserKey) (ordered : it.Ordered) (fresh : ¬ it.Reached key) :
    (∀ entry ∈ it.yielded, entry.2.key < key) ∧ ∀ entry ∈ it.yieldedBack, key < entry.2.key := by
  obtain ⟨_, before, after⟩ := not_reached it key fresh
  constructor
  · intro entry member
    obtain ⟨last, same, bounded⟩ := ordered.behind entry member
    exact lt_of_le_of_lt bounded (before last same)
  · intro entry member
    obtain ⟨last, same, bounded⟩ := ordered.ahead entry member
    exact lt_of_lt_of_le (after last same) bounded

theorem reach_ordered (key : UserKey) (ordered : it.Ordered) (fresh : ¬ it.Reached key) :
    Iter.Ordered { it with front := some key, yielded := it.yielded ++ (it.finds memtables key).toList } := by
  obtain ⟨below, above⟩ := fresh_between it key ordered fresh
  cases found : it.finds memtables key with
  | none =>
    rw [Option.toList_none, List.append_nil]
    exact { ordered with behind := fun entry member => ⟨key, rfl, le_of_lt (below entry member)⟩ }
  | some entry =>
    have same := finds_key memtables it key entry found
    have listed : ∀ other ∈ it.yielded ++ [entry], other ∈ it.yielded ∨ other = entry := by simp
    refine { ordered with forward := ?_, behind := ?_, apart := ?_ }
    · rw [Option.toList_some, List.map_append, List.pairwise_append]
      refine ⟨ordered.forward, List.pairwise_singleton _ _, ?_⟩
      intro earlier member last lastMember
      obtain ⟨other, otherMember, rfl⟩ := List.mem_map.mp member
      rw [List.mem_singleton.mp lastMember]
      exact lt_of_lt_of_eq (below other otherMember) same.symm
    · intro other member
      cases listed other member with
      | inl earlier => exact ⟨key, rfl, le_of_lt (below other earlier)⟩
      | inr last => exact ⟨key, rfl, by rw [last, same]⟩
    · intro other member later laterMember
      cases listed other member with
      | inl earlier => exact ordered.apart other earlier later laterMember
      | inr last =>
        rw [last, same]
        exact above later laterMember

theorem reach_back_ordered (key : UserKey) (ordered : it.Ordered) (fresh : ¬ it.Reached key) :
    Iter.Ordered { it with back := some key, yieldedBack := (it.finds memtables key).toList ++ it.yieldedBack } := by
  obtain ⟨below, above⟩ := fresh_between it key ordered fresh
  cases found : it.finds memtables key with
  | none =>
    rw [Option.toList_none, List.nil_append]
    exact { ordered with ahead := fun entry member => ⟨key, rfl, le_of_lt (above entry member)⟩ }
  | some entry =>
    have same := finds_key memtables it key entry found
    refine { ordered with backward := ?_, ahead := ?_, apart := ?_ }
    · rw [Option.toList_some, List.singleton_append, List.map_cons, List.pairwise_cons]
      refine ⟨?_, ordered.backward⟩
      intro later member
      obtain ⟨other, otherMember, rfl⟩ := List.mem_map.mp member
      rw [same]
      exact above other otherMember
    · intro other member
      cases List.mem_cons.mp member with
      | inl first => exact ⟨key, rfl, by rw [first, same]⟩
      | inr later => exact ⟨key, rfl, le_of_lt (above other later)⟩
    · intro other member later laterMember
      cases List.mem_cons.mp laterMember with
      | inl first =>
        rw [first, same]
        exact below other member
      | inr earlier => exact ordered.apart other member later earlier

structure IterInv (s : Supervisor BatchItem) (it : Iter) : Prop where
  issued : it.instant ≤ s.tracker.seqno
  fits : it.instant ≤ seqnoMax
  grown : ∃ added, s.memtables = added ++ it.opened ∧ ∀ entry ∈ added, it.instant ≤ entry.1
  busy : ∀ batchSeqno, it.inFlight = some batchSeqno → it.instant ≤ batchSeqno
  ordered : it.Ordered

structure SessionInv (s : Session) : Prop where
  supervisor : SupervisorInv s.supervisor
  below : s.supervisor.VisibleBelow
  iter : ∀ it, s.iter = some it → IterInv s.supervisor it

-- Items only arrive in the trees while their batch is in flight.
theorem supervisor_step_grows (s next : Supervisor BatchItem) (op : SupervisorOp BatchItem) (below : s.VisibleBelow)
    (step : SupervisorStep s op next) :
    s.tracker.seqno ≤ next.tracker.seqno ∧
      ∃ added, next.memtables = added ++ s.memtables ∧ ∀ entry ∈ added, s.tracker.seqno ≤ entry.1 := by
  cases step with
  | applyItem batchSeqno done todo item phase =>
    have flying : s.tracker.seqno ≤ batchSeqno := below batchSeqno (by rw [phase]; rfl)
    exact ⟨Nat.le_refl _, [(batchSeqno, item)], rfl, by simpa using flying⟩
  | publish | publishVersion | raiseVisible => exact ⟨Nat.le_max_left _ _, [], rfl, by simp⟩
  | lockJournal | allocateBatch | persistFails | lockKeyspaces | unlockJournal | unlockKeyspaces | lockForDeletion
  | allocateDeletion | installVersion | abandonDeletion | finishDeletion | openSnapshot => exact ⟨Nat.le_refl _, [], rfl, by simp⟩

theorem supervisor_step_iter (s next : Supervisor BatchItem) (op : SupervisorOp BatchItem) (it : Iter) (below : s.VisibleBelow)
    (inv : IterInv s it) (step : SupervisorStep s op next) : IterInv next it := by
  obtain ⟨raised, added, grown, newer⟩ := supervisor_step_grows s next op below step
  obtain ⟨earlier, before, recent⟩ := inv.grown
  refine { inv with issued := Nat.le_trans inv.issued raised, grown := ⟨added ++ earlier, ?_, ?_⟩ }
  · rw [grown, before, List.append_assoc]
  · intro entry member
    cases List.mem_append.mp member with
    | inl last => exact Nat.le_trans inv.issued (newer entry last)
    | inr older => exact recent entry older

theorem shown_now (s : Supervisor BatchItem) (it : Iter) (inv : IterInv s it) (key : UserKey) :
    it.shown key = visible it.instant s.memtables (it.keyspaceId, key) := by
  obtain ⟨added, grown, newer⟩ := inv.grown
  rw [grown, visible_append_newer _ _ _ _ newer]
  rfl

theorem session_inv_start (seqno : Nat) (stored : List Stored) (older : ∀ entry ∈ stored, entry.1 < seqno) :
    SessionInv (.start seqno stored) where
  supervisor := { supervisor_inv_initial seqno with
    memtablesIssued := older, settled := fun _ member => nomatch member }
  below := fun _ started => nomatch started
  iter := fun _ opened => nomatch opened

variable (s next : Session)

theorem session_step_inv (op : IterOp) (inv : SessionInv s) (step : SessionStep s op next) : SessionInv next := by
  cases step with
  | write op after writes step =>
    have safe : RaiseSafe s.supervisor op := by cases op <;> trivial
    exact ⟨supervisor_step_inv _ _ op inv.supervisor step, supervisor_step_below _ _ op inv.supervisor inv.below step safe,
      fun it current => supervisor_step_iter _ _ op it inv.below (inv.iter it current) step⟩
  | openIter call keyspaceId closed fits =>
    have step := SupervisorStep.openSnapshot s.supervisor
    refine ⟨supervisor_step_inv _ _ _ inv.supervisor step,
      supervisor_step_below _ _ _ inv.supervisor inv.below step trivial, ?_⟩
    intro it opened
    cases opened
    exact ⟨Nat.le_refl _, fits, ⟨[], rfl, by simp⟩, inv.below, by constructor <;> simp⟩
  | reach it key current passed skipped =>
    have before := inv.iter it current
    refine { inv with iter := ?_ }
    intro after opened
    cases opened
    exact { before with ordered := reach_ordered _ it key before.ordered passed.2.1 }
  | reachBack it key current passed skipped =>
    have before := inv.iter it current
    refine { inv with iter := ?_ }
    intro after opened
    cases opened
    exact { before with ordered := reach_back_ordered _ it key before.ordered passed.2.1 }
  | exhaust it current skipped =>
    have before := inv.iter it current
    refine { inv with iter := ?_ }
    intro after opened
    cases opened
    exact { before with ordered := { before.ordered with } }

theorem point_in_time_iff (s : Supervisor BatchItem) (it : Iter) (inv : IterInv s it) : it.PointInTime ↔ it.Exact := by
  constructor
  · exact fun point => point.exact
  · intro exact
    refine ⟨?_, exact, ?_⟩
    · rw [Iter.yields, List.map_append, List.pairwise_append]
      refine ⟨inv.ordered.forward, inv.ordered.backward, ?_⟩
      intro early earlyMember late lateMember
      obtain ⟨entry, member, rfl⟩ := List.mem_map.mp earlyMember
      obtain ⟨later, laterMember, rfl⟩ := List.mem_map.mp lateMember
      exact inv.ordered.apart entry member later laterMember
    · intro entry member flying
      have below := (shown_stored it _ entry ((exact entry).mp member).2.2).1
      exact absurd (inv.busy entry.1 flying) (Nat.not_le.mpr below)

-- Every step either leaves the iterator alone, opens it or advances it.
theorem session_step_advances (op : IterOp) (it : Iter) (current : next.iter = some it) (step : SessionStep s op next) :
    (s.iter = some it ∧ ∀ key, ¬ op.Passes it key) ∨ (s.iter = none ∧ it.Exact) ∨
      ∃ before, s.iter = some before ∧ Advances s.supervisor.memtables op before it := by
  cases step with
  | write op after writes step => exact .inl ⟨current, fun _ passed => passed.2.2⟩
  | openIter call keyspaceId closed fits =>
    cases current
    refine .inr (.inl ⟨closed, ?_⟩)
    intro entry
    simp [Iter.yields, Iter.Reached]
  | reach before key same passed skipped =>
    cases current
    exact .inr (.inr ⟨before, same, reach_advances _ before key passed skipped⟩)
  | reachBack before key same passed skipped =>
    cases current
    exact .inr (.inr ⟨before, same, reach_back_advances _ before key passed skipped⟩)
  | exhaust before same skipped =>
    cases current
    exact .inr (.inr ⟨before, same, exhaust_advances _ before skipped⟩)

theorem advance_agrees_iff (s : Session) (op : IterOp) (it : Iter) (inv : SessionInv s) (current : s.iter = some it) :
    (∀ key, op.Passes it key → it.finds s.supervisor.memtables key = it.shown key) ↔ ReachesUndisturbed s op := by
  have known := inv.iter it current
  have agree (key : UserKey) := finds_agree_iff s.supervisor.memtables it key known.fits
  constructor
  · intro same other otherCurrent ranged key passed
    rw [current, Option.some.injEq] at otherCurrent
    subst otherCurrent
    exact (agree key).mp ((same key passed).trans (shown_now _ it known key)) ranged
  · intro undisturbed key passed
    rw [shown_now _ it known key, agree key]
    exact fun ranged => undisturbed it current ranged key passed

theorem session_step_exact (op : IterOp) (inv : SessionInv s) (exact : ∀ it, s.iter = some it → it.Exact)
    (step : SessionStep s op next) (undisturbed : ReachesUndisturbed s op) :
    ∀ it, next.iter = some it → it.Exact := by
  intro it current
  obtain ⟨same, _⟩ | ⟨_, fresh⟩ | ⟨before, same, advance⟩ := session_step_advances s next op it current step
  · exact exact it same
  · exact fresh
  · rw [advance_exact_iff _ op before it advance (exact before same), advance_agrees_iff s op before inv same]
    exact undisturbed

theorem disturbed_step (op : IterOp) (inv : SessionInv s) (exact : ∀ it, s.iter = some it → it.Exact)
    (step : SessionStep s op next) (disturbed : ¬ ReachesUndisturbed s op) :
    ∃ it, next.iter = some it ∧ ¬ it.Exact := by
  have moved : ∃ it key, s.iter = some it ∧ op.Passes it key := by
    simp only [ReachesUndisturbed, not_forall] at disturbed
    obtain ⟨it, current, _, key, passed, _⟩ := disturbed
    exact ⟨it, key, current, passed⟩
  obtain ⟨it, key, current, passed⟩ := moved
  have reopened : ∃ after, next.iter = some after := by
    cases step with
    | write => exact ⟨it, current⟩
    | openIter | reach | reachBack | exhaust => exact ⟨_, rfl⟩
  obtain ⟨after, opened⟩ := reopened
  refine ⟨after, opened, ?_⟩
  obtain ⟨same, idle⟩ | ⟨closed, _⟩ | ⟨before, same, advance⟩ := session_step_advances s next op after opened step
  · rw [current, Option.some.injEq] at same
    subst same
    exact absurd passed (idle key)
  · exact nomatch closed.symm.trans current
  · rw [advance_exact_iff _ op before after advance (exact before same), advance_agrees_iff s op before inv same]
    exact disturbed

theorem keyspace_iterators_point_in_time (seqno : Nat) (stored : List Stored) (older : ∀ entry ∈ stored, entry.1 < seqno) :
    (∀ ops s, Run (Guarded SessionStep ReachesUndisturbed) (.start seqno stored) ops s →
      ∀ it, s.iter = some it → it.PointInTime) ∧
    (∀ ops s op next, Run (Guarded SessionStep ReachesUndisturbed) (.start seqno stored) ops s → SessionStep s op next →
      ¬ ReachesUndisturbed s op → ∃ it, next.iter = some it ∧ ¬ it.PointInTime) := by
  have reached : ∀ ops s, Run (Guarded SessionStep ReachesUndisturbed) (.start seqno stored) ops s →
      SessionInv s ∧ ∀ it, s.iter = some it → it.Exact := by
    intro ops s run
    refine run_invariant _ (fun s => SessionInv s ∧ ∀ it, s.iter = some it → it.Exact) ?_ run
      ⟨session_inv_start seqno stored older, fun _ opened => nomatch opened⟩
    intro s op next inv step
    exact ⟨session_step_inv s next op inv.1 step.2, session_step_exact s next op inv.1 inv.2 step.2 step.1⟩
  constructor
  · intro ops s run it current
    obtain ⟨inv, exact⟩ := reached ops s run
    exact (point_in_time_iff _ it (inv.iter it current)).mpr (exact it current)
  · intro ops s op next run step disturbed
    obtain ⟨inv, exact⟩ := reached ops s run
    obtain ⟨it, current, broken⟩ := disturbed_step s next op inv exact step disturbed
    exact ⟨it, current, fun point => broken point.exact⟩

def smallItem (byte : Byte) : BatchItem := ⟨1, [byte], .empty, .value⟩

theorem write_undisturbed (s : Session) (op : SupervisorOp BatchItem) : ReachesUndisturbed s (.write op) :=
  fun _ _ _ _ passed => passed.2.2.elim

-- A second insert lands outside of the range before the iterator gets to its only key.
theorem range_beside_insert :
    ∃ ops s it, Run (Guarded SessionStep ReachesUndisturbed) (.start 1 [(0, smallItem 97)]) ops s ∧ s.iter = some it ∧
      it.yields = [(0, smallItem 97)] ∧ it.PointInTime := by
  have run : ∃ ops s it, Run (Guarded SessionStep ReachesUndisturbed) (.start 1 [(0, smallItem 97)]) ops s ∧
      s.iter = some it ∧ it.yields = [(0, smallItem 97)] := by
    have only : ∀ key, (IterCall.range (.included [97]) (.included [97])).covers key = true → key = [97] := by
      intro key covered
      simp only [IterCall.covers, inRange, Bound.afterStart, Bound.beforeStop, Bool.and_eq_true, decide_eq_true_eq] at covered
      exact le_antisymm covered.2 covered.1
    have closed : ReachesUndisturbed (.start 1 [(0, smallItem 97)]) (.openIter (.range (.included [97]) (.included [97])) 1) :=
      fun _ current => nomatch current
    refine ⟨_, _, _, .cons _ _ ⟨closed,
        .openIter _ (.range (.included [97]) (.included [97])) 1 rfl (by decide)⟩
      (.cons _ _ ⟨write_undisturbed _ _,
        .write _ _ _ rfl (.lockJournal _ [smallItem 98] rfl (by decide) rfl)⟩
      (.cons _ _ ⟨write_undisturbed _ _, .write _ _ _ rfl (.allocateBatch _ _ rfl)⟩
      (.cons _ _ ⟨write_undisturbed _ _, .write _ _ _ rfl (.lockKeyspaces _ _ _ rfl rfl)⟩
      (.cons _ _ ⟨write_undisturbed _ _, .write _ _ _ rfl (.applyItem _ _ _ _ _ rfl)⟩
      (.cons _ _ ⟨?_, .reach _ _ [97] rfl ⟨rfl, ?_, le_refl _⟩ ?_⟩ (.nil _)))))), rfl, rfl⟩
    · intro it current _ key passed entry found recent
      cases current
      rw [only key passed.1] at found
      cases found
      exact absurd recent (by decide)
    · simp [Iter.Reached]
    · intro other passed different
      exact absurd (only other passed.1) different
  obtain ⟨ops, s, it, run, current, yields⟩ := run
  exact ⟨ops, s, it, run, current, yields, (keyspace_iterators_point_in_time 1 _ (by decide)).1 ops s run it current⟩

theorem late_write_yielded (call : IterCall) (covers : call.covers [97] = true)
    (unbounded : ∀ instant, call.treeSeqno instant = seqnoMax) :
    ∃ ops s it, Run SessionStep (.start 0 []) ops s ∧ s.iter = some it ∧ it.call = call ∧ ¬ it.PointInTime := by
  have small : 0 < seqnoMax := by decide
  have found (it : Iter) (called : it.call = call) (keyspace : it.keyspaceId = 1) (key : UserKey) :
      it.finds [(0, smallItem 97)] key = if [97] = key then some (0, smallItem 97) else none := by
    rw [Iter.finds, called, unbounded, keyspace]
    by_cases same : [97] = key <;> simp [visible, newestBelow, newest, place, smallItem, small, same]
  refine ⟨_, _, _, .cons _ _ (.openIter _ call 1 rfl (by decide))
    (.cons _ _ (.write _ _ _ rfl (.lockJournal _ [smallItem 97] rfl (by decide) rfl))
    (.cons _ _ (.write _ _ _ rfl (.allocateBatch _ _ rfl))
    (.cons _ _ (.write _ _ _ rfl (.lockKeyspaces _ _ _ rfl rfl))
    (.cons _ _ (.write _ _ _ rfl (.applyItem _ _ _ _ _ rfl))
    (.cons _ _ (.write _ _ _ rfl (.publish _ _ _ rfl))
    (.cons _ _ (.write _ _ _ rfl (.unlockJournal _ rfl))
    (.cons _ _ (.reach _ _ [97] rfl ⟨covers, ?_, le_refl _⟩ ?_) (.nil _)))))))), rfl, rfl, ?_⟩
  · simp [Iter.Reached]
  · intro other _ different
    exact (found _ rfl rfl other).trans (if_neg (Ne.symm different))
  · intro point
    have yielded := (point.exact (0, smallItem 97)).mp (List.mem_append_left _ (by
      change _ ∈ [] ++ (Iter.finds _ [(0, smallItem 97)] [97]).toList
      rw [found]
      · exact List.mem_singleton_self _
      · rfl
      · rfl))
    cases yielded.2.2

theorem range_and_prefix_yield_late_write :
    (∃ ops s it, Run SessionStep (.start 0 []) ops s ∧ s.iter = some it ∧
      it.call = .range .unbounded .unbounded ∧ ¬ it.PointInTime) ∧
    ∃ ops s it, Run SessionStep (.start 0 []) ops s ∧ s.iter = some it ∧ it.call = .startingWith [97] ∧ ¬ it.PointInTime :=
  ⟨late_write_yielded _ rfl fun _ => rfl, late_write_yielded _ rfl fun _ => rfl⟩

end OmryaKv.Snapshot
