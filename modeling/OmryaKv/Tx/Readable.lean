import OmryaKv.Types
import OmryaKv.Lib.OrderedMap
import OmryaKv.Tx.WriteTransaction

set_option autoImplicit false

namespace OmryaKv.Tx

open Lib

-- The committed data under a transaction: no seqno reaches into the range that
-- transactions number their own writes from.
structure DatabaseState (K V : Type) where
  trees : Trees K V
  bounded : ∀ keyspaceId, ∀ version ∈ trees keyspaceId, version.seqno < reservedSeqno

inductive ReadCall (K : Type) where
  | get (keyspaceId : Nat) (key : K)
  | containsKey (keyspaceId : Nat) (key : K)
  | sizeOf (keyspaceId : Nat) (key : K)
  | firstKeyValue (keyspaceId : Nat)
  | lastKeyValue (keyspaceId : Nat)
  | isEmpty (keyspaceId : Nat)
  | len (keyspaceId : Nat)
  | iter (keyspaceId : Nat)
  | range (keyspaceId : Nat) (start stop : Bound K)
  | prefixScan (keyspaceId : Nat) (pfx : K)

def ReadCall.keyspaceId {K : Type} : ReadCall K → Nat
  | .get keyspaceId _ | .containsKey keyspaceId _ | .sizeOf keyspaceId _ | .firstKeyValue keyspaceId
  | .lastKeyValue keyspaceId | .isEmpty keyspaceId | .len keyspaceId | .iter keyspaceId | .range keyspaceId _ _
  | .prefixScan keyspaceId _ => keyspaceId

inductive ReadResult (K V : Type) where
  | value (found : Option V)
  | present (found : Bool)
  | size (found : Option UInt32)
  | item (found : Option (K × V))
  | count (found : Nat)
  | items (found : List (K × V))
deriving DecidableEq

section

variable {K V : Type} [LinearOrder K] (prefixToRange : K → Bound K × Bound K)

namespace BaseTransaction

def sizeOf (tx : BaseTransaction K UserValue) (trees : Trees K UserValue) (keyspaceId : Nat) (key : K) : Option UInt32 :=
  match lookup (tx.memtable keyspaceId) key with
  | some item => item.value.map fun value => UInt32.ofNat value.bytes.length
  | none => (treeGet (trees keyspaceId) tx.instant key).map fun value => UInt32.ofNat value.bytes.length

def isEmpty (tx : BaseTransaction K V) (trees : Trees K V) (keyspaceId : Nat) : Bool :=
  (tx.firstKeyValue trees keyspaceId).isNone

def len (tx : BaseTransaction K V) (trees : Trees K V) (keyspaceId : Nat) : Nat := (tx.iter trees keyspaceId).length

def read (tx : BaseTransaction K UserValue) (trees : Trees K UserValue) : ReadCall K → ReadResult K UserValue
  | .get keyspaceId key => .value (tx.get trees keyspaceId key)
  | .containsKey keyspaceId key => .present (tx.containsKey trees keyspaceId key)
  | .sizeOf keyspaceId key => .size (tx.sizeOf trees keyspaceId key)
  | .firstKeyValue keyspaceId => .item (tx.firstKeyValue trees keyspaceId)
  | .lastKeyValue keyspaceId => .item (tx.lastKeyValue trees keyspaceId)
  | .isEmpty keyspaceId => .present (tx.isEmpty trees keyspaceId)
  | .len keyspaceId => .count (tx.len trees keyspaceId)
  | .iter keyspaceId => .items (tx.iter trees keyspaceId)
  | .range keyspaceId start stop => .items (tx.range trees keyspaceId start stop)
  | .prefixScan keyspaceId pfx => .items (tx.prefixScan prefixToRange trees keyspaceId pfx)

theorem size_of_eq (tx : BaseTransaction K UserValue) (trees : Trees K UserValue) (keyspaceId : Nat) (key : K) :
    tx.sizeOf trees keyspaceId key = (tx.get trees keyspaceId key).map fun value => UInt32.ofNat value.bytes.length := by
  unfold sizeOf get
  cases lookup (tx.memtable keyspaceId) key <;> rfl

theorem is_empty_eq (tx : BaseTransaction K V) (trees : Trees K V) (keyspaceId : Nat) :
    tx.isEmpty trees keyspaceId = (tx.iter trees keyspaceId).isEmpty := by
  unfold isEmpty firstKeyValue
  cases tx.iter trees keyspaceId <;> rfl

-- Every change to a transaction is a write: insert and remove are, and the
-- updates write once or not at all.
def writeAll (tx : BaseTransaction K V) (writes : List ((Nat × K) × Option V)) : BaseTransaction K V :=
  writes.foldl (fun tx write => tx.write write.1.1 write.1.2 write.2) tx

def Reached (tx : BaseTransaction K V) : Prop := ∃ instant writes, tx = (new instant).writeAll writes

omit [LinearOrder K] in
theorem reached_numbered (tx : BaseTransaction K V) (reached : tx.Reached) : tx.Numbered := by
  obtain ⟨instant, writes, rfl⟩ := reached
  suffices kept : ∀ tx : BaseTransaction K V, tx.Numbered → (tx.writeAll writes).Numbered from kept _ (new_numbered instant)
  induction writes with
  | nil => exact fun _ numbered => numbered
  | cons write writes ih => exact fun tx numbered => ih _ (tx.write_numbered _ _ _ numbered)

end BaseTransaction

-- What a read means to a client that has the whole database to itself.
def ReadCall.Returns (view : View K UserValue) : ReadCall K → ReadResult K UserValue → Prop
  | .get keyspaceId key, result => result = .value (view (keyspaceId, key))
  | .containsKey keyspaceId key, result => result = .present (view (keyspaceId, key)).isSome
  | .sizeOf keyspaceId key, result =>
    result = .size ((view (keyspaceId, key)).map fun value => UInt32.ofNat value.bytes.length)
  | .firstKeyValue keyspaceId, result =>
    ∃ items, IsScan view keyspaceId .unbounded .unbounded items ∧ result = .item items.head?
  | .lastKeyValue keyspaceId, result =>
    ∃ items, IsScan view keyspaceId .unbounded .unbounded items ∧ result = .item items.getLast?
  | .isEmpty keyspaceId, result =>
    ∃ items, IsScan view keyspaceId .unbounded .unbounded items ∧ result = .present items.isEmpty
  | .len keyspaceId, result =>
    ∃ items, IsScan view keyspaceId .unbounded .unbounded items ∧ result = .count items.length
  | .iter keyspaceId, result => ∃ items, IsScan view keyspaceId .unbounded .unbounded items ∧ result = .items items
  | .range keyspaceId start stop, result => ∃ items, IsScan view keyspaceId start stop items ∧ result = .items items
  | .prefixScan keyspaceId pfx, result =>
    ∃ items, IsScan view keyspaceId (prefixToRange pfx).1 (prefixToRange pfx).2 items ∧ result = .items items

theorem BaseTransaction.read_returns (tx : BaseTransaction K UserValue) (state : DatabaseState K UserValue)
    (numbered : tx.Numbered) (call : ReadCall K) :
    call.Returns prefixToRange (tx.overlay (viewAt state.trees tx.instant)) (tx.read prefixToRange state.trees call) := by
  have scans : ∀ keyspaceId start stop, IsScan (tx.overlay (viewAt state.trees tx.instant)) keyspaceId start stop
      (tx.range state.trees keyspaceId start stop) := fun keyspaceId start stop =>
    tx.range_is_scan state.trees keyspaceId start stop numbered (state.bounded keyspaceId)
  cases call with
  | get keyspaceId key => rfl
  | containsKey keyspaceId key => exact congrArg ReadResult.present (tx.contains_key_eq state.trees keyspaceId key)
  | sizeOf keyspaceId key => exact congrArg ReadResult.size (tx.size_of_eq state.trees keyspaceId key)
  | firstKeyValue keyspaceId => exact ⟨_, scans keyspaceId .unbounded .unbounded, rfl⟩
  | lastKeyValue keyspaceId => exact ⟨_, scans keyspaceId .unbounded .unbounded, rfl⟩
  | isEmpty keyspaceId =>
    exact ⟨_, scans keyspaceId .unbounded .unbounded, congrArg ReadResult.present (tx.is_empty_eq state.trees keyspaceId)⟩
  | len keyspaceId => exact ⟨_, scans keyspaceId .unbounded .unbounded, rfl⟩
  | iter keyspaceId => exact ⟨_, scans keyspaceId .unbounded .unbounded, rfl⟩
  | range keyspaceId start stop => exact ⟨_, scans keyspaceId start stop, rfl⟩
  | prefixScan keyspaceId pfx => exact ⟨_, scans keyspaceId _ _, rfl⟩

namespace WriteTransaction

-- The one read that leaves no mark.
def sizeOf (tx : WriteTransaction K UserValue) (trees : Trees K UserValue) (keyspaceId : Nat) (key : K) :
    WriteTransaction K UserValue × Option UInt32 :=
  (tx, tx.inner.sizeOf trees keyspaceId key)

def isEmpty (tx : WriteTransaction K V) (trees : Trees K V) (keyspaceId : Nat) : WriteTransaction K V × Bool :=
  ((tx.firstKeyValue trees keyspaceId).1, (tx.firstKeyValue trees keyspaceId).2.isNone)

def len (tx : WriteTransaction K V) (trees : Trees K V) (keyspaceId : Nat) : WriteTransaction K V × Nat :=
  ((tx.iter trees keyspaceId).1, (tx.iter trees keyspaceId).2.length)

def read (tx : WriteTransaction K UserValue) (trees : Trees K UserValue) :
    ReadCall K → WriteTransaction K UserValue × ReadResult K UserValue
  | .get keyspaceId key => (tx.get trees keyspaceId key).map id .value
  | .containsKey keyspaceId key => (tx.containsKey trees keyspaceId key).map id .present
  | .sizeOf keyspaceId key => (tx.sizeOf trees keyspaceId key).map id .size
  | .firstKeyValue keyspaceId => (tx.firstKeyValue trees keyspaceId).map id .item
  | .lastKeyValue keyspaceId => (tx.lastKeyValue trees keyspaceId).map id .item
  | .isEmpty keyspaceId => (tx.isEmpty trees keyspaceId).map id .present
  | .len keyspaceId => (tx.len trees keyspaceId).map id .count
  | .iter keyspaceId => (tx.iter trees keyspaceId).map id .items
  | .range keyspaceId start stop => (tx.range trees keyspaceId start stop).map id .items
  | .prefixScan keyspaceId pfx => (tx.prefixScan prefixToRange trees keyspaceId pfx).map id .items

-- Two databases that agree on everything the transaction has on record after the
-- call give it the same result.
def Recorded (tx : WriteTransaction K UserValue) (call : ReadCall K) : Prop :=
  ∀ one two : DatabaseState K UserValue,
    (∀ place, (tx.read prefixToRange one.trees call).1.cm.Covers place →
      viewAt one.trees tx.inner.instant place = viewAt two.trees tx.inner.instant place) →
    (tx.read prefixToRange one.trees call).2 = (tx.read prefixToRange two.trees call).2

-- The size of a key needs a mark from an earlier read, unless the transaction
-- wrote the key itself or its snapshot is that of the empty database.
def Marked (tx : WriteTransaction K UserValue) : ReadCall K → Prop
  | .sizeOf keyspaceId key =>
    tx.cm.Covers (keyspaceId, key) ∨ (lookup (tx.inner.memtable keyspaceId) key).isSome ∨ tx.inner.instant = 0
  | _ => True

variable (tx : WriteTransaction K UserValue)

theorem range_agrees (numbered : tx.inner.Numbered) (one two : DatabaseState K UserValue) (keyspaceId : Nat)
    (start stop : Bound K)
    (agree : ∀ key, inRange start stop key = true →
      viewAt one.trees tx.inner.instant (keyspaceId, key) = viewAt two.trees tx.inner.instant (keyspaceId, key)) :
    tx.inner.range one.trees keyspaceId start stop = tx.inner.range two.trees keyspaceId start stop := by
  obtain ⟨oneSorted, oneMembers⟩ := tx.inner.range_is_scan one.trees keyspaceId start stop numbered (one.bounded keyspaceId)
  obtain ⟨twoSorted, twoMembers⟩ := tx.inner.range_is_scan two.trees keyspaceId start stop numbered (two.bounded keyspaceId)
  apply ascending_ext _ _ oneSorted twoSorted
  rintro ⟨key, value⟩
  rw [oneMembers, twoMembers]
  refine and_congr_right fun inside => ?_
  unfold BaseTransaction.overlay
  rw [agree key inside]

-- A range is marked as a whole, so what is marked decides what it yields.
theorem marked_range_agrees (numbered : tx.inner.Numbered) (one two : DatabaseState K UserValue) (keyspaceId : Nat)
    (start stop : Bound K)
    (agree : ∀ place, (tx.cm.markRange keyspaceId start stop).Covers place →
      viewAt one.trees tx.inner.instant place = viewAt two.trees tx.inner.instant place) :
    tx.inner.range one.trees keyspaceId start stop = tx.inner.range two.trees keyspaceId start stop :=
  tx.range_agrees numbered one two keyspaceId start stop fun _ inside =>
    agree _ ((covers_mark_range _ _ _ _ _).mpr (.inr ⟨rfl, inside⟩))

theorem marked_iter_agrees (numbered : tx.inner.Numbered) (one two : DatabaseState K UserValue) (keyspaceId : Nat)
    (agree : ∀ place, (tx.cm.markRange keyspaceId .unbounded .unbounded).Covers place →
      viewAt one.trees tx.inner.instant place = viewAt two.trees tx.inner.instant place) :
    tx.inner.iter one.trees keyspaceId = tx.inner.iter two.trees keyspaceId :=
  tx.marked_range_agrees numbered one two keyspaceId .unbounded .unbounded agree

theorem get_agrees (one two : DatabaseState K UserValue) (keyspaceId : Nat) (key : K)
    (agree : viewAt one.trees tx.inner.instant (keyspaceId, key) = viewAt two.trees tx.inner.instant (keyspaceId, key)) :
    treeGet (one.trees keyspaceId) tx.inner.instant key = treeGet (two.trees keyspaceId) tx.inner.instant key := agree

omit [LinearOrder K] in
theorem seen_at_zero (versions : List (Version K V)) : seen versions 0 = [] := by
  simp [seen]

theorem tree_get_at_zero (versions : List (Version K V)) (key : K) : treeGet versions 0 key = none := by
  rw [treeGet, seen_at_zero]
  rfl

theorem recorded_of_marked (reached : tx.inner.Reached) (call : ReadCall K)
    (marked : tx.Marked call) : tx.Recorded prefixToRange call := by
  intro one two agree
  have numbered := tx.inner.reached_numbered reached
  have single : ∀ keyspaceId key, (tx.cm.markRead keyspaceId key).Covers (keyspaceId, key) := fun keyspaceId key =>
    (covers_mark_read _ _ _ _).mpr (.inr rfl)
  cases call with
  | get keyspaceId key =>
    have same := get_agrees tx one two keyspaceId key (agree _ (single keyspaceId key))
    simp [read, get, BaseTransaction.get, same]
  | containsKey keyspaceId key =>
    have same := get_agrees tx one two keyspaceId key (agree _ (single keyspaceId key))
    simp [read, containsKey, BaseTransaction.containsKey, same]
  | sizeOf keyspaceId key =>
    suffices same : tx.inner.sizeOf one.trees keyspaceId key = tx.inner.sizeOf two.trees keyspaceId key from
      congrArg ReadResult.size same
    unfold BaseTransaction.sizeOf
    rcases marked with covered | staged | empty
    · rw [get_agrees tx one two keyspaceId key (agree _ covered)]
    · obtain ⟨item, found⟩ := Option.isSome_iff_exists.mp staged
      rw [found]
    · rw [empty, tree_get_at_zero, tree_get_at_zero]
  | firstKeyValue keyspaceId =>
    have same := tx.marked_iter_agrees numbered one two keyspaceId agree
    simp [read, firstKeyValue, iter, same]
  | lastKeyValue keyspaceId =>
    have same := tx.marked_iter_agrees numbered one two keyspaceId agree
    simp [read, lastKeyValue, iter, same]
  | isEmpty keyspaceId =>
    have same := tx.marked_iter_agrees numbered one two keyspaceId agree
    simp [read, isEmpty, firstKeyValue, iter, same]
  | len keyspaceId =>
    have same := tx.marked_iter_agrees numbered one two keyspaceId agree
    simp [read, len, iter, same]
  | iter keyspaceId =>
    have same := tx.marked_iter_agrees numbered one two keyspaceId agree
    simp [read, iter, same]
  | range keyspaceId start stop =>
    have same := tx.marked_range_agrees numbered one two keyspaceId start stop agree
    simp [read, range, same]
  | prefixScan keyspaceId pfx =>
    have same := tx.marked_range_agrees numbered one two keyspaceId (prefixToRange pfx).1 (prefixToRange pfx).2 agree
    simp [read, prefixScan, range, same]

def emptyState : DatabaseState K V := ⟨fun _ => [], fun _ _ member => by cases member⟩

def singleState (keyspaceId : Nat) (key : K) (value : V) : DatabaseState K V where
  trees other := if other = keyspaceId then [⟨key, 0, some value⟩] else []
  bounded other version member := by
    split at member
    · rw [List.mem_singleton.mp member]
      exact Nat.two_pow_pos 63
    · cases member

theorem view_empty_state (instant : Nat) (place : Nat × K) :
    viewAt (emptyState : DatabaseState K V).trees instant place = none := rfl

theorem view_single_state (keyspaceId : Nat) (key : K) (value : V) (instant : Nat) (later : 0 < instant) (place : Nat × K) :
    viewAt (singleState keyspaceId key value).trees instant place = if place = (keyspaceId, key) then some value else none := by
  obtain ⟨otherId, otherKey⟩ := place
  by_cases sameId : otherId = keyspaceId
  · by_cases sameKey : key = otherKey
    · simp [viewAt, treeGet, seen, singleState, lookup, newest, sameId, sameKey, later]
    · simp [viewAt, treeGet, seen, singleState, lookup, newest, sameId, sameKey, later, Ne.symm sameKey]
  · simp [viewAt, treeGet, seen, singleState, lookup, newest, sameId]

theorem reads_recorded_iff (tx : WriteTransaction K UserValue) (reached : tx.inner.Reached) (call : ReadCall K) :
    tx.Recorded prefixToRange call ↔ tx.Marked call := by
  refine ⟨?_, tx.recorded_of_marked prefixToRange reached call⟩
  intro recorded
  cases call with
  | sizeOf keyspaceId key =>
    by_contra unmarked
    simp only [Marked, not_or, Option.not_isSome_iff_eq_none] at unmarked
    obtain ⟨uncovered, unstaged, started⟩ := unmarked
    have later : 0 < tx.inner.instant := Nat.pos_of_ne_zero started
    have same := recorded emptyState (singleState keyspaceId key .empty) fun place covered => by
      have apart : place ≠ (keyspaceId, key) := fun equal => uncovered (equal ▸ covered)
      rw [view_empty_state, view_single_state _ _ _ _ later, if_neg apart]
    have found : treeGet ((singleState keyspaceId key UserValue.empty).trees keyspaceId) tx.inner.instant key =
        some UserValue.empty :=
      (view_single_state keyspaceId key UserValue.empty tx.inner.instant later (keyspaceId, key)).trans (if_pos rfl)
    simp only [read, sizeOf, BaseTransaction.sizeOf, unstaged, found] at same
    cases same
  | _ => trivial

-- It has staged an insert of 5 and a removal of 6, and has read 7.
def busyTransaction : WriteTransaction Nat UserValue :=
  ((((⟨.new 1, .new⟩ : WriteTransaction Nat UserValue).insert 0 5 .empty).remove 0 6).get (fun _ => []) 0 7).1

theorem reads_recorded_iff_busy_transaction :
    busyTransaction.inner.Reached ∧ busyTransaction.Recorded (fun pfx => (.included pfx, .unbounded)) (.sizeOf 0 5) ∧
      busyTransaction.Recorded (fun pfx => (.included pfx, .unbounded)) (.sizeOf 0 7) ∧
      ¬ busyTransaction.Recorded (fun pfx => (.included pfx, .unbounded)) (.sizeOf 0 8) := by
  have reached : busyTransaction.inner.Reached := ⟨1, [((0, 5), some .empty), ((0, 6), none)], rfl⟩
  refine ⟨reached, ?_, ?_, ?_⟩ <;> rw [reads_recorded_iff _ _ reached]
  · exact .inr (.inl rfl)
  · exact .inl ⟨[.single 7], rfl, _, List.mem_singleton_self _, rfl⟩
  · rintro (⟨reads, found, read, member, covers⟩ | staged | early)
    · cases found
      rw [List.mem_singleton.mp member] at covers
      cases covers
    · cases staged
    · cases early

-- Nothing is on record after the call, so the empty database and one that holds
-- the key agree on all of it; the sizes are none and zero.
theorem size_of_unrecorded :
    ¬ (⟨.new 1, .new⟩ : WriteTransaction Nat UserValue).Recorded (fun pfx => (.included pfx, .unbounded)) (.sizeOf 0 7) := by
  intro recorded
  have same := recorded emptyState (singleState 0 7 .empty) fun place covered =>
    absurd covered (by simp [read, sizeOf, ConflictManager.Covers, ConflictManager.new])
  revert same
  decide

end WriteTransaction

end

end OmryaKv.Tx
