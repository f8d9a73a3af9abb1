import OmryaKv.Tx.BaseTransaction

set_option autoImplicit false

namespace OmryaKv.Tx

open Lib

structure WriteTransaction (K V : Type) where
  inner : BaseTransaction K V
  cm : ConflictManager K

inductive TxOp (K V : Type) where
  | get (keyspaceId : Nat) (key : K)
  | containsKey (keyspaceId : Nat) (key : K)
  | iter (keyspaceId : Nat)
  | range (keyspaceId : Nat) (start stop : Bound K)
  | prefixScan (keyspaceId : Nat) (pfx : K)
  | firstKeyValue (keyspaceId : Nat)
  | lastKeyValue (keyspaceId : Nat)
  | insert (keyspaceId : Nat) (key : K) (value : V)
  | remove (keyspaceId : Nat) (key : K)
  | updateFetch (keyspaceId : Nat) (key : K) (f : Option V → Option V)
  | fetchUpdate (keyspaceId : Nat) (key : K) (f : Option V → Option V)
  | take (keyspaceId : Nat) (key : K)

inductive Answer (K V : Type) where
  | value (found : Option V)
  | present (found : Bool)
  | items (found : List (K × V))
  | item (found : Option (K × V))
  | done

section

-- prefixToRange is lsm_tree::range::prefix_to_range.
variable {K V : Type} [LinearOrder K] (prefixToRange : K → Bound K × Bound K)

namespace BaseTransaction

def prefixScan (tx : BaseTransaction K V) (trees : Trees K V) (keyspaceId : Nat) (pfx : K) : List (K × V) :=
  tx.range trees keyspaceId (prefixToRange pfx).1 (prefixToRange pfx).2

def firstKeyValue (tx : BaseTransaction K V) (trees : Trees K V) (keyspaceId : Nat) : Option (K × V) :=
  (tx.iter trees keyspaceId).head?

def lastKeyValue (tx : BaseTransaction K V) (trees : Trees K V) (keyspaceId : Nat) : Option (K × V) :=
  (tx.iter trees keyspaceId).getLast?

def take [DecidableEq V] (tx : BaseTransaction K V) (trees : Trees K V) (keyspaceId : Nat) (key : K) :
    BaseTransaction K V × Option V :=
  tx.fetchUpdate trees keyspaceId key fun _ => none

def perform [DecidableEq V] (tx : BaseTransaction K V) (trees : Trees K V) : TxOp K V → BaseTransaction K V × Answer K V
  | .get keyspaceId key => (tx, .value (tx.get trees keyspaceId key))
  | .containsKey keyspaceId key => (tx, .present (tx.containsKey trees keyspaceId key))
  | .iter keyspaceId => (tx, .items (tx.iter trees keyspaceId))
  | .range keyspaceId start stop => (tx, .items (tx.range trees keyspaceId start stop))
  | .prefixScan keyspaceId pfx => (tx, .items (tx.prefixScan prefixToRange trees keyspaceId pfx))
  | .firstKeyValue keyspaceId => (tx, .item (tx.firstKeyValue trees keyspaceId))
  | .lastKeyValue keyspaceId => (tx, .item (tx.lastKeyValue trees keyspaceId))
  | .insert keyspaceId key value => (tx.insert keyspaceId key value, .done)
  | .remove keyspaceId key => (tx.remove keyspaceId key, .done)
  | .updateFetch keyspaceId key f => (tx.updateFetch trees keyspaceId key f).map id .value
  | .fetchUpdate keyspaceId key f => (tx.fetchUpdate trees keyspaceId key f).map id .value
  | .take keyspaceId key => (tx.take trees keyspaceId key).map id .value

end BaseTransaction

namespace WriteTransaction

def new (instant : Nat) : WriteTransaction K V := ⟨.new instant, .new⟩

def get (tx : WriteTransaction K V) (trees : Trees K V) (keyspaceId : Nat) (key : K) : WriteTransaction K V × Option V :=
  ({ tx with cm := tx.cm.markRead keyspaceId key }, tx.inner.get trees keyspaceId key)

def containsKey (tx : WriteTransaction K V) (trees : Trees K V) (keyspaceId : Nat) (key : K) :
    WriteTransaction K V × Bool :=
  ({ tx with cm := tx.cm.markRead keyspaceId key }, tx.inner.containsKey trees keyspaceId key)

def iter (tx : WriteTransaction K V) (trees : Trees K V) (keyspaceId : Nat) : WriteTransaction K V × List (K × V) :=
  ({ tx with cm := tx.cm.markRange keyspaceId .unbounded .unbounded }, tx.inner.iter trees keyspaceId)

def range (tx : WriteTransaction K V) (trees : Trees K V) (keyspaceId : Nat) (start stop : Bound K) :
    WriteTransaction K V × List (K × V) :=
  ({ tx with cm := tx.cm.markRange keyspaceId start stop }, tx.inner.range trees keyspaceId start stop)

def prefixScan (tx : WriteTransaction K V) (trees : Trees K V) (keyspaceId : Nat) (pfx : K) :
    WriteTransaction K V × List (K × V) :=
  tx.range trees keyspaceId (prefixToRange pfx).1 (prefixToRange pfx).2

def firstKeyValue (tx : WriteTransaction K V) (trees : Trees K V) (keyspaceId : Nat) :
    WriteTransaction K V × Option (K × V) :=
  ((tx.iter trees keyspaceId).1, (tx.iter trees keyspaceId).2.head?)

def lastKeyValue (tx : WriteTransaction K V) (trees : Trees K V) (keyspaceId : Nat) :
    WriteTransaction K V × Option (K × V) :=
  ((tx.iter trees keyspaceId).1, (tx.iter trees keyspaceId).2.getLast?)

def insert (tx : WriteTransaction K V) (keyspaceId : Nat) (key : K) (value : V) : WriteTransaction K V :=
  ⟨tx.inner.insert keyspaceId key value, tx.cm.markConflict keyspaceId key⟩

def remove (tx : WriteTransaction K V) (keyspaceId : Nat) (key : K) : WriteTransaction K V :=
  ⟨tx.inner.remove keyspaceId key, tx.cm.markConflict keyspaceId key⟩

def updateFetch [DecidableEq V] (tx : WriteTransaction K V) (trees : Trees K V) (keyspaceId : Nat) (key : K)
    (f : Option V → Option V) : WriteTransaction K V × Option V :=
  let (inner, updated) := tx.inner.updateFetch trees keyspaceId key f
  (⟨inner, (tx.cm.markRead keyspaceId key).markConflict keyspaceId key⟩, updated)

def fetchUpdate [DecidableEq V] (tx : WriteTransaction K V) (trees : Trees K V) (keyspaceId : Nat) (key : K)
    (f : Option V → Option V) : WriteTransaction K V × Option V :=
  let (inner, prev) := tx.inner.fetchUpdate trees keyspaceId key f
  (⟨inner, (tx.cm.markRead keyspaceId key).markConflict keyspaceId key⟩, prev)

def take [DecidableEq V] (tx : WriteTransaction K V) (trees : Trees K V) (keyspaceId : Nat) (key : K) :
    WriteTransaction K V × Option V :=
  tx.fetchUpdate trees keyspaceId key fun _ => none

def perform [DecidableEq V] (tx : WriteTransaction K V) (trees : Trees K V) : TxOp K V → WriteTransaction K V × Answer K V
  | .get keyspaceId key => (tx.get trees keyspaceId key).map id .value
  | .containsKey keyspaceId key => (tx.containsKey trees keyspaceId key).map id .present
  | .iter keyspaceId => (tx.iter trees keyspaceId).map id .items
  | .range keyspaceId start stop => (tx.range trees keyspaceId start stop).map id .items
  | .prefixScan keyspaceId pfx => (tx.prefixScan prefixToRange trees keyspaceId pfx).map id .items
  | .firstKeyValue keyspaceId => (tx.firstKeyValue trees keyspaceId).map id .item
  | .lastKeyValue keyspaceId => (tx.lastKeyValue trees keyspaceId).map id .item
  | .insert keyspaceId key value => (tx.insert keyspaceId key value, .done)
  | .remove keyspaceId key => (tx.remove keyspaceId key, .done)
  | .updateFetch keyspaceId key f => (tx.updateFetch trees keyspaceId key f).map id .value
  | .fetchUpdate keyspaceId key f => (tx.fetchUpdate trees keyspaceId key f).map id .value
  | .take keyspaceId key => (tx.take trees keyspaceId key).map id .value

end WriteTransaction

-- What an operation means to a client that has the whole database to itself.
def TxOp.Holds : TxOp K V × Answer K V → View K V → Prop
  | (.get keyspaceId key, answer), view => answer = .value (view (keyspaceId, key))
  | (.containsKey keyspaceId key, answer), view => answer = .present (view (keyspaceId, key)).isSome
  | (.iter keyspaceId, answer), view =>
    ∃ items, IsScan view keyspaceId .unbounded .unbounded items ∧ answer = .items items
  | (.range keyspaceId start stop, answer), view =>
    ∃ items, IsScan view keyspaceId start stop items ∧ answer = .items items
  | (.prefixScan keyspaceId pfx, answer), view =>
    ∃ items, IsScan view keyspaceId (prefixToRange pfx).1 (prefixToRange pfx).2 items ∧ answer = .items items
  | (.firstKeyValue keyspaceId, answer), view =>
    ∃ items, IsScan view keyspaceId .unbounded .unbounded items ∧ answer = .item items.head?
  | (.lastKeyValue keyspaceId, answer), view =>
    ∃ items, IsScan view keyspaceId .unbounded .unbounded items ∧ answer = .item items.getLast?
  | (.insert _ _ _, answer), _ => answer = .done
  | (.remove _ _, answer), _ => answer = .done
  | (.updateFetch keyspaceId key f, answer), view => answer = .value (f (view (keyspaceId, key)))
  | (.fetchUpdate keyspaceId key _, answer), view => answer = .value (view (keyspaceId, key))
  | (.take keyspaceId key, answer), view => answer = .value (view (keyspaceId, key))

def TxOp.apply (action : TxOp K V × Answer K V) (view : View K V) : View K V :=
  match action.1 with
  | .insert keyspaceId key value => Function.update view (keyspaceId, key) (some value)
  | .remove keyspaceId key => Function.update view (keyspaceId, key) none
  | .updateFetch keyspaceId key f => Function.update view (keyspaceId, key) (f (view (keyspaceId, key)))
  | .fetchUpdate keyspaceId key f => Function.update view (keyspaceId, key) (f (view (keyspaceId, key)))
  | .take keyspaceId key => Function.update view (keyspaceId, key) none
  | _ => view

def TxOp.ValidRange : TxOp K V → Prop
  | .range _ start stop => inverted start stop = false
  | .prefixScan _ pfx => inverted (prefixToRange pfx).1 (prefixToRange pfx).2 = false
  | _ => True

-- The places an operation's answer depends on, and the one it may change.
def TxOp.Reads : TxOp K V → Nat × K → Prop
  | .get keyspaceId key, place => place = (keyspaceId, key)
  | .containsKey keyspaceId key, place => place = (keyspaceId, key)
  | .iter keyspaceId, place => place.1 = keyspaceId
  | .range keyspaceId start stop, place => place.1 = keyspaceId ∧ inRange start stop place.2 = true
  | .prefixScan keyspaceId pfx, place =>
    place.1 = keyspaceId ∧ inRange (prefixToRange pfx).1 (prefixToRange pfx).2 place.2 = true
  | .firstKeyValue keyspaceId, place => place.1 = keyspaceId
  | .lastKeyValue keyspaceId, place => place.1 = keyspaceId
  | .insert _ _ _, _ => False
  | .remove _ _, _ => False
  | .updateFetch keyspaceId key _, place => place = (keyspaceId, key)
  | .fetchUpdate keyspaceId key _, place => place = (keyspaceId, key)
  | .take keyspaceId key, place => place = (keyspaceId, key)

-- The place an operation has to look at before it writes there.
def TxOp.Fetches : TxOp K V → Nat × K → Prop
  | .updateFetch keyspaceId key _, place => place = (keyspaceId, key)
  | .fetchUpdate keyspaceId key _, place => place = (keyspaceId, key)
  | .take keyspaceId key, place => place = (keyspaceId, key)
  | _, _ => False

def TxOp.Touches : TxOp K V → Nat × K → Prop
  | .insert keyspaceId key _, place => place = (keyspaceId, key)
  | .remove keyspaceId key, place => place = (keyspaceId, key)
  | .updateFetch keyspaceId key _, place => place = (keyspaceId, key)
  | .fetchUpdate keyspaceId key _, place => place = (keyspaceId, key)
  | .take keyspaceId key, place => place = (keyspaceId, key)
  | _, _ => False

theorem apply_untouched (op : TxOp K V) (answer : Answer K V) (view : View K V) (place : Nat × K)
    (untouched : ¬ op.Touches place) : TxOp.apply (op, answer) view place = view place := by
  cases op <;> first | rfl | exact Function.update_of_ne untouched _ _

theorem holds_congr (op : TxOp K V) (answer : Answer K V) (view other : View K V)
    (holds : TxOp.Holds prefixToRange (op, answer) view)
    (agree : ∀ place, op.Reads prefixToRange place → other place = view place) :
    TxOp.Holds prefixToRange (op, answer) other := by
  have scans : ∀ keyspaceId start stop items, IsScan view keyspaceId start stop items →
      (∀ key, inRange start stop key = true → op.Reads prefixToRange (keyspaceId, key)) →
      IsScan other keyspaceId start stop items := by
    intro keyspaceId start stop items scanned inside
    exact is_scan_congr view other keyspaceId start stop items scanned fun key within => agree _ (inside key within)
  cases op with
  | get keyspaceId key => rwa [TxOp.Holds, agree _ rfl]
  | containsKey keyspaceId key => rwa [TxOp.Holds, agree _ rfl]
  | iter keyspaceId => exact holds.imp fun items found => ⟨scans _ _ _ items found.1 fun _ _ => rfl, found.2⟩
  | range keyspaceId start stop =>
    exact holds.imp fun items found => ⟨scans _ _ _ items found.1 fun _ within => ⟨rfl, within⟩, found.2⟩
  | prefixScan keyspaceId pfx =>
    exact holds.imp fun items found => ⟨scans _ _ _ items found.1 fun _ within => ⟨rfl, within⟩, found.2⟩
  | firstKeyValue keyspaceId => exact holds.imp fun items found => ⟨scans _ _ _ items found.1 fun _ _ => rfl, found.2⟩
  | lastKeyValue keyspaceId => exact holds.imp fun items found => ⟨scans _ _ _ items found.1 fun _ _ => rfl, found.2⟩
  | insert keyspaceId key value => exact holds
  | remove keyspaceId key => exact holds
  | updateFetch keyspaceId key f => rwa [TxOp.Holds, agree _ rfl]
  | fetchUpdate keyspaceId key f => rwa [TxOp.Holds, agree _ rfl]
  | take keyspaceId key => rwa [TxOp.Holds, agree _ rfl]

theorem covers_mark_read (cm : ConflictManager K) (keyspaceId : Nat) (key : K) (place : Nat × K) :
    (cm.markRead keyspaceId key).Covers place ↔ cm.Covers place ∨ place = (keyspaceId, key) := by
  rw [ConflictManager.markRead, ConflictManager.covers_push_read]
  simp [Read.covers, Prod.ext_iff, eq_comm]

theorem covers_mark_range (cm : ConflictManager K) (keyspaceId : Nat) (start stop : Bound K) (place : Nat × K) :
    (cm.markRange keyspaceId start stop).Covers place ↔
      cm.Covers place ∨ place.1 = keyspaceId ∧ inRange start stop place.2 = true := by
  rw [ConflictManager.markRange, ConflictManager.covers_push_read]
  split
  · rename_i everything
    simp [Read.covers, everything, inRange, Bound.afterStart, Bound.beforeStop]
  · rfl

theorem mark_range_valid (cm : ConflictManager K) (keyspaceId : Nat) (start stop : Bound K) (valid : cm.Valid)
    (ordered : inverted start stop = false) : (cm.markRange keyspaceId start stop).Valid := by
  apply ConflictManager.valid_push_read _ _ _ valid
  split
  · trivial
  · exact ⟨ordered, by assumption⟩

theorem fetches_reads (op : TxOp K V) (place : Nat × K) (fetched : op.Fetches place) : op.Reads prefixToRange place := by
  cases op <;> first | exact fetched | exact fetched.elim

variable (trees : Trees K V)

namespace BaseTransaction

variable [DecidableEq V]
variable (tx : BaseTransaction K V)

theorem perform_writes_once (op : TxOp K V) : (tx.perform prefixToRange trees op).1 = tx ∨
      ∃ keyspaceId key value, (tx.perform prefixToRange trees op).1 = tx.write keyspaceId key value := by
  have updated : ∀ keyspaceId key f, tx.update trees keyspaceId key f = tx ∨
      ∃ keyspaceId' key' value, tx.update trees keyspaceId key f = tx.write keyspaceId' key' value := by
    intro keyspaceId key f
    rw [tx.update_eq trees keyspaceId key f]
    split
    · exact .inl rfl
    · exact .inr ⟨_, _, _, rfl⟩
  cases op with
  | insert keyspaceId key value => exact .inr ⟨_, _, _, rfl⟩
  | remove keyspaceId key => exact .inr ⟨_, _, _, rfl⟩
  | updateFetch keyspaceId key f => exact updated keyspaceId key f
  | fetchUpdate keyspaceId key f => exact updated keyspaceId key f
  | take keyspaceId key => exact updated keyspaceId key fun _ => none
  | _ => exact .inl rfl

theorem perform_instant (op : TxOp K V) : (tx.perform prefixToRange trees op).1.instant = tx.instant := by
  rcases tx.perform_writes_once prefixToRange trees op with same | ⟨keyspaceId, key, value, written⟩
  · rw [same]
  · rw [written]
    rfl

theorem perform_numbered (op : TxOp K V) (numbered : tx.Numbered) : (tx.perform prefixToRange trees op).1.Numbered := by
  rcases tx.perform_writes_once prefixToRange trees op with same | ⟨keyspaceId, key, value, written⟩
  · rwa [same]
  · rw [written]
    exact tx.write_numbered keyspaceId key value numbered

theorem perform_holds (op : TxOp K V) (numbered : tx.Numbered)
    (bounded : ∀ keyspaceId, ∀ version ∈ trees keyspaceId, version.seqno < reservedSeqno) :
    TxOp.Holds prefixToRange (op, (tx.perform prefixToRange trees op).2) (tx.overlay (viewAt trees tx.instant)) := by
  have scans : ∀ keyspaceId start stop, IsScan (tx.overlay (viewAt trees tx.instant)) keyspaceId start stop
      (tx.range trees keyspaceId start stop) := fun keyspaceId start stop =>
    tx.range_is_scan trees keyspaceId start stop numbered (bounded keyspaceId)
  cases op with
  | containsKey keyspaceId key => exact congrArg Answer.present (tx.contains_key_eq trees keyspaceId key)
  | iter keyspaceId => exact ⟨_, scans keyspaceId .unbounded .unbounded, rfl⟩
  | range keyspaceId start stop => exact ⟨_, scans keyspaceId start stop, rfl⟩
  | prefixScan keyspaceId pfx => exact ⟨_, scans keyspaceId _ _, rfl⟩
  | firstKeyValue keyspaceId => exact ⟨_, scans keyspaceId .unbounded .unbounded, rfl⟩
  | lastKeyValue keyspaceId => exact ⟨_, scans keyspaceId .unbounded .unbounded, rfl⟩
  | _ => rfl

-- The memtables keep up with the operations, over any view that agrees with the
-- snapshot on what the operation has to look at.
theorem perform_overlay (op : TxOp K V) (numbered : tx.Numbered) (base : View K V)
    (agree : ∀ place, op.Fetches place → base place = viewAt trees tx.instant place) :
    (tx.perform prefixToRange trees op).1.overlay base =
      TxOp.apply (op, (tx.perform prefixToRange trees op).2) (tx.overlay base) := by
  have updated : ∀ keyspaceId key f, base (keyspaceId, key) = viewAt trees tx.instant (keyspaceId, key) →
      (tx.update trees keyspaceId key f).overlay base =
        Function.update (tx.overlay base) (keyspaceId, key) (f (tx.overlay base (keyspaceId, key))) := by
    intro keyspaceId key f known
    have prev : tx.get trees keyspaceId key = tx.overlay base (keyspaceId, key) := by
      unfold overlay
      rw [known]
      rfl
    rw [tx.update_eq trees keyspaceId key f, prev]
    split
    · rename_i unchanged
      rw [unchanged, Function.update_eq_self]
    · exact tx.overlay_write _ _ _ numbered base
  cases op with
  | insert keyspaceId key value => exact tx.overlay_write _ _ _ numbered base
  | remove keyspaceId key => exact tx.overlay_write _ _ _ numbered base
  | updateFetch keyspaceId key f => exact updated keyspaceId key f (agree _ rfl)
  | fetchUpdate keyspaceId key f => exact updated keyspaceId key f (agree _ rfl)
  | take keyspaceId key => exact updated keyspaceId key (fun _ => none) (agree _ rfl)
  | _ => rfl

end BaseTransaction

namespace WriteTransaction

variable [DecidableEq V]
variable (tx : WriteTransaction K V)

-- What the wrapper adds are the marks: everything else is the inner transaction's doing.
theorem perform_inner (op : TxOp K V) :
    (tx.perform prefixToRange trees op).1.inner = (tx.inner.perform prefixToRange trees op).1 := by
  cases op <;> rfl

theorem perform_answer (op : TxOp K V) :
    (tx.perform prefixToRange trees op).2 = (tx.inner.perform prefixToRange trees op).2 := by
  cases op <;> rfl

theorem perform_covers (op : TxOp K V) (place : Nat × K) :
    (tx.perform prefixToRange trees op).1.cm.Covers place ↔ tx.cm.Covers place ∨ op.Reads prefixToRange place := by
  have everything : inRange (.unbounded : Bound K) .unbounded place.2 = true := rfl
  cases op with
  | get keyspaceId key => exact covers_mark_read _ _ _ _
  | containsKey keyspaceId key => exact covers_mark_read _ _ _ _
  | iter keyspaceId => exact (covers_mark_range _ _ _ _ _).trans (by simp [TxOp.Reads, everything])
  | range keyspaceId start stop => exact covers_mark_range _ _ _ _ _
  | prefixScan keyspaceId pfx => exact covers_mark_range _ _ _ _ _
  | firstKeyValue keyspaceId => exact (covers_mark_range _ _ _ _ _).trans (by simp [TxOp.Reads, everything])
  | lastKeyValue keyspaceId => exact (covers_mark_range _ _ _ _ _).trans (by simp [TxOp.Reads, everything])
  | insert keyspaceId key value => exact (or_iff_left id).symm
  | remove keyspaceId key => exact (or_iff_left id).symm
  | updateFetch keyspaceId key f => exact covers_mark_read _ _ _ _
  | fetchUpdate keyspaceId key f => exact covers_mark_read _ _ _ _
  | take keyspaceId key => exact covers_mark_read _ _ _ _

theorem perform_writes (op : TxOp K V) (place : Nat × K) :
    (tx.perform prefixToRange trees op).1.cm.Writes place ↔ tx.cm.Writes place ∨ op.Touches place := by
  cases op with
  | insert keyspaceId key value => exact ConflictManager.writes_mark_conflict _ _ _ _
  | remove keyspaceId key => exact ConflictManager.writes_mark_conflict _ _ _ _
  | updateFetch keyspaceId key f => exact ConflictManager.writes_mark_conflict _ _ _ _
  | fetchUpdate keyspaceId key f => exact ConflictManager.writes_mark_conflict _ _ _ _
  | take keyspaceId key => exact ConflictManager.writes_mark_conflict _ _ _ _
  | _ => exact (or_iff_left id).symm

theorem perform_valid (op : TxOp K V) (valid : tx.cm.Valid)
    (ranged : op.ValidRange prefixToRange) : (tx.perform prefixToRange trees op).1.cm.Valid := by
  have single : ∀ keyspaceId key, (tx.cm.markRead keyspaceId key).Valid := fun keyspaceId key =>
    ConflictManager.valid_push_read _ _ _ valid trivial
  cases op with
  | get keyspaceId key => exact single keyspaceId key
  | containsKey keyspaceId key => exact single keyspaceId key
  | iter keyspaceId => exact mark_range_valid _ _ _ _ valid rfl
  | range keyspaceId start stop => exact mark_range_valid _ _ _ _ valid ranged
  | prefixScan keyspaceId pfx => exact mark_range_valid _ _ _ _ valid ranged
  | firstKeyValue keyspaceId => exact mark_range_valid _ _ _ _ valid rfl
  | lastKeyValue keyspaceId => exact mark_range_valid _ _ _ _ valid rfl
  | insert keyspaceId key value => exact valid
  | remove keyspaceId key => exact valid
  | updateFetch keyspaceId key f => exact single keyspaceId key
  | fetchUpdate keyspaceId key f => exact single keyspaceId key
  | take keyspaceId key => exact single keyspaceId key

-- Run over any view that agrees with the snapshot on what was read, the
-- transaction gives the answers on record and ends with its own writes on top.
def Reproduces (tx : WriteTransaction K V) (snapshot : View K V) (history : List (TxOp K V × Answer K V)) : Prop :=
  ∀ base : View K V, (∀ place, tx.cm.Covers place → base place = snapshot place) →
    Replays (TxOp.Holds prefixToRange) TxOp.apply base history ∧ after TxOp.apply base history = tx.inner.overlay base

theorem perform_reproduces (op : TxOp K V) (history : List (TxOp K V × Answer K V)) (numbered : tx.inner.Numbered)
    (bounded : ∀ keyspaceId, ∀ version ∈ trees keyspaceId, version.seqno < reservedSeqno)
    (reproduces : tx.Reproduces prefixToRange (viewAt trees tx.inner.instant) history) :
    (tx.perform prefixToRange trees op).1.Reproduces prefixToRange (viewAt trees tx.inner.instant)
      (history ++ [(op, (tx.perform prefixToRange trees op).2)]) := by
  intro base agree
  have covered := fun place => (tx.perform_covers prefixToRange trees op place).mpr
  obtain ⟨replays, ends⟩ := reproduces base fun place read => agree place (covered place (.inl read))
  have current : ∀ place, op.Reads prefixToRange place → base place = viewAt trees tx.inner.instant place :=
    fun place read => agree place (covered place (.inr read))
  constructor
  · rw [replays_snoc, ends]
    refine ⟨replays, ?_⟩
    rw [tx.perform_answer]
    apply holds_congr prefixToRange op _ _ _ (tx.inner.perform_holds prefixToRange trees op numbered bounded)
    intro place read
    unfold BaseTransaction.overlay
    rw [current place read]
  · have written := tx.inner.perform_overlay prefixToRange trees op numbered base fun place fetched =>
      current place (fetches_reads prefixToRange op place fetched)
    rw [after, List.foldl_append, List.foldl_cons, List.foldl_nil, tx.perform_inner, tx.perform_answer, written]
    exact congrArg _ ends

end WriteTransaction

end

end OmryaKv.Tx
