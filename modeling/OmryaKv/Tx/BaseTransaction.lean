import OmryaKv.Lib.Serial
import OmryaKv.Lib.Versions
import OmryaKv.Tx.ConflictManager
import Mathlib.Data.List.Dedup
import Mathlib.Data.List.Sort

set_option autoImplicit false

namespace OmryaKv.Tx

open Lib

-- One version of a key, in a tree or in a transaction's own memtable. No value
-- means a tombstone.
structure Version (K V : Type) where
  key : K
  seqno : Nat
  value : Option V
deriving DecidableEq

abbrev Trees (K V : Type) := Nat → List (Version K V)

-- What a client can see: a value or nothing at each keyspace id and key.
abbrev View (K V : Type) := Nat × K → Option V

structure BaseTransaction (K V : Type) where
  memtables : AList fun _ : Nat => List (Version K V)
  instant : Nat
  seqno : Nat

-- Above every seqno the trees can hold: the counter behind those stops short of it.
def reservedSeqno : Nat := 0x8000000000000000

section

variable {K V : Type} [LinearOrder K]

def lookup (versions : List (Version K V)) (key : K) : Option (Version K V) :=
  newest Version.key Version.seqno key versions

-- Snapshot reads of lsm-tree: a reader at an instant sees the seqnos below it.
def seen (versions : List (Version K V)) (instant : Nat) : List (Version K V) :=
  versions.filter fun version => decide (version.seqno < instant)

def treeGet (versions : List (Version K V)) (instant : Nat) (key : K) : Option V :=
  (lookup (seen versions instant) key).bind Version.value

def sortedKeys (keys : List K) : List K := keys.dedup.insertionSort (· ≤ ·)

-- The merged iterator of lsm-tree: ascending keys, of each one the version with
-- the highest seqno among all its sources, tombstones skipped.
def scan (versions : List (Version K V)) (start stop : Bound K) : List (K × V) :=
  (sortedKeys ((versions.map Version.key).filter (inRange start stop))).filterMap fun key =>
    ((lookup versions key).bind Version.value).map (key, ·)

namespace BaseTransaction

def new (instant : Nat) : BaseTransaction K V := ⟨∅, instant, reservedSeqno⟩

def memtable (tx : BaseTransaction K V) (keyspaceId : Nat) : List (Version K V) := (tx.memtables.lookup keyspaceId).getD []

def get (tx : BaseTransaction K V) (trees : Trees K V) (keyspaceId : Nat) (key : K) : Option V :=
  match lookup (tx.memtable keyspaceId) key with
  | some item => item.value
  | none => treeGet (trees keyspaceId) tx.instant key

def containsKey (tx : BaseTransaction K V) (trees : Trees K V) (keyspaceId : Nat) (key : K) : Bool :=
  match lookup (tx.memtable keyspaceId) key with
  | some item => item.value.isSome
  | none => (treeGet (trees keyspaceId) tx.instant key).isSome

def range (tx : BaseTransaction K V) (trees : Trees K V) (keyspaceId : Nat) (start stop : Bound K) : List (K × V) :=
  scan (seen (tx.memtable keyspaceId) tx.seqno ++ seen (trees keyspaceId) tx.instant) start stop

def iter (tx : BaseTransaction K V) (trees : Trees K V) (keyspaceId : Nat) : List (K × V) :=
  tx.range trees keyspaceId .unbounded .unbounded

def write (tx : BaseTransaction K V) (keyspaceId : Nat) (key : K) (value : Option V) : BaseTransaction K V :=
  { tx with
    memtables := tx.memtables.insert keyspaceId (⟨key, tx.seqno, value⟩ :: tx.memtable keyspaceId)
    seqno := tx.seqno + 1 }

def insert (tx : BaseTransaction K V) (keyspaceId : Nat) (key : K) (value : V) : BaseTransaction K V :=
  tx.write keyspaceId key (some value)

def remove (tx : BaseTransaction K V) (keyspaceId : Nat) (key : K) : BaseTransaction K V :=
  tx.write keyspaceId key none

-- The writing half that update_fetch and fetch_update have in common.
def update [DecidableEq V] (tx : BaseTransaction K V) (trees : Trees K V) (keyspaceId : Nat) (key : K)
    (f : Option V → Option V) : BaseTransaction K V :=
  let prev := tx.get trees keyspaceId key
  match f prev with
  | some value => if prev ≠ some value then tx.insert keyspaceId key value else tx
  | none => if prev.isSome then tx.remove keyspaceId key else tx

def updateFetch [DecidableEq V] (tx : BaseTransaction K V) (trees : Trees K V) (keyspaceId : Nat) (key : K)
    (f : Option V → Option V) : BaseTransaction K V × Option V :=
  (tx.update trees keyspaceId key f, f (tx.get trees keyspaceId key))

def fetchUpdate [DecidableEq V] (tx : BaseTransaction K V) (trees : Trees K V) (keyspaceId : Nat) (key : K)
    (f : Option V → Option V) : BaseTransaction K V × Option V :=
  (tx.update trees keyspaceId key f, tx.get trees keyspaceId key)

-- What commit moves into its batch: of each key the version that comes first
-- when the memtable is iterated, which is the newest.
def batchData (tx : BaseTransaction K V) : List ((Nat × K) × Option V) :=
  tx.memtables.entries.flatMap fun entry =>
    (sortedKeys (entry.2.map Version.key)).filterMap fun key =>
      (lookup entry.2 key).map fun item => ((entry.1, key), item.value)

end BaseTransaction

def viewAt (trees : Trees K V) (instant : Nat) : View K V := fun place => treeGet (trees place.1) instant place.2

def IsScan (view : View K V) (keyspaceId : Nat) (start stop : Bound K) (items : List (K × V)) : Prop :=
  (items.map Prod.fst).Pairwise (· < ·) ∧
    ∀ key value, (key, value) ∈ items ↔ inRange start stop key = true ∧ view (keyspaceId, key) = some value

theorem is_scan_congr (view other : View K V) (keyspaceId : Nat) (start stop : Bound K) (items : List (K × V))
    (scanned : IsScan view keyspaceId start stop items)
    (agree : ∀ key, inRange start stop key = true → other (keyspaceId, key) = view (keyspaceId, key)) :
    IsScan other keyspaceId start stop items := by
  refine ⟨scanned.1, ?_⟩
  intro key value
  rw [scanned.2]
  exact and_congr_right fun inside => by rw [agree key inside]

theorem mem_sorted_keys (keys : List K) (key : K) : key ∈ sortedKeys keys ↔ key ∈ keys := by
  simp [sortedKeys]

theorem sorted_keys_ascending (keys : List K) : (sortedKeys keys).Pairwise (· < ·) := by
  have ordered : (sortedKeys keys).Pairwise (· ≤ ·) := List.pairwise_insertionSort _ _
  have distinct : (sortedKeys keys).Nodup := (List.perm_insertionSort _ _).nodup_iff.mpr (List.nodup_dedup keys)
  exact (ordered.and distinct).imp fun pair => lt_of_le_of_ne pair.1 pair.2

variable (versions : List (Version K V))

theorem lookup_stored (key : K) (item : Version K V)
    (found : lookup versions key = some item) : key ∈ versions.map Version.key := by
  have member := newest_mem _ _ key versions item found
  rw [← newest_key _ _ key versions item found]
  exact List.mem_map_of_mem member

theorem mem_scan (start stop : Bound K) (key : K) (value : V) : (key, value) ∈ scan versions start stop ↔
      inRange start stop key = true ∧ (lookup versions key).bind Version.value = some value := by
  simp only [scan, List.mem_filterMap, mem_sorted_keys, List.mem_filter, Option.map_eq_some_iff, Prod.mk.injEq]
  constructor
  · rintro ⟨other, ⟨_, inside⟩, content, found, rfl, rfl⟩
    exact ⟨inside, found⟩
  · rintro ⟨inside, found⟩
    obtain ⟨item, itemFound, _⟩ := Option.bind_eq_some_iff.mp found
    exact ⟨key, ⟨lookup_stored versions key item itemFound, inside⟩, value, found, rfl, rfl⟩

theorem scan_ascending (start stop : Bound K) : ((scan versions start stop).map Prod.fst).Pairwise (· < ·) := by
  rw [scan, List.pairwise_map, List.pairwise_filterMap]
  refine (sorted_keys_ascending _).imp ?_
  intro first second less one oneFound two twoFound
  obtain ⟨_, _, rfl⟩ := Option.map_eq_some_iff.mp oneFound
  obtain ⟨_, _, rfl⟩ := Option.map_eq_some_iff.mp twoFound
  exact less

namespace BaseTransaction

def overlay (tx : BaseTransaction K V) (base : View K V) : View K V := fun place =>
  match lookup (tx.memtable place.1) place.2 with
  | some item => item.value
  | none => base place

structure Numbered (tx : BaseTransaction K V) : Prop where
  next : reservedSeqno ≤ tx.seqno
  own : ∀ keyspaceId, ∀ version ∈ tx.memtable keyspaceId, reservedSeqno ≤ version.seqno ∧ version.seqno < tx.seqno

omit [LinearOrder K] in
theorem new_numbered (instant : Nat) : (new instant : BaseTransaction K V).Numbered :=
  ⟨Nat.le_refl _, fun keyspaceId version member => by cases member⟩

variable (tx : BaseTransaction K V)
variable (keyspaceId : Nat)

omit [LinearOrder K] in
theorem memtable_write (key : K) (value : Option V) (other : Nat) : (tx.write keyspaceId key value).memtable other =
      if other = keyspaceId then ⟨key, tx.seqno, value⟩ :: tx.memtable keyspaceId else tx.memtable other := by
  by_cases same : other = keyspaceId
  · subst same
    simp [memtable, write]
  · simp [memtable, write, same, AList.lookup_insert_ne same]

omit [LinearOrder K] in
theorem write_numbered (key : K) (value : Option V) (numbered : tx.Numbered) : (tx.write keyspaceId key value).Numbered := by
  have next : (tx.write keyspaceId key value).seqno = tx.seqno + 1 := rfl
  refine ⟨Nat.le_succ_of_le numbered.next, ?_⟩
  intro other version member
  rw [memtable_write] at member
  rw [next]
  split at member
  · rcases List.mem_cons.mp member with rfl | earlier
    · exact ⟨numbered.next, Nat.lt_succ_self _⟩
    · exact (numbered.own _ version earlier).imp_right Nat.lt_succ_of_lt
  · exact (numbered.own _ version member).imp_right Nat.lt_succ_of_lt

theorem lookup_write (key : K) (value : Option V) (numbered : tx.Numbered) (place : Nat × K) :
    lookup ((tx.write keyspaceId key value).memtable place.1) place.2 =
      if place = (keyspaceId, key) then some ⟨key, tx.seqno, value⟩ else lookup (tx.memtable place.1) place.2 := by
  obtain ⟨otherId, otherKey⟩ := place
  have outranks : ∀ low ∈ tx.memtable keyspaceId, low.seqno ≤ tx.seqno := fun low member =>
    Nat.le_of_lt (numbered.own keyspaceId low member).2
  by_cases sameId : otherId = keyspaceId
  · subst sameId
    have top := newest_cons Version.key Version.seqno otherKey ⟨key, tx.seqno, value⟩ (tx.memtable otherId) outranks
    simp [memtable_write, lookup, top, eq_comm]
  · simp [memtable_write, sameId]

theorem overlay_write (key : K) (value : Option V) (numbered : tx.Numbered) (base : View K V) :
    (tx.write keyspaceId key value).overlay base = Function.update (tx.overlay base) (keyspaceId, key) value := by
  funext place
  rw [overlay, tx.lookup_write keyspaceId key value numbered place]
  by_cases same : place = (keyspaceId, key)
  · simp [same]
  · rw [if_neg same, Function.update_of_ne same]
    rfl

theorem overlay_unwritten (unwritten : tx.memtables.entries = []) (base : View K V) : tx.overlay base = base := by
  have empty : tx.memtables = ∅ := AList.ext unwritten
  funext place
  simp [overlay, memtable, empty, lookup, newest]

theorem contains_key_eq (trees : Trees K V) (keyspaceId : Nat) (key : K) :
    tx.containsKey trees keyspaceId key = (tx.get trees keyspaceId key).isSome := by
  unfold containsKey get
  split <;> rfl

-- The branches of update_fetch and fetch_update: a write unless the value is what it was.
omit [LinearOrder K] in
theorem skip_unchanged [DecidableEq V] {α : Type} (prev updated : Option V) (write : Option V → α) (skip : α) :
    (match updated with
      | some value => if prev ≠ some value then write (some value) else skip
      | none => if prev.isSome then write none else skip) = if updated = prev then skip else write updated := by
  cases updated with
  | some value =>
    by_cases same : prev = some value
    · simp [same]
    · simp [same, Ne.symm same]
  | none => cases prev <;> rfl

theorem update_eq [DecidableEq V] (tx : BaseTransaction K V) (trees : Trees K V) (keyspaceId : Nat) (key : K)
    (f : Option V → Option V) :
    tx.update trees keyspaceId key f =
      if f (tx.get trees keyspaceId key) = tx.get trees keyspaceId key then tx
      else tx.write keyspaceId key (f (tx.get trees keyspaceId key)) := by
  exact skip_unchanged (tx.get trees keyspaceId key) (f (tx.get trees keyspaceId key)) (tx.write keyspaceId key) tx

theorem range_is_scan (trees : Trees K V) (keyspaceId : Nat) (start stop : Bound K) (numbered : tx.Numbered)
    (bounded : ∀ version ∈ trees keyspaceId, version.seqno < reservedSeqno) :
    IsScan (tx.overlay (viewAt trees tx.instant)) keyspaceId start stop (tx.range trees keyspaceId start stop) := by
  refine ⟨scan_ascending _ _ _, ?_⟩
  intro key value
  have own : seen (tx.memtable keyspaceId) tx.seqno = tx.memtable keyspaceId := by
    apply List.filter_eq_self.mpr
    intro version member
    exact decide_eq_true (numbered.own keyspaceId version member).2
  have outrank : ∀ high ∈ tx.memtable keyspaceId, ∀ low ∈ seen (trees keyspaceId) tx.instant, low.seqno ≤ high.seqno := by
    intro high highMember low lowMember
    have above := (numbered.own keyspaceId high highMember).1
    have below := bounded low (List.mem_filter.mp lowMember).1
    omega
  rw [range, mem_scan, own, lookup, newest_append _ _ _ _ _ outrank]
  refine and_congr_right fun _ => ?_
  unfold overlay lookup
  cases newest Version.key Version.seqno key (tx.memtable keyspaceId) <;> rfl

theorem mem_batch_data (place : Nat × K) (value : Option V) :
    (place, value) ∈ tx.batchData ↔ ∃ item, lookup (tx.memtable place.1) place.2 = some item ∧ item.value = value := by
  simp only [batchData, List.mem_flatMap, List.mem_filterMap, mem_sorted_keys, Option.map_eq_some_iff, Prod.mk.injEq]
  constructor
  · rintro ⟨⟨keyspaceId, versions⟩, entryMember, key, _, item, found, rfl, rfl⟩
    have stored := Option.mem_def.mp (AList.mem_lookup_iff.mpr entryMember)
    exact ⟨item, by simpa [memtable, stored] using found, rfl⟩
  · rintro ⟨item, found, rfl⟩
    cases stored : tx.memtables.lookup place.1 with
    | none => simp [memtable, stored, lookup, newest] at found
    | some versions =>
      rw [memtable, stored, Option.getD_some] at found
      exact ⟨⟨place.1, versions⟩, AList.mem_lookup_iff.mp stored, place.2, lookup_stored _ _ _ found, item, found,
        rfl, rfl⟩

-- Items that are the newest versions of the memtables, all of them, put the
-- transaction's writes on top of any view.
theorem update_all_overlay (items : List ((Nat × K) × Option V)) (newestOnly : ∀ place value, (place, value) ∈ items ↔
      ∃ item, lookup (tx.memtable place.1) place.2 = some item ∧ item.value = value) (base : View K V) :
    updateAll base items = tx.overlay base := by
  apply update_all_eq
  · rintro ⟨place, value⟩ member
    obtain ⟨item, found, rfl⟩ := (newestOnly place value).mp member
    simp [overlay, found]
  · intro place
    cases found : lookup (tx.memtable place.1) place.2 with
    | none => exact .inr (by simp [overlay, found])
    | some item => exact .inl (List.mem_map.mpr ⟨_, (newestOnly place item.value).mpr ⟨item, found, rfl⟩, rfl⟩)

theorem batch_data_overlay (base : View K V) : updateAll base tx.batchData = tx.overlay base :=
  update_all_overlay tx _ (mem_batch_data tx) base

end BaseTransaction

end

end OmryaKv.Tx
