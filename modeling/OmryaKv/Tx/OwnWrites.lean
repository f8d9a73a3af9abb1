import OmryaKv.Tx.Invariant
import OmryaKv.Tx.Readable

set_option autoImplicit false

namespace OmryaKv.Tx

open Lib

section Writes

variable {K V : Type} [LinearOrder K]

def TxOp.keyspaceId : TxOp K V → Nat
  | .get keyspaceId _ | .containsKey keyspaceId _ | .iter keyspaceId | .range keyspaceId _ _ | .prefixScan keyspaceId _
  | .firstKeyValue keyspaceId | .lastKeyValue keyspaceId | .insert keyspaceId _ _ | .remove keyspaceId _
  | .updateFetch keyspaceId _ _ | .fetchUpdate keyspaceId _ _ | .take keyspaceId _ => keyspaceId

def lastWrite (writes : List ((Nat × K) × Option V)) (place : Nat × K) : Option (Option V) :=
  latest (fun write => if write.1 = place then some write.2 else none) writes

theorem last_write_cons (write : (Nat × K) × Option V) (rest : List ((Nat × K) × Option V)) (place : Nat × K) :
    lastWrite (write :: rest) place = (lastWrite rest place).or (if write.1 = place then some write.2 else none) := by
  rw [lastWrite, ← List.singleton_append, latest_append, latest_singleton]
  rfl

variable [DecidableEq V]

-- An update that leaves what its transaction sees as it is writes nothing.
def changed (view : View K V) (place : Nat × K) (value : Option V) : List ((Nat × K) × Option V) :=
  if value = view place then [] else [(place, value)]

def TxOp.writes (view : View K V) : TxOp K V → List ((Nat × K) × Option V)
  | .insert keyspaceId key value => [((keyspaceId, key), some value)]
  | .remove keyspaceId key => [((keyspaceId, key), none)]
  | .updateFetch keyspaceId key f => changed view (keyspaceId, key) (f (view (keyspaceId, key)))
  | .fetchUpdate keyspaceId key f => changed view (keyspaceId, key) (f (view (keyspaceId, key)))
  | .take keyspaceId key => changed view (keyspaceId, key) none
  | _ => []

-- The writes of a transaction that sees this view when it begins.
def writesOf (view : View K V) : List (TxOp K V) → List ((Nat × K) × Option V)
  | [] => []
  | op :: rest => op.writes view ++ writesOf (updateAll view (op.writes view)) rest

end Writes

-- A transaction's snapshot, and what the database may hold while it is open:
-- others may have committed since, but the snapshot shows what it did.
structure BeginSnapshot (K V : Type) where
  instant : Nat
  view : View K V

structure BeginSnapshot.State {K V : Type} [LinearOrder K] (snapshot : BeginSnapshot K V) extends DatabaseState K V where
  shown : viewAt trees snapshot.instant = snapshot.view

namespace BaseTransaction

section

variable {K V : Type}

theorem write_all_instant (tx : BaseTransaction K V) (writes : List ((Nat × K) × Option V)) :
    (tx.writeAll writes).instant = tx.instant := by
  induction writes generalizing tx with
  | nil => rfl
  | cons write rest ih => exact ih _

-- A write puts a seqno on top that none of the versions below it has.
theorem write_all_seqnos (tx : BaseTransaction K V) (writes : List ((Nat × K) × Option V)) (numbered : tx.Numbered)
    (distinct : ∀ keyspaceId, ((tx.memtable keyspaceId).map Version.seqno).Nodup) (keyspaceId : Nat) :
    (((tx.writeAll writes).memtable keyspaceId).map Version.seqno).Nodup := by
  induction writes generalizing tx with
  | nil => exact distinct keyspaceId
  | cons write rest ih =>
    refine ih _ (tx.write_numbered _ _ _ numbered) fun other => ?_
    rw [memtable_write]
    split
    · rw [List.map_cons, List.nodup_cons]
      refine ⟨fun member => ?_, distinct _⟩
      obtain ⟨version, stored, same⟩ := List.mem_map.mp member
      exact absurd same (Nat.ne_of_lt (numbered.own _ version stored).2)
    · exact distinct other

end

variable {K V : Type} [LinearOrder K]

theorem lookup_write_all (tx : BaseTransaction K V) (writes : List ((Nat × K) × Option V)) (numbered : tx.Numbered)
    (place : Nat × K) :
    (lookup ((tx.writeAll writes).memtable place.1) place.2).map Version.value =
      (lastWrite writes place).or ((lookup (tx.memtable place.1) place.2).map Version.value) := by
  induction writes generalizing tx with
  | nil => rfl
  | cons write rest ih =>
    have later := ih (tx.write write.1.1 write.1.2 write.2) (tx.write_numbered _ _ _ numbered)
    rw [tx.lookup_write _ _ _ numbered place] at later
    refine later.trans ?_
    rw [last_write_cons]
    cases lastWrite rest place with
    | some value => rfl
    | none =>
      by_cases same : place = write.1
      · simp [same]
      · simp [same, Ne.symm same]

theorem staged_writes (instant : Nat) (writes : List ((Nat × K) × Option V)) (place : Nat × K) :
    (lookup (((new instant).writeAll writes).memtable place.1) place.2).map Version.value = lastWrite writes place :=
  (lookup_write_all _ writes (new_numbered instant) place).trans (Option.or_none ..)

-- A method looks at the memtable of the keyspace it is called with, and no further.
theorem read_congr (prefixToRange : K → Bound K × Bound K) (one two : BaseTransaction K UserValue) (call : ReadCall K)
    (trees : Trees K UserValue) (instant : one.instant = two.instant) (seqno : one.seqno = two.seqno)
    (same : one.memtable call.keyspaceId = two.memtable call.keyspaceId) :
    one.read prefixToRange trees call = two.read prefixToRange trees call := by
  cases call <;> simp only [ReadCall.keyspaceId] at same <;>
    simp only [read, get, containsKey, sizeOf, isEmpty, len, firstKeyValue, lastKeyValue, prefixScan, iter, range, same,
      instant, seqno]

theorem perform_congr [DecidableEq V] (prefixToRange : K → Bound K × Bound K) (one two : BaseTransaction K V) (op : TxOp K V)
    (trees : Trees K V) (instant : one.instant = two.instant) (seqno : one.seqno = two.seqno)
    (same : one.memtable op.keyspaceId = two.memtable op.keyspaceId) :
    (one.perform prefixToRange trees op).2 = (two.perform prefixToRange trees op).2 := by
  cases op <;> simp only [TxOp.keyspaceId] at same <;>
    simp only [perform, get, containsKey, updateFetch, fetchUpdate, take, Prod.map, firstKeyValue, lastKeyValue, prefixScan,
      iter, range, same, instant, seqno]

theorem overlay_write_all (tx : BaseTransaction K V) (writes : List ((Nat × K) × Option V)) (numbered : tx.Numbered)
    (base : View K V) : (tx.writeAll writes).overlay base = updateAll (tx.overlay base) writes := by
  induction writes generalizing tx with
  | nil => rfl
  | cons write rest ih =>
    have later := ih (tx.write write.1.1 write.1.2 write.2) (tx.write_numbered _ _ _ numbered)
    rw [tx.overlay_write _ _ _ numbered] at later
    exact later

section Calls

variable [DecidableEq V] (prefixToRange : K → Bound K × Bound K) {snapshot : BeginSnapshot K V}
variable (tx : BaseTransaction K V)

theorem perform_write_all (trees : Trees K V) (op : TxOp K V) :
    (tx.perform prefixToRange trees op).1 = tx.writeAll (op.writes (tx.overlay (viewAt trees tx.instant))) := by
  have updated : ∀ keyspaceId key f, tx.update trees keyspaceId key f =
      tx.writeAll (changed (tx.overlay (viewAt trees tx.instant)) (keyspaceId, key) (f (tx.get trees keyspaceId key))) := by
    intro keyspaceId key f
    rw [tx.update_eq, changed]
    change _ = tx.writeAll (if f (tx.get trees keyspaceId key) = tx.get trees keyspaceId key then _ else _)
    split <;> rfl
  cases op with
  | updateFetch keyspaceId key f => exact updated keyspaceId key f
  | fetchUpdate keyspaceId key f => exact updated keyspaceId key f
  | take keyspaceId key => exact updated keyspaceId key fun _ => none
  | _ => rfl

-- Each call comes with what the database holds when it is made.
def performAll (tx : BaseTransaction K V) :
    List (TxOp K V × snapshot.State) → BaseTransaction K V × List (TxOp K V × Answer K V)
  | [] => (tx, [])
  | (op, state) :: rest =>
    let (next, answer) := tx.perform prefixToRange state.trees op
    let (last, history) := next.performAll rest
    (last, (op, answer) :: history)

theorem perform_all_writes (numbered : tx.Numbered) (instant : tx.instant = snapshot.instant)
    (calls : List (TxOp K V × snapshot.State)) :
    (tx.performAll prefixToRange calls).1 = tx.writeAll (writesOf (tx.overlay snapshot.view) (calls.map Prod.fst)) := by
  induction calls generalizing tx with
  | nil => rfl
  | cons call rest ih =>
    obtain ⟨op, state⟩ := call
    have step := tx.perform_write_all prefixToRange state.trees op
    have later := ih _ (tx.perform_numbered prefixToRange state.trees op numbered)
      ((tx.perform_instant prefixToRange state.trees op).trans instant)
    rw [instant, state.shown] at step
    rw [step, overlay_write_all _ _ numbered] at later
    rw [List.map_cons, writesOf, writeAll, List.foldl_append]
    simp only [performAll, step]
    exact later

-- Over any view that agrees with the snapshot on what the updates look at, the
-- writes that were skipped would have changed nothing.
theorem perform_all_overlay (numbered : tx.Numbered) (instant : tx.instant = snapshot.instant)
    (calls : List (TxOp K V × snapshot.State)) (base : View K V)
    (agree : ∀ call ∈ calls, ∀ place, call.1.Fetches place → base place = snapshot.view place) :
    (tx.performAll prefixToRange calls).1.overlay base =
      after TxOp.apply (tx.overlay base) (tx.performAll prefixToRange calls).2 := by
  induction calls generalizing tx with
  | nil => rfl
  | cons call rest ih =>
    obtain ⟨op, state⟩ := call
    have step := tx.perform_overlay prefixToRange state.trees op numbered base fun place fetched => by
      rw [instant, state.shown]
      exact agree _ List.mem_cons_self place fetched
    have later := ih _ (tx.perform_numbered prefixToRange state.trees op numbered)
      ((tx.perform_instant prefixToRange state.trees op).trans instant)
      fun call member => agree call (List.mem_cons_of_mem _ member)
    rw [step] at later
    exact later

theorem perform_all_replays (numbered : tx.Numbered) (instant : tx.instant = snapshot.instant)
    (calls : List (TxOp K V × snapshot.State)) :
    Replays (TxOp.Holds prefixToRange) TxOp.apply (tx.overlay snapshot.view) (tx.performAll prefixToRange calls).2 := by
  induction calls generalizing tx with
  | nil => trivial
  | cons call rest ih =>
    obtain ⟨op, state⟩ := call
    have holds := tx.perform_holds prefixToRange state.trees op numbered state.bounded
    have step := tx.perform_overlay prefixToRange state.trees op numbered snapshot.view fun place fetched => by
      rw [instant, state.shown]
    have later := ih _ (tx.perform_numbered prefixToRange state.trees op numbered)
      ((tx.perform_instant prefixToRange state.trees op).trans instant)
    rw [instant, state.shown] at holds
    rw [step] at later
    exact ⟨holds, later⟩

end Calls

end BaseTransaction

-- The memtables as the source keeps them, in a map whose keys are keyspaces. Two
-- keyspaces are the same key when they have the same name, and the one that was
-- written to first stays in the map.
structure NamedTransaction (Name K V : Type) where
  memtables : AList fun _ : Name => Nat × List (Version K V)
  instant : Nat
  seqno : Nat

namespace NamedTransaction

variable {Name K V : Type} [DecidableEq Name] (nameOf : Nat → Name)

def new (instant : Nat) : NamedTransaction Name K V := ⟨∅, instant, reservedSeqno⟩

def memtable (tx : NamedTransaction Name K V) (keyspaceId : Nat) : List (Version K V) :=
  match tx.memtables.lookup (nameOf keyspaceId) with
  | some entry => entry.2
  | none => []

-- What a method has in front of it when it is called with this keyspace.
def under (tx : NamedTransaction Name K V) (keyspaceId : Nat) : BaseTransaction K V :=
  ⟨AList.singleton keyspaceId (tx.memtable nameOf keyspaceId), tx.instant, tx.seqno⟩

def owner (tx : NamedTransaction Name K V) (keyspaceId : Nat) : Nat :=
  match tx.memtables.lookup (nameOf keyspaceId) with
  | some entry => entry.1
  | none => keyspaceId

def write (tx : NamedTransaction Name K V) (keyspaceId : Nat) (key : K) (value : Option V) : NamedTransaction Name K V :=
  { tx with
    memtables := tx.memtables.insert (nameOf keyspaceId)
      (tx.owner nameOf keyspaceId, ⟨key, tx.seqno, value⟩ :: tx.memtable nameOf keyspaceId)
    seqno := tx.seqno + 1 }

variable [LinearOrder K]

def update [DecidableEq V] (tx : NamedTransaction Name K V) (trees : Trees K V) (keyspaceId : Nat) (key : K)
    (f : Option V → Option V) : NamedTransaction Name K V :=
  let prev := (tx.under nameOf keyspaceId).get trees keyspaceId key
  match f prev with
  | some value => if prev ≠ some value then tx.write nameOf keyspaceId key (some value) else tx
  | none => if prev.isSome then tx.write nameOf keyspaceId key none else tx

def change [DecidableEq V] (tx : NamedTransaction Name K V) (trees : Trees K V) : TxOp K V → NamedTransaction Name K V
  | .insert keyspaceId key value => tx.write nameOf keyspaceId key (some value)
  | .remove keyspaceId key => tx.write nameOf keyspaceId key none
  | .updateFetch keyspaceId key f => tx.update nameOf trees keyspaceId key f
  | .fetchUpdate keyspaceId key f => tx.update nameOf trees keyspaceId key f
  | .take keyspaceId key => tx.update nameOf trees keyspaceId key fun _ => none
  | _ => tx

def perform [DecidableEq V] (prefixToRange : K → Bound K × Bound K) (tx : NamedTransaction Name K V) (trees : Trees K V)
    (op : TxOp K V) : NamedTransaction Name K V × Answer K V :=
  (tx.change nameOf trees op, ((tx.under nameOf op.keyspaceId).perform prefixToRange trees op).2)

def read (prefixToRange : K → Bound K × Bound K) (tx : NamedTransaction Name K UserValue) (trees : Trees K UserValue)
    (call : ReadCall K) : ReadResult K UserValue :=
  (tx.under nameOf call.keyspaceId).read prefixToRange trees call

-- The loop of commit, over the entries of the map in whatever order it gives
-- them: of each key the item that the memtable's iterator yields first.
def batch (order : List ((_ : Name) × Nat × List (Version K V))) : List ((Nat × K) × Option V) :=
  order.flatMap fun entry =>
    (firstOfEach Version.key none (iterated Version.key Version.seqno entry.2.2)).map fun item =>
      ((entry.2.1, item.key), item.value)

def commit (tx : NamedTransaction Name K V) (order : List ((_ : Name) × Nat × List (Version K V))) (trees : Trees K V)
    (batchSeqno : Nat) : Trees K V :=
  if tx.memtables.entries.isEmpty then trees
  else (batch order).foldl (fun applied item => applyItem applied batchSeqno item) trees

def performAll [DecidableEq V] (prefixToRange : K → Bound K × Bound K) {snapshot : BeginSnapshot K V}
    (tx : NamedTransaction Name K V) :
    List (TxOp K V × snapshot.State) → NamedTransaction Name K V × List (TxOp K V × Answer K V)
  | [] => (tx, [])
  | (op, state) :: rest =>
    let (next, answer) := tx.perform nameOf prefixToRange state.trees op
    let (last, history) := next.performAll prefixToRange rest
    (last, (op, answer) :: history)

-- Over keyspaces of different names the map is as good as one that is keyed by keyspace.
structure Refines (keyspaces : List Nat) (tx : NamedTransaction Name K V) (base : BaseTransaction K V) : Prop where
  instant : tx.instant = base.instant
  seqno : tx.seqno = base.seqno
  memtable : ∀ keyspaceId ∈ keyspaces, tx.memtable nameOf keyspaceId = base.memtable keyspaceId
  owner : ∀ name entry, tx.memtables.lookup name = some entry → entry.1 ∈ keyspaces ∧ nameOf entry.1 = name
  others : ∀ keyspaceId, keyspaceId ∉ keyspaces → base.memtable keyspaceId = []

variable (tx : NamedTransaction Name K V)

omit [LinearOrder K] in
theorem memtable_under (keyspaceId : Nat) :
    (tx.under nameOf keyspaceId).memtable keyspaceId = tx.memtable nameOf keyspaceId := by
  have found : (tx.under nameOf keyspaceId).memtables.lookup keyspaceId = some (tx.memtable nameOf keyspaceId) :=
    List.dlookup_cons_eq [] keyspaceId _
  rw [BaseTransaction.memtable, found, Option.getD_some]

omit [LinearOrder K] in
theorem memtable_write (keyspaceId : Nat) (key : K) (value : Option V) (other : Nat) :
    (tx.write nameOf keyspaceId key value).memtable nameOf other =
      if nameOf other = nameOf keyspaceId then ⟨key, tx.seqno, value⟩ :: tx.memtable nameOf keyspaceId
      else tx.memtable nameOf other := by
  by_cases same : nameOf other = nameOf keyspaceId
  · rw [if_pos same, memtable, write, same, AList.lookup_insert]
  · rw [if_neg same, memtable, write, AList.lookup_insert_ne same, memtable]

-- Handles of one name share a memtable, whichever keyspace they belong to: the
-- keyspaces of a transaction have to have different names.
theorem same_name_sees_write (trees : Trees K V) (one two : Nat) (key : K) (value : Option V) (same : nameOf one = nameOf two)
    (below : ∀ version ∈ tx.memtable nameOf one, version.seqno ≤ tx.seqno) :
    ((tx.write nameOf one key value).under nameOf two).get trees two key = value := by
  have top : lookup (⟨key, tx.seqno, value⟩ :: tx.memtable nameOf one) key = some ⟨key, tx.seqno, value⟩ :=
    (newest_cons Version.key Version.seqno key _ _ below).trans (if_pos rfl)
  rw [BaseTransaction.get, memtable_under, memtable_write, if_pos same.symm, top]

variable {nameOf} {keyspaces : List Nat}

omit [LinearOrder K] in
theorem new_refines (instant : Nat) :
    Refines nameOf keyspaces (new instant : NamedTransaction Name K V) (BaseTransaction.new instant) where
  instant := rfl
  seqno := rfl
  memtable := fun _ _ => rfl
  owner := fun _ _ found => by cases found
  others := fun _ _ => rfl

omit [LinearOrder K] in
theorem write_refines (distinct : ∀ one ∈ keyspaces, ∀ two ∈ keyspaces, nameOf one = nameOf two → one = two)
    (tx : NamedTransaction Name K V) (base : BaseTransaction K V) (refines : Refines nameOf keyspaces tx base)
    (keyspaceId : Nat) (inside : keyspaceId ∈ keyspaces) (key : K) (value : Option V) :
    Refines nameOf keyspaces (tx.write nameOf keyspaceId key value) (base.write keyspaceId key value) where
  instant := refines.instant
  seqno := congrArg Nat.succ refines.seqno
  memtable := by
    intro other otherInside
    rw [memtable_write, BaseTransaction.memtable_write, refines.seqno, refines.memtable keyspaceId inside,
      refines.memtable other otherInside]
    by_cases same : other = keyspaceId
    · rw [if_pos (congrArg nameOf same), if_pos same]
    · rw [if_neg fun equal => same (distinct other otherInside keyspaceId inside equal), if_neg same]
  owner := by
    intro name entry found
    by_cases same : name = nameOf keyspaceId
    · subst same
      rw [write, AList.lookup_insert] at found
      cases found
      unfold owner
      cases stored : tx.memtables.lookup (nameOf keyspaceId) with
      | none => exact ⟨inside, rfl⟩
      | some earlier => exact refines.owner _ earlier stored
    · rw [write, AList.lookup_insert_ne same] at found
      exact refines.owner name entry found
  others := by
    intro other outside
    have different : other ≠ keyspaceId := fun same => outside (same ▸ inside)
    rw [BaseTransaction.memtable_write, if_neg different]
    exact refines.others other outside

section Calls

variable [DecidableEq V] (prefixToRange : K → Bound K × Bound K)
  (distinct : ∀ one ∈ keyspaces, ∀ two ∈ keyspaces, nameOf one = nameOf two → one = two)

theorem update_eq (tx : NamedTransaction Name K V) (trees : Trees K V) (keyspaceId : Nat) (key : K)
    (f : Option V → Option V) (prev : Option V) (found : (tx.under nameOf keyspaceId).get trees keyspaceId key = prev) :
    tx.update nameOf trees keyspaceId key f =
      if f prev = prev then tx else tx.write nameOf keyspaceId key (f prev) := by
  subst found
  exact BaseTransaction.skip_unchanged _ _ (tx.write nameOf keyspaceId key) tx

include distinct

theorem update_refines (tx : NamedTransaction Name K V) (base : BaseTransaction K V)
    (refines : Refines nameOf keyspaces tx base) (trees : Trees K V) (keyspaceId : Nat) (inside : keyspaceId ∈ keyspaces)
    (key : K) (f : Option V → Option V) :
    Refines nameOf keyspaces (tx.update nameOf trees keyspaceId key f) (base.update trees keyspaceId key f) := by
  have found : (tx.under nameOf keyspaceId).get trees keyspaceId key = base.get trees keyspaceId key := by
    have same := (tx.memtable_under nameOf keyspaceId).trans (refines.memtable keyspaceId inside)
    have instant : (tx.under nameOf keyspaceId).instant = base.instant := refines.instant
    rw [BaseTransaction.get, BaseTransaction.get, same, instant]
  rw [tx.update_eq trees keyspaceId key f _ found, base.update_eq]
  split
  · exact refines
  · exact write_refines distinct tx base refines keyspaceId inside key _

theorem perform_refines (tx : NamedTransaction Name K V) (base : BaseTransaction K V)
    (refines : Refines nameOf keyspaces tx base) (trees : Trees K V) (op : TxOp K V) (inside : op.keyspaceId ∈ keyspaces) :
    Refines nameOf keyspaces (tx.perform nameOf prefixToRange trees op).1 (base.perform prefixToRange trees op).1 ∧
      (tx.perform nameOf prefixToRange trees op).2 = (base.perform prefixToRange trees op).2 := by
  refine ⟨?_, ?_⟩
  · cases op with
    | insert keyspaceId key value => exact write_refines distinct tx base refines keyspaceId inside key (some value)
    | remove keyspaceId key => exact write_refines distinct tx base refines keyspaceId inside key none
    | updateFetch keyspaceId key f => exact update_refines distinct tx base refines trees keyspaceId inside key f
    | fetchUpdate keyspaceId key f => exact update_refines distinct tx base refines trees keyspaceId inside key f
    | take keyspaceId key => exact update_refines distinct tx base refines trees keyspaceId inside key fun _ => none
    | _ => exact refines
  · exact BaseTransaction.perform_congr prefixToRange _ _ op trees refines.instant refines.seqno
      ((tx.memtable_under nameOf op.keyspaceId).trans (refines.memtable op.keyspaceId inside))

theorem perform_all_refines {snapshot : BeginSnapshot K V} (calls : List (TxOp K V × snapshot.State))
    (inside : ∀ call ∈ calls, call.1.keyspaceId ∈ keyspaces) (tx : NamedTransaction Name K V) (base : BaseTransaction K V)
    (refines : Refines nameOf keyspaces tx base) :
    Refines nameOf keyspaces (tx.performAll nameOf prefixToRange calls).1 (base.performAll prefixToRange calls).1 ∧
      (tx.performAll nameOf prefixToRange calls).2 = (base.performAll prefixToRange calls).2 := by
  induction calls generalizing tx base with
  | nil => exact ⟨refines, rfl⟩
  | cons call rest ih =>
    obtain ⟨op, state⟩ := call
    obtain ⟨stepped, answered⟩ := perform_refines prefixToRange distinct tx base refines state.trees op
      (inside _ List.mem_cons_self)
    obtain ⟨ended, history⟩ := ih (fun call member => inside call (List.mem_cons_of_mem _ member)) _ _ stepped
    exact ⟨ended, congrArg₂ List.cons (congrArg (Prod.mk op) answered) history⟩

end Calls

section Commit

variable {tx : NamedTransaction Name K V} {base : BaseTransaction K V}
  {order : List ((_ : Name) × Nat × List (Version K V))}

omit [LinearOrder K] in
theorem entry_refines (refines : Refines nameOf keyspaces tx base) (listed : order.Perm tx.memtables.entries)
    (entry : (_ : Name) × Nat × List (Version K V)) (member : entry ∈ order) :
    entry.2.1 ∈ keyspaces ∧ nameOf entry.2.1 = entry.1 ∧ base.memtable entry.2.1 = entry.2.2 := by
  have found : tx.memtables.lookup entry.1 = some entry.2 := AList.mem_lookup_iff.mpr (listed.mem_iff.mp member)
  obtain ⟨inside, named⟩ := refines.owner entry.1 entry.2 found
  refine ⟨inside, named, ?_⟩
  rw [← refines.memtable entry.2.1 inside, memtable, named, found]

theorem mem_batch (distinct : ∀ one ∈ keyspaces, ∀ two ∈ keyspaces, nameOf one = nameOf two → one = two)
    (refines : Refines nameOf keyspaces tx base) (listed : order.Perm tx.memtables.entries)
    (seqnos : ∀ keyspaceId, ((base.memtable keyspaceId).map Version.seqno).Nodup) (place : Nat × K) (value : Option V) :
    (place, value) ∈ batch order ↔ ∃ item, lookup (base.memtable place.1) place.2 = some item ∧ item.value = value := by
  have firsts : ∀ keyspaceId, ∀ item : Version K V,
      item ∈ firstOfEach Version.key none (iterated Version.key Version.seqno (base.memtable keyspaceId)) ↔
        lookup (base.memtable keyspaceId) item.key = some item := fun keyspaceId item =>
    mem_first_iterated Version.key Version.seqno (base.memtable keyspaceId)
      (fun one oneIn two twoIn _ same => List.inj_on_of_nodup_map (seqnos keyspaceId) oneIn twoIn same) item
  simp only [batch, List.mem_flatMap, List.mem_map, Prod.mk.injEq]
  constructor
  · rintro ⟨entry, member, item, first, rfl, rfl⟩
    obtain ⟨_, _, versions⟩ := entry_refines refines listed entry member
    rw [← versions] at first
    exact ⟨item, (firsts entry.2.1 item).mp first, rfl⟩
  · rintro ⟨item, found, rfl⟩
    have matched : item.key = place.2 := newest_key Version.key Version.seqno place.2 _ item found
    have inside : place.1 ∈ keyspaces := by
      by_contra outside
      rw [refines.others place.1 outside] at found
      cases found
    have first := (firsts place.1 item).mpr (matched ▸ found)
    rw [← refines.memtable place.1 inside] at found first
    unfold memtable at found first
    cases stored : tx.memtables.lookup (nameOf place.1) with
    | none =>
      rw [stored] at found
      cases found
    | some entry =>
      obtain ⟨owned, named⟩ := refines.owner _ entry stored
      rw [stored] at first
      refine ⟨⟨nameOf place.1, entry⟩, listed.mem_iff.mpr (AList.mem_lookup_iff.mp stored), item, first, ?_, rfl⟩
      exact Prod.ext (distinct entry.1 owned place.1 inside named) matched

theorem batch_nodup (refines : Refines nameOf keyspaces tx base) (listed : order.Perm tx.memtables.entries) :
    ((batch order).map Prod.fst).Nodup := by
  have names : order.Pairwise fun one two => one.1 ≠ two.1 :=
    (listed.pairwise_iff Ne.symm).mpr (List.nodupKeys_iff_pairwise.mp tx.memtables.nodupKeys)
  rw [batch, List.map_flatMap, List.nodup_flatMap]
  refine ⟨fun entry _ => ?_, names.imp_of_mem ?_⟩
  · rw [List.map_map, List.Nodup, List.pairwise_map]
    refine (first_of_each_ascending Version.key Version.seqno _ none (iterated_ordered _ _ _)).imp ?_
    intro one two less same
    exact absurd (congrArg Prod.snd same) (ne_of_lt less)
  · intro one two oneIn twoIn apart place oneListed twoListed
    obtain ⟨_, oneNamed, _⟩ := entry_refines refines listed one oneIn
    obtain ⟨_, twoNamed, _⟩ := entry_refines refines listed two twoIn
    simp only [List.map_map, List.mem_map, Function.comp_apply] at oneListed twoListed
    obtain ⟨_, _, rfl⟩ := oneListed
    obtain ⟨_, _, same⟩ := twoListed
    exact apart (oneNamed.symm.trans ((congrArg nameOf (congrArg Prod.fst same).symm).trans twoNamed))

omit [DecidableEq Name] in
theorem commit_view (listed : order.Perm tx.memtables.entries) (trees : Trees K V) (batchSeqno : Nat)
    (earlier : ∀ keyspaceId, ∀ version ∈ trees keyspaceId, version.seqno < batchSeqno) :
    viewAt (tx.commit order trees batchSeqno) (batchSeqno + 1) = updateAll (viewAt trees batchSeqno) (batch order) := by
  have covered := view_at_covering trees batchSeqno (batchSeqno + 1) (Nat.le_succ _) earlier
  unfold commit
  split
  · rename_i nothing
    rw [List.isEmpty_iff] at nothing
    rw [nothing] at listed
    rw [listed.eq_nil]
    exact covered
  · rw [apply_all_view _ trees batchSeqno fun keyspaceId version member =>
      Nat.le_of_lt (earlier keyspaceId version member), covered]

end Commit

-- Every call and every read answers from the begin snapshot with the writes so
-- far on top; the batch has the last write to each place written and nothing
-- else, so a commit puts the writes in order on whatever is there. Where that
-- agrees with the snapshot on what the updates looked at, the outcome is that of
-- making all the calls on it, the skipped writes among them.
theorem own_writes_read_and_committed (nameOf : Nat → Name) (keyspaces : List Nat)
    (distinct : ∀ one ∈ keyspaces, ∀ two ∈ keyspaces, nameOf one = nameOf two → one = two)
    (prefixToRange : K → Bound K × Bound K) (snapshot : BeginSnapshot K UserValue)
    (calls : List (TxOp K UserValue × snapshot.State)) (inside : ∀ call ∈ calls, call.1.keyspaceId ∈ keyspaces)
    (tx : NamedTransaction Name K UserValue) (history : List (TxOp K UserValue × Answer K UserValue))
    (ran : (new snapshot.instant).performAll nameOf prefixToRange calls = (tx, history)) :
    Replays (TxOp.Holds prefixToRange) TxOp.apply snapshot.view history ∧
    (∀ (now : snapshot.State) (call : ReadCall K), call.keyspaceId ∈ keyspaces →
      call.Returns prefixToRange (updateAll snapshot.view (writesOf snapshot.view (calls.map Prod.fst)))
        (tx.read nameOf prefixToRange now.trees call)) ∧
    ∀ order, order.Perm tx.memtables.entries →
      ((batch order).map Prod.fst).Nodup ∧
      (∀ place value, (place, value) ∈ batch order ↔
        lastWrite (writesOf snapshot.view (calls.map Prod.fst)) place = some value) ∧
      ∀ trees batchSeqno, (∀ keyspaceId, ∀ version ∈ trees keyspaceId, version.seqno < batchSeqno) →
        viewAt (tx.commit order trees batchSeqno) (batchSeqno + 1) =
          updateAll (viewAt trees batchSeqno) (writesOf snapshot.view (calls.map Prod.fst)) ∧
        ((∀ call ∈ calls, ∀ place, call.1.Fetches place → viewAt trees batchSeqno place = snapshot.view place) →
          viewAt (tx.commit order trees batchSeqno) (batchSeqno + 1) = after TxOp.apply (viewAt trees batchSeqno) history) := by
  have fresh : (BaseTransaction.new snapshot.instant : BaseTransaction K UserValue).Numbered := BaseTransaction.new_numbered _
  obtain ⟨refines, answered⟩ := perform_all_refines prefixToRange distinct calls inside _ _ (new_refines snapshot.instant)
  have replays := BaseTransaction.perform_all_replays prefixToRange _ fresh rfl calls
  have overlaid := BaseTransaction.perform_all_overlay prefixToRange _ fresh rfl calls
  have written : ((BaseTransaction.new snapshot.instant).performAll prefixToRange calls).1 =
      (BaseTransaction.new snapshot.instant).writeAll (writesOf snapshot.view (calls.map Prod.fst)) :=
    BaseTransaction.perform_all_writes prefixToRange _ fresh rfl calls
  rw [ran, written] at refines
  rw [ran] at answered
  rw [written, ← answered] at overlaid
  rw [← answered] at replays
  generalize writesOf snapshot.view (calls.map Prod.fst) = writes at refines overlaid ⊢
  have numbered := BaseTransaction.reached_numbered _ ⟨snapshot.instant, writes, rfl⟩
  have onTop := BaseTransaction.overlay_write_all _ writes fresh
  have seqnos := BaseTransaction.write_all_seqnos _ writes fresh fun _ => List.nodup_nil
  refine ⟨replays, ?_, ?_⟩
  · intro now call within
    have returned := BaseTransaction.read_returns prefixToRange _ now.toDatabaseState numbered call
    have shown : viewAt now.trees (BaseTransaction.new snapshot.instant : BaseTransaction K UserValue).instant = snapshot.view :=
      now.shown
    rw [BaseTransaction.write_all_instant, shown, onTop] at returned
    have same := BaseTransaction.read_congr prefixToRange _ _ call now.trees refines.instant refines.seqno
      ((tx.memtable_under nameOf call.keyspaceId).trans (refines.memtable call.keyspaceId within))
    rw [read, same]
    exact returned
  · intro order listed
    have items := mem_batch distinct refines listed seqnos
    refine ⟨batch_nodup refines listed, ?_, ?_⟩
    · intro place value
      rw [items, ← BaseTransaction.staged_writes snapshot.instant, Option.map_eq_some_iff]
    · intro trees batchSeqno earlier
      have view := commit_view listed trees batchSeqno earlier
      rw [BaseTransaction.update_all_overlay _ _ items] at view
      exact ⟨view.trans (onTop _), fun agree => view.trans (overlaid _ agree)⟩

def oneCell : BeginSnapshot Nat UserValue := ⟨1, viewAt (WriteTransaction.singleState 0 7 UserValue.empty).trees 1⟩

def oneCellState : oneCell.State := { WriteTransaction.singleState 0 7 UserValue.empty with shown := rfl }

def accountsAndIndex (keyspaceId : Nat) : String := if keyspaceId = 0 then "accounts" else "index"

-- An update that changes nothing, a removal that is overwritten, and a write to another keyspace.
def overwriting : List (TxOp Nat UserValue × oneCell.State) :=
  [(.fetchUpdate 0 7 id, oneCellState), (.take 0 7, oneCellState), (.insert 1 7 .empty, oneCellState),
    (.insert 0 7 .empty, oneCellState)]

theorem overwritten_cell_committed :
    (∀ one ∈ [0, 1], ∀ two ∈ [0, 1], accountsAndIndex one = accountsAndIndex two → one = two) ∧
    ∃ tx history, (new 1 : NamedTransaction String Nat UserValue).performAll accountsAndIndex
        (fun pfx => (.included pfx, .unbounded)) overwriting = (tx, history) ∧
      tx.read accountsAndIndex (fun pfx => (.included pfx, .unbounded)) oneCellState.trees (.get 0 7) =
        .value (some .empty) ∧
      ((batch tx.memtables.entries).map Prod.fst).Nodup ∧ ((0, 7), some .empty) ∈ batch tx.memtables.entries ∧
      viewAt (tx.commit tx.memtables.entries oneCellState.trees 1) 2 (1, 7) = some .empty := by
  have earlier : ∀ keyspaceId, ∀ version ∈ oneCellState.trees keyspaceId, version.seqno < 1 := by
    intro keyspaceId version member
    by_cases first : keyspaceId = 0 <;> simp_all [oneCellState, WriteTransaction.singleState]
  have distinct : ∀ one ∈ [0, 1], ∀ two ∈ [0, 1], accountsAndIndex one = accountsAndIndex two → one = two := by decide
  have inside : ∀ call ∈ overwriting, call.1.keyspaceId ∈ [0, 1] := by simp [overwriting, TxOp.keyspaceId]
  obtain ⟨_, reads, commits⟩ := own_writes_read_and_committed accountsAndIndex [0, 1] distinct
    (fun pfx => (.included pfx, .unbounded)) oneCell overwriting inside _ _ rfl
  obtain ⟨once, items, committed⟩ := commits _ (List.Perm.refl _)
  refine ⟨distinct, _, _, rfl, (reads oneCellState (.get 0 7) (by decide)).trans rfl, once, (items _ _).mpr rfl, ?_⟩
  exact (congrFun (committed _ 1 earlier).1 (1, 7)).trans rfl

end NamedTransaction

end OmryaKv.Tx
