import OmryaKv.Journal.TornTail
import OmryaKv.Write.BatchCommit
import OmryaKv.Write.KeyLimits

set_option autoImplicit false

namespace OmryaKv.Write

open Journal Snapshot Lib

inductive ClientCall where
  | single (call : KeyCall)
  | commit (batch : WriteBatch)

structure MemtableEntry where
  key : UserKey
  seqno : UInt64
  valueType : ValueType
  value : UserValue
deriving DecidableEq

def TreeOp.put (keyspaceId : UInt64) (entries : List MemtableEntry) : TreeOp → List MemtableEntry
  | .insert id key value seqno => if id = keyspaceId then entries ++ [⟨key, seqno, .value, value⟩] else entries
  | .remove id key seqno => if id = keyspaceId then entries ++ [⟨key, seqno, .tombstone, .empty⟩] else entries
  | .removeWeak id key seqno => if id = keyspaceId then entries ++ [⟨key, seqno, .weakTombstone, .empty⟩] else entries
  | .clear id => if id = keyspaceId then [] else entries

-- The entries of a keyspace's memtable in the order they were put there.
def memtable (keyspaceId : UInt64) (ops : List TreeOp) : List MemtableEntry := ops.foldl (TreeOp.put keyspaceId) []

-- Database::recover over the batches of the active journal. known tells which ids
-- still belong to a keyspace; the items of the others are passed over. No result
-- stands for an error or a panic.
def replayItem (known : UInt64 → Bool) (seqno : UInt64) (item : BatchItem) : Option (List TreeOp) :=
  if known item.keyspaceId then
    match item.valueType with
    | .value => some [.insert item.keyspaceId item.key item.value seqno]
    | .tombstone => some [.remove item.keyspaceId item.key seqno]
    | .weakTombstone => some [.removeWeak item.keyspaceId item.key seqno]
    | .indirection => none
  else some []

def replayItems (known : UInt64 → Bool) (seqno : UInt64) : List BatchItem → Option (List TreeOp)
  | [] => some []
  | item :: items => do
      let ops ← replayItem known seqno item
      let rest ← replayItems known seqno items
      return ops ++ rest

def replayBatches (known : UInt64 → Bool) : List Batch → Option (List TreeOp)
  | [] => some []
  | batch :: batches => do
      let ops ← replayItems known batch.seqno batch.items
      let rest ← replayBatches known batches
      return ops ++ (batch.clearedKeyspaces.filter known).map TreeOp.clear ++ rest

variable (deps : Dependencies)

def replayJournal (known : UInt64 → Bool) (file : Bytes) : Option (List TreeOp) :=
  match (recoverJournal deps file).error with
  | some _ => none
  | none => replayBatches known (recoverJournal deps file).batches

namespace ClientCall

def run : ClientCall → DatabaseM Unit
  | single call => call.toSingle.run deps
  | commit batch => batch.commit deps

def after (db : Database) (call : ClientCall) : Database :=
  match (call.run deps).run db with
  | .ok _ after => after
  | .error _ after => after

-- The call is refused before it writes, or no file call of its fails and all that
-- it writes fits the fields of the journal.
def Clean (db : Database) : ClientCall → Prop
  | single call => call.Refused db ∨ (true ∉ db.writer.faults.take call.toSingle.fileCalls ∧ call.Fits deps db)
  | commit batch => batch.data = [] ∨ db.isPoisoned = true ∨
      (WritesSucceed db batch ∧ ¬ PersistFails db batch ∧ batch.data.length < 2 ^ 32 ∧
        ∀ item ∈ batch.data, (itemEntry db.writer.compression db.writer.compressionThreshold item).Fits deps)

end ClientCall

def WriteStep (db : Database) (call : ClientCall) (next : Database) : Prop := call.Clean deps db ∧ next = call.after deps db

def Database.fresh (faults : List Bool) (compression : CompressionType) (threshold : Nat) (seqno : UInt64) : Database :=
  ⟨⟨[], faults, false, compression, threshold⟩, seqno, false, .new seqno.toNat, []⟩

-- What replay puts into the memtable of every keyspace is what the calls put there.
def Database.Rebuilt (db : Database) (known : UInt64 → Bool) : Prop :=
  ∃ ops, replayJournal deps known db.writer.file = some ops ∧
    ∀ keyspaceId, known keyspaceId = true → memtable keyspaceId ops = memtable keyspaceId db.applied.reverse

def TreeOp.keyspaceId : TreeOp → UInt64
  | .insert id _ _ _ => id
  | .remove id _ _ => id
  | .removeWeak id _ _ => id
  | .clear id => id

def TreeOp.entry : TreeOp → Option MemtableEntry
  | .insert _ key value seqno => some ⟨key, seqno, .value, value⟩
  | .remove _ key seqno => some ⟨key, seqno, .tombstone, .empty⟩
  | .removeWeak _ key seqno => some ⟨key, seqno, .weakTombstone, .empty⟩
  | .clear _ => none

def TreeOp.entryIn (keyspaceId : UInt64) (op : TreeOp) : Option MemtableEntry :=
  if op.keyspaceId = keyspaceId then op.entry else none

def opOf (seqno : UInt64) (item : BatchItem) : Option TreeOp :=
  match item.valueType with
  | .value => some (.insert item.keyspaceId item.key item.value seqno)
  | .tombstone => some (.remove item.keyspaceId item.key seqno)
  | .weakTombstone => some (.removeWeak item.keyspaceId item.key seqno)
  | .indirection => none

def PlainItem (item : BatchItem) : Prop := item.valueType ≠ .indirection

theorem plain_item_op (seqno : UInt64) (item : BatchItem) (plain : PlainItem item) :
    ∃ op, opOf seqno item = some op ∧ op.keyspaceId = item.keyspaceId ∧ op.entry.isSome = true ∧
      applyItem seqno item = applyOp op := by
  unfold opOf applyItem
  cases valueType : item.valueType with
  | indirection => exact absurd valueType plain
  | value => exact ⟨_, rfl, rfl, rfl, rfl⟩
  | tombstone => exact ⟨_, rfl, rfl, rfl, rfl⟩
  | weakTombstone => exact ⟨_, rfl, rfl, rfl, rfl⟩

theorem put_entry (keyspaceId : UInt64) (op : TreeOp) (entries : List MemtableEntry) (written : op.entry.isSome = true) :
    op.put keyspaceId entries = entries ++ (op.entryIn keyspaceId).toList := by
  cases op with
  | clear id => cases written
  | insert id key value seqno | remove id key seqno | removeWeak id key seqno =>
    by_cases same : id = keyspaceId <;> simp [TreeOp.put, TreeOp.entryIn, TreeOp.keyspaceId, TreeOp.entry, same]

theorem memtable_entries (keyspaceId : UInt64) (ops : List TreeOp) (written : ∀ op ∈ ops, op.entry.isSome = true) :
    memtable keyspaceId ops = ops.filterMap (TreeOp.entryIn keyspaceId) := by
  suffices grown : ∀ entries, ops.foldl (TreeOp.put keyspaceId) entries =
      entries ++ ops.filterMap (TreeOp.entryIn keyspaceId) from grown []
  induction ops with
  | nil => exact fun entries => (List.append_nil entries).symm
  | cons op ops ih =>
    intro entries
    rw [List.foldl_cons, put_entry keyspaceId op entries (written op List.mem_cons_self),
      ih (fun other member => written other (List.mem_cons_of_mem _ member)), List.append_assoc]
    cases found : op.entryIn keyspaceId with
    | none => rw [List.filterMap_cons_none found]; rfl
    | some entry => rw [List.filterMap_cons_some found]; rfl

variable (known : UInt64 → Bool)

theorem memtable_known (keyspaceId : UInt64) (ops : List TreeOp) (written : ∀ op ∈ ops, op.entry.isSome = true)
    (isKnown : known keyspaceId = true) :
    memtable keyspaceId (ops.filter fun op => known op.keyspaceId) = memtable keyspaceId ops := by
  rw [memtable_entries keyspaceId ops written,
    memtable_entries keyspaceId _ fun op member => written op (List.mem_of_mem_filter member), List.filterMap_filter]
  apply List.filterMap_congr
  intro op _
  unfold TreeOp.entryIn
  by_cases same : op.keyspaceId = keyspaceId
  · simp [same, isKnown]
  · simp [same]

theorem replay_plain_items (seqno : UInt64) (items : List BatchItem) (plain : ∀ item ∈ items, PlainItem item) :
    replayItems known seqno items = some ((items.filterMap (opOf seqno)).filter fun op => known op.keyspaceId) := by
  induction items with
  | nil => rfl
  | cons item items ih =>
    have first : replayItem known seqno item = some ((opOf seqno item).toList.filter fun op => known op.keyspaceId) := by
      have direct := plain item List.mem_cons_self
      unfold replayItem opOf
      cases valueType : item.valueType with
      | indirection => exact absurd valueType direct
      | value | tombstone | weakTombstone =>
        cases found : known item.keyspaceId <;> simp [TreeOp.keyspaceId, found]
    obtain ⟨op, isOp, _⟩ := plain_item_op seqno item (plain item List.mem_cons_self)
    rw [replayItems, first, ih fun other member => plain other (List.mem_cons_of_mem _ member),
      List.filterMap_cons_some isOp, isOp, ← List.singleton_append, List.filter_append]
    rfl

theorem apply_plain_items (seqno : UInt64) (items : List BatchItem) (plain : ∀ item ∈ items, PlainItem item) (db : Database) :
    (applyItems seqno items).run db =
      .ok () { db with applied := (items.filterMap (opOf seqno)).reverse ++ db.applied } := by
  induction items generalizing db with
  | nil => rfl
  | cons item items ih =>
    obtain ⟨op, isOp, _, _, applies⟩ := plain_item_op seqno item (plain item List.mem_cons_self)
    rw [applyItems, applies, EStateM.run_bind]
    change (applyItems seqno items).run { db with applied := op :: db.applied } = _
    rw [ih fun other member => plain other (List.mem_cons_of_mem _ member), List.filterMap_cons_some isOp, List.reverse_cons,
      List.append_assoc, List.singleton_append]

variable {deps}

theorem with_journal_frame {α : Type} (d : WriterM α) (db after : Database) (result : Except IoError α)
    (run : (withJournal d).run db = .ok result after) : ∃ writer, after = { db with writer := writer } := by
  rw [EStateM.run, withJournal] at run
  split at run <;> cases run <;> exact ⟨_, rfl⟩

theorem check_poisoned_ok (db after : Database) (run : checkPoisoned.run db = .ok () after) :
    after = db ∧ db.isPoisoned = false := by
  cases poisoned : db.isPoisoned with
  | true =>
    rw [check_poisoned_refuses db poisoned] at run
    cases run
  | false =>
    rw [check_poisoned_healthy db poisoned] at run
    cases run
    exact ⟨rfl, rfl⟩

theorem write_journaled_applied (ks : Keyspace) (journal : UInt64 → WriterM Nat) (op : UInt64 → TreeOp) (db after : Database)
    (run : (writeJournaled ks journal fun seqno => applyOp (op seqno)).run db = .ok () after) :
    after.applied = op db.seqno :: db.applied ∧ after.isPoisoned = false := by
  obtain ⟨_, checked, checking, unpoisoned⟩ := bind_ok _ _ _ _ _ run
  obtain ⟨rfl, healthy⟩ := check_poisoned_ok db checked checking
  obtain ⟨seqno, numbered, numbering, journaling⟩ := bind_ok _ _ _ _ _ unpoisoned
  cases numbering
  obtain ⟨written, journaled, wrote, finishing⟩ := bind_ok _ _ _ _ _ journaling
  obtain ⟨writer, rfl⟩ := with_journal_frame _ _ _ _ wrote
  cases written with
  | error e => cases finishing
  | ok bytes =>
    obtain ⟨_, persisted, persisting, applying⟩ := bind_ok _ _ _ _ _ finishing
    rw [persist_unless_manual_run] at persisting
    obtain ⟨last, rfl⟩ := persist_outcome_ok _ _ _ _ persisting
    cases applying
    exact ⟨rfl, healthy⟩

theorem single_clean (call : KeyCall) (db : Database) (accepted : ¬ call.Refused db)
    (quiet : true ∉ db.writer.faults.take call.toSingle.fileCalls) :
    ∃ after, (call.toSingle.run deps).run db = .ok () after ∧
      after.writer.file = db.writer.file ++ encodeAll deps (frame deps db.seqno [call.entry db]) ∧
      after.applied = call.treeOp db.seqno :: db.applied ∧ after.isPoisoned = false := by
  obtain ⟨kept, healthy⟩ := not_or.mp accepted
  have deleted : call.toSingle.meetsDeleted = call.keyspace.isDeleted := by cases call <;> rfl
  have entries : call.toSingle.entries deps db = frame deps db.seqno [call.entry db] := by cases call <;> rfl
  have acknowledged : call.toSingle.Acknowledged db :=
    ⟨deleted.trans (Bool.eq_false_iff.mpr kept), Bool.eq_false_iff.mpr healthy, quiet, by cases call <;> rfl⟩
  have effect := call_effect deps db call.toSingle
  generalize outcome : (call.toSingle.run deps).run db = result at effect
  cases effect with
  | refused e refusal => exact absurd refusal (by rw [deleted]; exact accepted)
  | failed e after silent unacknowledged journaled => exact absurd acknowledged unacknowledged
  | cut e after written short _ _ faults journaled =>
    rw [faults] at quiet
    exact absurd (fault_in_take written _ _ (Nat.lt_of_lt_of_le short (three_file_calls call.toSingle))) quiet
  | done after _ journaled =>
    refine ⟨after, rfl, by rw [journaled.file, entries], ?_⟩
    have applied : (writeJournaled call.keyspace
        (writeRaw deps call.item.keyspaceId call.item.key call.item.value call.item.valueType)
        fun seqno => applyOp (call.treeOp seqno)).run db = .ok () after := by
      rw [← outcome, ← KeyCall.run_without_panic, KeyCall.run, if_neg kept]
      rfl
    exact write_journaled_applied _ _ _ db after applied

theorem commit_applied (batch : WriteBatch) (db after : Database) (nonempty : batch.data ≠ [])
    (run : (batch.commit deps).run db = .ok () after) :
    after.applied = (batch.data.filterMap (opOf db.seqno)).reverse ++ db.applied ∧ after.isPoisoned = false := by
  rw [WriteBatch.commit, if_neg (by simpa using nonempty)] at run
  obtain ⟨_, checked, checking, unpoisoned⟩ := bind_ok _ _ _ _ _ run
  obtain ⟨rfl, healthy⟩ := check_poisoned_ok db checked checking
  obtain ⟨seqno, numbered, numbering, journaling⟩ := bind_ok _ _ _ _ _ unpoisoned
  cases numbering
  obtain ⟨written, journaled, wrote, persisting⟩ := bind_ok _ _ _ _ _ journaling
  obtain ⟨writer, rfl⟩ := with_journal_frame _ _ _ _ wrote
  obtain ⟨_, persisted, persistence, applying⟩ := bind_ok _ _ _ _ _ persisting
  rw [persist_as_run] at persistence
  obtain ⟨last, rfl⟩ := persist_outcome_ok _ _ _ _ persistence
  obtain ⟨_, applied, application, publishing⟩ := bind_ok _ _ _ _ _ applying
  rw [apply_plain_items _ _ fun item member => (batch.wellFormed item member).2.2] at application
  cases application
  cases publishing
  exact ⟨rfl, healthy⟩

theorem commit_clean (batch : WriteBatch) (db : Database) (nonempty : batch.data ≠ []) (healthy : db.isPoisoned = false)
    (written : WritesSucceed db batch) (persists : ¬ PersistFails db batch) :
    ∃ after, (batch.commit deps).run db = .ok () after ∧
      after.writer.file = db.writer.file ++ encodeAll deps (frame deps db.seqno
        (batch.data.map (itemEntry db.writer.compression db.writer.compressionThreshold))) ∧
      after.applied = (batch.data.filterMap (opOf db.seqno)).reverse ++ db.applied ∧ after.isPoisoned = false := by
  have length : (frame deps db.seqno
      (batch.data.map (itemEntry db.writer.compression db.writer.compressionThreshold))).length = batch.data.length + 2 := by
    simp [frame]
  rcases @write_batch_outcome deps _ _ batch.data db.seqno nonempty db.writer ⟨rfl, rfl⟩ with
    ⟨next, run, file, _, dirty, quiet, left⟩ | ⟨e, next, stopped, run, file, _, dirty, short, fault⟩
  · rw [length] at quiet left
    have persists' := persist_fails_iff db batch next.faults (by rw [script_after_quiet _ _ quiet, left])
    rcases commit_outcome deps db batch nonempty healthy next _ dirty (with_journal_ok _ _ _ _ run) with
      ⟨fails, after, committed, kept⟩ | ⟨works, after, committed, same⟩
    · exact absurd (persists'.mpr fails) persists
    · exact ⟨after, committed, same.trans file, commit_applied batch db after nonempty committed⟩
  · rw [length] at short
    have early := fault_in_take stopped (batch.data.length + 2) next.faults short
    rw [← fault] at early
    exact absurd early written

-- The one place where the journal and the tree are told different things.
def ClientCall.WeakPair (call : ClientCall) (pair : TreeOp × TreeOp) : Prop :=
  ∃ ks key seqno, call = .single (.removeWeak ks key) ∧ ks.isDeleted = false ∧
    pair = (.removeWeak ks.id key seqno, .remove ks.id key seqno)

-- What an accepted call does: one batch for the journal, and next to what replay
-- will make of each of its items the operation that the tree gets.
structure Records (call : ClientCall) (db next : Database) (f : Frame deps) (pairs : List (TreeOp × TreeOp)) : Prop where
  file : next.writer.file = db.writer.file ++ f.bytes
  healthy : next.isPoisoned = false
  clears : f.batch.clearedKeyspaces = []
  plain : ∀ item ∈ f.batch.items, PlainItem item
  journaled : pairs.map Prod.fst = f.batch.items.filterMap (opOf f.seqno)
  applied : next.applied = (pairs.map Prod.snd).reverse ++ db.applied
  written : ∀ pair ∈ pairs, pair.1.entry.isSome = true ∧ pair.2.entry.isSome = true
  same : ∀ pair ∈ pairs, pair.1 = pair.2 ∨ call.WeakPair pair
  weak : ∀ ks key, call = .single (.removeWeak ks key) → ∃ pair ∈ pairs, call.WeakPair pair

def KeyCall.journalOp (seqno : UInt64) : KeyCall → TreeOp
  | insert ks key value => .insert ks.id key value seqno
  | remove ks key => .remove ks.id key seqno
  | removeWeak ks key => .removeWeak ks.id key seqno

theorem single_records (call : KeyCall) (db : Database) (accepted : ¬ call.Refused db)
    (quiet : true ∉ db.writer.faults.take call.toSingle.fileCalls) (fits : call.Fits deps db) :
    ∃ (f : Frame deps) (pairs : List (TreeOp × TreeOp)),
      Records (.single call) db ((ClientCall.single call).after deps db) f pairs := by
  obtain ⟨after, run, file, applied, healthy⟩ := single_clean call db accepted quiet
  have reached : (ClientCall.single call).after deps db = after := by
    rw [ClientCall.after, ClientCall.run, run]
  rw [reached]
  refine ⟨⟨db.seqno, [call.entry db], List.forall_mem_singleton.mpr (.item _ _ _ _ _ fits), by simp⟩,
    [(call.journalOp db.seqno, call.treeOp db.seqno)], {
      file := file
      healthy := healthy
      clears := rfl
      plain := List.forall_mem_singleton.mpr (by cases call <;> exact nofun)
      journaled := by cases call <;> rfl
      applied := applied
      written := List.forall_mem_singleton.mpr (by cases call <;> exact ⟨rfl, rfl⟩)
      same := List.forall_mem_singleton.mpr ?_
      weak := ?_ }⟩
  · cases call with
    | insert ks key value => exact .inl rfl
    | remove ks key => exact .inl rfl
    | removeWeak ks key => exact .inr ⟨ks, key, db.seqno, rfl, Bool.eq_false_iff.mpr (not_or.mp accepted).1, rfl⟩
  · intro ks key same
    cases same
    exact ⟨_, List.mem_singleton_self _, ks, key, db.seqno, rfl, Bool.eq_false_iff.mpr (not_or.mp accepted).1, rfl⟩

theorem commit_records (batch : WriteBatch) (db : Database) (nonempty : batch.data ≠ []) (healthy : db.isPoisoned = false)
    (written : WritesSucceed db batch) (persists : ¬ PersistFails db batch) (counted : batch.data.length < 2 ^ 32)
    (fits : ∀ item ∈ batch.data, (itemEntry db.writer.compression db.writer.compressionThreshold item).Fits deps) :
    ∃ (f : Frame deps) (pairs : List (TreeOp × TreeOp)),
      Records (.commit batch) db ((ClientCall.commit batch).after deps db) f pairs := by
  obtain ⟨after, run, file, applied, unpoisoned⟩ := @commit_clean deps batch db nonempty healthy written persists
  have reached : (ClientCall.commit batch).after deps db = after := by
    rw [ClientCall.after, ClientCall.run, run]
  obtain ⟨items, clears⟩ := read_items_back db.writer.compression db.writer.compressionThreshold batch.data
  have plain : ∀ item ∈ batch.data, PlainItem item := fun item member => (batch.wellFormed item member).2.2
  rw [reached]
  refine ⟨⟨db.seqno, batch.data.map (itemEntry db.writer.compression db.writer.compressionThreshold), ?_, by simpa using counted⟩,
    (batch.data.filterMap (opOf db.seqno)).map fun op => (op, op), {
      file := file
      healthy := unpoisoned
      clears := clears
      plain := by rw [Frame.batch, items]; exact plain
      journaled := by rw [Frame.batch, items, List.map_map]; exact List.map_id _
      applied := by rw [applied, List.map_map]; exact congrArg (·.reverse ++ _) (List.map_id _).symm
      written := ?_
      same := ?_
      weak := fun ks key same => nomatch same }⟩
  · intro entry member
    obtain ⟨item, inData, rfl⟩ := List.mem_map.mp member
    exact .item _ _ _ _ _ (fits item inData)
  · intro pair member
    obtain ⟨op, isOp, rfl⟩ := List.mem_map.mp member
    obtain ⟨item, inData, found⟩ := List.mem_filterMap.mp isOp
    obtain ⟨other, isOther, _, isSome, _⟩ := plain_item_op db.seqno item (plain item inData)
    cases found.symm.trans isOther
    exact ⟨isSome, isSome⟩
  · intro pair member
    obtain ⟨op, _, rfl⟩ := List.mem_map.mp member
    exact .inl rfl

theorem call_records (call : ClientCall) (db : Database) (healthy : db.isPoisoned = false) (clean : call.Clean deps db) :
    (call.after deps db = db ∧ ∀ ks key, call = .single (.removeWeak ks key) → ks.isDeleted = true) ∨
      ∃ (f : Frame deps) (pairs : List (TreeOp × TreeOp)), Records call db (call.after deps db) f pairs := by
  cases call with
  | single call =>
    by_cases refused : call.Refused db
    · refine .inl ⟨?_, ?_⟩
      · rw [ClientCall.after, ClientCall.run, ← KeyCall.run_without_panic]
        exact refused_changes_nothing deps _ call db refused
      · intro ks key same
        cases same
        exact refused.resolve_right (Bool.eq_false_iff.mp healthy)
    · obtain ⟨quiet, fits⟩ := clean.resolve_left refused
      exact .inr (single_records call db refused quiet fits)
  | commit batch =>
    by_cases empty : batch.data = []
    · refine .inl ⟨?_, fun ks key same => nomatch same⟩
      rw [ClientCall.after, ClientCall.run, WriteBatch.commit, if_pos (by simp [empty])]
      rfl
    · have poisoned : ¬ db.isPoisoned = true := Bool.eq_false_iff.mp healthy
      obtain ⟨written, persists, counted, fits⟩ := (clean.resolve_left empty).resolve_left poisoned
      exact .inr (commit_records batch db empty healthy written persists counted fits)

-- pairs lists everything written so far: what replay makes of the journal and
-- what the trees were told, in step.
structure Mirrored (past : List ClientCall) (db : Database) (frames : List (Frame deps)) (pairs : List (TreeOp × TreeOp)) :
    Prop where
  file : db.writer.file = framesBytes frames
  healthy : db.isPoisoned = false
  clears : ∀ f ∈ frames, f.batch.clearedKeyspaces = []
  plain : ∀ f ∈ frames, ∀ item ∈ f.batch.items, PlainItem item
  journaled : pairs.map Prod.fst = frames.flatMap fun f => f.batch.items.filterMap (opOf f.seqno)
  applied : pairs.map Prod.snd = db.applied.reverse
  written : ∀ pair ∈ pairs, pair.1.entry.isSome = true ∧ pair.2.entry.isSome = true
  same : ∀ pair ∈ pairs, pair.1 = pair.2 ∨ ∃ call ∈ past, call.WeakPair pair
  weak : ∀ ks key, .single (.removeWeak ks key) ∈ past → ks.isDeleted = false →
    ∃ pair ∈ pairs, (ClientCall.single (.removeWeak ks key)).WeakPair pair

variable (past : List ClientCall)
variable (db : Database)

theorem mirrored_step (call : ClientCall) (next : Database)
    (mirrored : ∃ (frames : List (Frame deps)) (pairs : List (TreeOp × TreeOp)), Mirrored past db frames pairs)
    (step : WriteStep deps db call next) :
    ∃ (frames : List (Frame deps)) (pairs : List (TreeOp × TreeOp)), Mirrored (past ++ [call]) next frames pairs := by
  obtain ⟨frames, pairs, inv⟩ := mirrored
  obtain ⟨clean, rfl⟩ := step
  rcases call_records call db inv.healthy clean with ⟨unchanged, deleted⟩ | ⟨f, more, records⟩
  · rw [unchanged]
    refine ⟨frames, pairs, { inv with
      same := fun pair member => (inv.same pair member).imp_right fun ⟨other, earlier, weak⟩ =>
        ⟨other, List.mem_append_left _ earlier, weak⟩
      weak := ?_ }⟩
    intro ks key member kept
    rcases List.mem_append.mp member with earlier | last
    · exact inv.weak ks key earlier kept
    · have removed := deleted ks key (List.mem_singleton.mp last).symm
      rw [kept] at removed
      cases removed
  · refine ⟨frames ++ [f], pairs ++ more, {
      file := by rw [records.file, inv.file, frames_bytes_append]; exact congrArg _ (List.append_nil _).symm
      healthy := records.healthy
      clears := List.forall_mem_append.mpr ⟨inv.clears, List.forall_mem_singleton.mpr records.clears⟩
      plain := List.forall_mem_append.mpr ⟨inv.plain, List.forall_mem_singleton.mpr records.plain⟩
      journaled := by rw [List.map_append, List.flatMap_append, List.flatMap_singleton, inv.journaled, records.journaled]
      applied := by rw [List.map_append, records.applied, List.reverse_append, List.reverse_reverse, inv.applied]
      written := List.forall_mem_append.mpr ⟨inv.written, records.written⟩
      same := List.forall_mem_append.mpr ⟨?_, ?_⟩
      weak := ?_ }⟩
    · intro pair member
      exact (inv.same pair member).imp_right fun ⟨other, earlier, weak⟩ => ⟨other, List.mem_append_left _ earlier, weak⟩
    · intro pair member
      exact (records.same pair member).imp_right fun weak => ⟨call, List.mem_append_right _ List.mem_cons_self, weak⟩
    · intro ks key member kept
      rcases List.mem_append.mp member with earlier | last
      · obtain ⟨pair, inPairs, weak⟩ := inv.weak ks key earlier kept
        exact ⟨pair, List.mem_append_left _ inPairs, weak⟩
      · have same := List.mem_singleton.mp last
        obtain ⟨pair, inMore, weak⟩ := records.weak ks key same.symm
        rw [← same] at weak
        exact ⟨pair, List.mem_append_right _ inMore, weak⟩

theorem replay_frames (frames : List (Frame deps)) (clears : ∀ f ∈ frames, f.batch.clearedKeyspaces = [])
    (plain : ∀ f ∈ frames, ∀ item ∈ f.batch.items, PlainItem item) :
    replayBatches known (frames.map Frame.batch) =
      some ((frames.flatMap fun f => f.batch.items.filterMap (opOf f.seqno)).filter fun op => known op.keyspaceId) := by
  induction frames with
  | nil => rfl
  | cons f frames ih =>
    have rest := ih (fun other member => clears other (List.mem_cons_of_mem _ member))
      (fun other member => plain other (List.mem_cons_of_mem _ member))
    rw [List.map_cons, replayBatches, replay_plain_items known f.batch.seqno _ (plain f List.mem_cons_self), rest,
      clears f List.mem_cons_self, List.flatMap_cons, List.filter_append]
    simp only [List.filter_nil, List.map_nil, List.append_nil]
    rfl

theorem replay_mirrored (past : List ClientCall) (db : Database) (frames : List (Frame deps)) (pairs : List (TreeOp × TreeOp))
    (inv : Mirrored past db frames pairs) :
    replayJournal deps known db.writer.file = some ((pairs.map Prod.fst).filter fun op => known op.keyspaceId) := by
  rw [replayJournal, inv.file, recover_batches _ _ (frames_hold frames), inv.journaled]
  exact replay_frames known frames inv.clears inv.plain

-- Two ways of reading off the same list that skip the same elements agree as lists
-- only if they agree on each element.
theorem read_off_equal {α β : Type} (f g : α → Option β) (l : List α) (aligned : ∀ a ∈ l, (f a).isSome = (g a).isSome) :
    l.filterMap f = l.filterMap g ↔ ∀ a ∈ l, f a = g a := by
  induction l with
  | nil => simp
  | cons a l ih =>
    have rest := ih fun other member => aligned other (List.mem_cons_of_mem _ member)
    have first := aligned a List.mem_cons_self
    rw [List.forall_mem_cons, ← rest]
    cases left : f a with
    | none =>
      cases right : g a with
      | none => simp [left, right]
      | some other => simp [left, right] at first
    | some one =>
      cases right : g a with
      | none => simp [left, right] at first
      | some other => simp [left, right]

theorem pair_keyspace (frames : List (Frame deps)) (pairs : List (TreeOp × TreeOp))
    (inv : Mirrored past db frames pairs) : ∀ pair ∈ pairs, pair.1.keyspaceId = pair.2.keyspaceId := by
  intro pair member
  rcases inv.same pair member with same | ⟨call, _, ks, key, seqno, _, _, rfl⟩
  · rw [same]
  · rfl

theorem journaled_written (frames : List (Frame deps)) (pairs : List (TreeOp × TreeOp))
    (inv : Mirrored past db frames pairs) : ∀ op ∈ pairs.map Prod.fst, op.entry.isSome = true := by
  intro op member
  obtain ⟨pair, inPairs, rfl⟩ := List.mem_map.mp member
  exact (inv.written pair inPairs).1

theorem applied_written (frames : List (Frame deps)) (pairs : List (TreeOp × TreeOp))
    (inv : Mirrored past db frames pairs) : ∀ op ∈ pairs.map Prod.snd, op.entry.isSome = true := by
  intro op member
  obtain ⟨pair, inPairs, rfl⟩ := List.mem_map.mp member
  exact (inv.written pair inPairs).2

theorem memtables_equal_iff (frames : List (Frame deps)) (pairs : List (TreeOp × TreeOp)) (inv : Mirrored past db frames pairs)
    (keyspaceId : UInt64) :
    memtable keyspaceId (pairs.map Prod.fst) = memtable keyspaceId db.applied.reverse ↔
      ∀ pair ∈ pairs, pair.1.keyspaceId = keyspaceId → pair.1.entry = pair.2.entry := by
  rw [← inv.applied, memtable_entries _ _ (journaled_written past db frames pairs inv),
    memtable_entries _ _ (applied_written past db frames pairs inv), List.filterMap_map, List.filterMap_map, read_off_equal]
  · refine forall₂_congr fun pair member => ?_
    simp only [Function.comp, TreeOp.entryIn, ← pair_keyspace past db frames pairs inv pair member]
    by_cases here : pair.1.keyspaceId = keyspaceId
    · simp [here]
    · simp [here]
  · intro pair member
    simp only [Function.comp, TreeOp.entryIn, ← pair_keyspace past db frames pairs inv pair member]
    by_cases here : pair.1.keyspaceId = keyspaceId
    · simp [here, inv.written pair member]
    · simp [here]

theorem mirrored_rebuilt_iff (past : List ClientCall) (db : Database) (frames : List (Frame deps))
    (pairs : List (TreeOp × TreeOp)) (inv : Mirrored past db frames pairs) :
    db.Rebuilt deps known ↔
      ∀ ks key, .single (.removeWeak ks key) ∈ past → ks.isDeleted = true ∨ known ks.id = false := by
  have rebuilt : db.Rebuilt deps known ↔ ∀ keyspaceId, known keyspaceId = true →
      ∀ pair ∈ pairs, pair.1.keyspaceId = keyspaceId → pair.1.entry = pair.2.entry := by
    rw [Database.Rebuilt, replay_mirrored known past db frames pairs inv]
    simp only [Option.some.injEq, exists_eq_left']
    refine forall₂_congr fun keyspaceId isKnown => ?_
    rw [memtable_known known keyspaceId _ (journaled_written past db frames pairs inv) isKnown,
      memtables_equal_iff past db frames pairs inv]
  rw [rebuilt]
  refine ⟨fun equal ks key member => ?_, fun absent keyspaceId isKnown pair member here => ?_⟩
  · by_contra visible
    obtain ⟨kept, isKnown⟩ := not_or.mp visible
    obtain ⟨pair, inPairs, _, _, number, same, _, rfl⟩ := inv.weak ks key member (Bool.eq_false_iff.mpr kept)
    cases same
    have entries := equal ks.id (Bool.not_eq_false _ ▸ isKnown) _ inPairs rfl
    cases entries
  · rcases inv.same pair member with same | ⟨call, earlier, ks, key, number, rfl, kept, rfl⟩
    · rw [same]
    · have unknown := (absent ks key earlier).resolve_left (by rw [kept]; exact Bool.false_ne_true)
      have same : ks.id = keyspaceId := here
      rw [same, isKnown] at unknown
      cases unknown

theorem fresh_mirrored (faults : List Bool) (compression : CompressionType) (threshold : Nat) (seqno : UInt64) :
    Mirrored [] (.fresh faults compression threshold seqno) ([] : List (Frame deps)) [] :=
  ⟨rfl, rfl, by simp, by simp, rfl, rfl, by simp, by simp, by simp⟩

theorem replay_rebuilds_memtables_iff (known : UInt64 → Bool) (faults : List Bool) (compression : CompressionType)
    (threshold : Nat) (seqno : UInt64) (calls : List ClientCall) (last : Database)
    (run : Run (WriteStep deps) (.fresh faults compression threshold seqno) calls last) :
    last.Rebuilt deps known ↔
      ∀ ks key, .single (.removeWeak ks key) ∈ calls → ks.isDeleted = true ∨ known ks.id = false := by
  obtain ⟨frames, pairs, inv⟩ := run_history (WriteStep deps)
    (fun past db => ∃ (frames : List (Frame deps)) (pairs : List (TreeOp × TreeOp)), Mirrored past db frames pairs)
    mirrored_step run [] ⟨[], [], fresh_mirrored faults compression threshold seqno⟩
  exact mirrored_rebuilt_iff known calls last frames pairs inv

def weakBatch : WriteBatch :=
  ⟨[⟨1, [0x62], .empty, .weakTombstone⟩, ⟨2, [0x61], .empty, .value⟩], some .buffer, by decide⟩

def firstInsert : ClientCall := .single (.insert ⟨1, false, false⟩ [0x61] .empty)

theorem weak_batch_replayed :
    ((ClientCall.commit weakBatch).after Dependencies.sample
      (firstInsert.after Dependencies.sample (.fresh [] .none 0 0))).Rebuilt Dependencies.sample fun _ => true := by
  have inserted : firstInsert.Clean Dependencies.sample (.fresh [] .none 0 0) := .inr ⟨by decide, by decide, by decide⟩
  have committed : (ClientCall.commit weakBatch).Clean Dependencies.sample
      (firstInsert.after Dependencies.sample (.fresh [] .none 0 0)) := by
    refine .inr (.inr ⟨?_, ?_, by decide, ?_⟩)
    · show true ∉ List.take 4 []
      decide
    · rintro ⟨mode, same, fails⟩
      cases same
      exact absurd fails (show true ∉ List.take 1 (scriptAfter 4 []) by decide)
    · intro item member
      rcases List.mem_pair.mp member with rfl | rfl
      · exact ⟨by decide, by decide⟩
      · exact ⟨by decide, by decide⟩
  refine (replay_rebuilds_memtables_iff _ [] .none 0 0 _ _
    (.cons firstInsert _ ⟨inserted, rfl⟩ (.cons (.commit weakBatch) _ ⟨committed, rfl⟩ (.nil _)))).mpr ?_
  intro ks key member
  simp [firstInsert] at member

def firstRemoveWeak : ClientCall := .single (.removeWeak ⟨1, false, false⟩ [0x61])

theorem remove_weak_replayed_differently :
    ¬ (firstRemoveWeak.after Dependencies.sample (.fresh [] .none 0 0)).Rebuilt Dependencies.sample fun _ => true := by
  have clean : firstRemoveWeak.Clean Dependencies.sample (.fresh [] .none 0 0) := .inr ⟨by decide, by decide, by decide⟩
  obtain ⟨frames, pairs, inv⟩ := mirrored_step [] _ firstRemoveWeak _ ⟨[], [], fresh_mirrored [] .none 0 0⟩ ⟨clean, rfl⟩
  rw [mirrored_rebuilt_iff _ _ _ frames pairs inv]
  intro absent
  cases absent _ _ List.mem_cons_self with
  | inl deleted => cases deleted
  | inr unknown => cases unknown

end OmryaKv.Write
