import OmryaKv.Storage.Projection
import OmryaKv.Lib.Run
import Mathlib.Data.List.Flatten

set_option autoImplicit false

namespace OmryaKv.Storage

open Lib

variable {Name K V : Type}

variable (db next : Database Name K V)

def Database.batched (db : Database Name K V) (batch : Batch K V) : Database Name K V :=
  db.journaled batch fun id => (batch.events id).foldl Tree.replay (db.trees id)

def Database.records (db : Database Name K V) : List (Batch K V) :=
  (db.sealedJournals.map SealedJournal.batches).flatten ++ db.journal

-- The operations besides ingestion, the deletion of keyspaces and the loss of
-- entries below the gc watermark.
def Op.Plain : Op Name K V → Prop
  | .ingest _ _ | .deleteKeyspace _ | .collect _ _ => False
  | _ => True

def Op.batch (seqno : Nat) : Op Name K V → Option (Batch K V)
  | .insert ks key value => some ⟨seqno, [⟨ks.id, ks.birth, key, .value value⟩], []⟩
  | .remove ks key => some ⟨seqno, [⟨ks.id, ks.birth, key, .tombstone⟩], []⟩
  | .removeWeak ks key => some ⟨seqno, [⟨ks.id, ks.birth, key, .weakTombstone⟩], []⟩
  | .commit batch => if batch.data.isEmpty then none else some ⟨seqno, batch.data, []⟩
  | .clear ks => some ⟨seqno, [], [⟨ks.id, ks.birth⟩]⟩
  | _ => none

-- The handles an operation works through all satisfy a condition.
def Op.Through (allowed : Keyspace → Prop) : Op Name K V → Prop
  | .insert ks _ _ | .remove ks _ | .removeWeak ks _ | .clear ks | .rotateMemtable ks | .flush ks | .collect ks _ | .ingest ks _ =>
    allowed ks
  | .commit batch => ∀ item ∈ batch.data, allowed ⟨item.keyspaceId, item.origin⟩
  | .takeSeqnos _ | .rotateJournal | .maintenance | .keyspace _ | .deleteKeyspace _ => True

-- A batch as the write paths build it, through handles that are in use.
structure Addressed [DecidableEq Name] (db : Database Name K V) (batch : Batch K V) : Prop where
  seqno : batch.seqno = db.seqno
  intact : batch.Intact
  items : ∀ item ∈ batch.items, db.Live ⟨item.keyspaceId, item.origin⟩
  marks : ∀ mark ∈ batch.clearedKeyspaces, db.Live ⟨mark.keyspaceId, mark.origin⟩

inductive Effect [DecidableEq Name] (db : Database Name K V) (op : Op Name K V) : Database Name K V → Prop where
  | idle : Effect db op db
  | wrote (batch : Batch K V) (addressed : Addressed db batch) : Effect db op (db.batched batch)
  | rotatedMemtable (ks : Keyspace) (memtable : List (Entry K V)) (t : Tree K V)
      (rotated : (db.trees ks.id).rotateMemtable = some (memtable, t)) :
      Effect db op { db with trees := Function.update db.trees ks.id t }
  | flushed (ks : Keyspace) : Effect db op (db.flush ks)
  | took (count : Nat) : Effect db op (db.takeSeqnos count)
  | rotatedJournal : Effect db op db.rotateJournal
  | maintained : Effect db op db.maintenance
  | created (name : Name) (asked : op = .keyspace name) (absent : db.keyspaces.lookup name = none) :
      Effect db op (db.keyspace name)

-- What an operation does that journals nothing.
inductive Silent [DecidableEq Name] (db : Database Name K V) : Op Name K V → Database Name K V → Prop where
  | emptyCommit (batch : WriteBatch K V) : Silent db (.commit batch) db
  | emptyMemtable (ks : Keyspace) : Silent db (.rotateMemtable ks) db
  | rotatedMemtable (ks : Keyspace) (memtable : List (Entry K V)) (t : Tree K V)
      (rotated : (db.trees ks.id).rotateMemtable = some (memtable, t)) :
      Silent db (.rotateMemtable ks) { db with trees := Function.update db.trees ks.id t }
  | flushed (ks : Keyspace) : Silent db (.flush ks) (db.flush ks)
  | collected (ks : Keyspace) (kept : List (Entry K V)) : Silent db (.collect ks kept) (db.collect ks kept)
  | took (count : Nat) : Silent db (.takeSeqnos count) (db.takeSeqnos count)
  | rotatedJournal : Silent db .rotateJournal db.rotateJournal
  | maintained : Silent db .maintenance db.maintenance
  | ingested (ks : Keyspace) (pairs : List (K × Option V)) : Silent db (.ingest ks pairs) (db.ingest ks pairs)
  | opened (name : Name) (ks : Keyspace) (found : db.keyspaces.lookup name = some ks) : Silent db (.keyspace name) db
  | created (name : Name) (absent : db.keyspaces.lookup name = none) : Silent db (.keyspace name) (db.keyspace name)
  | deleted (name : Name) : Silent db (.deleteKeyspace name) (db.deleteKeyspace name)

theorem single_write_trees (trees : Trees K V) (ks : Keyspace) (key : K) (payload : Payload V) (seqno : Nat) :
    modifyTree trees ks.id (fun t => t.put ⟨key, seqno, payload.stored, ks.birth⟩) =
      fun id => (Batch.events id ⟨seqno, [⟨ks.id, ks.birth, key, payload⟩], []⟩).foldl Tree.replay (trees id) := by
  funext id
  by_cases here : id = ks.id
  · subst here
    simp [modifyTree, Batch.events, itemEvents, clearEvents, Tree.replay, Item.entry]
  · simp [modifyTree, Function.update_of_ne here, Batch.events, itemEvents, clearEvents, Ne.symm here]

theorem single_write_batched (ks : Keyspace) (key : K) (payload : Payload V) :
    db.journaled ⟨db.seqno, [⟨ks.id, ks.birth, key, payload⟩], []⟩
        (modifyTree db.trees ks.id fun t => t.put ⟨key, db.seqno, payload.stored, ks.birth⟩) =
      db.batched ⟨db.seqno, [⟨ks.id, ks.birth, key, payload⟩], []⟩ := by
  rw [single_write_trees, Database.batched]

theorem clear_trees (trees : Trees K V) (ks : Keyspace) (seqno : Nat) :
    modifyTree trees ks.id Tree.clear =
      fun id => (Batch.events id ⟨seqno, [], [⟨ks.id, ks.birth⟩]⟩).foldl Tree.replay (trees id) := by
  funext id
  by_cases here : id = ks.id
  · subst here
    simp [modifyTree, Batch.events, itemEvents, clearEvents, Tree.replay]
  · simp [modifyTree, Function.update_of_ne here, Batch.events, itemEvents, clearEvents, Ne.symm here]

theorem commit_trees (trees : Trees K V) (seqno : Nat) (items : List (Item K V))
    (intact : ∀ item ∈ items, item.payload ≠ .indirection) :
    items.foldlM (fun trees item => applyItemTo trees item.keyspaceId seqno item) trees =
      .ok fun id => (itemEvents id seqno items).foldl Tree.replay (trees id) := by
  induction items generalizing trees with
  | nil => rfl
  | cons item rest ih =>
    have first : applyItemTo trees item.keyspaceId seqno item =
        .ok (Function.update trees item.keyspaceId ((trees item.keyspaceId).put (item.entry seqno))) := by
      rw [applyItemTo, apply_item_intact seqno item (intact item (by simp))]
      rfl
    have later := ih (Function.update trees item.keyspaceId ((trees item.keyspaceId).put (item.entry seqno)))
      fun other member => intact other (List.mem_cons_of_mem _ member)
    rw [List.foldlM_cons, first]
    refine later.trans (congrArg Except.ok ?_)
    funext id
    by_cases here : item.keyspaceId = id
    · subst here
      simp [itemEvents, Tree.replay]
    · simp [itemEvents, here, Function.update_of_ne (Ne.symm here)]

theorem evict_suffix (journals : List (SealedJournal K V)) : db.evict journals <:+ journals := by
  induction journals with
  | nil => exact List.suffix_rfl
  | cons journal rest ih =>
    unfold Database.evict
    split
    · exact ih.trans (List.suffix_cons journal rest)
    · exact List.suffix_rfl

theorem batched_records (batch : Batch K V) : (db.batched batch).records = db.records ++ [batch] := by
  simp [Database.records, Database.batched, Database.journaled]

theorem rotate_journal_records : db.rotateJournal.records = db.records := by
  simp [Database.records, Database.rotateJournal]

theorem maintenance_records : List.Sublist db.maintenance.records db.records :=
  ((evict_suffix db db.sealedJournals).sublist.map _).flatten.append_right _

theorem batch_through (allowed : Keyspace → Prop) (op : Op Name K V) (seqno : Nat) (batch : Batch K V)
    (through : op.Through allowed) (logged : op.batch seqno = some batch) :
    (∀ item ∈ batch.items, allowed ⟨item.keyspaceId, item.origin⟩) ∧
      ∀ mark ∈ batch.clearedKeyspaces, allowed ⟨mark.keyspaceId, mark.origin⟩ := by
  cases op with
  | insert ks key value | remove ks key | removeWeak ks key =>
    cases logged
    exact ⟨by simpa [Op.Through] using through, by simp⟩
  | clear ks =>
    cases logged
    exact ⟨by simp, by simpa [Op.Through] using through⟩
  | commit writes =>
    simp only [Op.batch] at logged
    split at logged
    · cases logged
    · cases logged
      exact ⟨through, by simp⟩
  | _ => cases logged

variable [DecidableEq Name]

theorem keyspace_records (name : Name) : (db.keyspace name).records = db.records := by
  unfold Database.keyspace
  split <;> rfl

theorem delete_records (name : Name) : (db.deleteKeyspace name).records = db.records := by
  unfold Database.deleteKeyspace
  split <;> rfl

variable (op : Op Name K V)

-- What a write does does not depend on its handle being in use.
theorem perform_writes (performed : db.perform op = .ok next) (batch : Batch K V)
    (logged : op.batch db.seqno = some batch) : next = db.batched batch ∧ batch.seqno = db.seqno ∧ batch.Intact := by
  cases op with
  | insert ks key value =>
    cases logged
    cases performed
    exact ⟨single_write_batched db ks key (.value value), rfl, by simp [Batch.Intact]⟩
  | remove ks key =>
    cases logged
    cases performed
    exact ⟨single_write_batched db ks key .tombstone, rfl, by simp [Batch.Intact]⟩
  | removeWeak ks key =>
    cases logged
    cases performed
    exact ⟨single_write_batched db ks key .weakTombstone, rfl, by simp [Batch.Intact]⟩
  | commit writes =>
    simp only [Op.batch] at logged
    split at logged
    · cases logged
    · rename_i busy
      cases logged
      rw [Database.perform, Database.commit, if_neg busy, commit_trees db.trees db.seqno writes.data writes.wellFormed] at performed
      cases performed
      refine ⟨?_, rfl, writes.wellFormed⟩
      simp [Database.batched, Batch.events, clearEvents]
  | clear ks =>
    cases logged
    cases performed
    refine ⟨?_, rfl, by simp [Batch.Intact]⟩
    rw [Database.clear, clear_trees]
    rfl
  | _ => cases logged

theorem step_writes (step : Step db op next) (batch : Batch K V)
    (logged : op.batch db.seqno = some batch) : next = db.batched batch ∧ Addressed db batch := by
  obtain ⟨enabled, performed⟩ := step
  obtain ⟨shape, seqno, intact⟩ := perform_writes db next op performed batch logged
  have through : op.Through db.Live := by
    cases op with
    | ingest | collect => cases logged
    | _ => exact enabled
  obtain ⟨items, marks⟩ := batch_through db.Live op db.seqno batch through logged
  exact ⟨shape, seqno, intact, items, marks⟩

theorem perform_silent (performed : db.perform op = .ok next) (logged : op.batch db.seqno = none) : Silent db op next := by
  cases op with
  | insert ks key value | remove ks key | removeWeak ks key | clear ks => cases logged
  | commit writes =>
    simp only [Op.batch] at logged
    split at logged
    · rename_i empty
      rw [Database.perform, Database.commit, if_pos empty] at performed
      cases performed
      exact .emptyCommit writes
    · cases logged
  | rotateMemtable ks =>
    cases performed
    unfold Database.rotateMemtable
    cases rotated : (db.trees ks.id).rotateMemtable with
    | none => exact .emptyMemtable ks
    | some rotation => exact .rotatedMemtable ks rotation.1 rotation.2 rotated
  | flush ks =>
    cases performed
    exact .flushed ks
  | collect ks kept =>
    cases performed
    exact .collected ks kept
  | takeSeqnos count =>
    cases performed
    exact .took count
  | rotateJournal =>
    cases performed
    exact .rotatedJournal
  | maintenance =>
    cases performed
    exact .maintained
  | ingest ks pairs =>
    cases performed
    exact .ingested ks pairs
  | keyspace name =>
    cases performed
    cases found : db.keyspaces.lookup name with
    | none => exact .created name found
    | some ks =>
      rw [keyspace_existing db name ks found]
      exact .opened name ks found
  | deleteKeyspace name =>
    cases performed
    exact .deleted name

theorem step_effect (step : Step db op next) : (op.Plain ∧ Effect db op next) ∨
      (∃ ks pairs, op = .ingest ks pairs ∧ db.Live ks ∧ (pairs.map Prod.fst).Nodup ∧ next = db.ingest ks pairs) ∨
      (∃ name, op = .deleteKeyspace name ∧ next = db.deleteKeyspace name) ∨
      ∃ ks kept, op = .collect ks kept ∧ db.Live ks ∧ Collected (db.trees ks.id).tables kept ∧ next = db.collect ks kept := by
  cases logged : op.batch db.seqno with
  | some batch =>
    obtain ⟨rfl, addressed⟩ := step_writes db next op step batch logged
    have plain : op.Plain := by cases op <;> trivial
    exact .inl ⟨plain, .wrote batch addressed⟩
  | none =>
    obtain ⟨enabled, performed⟩ := step
    cases perform_silent db next op performed logged with
    | emptyCommit batch => exact .inl ⟨trivial, .idle⟩
    | emptyMemtable ks => exact .inl ⟨trivial, .idle⟩
    | rotatedMemtable ks memtable t rotated => exact .inl ⟨trivial, .rotatedMemtable ks memtable t rotated⟩
    | flushed ks => exact .inl ⟨trivial, .flushed ks⟩
    | collected ks kept => exact .inr (.inr (.inr ⟨ks, kept, rfl, enabled.1, enabled.2, rfl⟩))
    | took count => exact .inl ⟨trivial, .took count⟩
    | rotatedJournal => exact .inl ⟨trivial, .rotatedJournal⟩
    | maintained => exact .inl ⟨trivial, .maintained⟩
    | ingested ks pairs => exact .inr (.inl ⟨ks, pairs, rfl, enabled.1, enabled.2, rfl⟩)
    | opened name ks found => exact .inl ⟨trivial, .idle⟩
    | created name absent => exact .inl ⟨trivial, .created name rfl absent⟩
    | deleted name => exact .inr (.inr (.inl ⟨name, rfl, rfl⟩))

theorem step_journal (step : Step db op next) (unrotated : op ≠ .rotateJournal) (unevicted : op ≠ .maintenance) :
    next.journal = db.journal ++ (op.batch db.seqno).toList ∧ next.sealedJournals = db.sealedJournals := by
  cases logged : op.batch db.seqno with
  | some batch =>
    obtain ⟨rfl, _⟩ := step_writes db next op step batch logged
    exact ⟨rfl, rfl⟩
  | none =>
    rw [Option.toList_none, List.append_nil]
    cases perform_silent db next op step.2 logged with
    | rotatedJournal => exact absurd rfl unrotated
    | maintained => exact absurd rfl unevicted
    | created name absent =>
      rw [keyspace_created db name absent]
      exact ⟨rfl, rfl⟩
    | deleted name =>
      unfold Database.deleteKeyspace
      split <;> exact ⟨rfl, rfl⟩
    | _ => exact ⟨rfl, rfl⟩

-- A record in the journals was there before, or is the one that the operation writes.
theorem step_records (step : Step db op next) (batch : Batch K V)
    (member : batch ∈ next.records) : batch ∈ db.records ∨ op.batch db.seqno = some batch := by
  by_cases rotated : op = .rotateJournal
  · subst rotated
    cases step.2
    exact .inl (rotate_journal_records db ▸ member)
  by_cases evicted : op = .maintenance
  · subst evicted
    cases step.2
    exact .inl ((maintenance_records db).subset member)
  obtain ⟨journal, sealedJournals⟩ := step_journal db next op step rotated evicted
  rw [Database.records, journal, sealedJournals, ← List.append_assoc] at member
  exact (List.mem_append.mp member).imp id fun written => by simpa using written

end OmryaKv.Storage
