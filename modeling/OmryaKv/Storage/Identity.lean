import OmryaKv.Storage.CrashRecovery
import OmryaKv.Storage.Refill

set_option autoImplicit false

namespace OmryaKv.Storage

open Lib

variable {Name K V : Type}

variable (db next : Database Name K V)

-- The life of a database over several sessions. Closing leaves what a crash leaves.
inductive Life (Name K V : Type) where
  | session (op : Op Name K V)
  | reopen (order : IterationOrder Nat)

def Batch.writers (batch : Batch K V) : List Keyspace :=
  (batch.items.map fun item => ⟨item.keyspaceId, item.origin⟩) ++
    batch.clearedKeyspaces.map fun mark => ⟨mark.keyspaceId, mark.origin⟩

def Database.Carried (db : Database Name K V) (id : Nat) : Prop :=
  ∃ batch ∈ db.records, ∃ writer ∈ batch.writers, writer.id = id

variable [DecidableEq Name]

def LifeStep (db : Database Name K V) (label : Life Name K V) (next : Database Name K V) : Prop :=
  match label with
  | .session op => Step db op next
  | .reopen order => Reopens order db.crash next

-- A keyspace is only created under an id that no record in a journal carries.
def FreshId (db : Database Name K V) : Life Name K V → Prop
  | .session (.keyspace name) => db.keyspaces.lookup name = none → ¬ db.Carried db.keyspaceIdCounter
  | _ => True

-- Recovery of the database as it stands applies a record, if at all, to the
-- keyspace it was written through.
def Database.RecordsAtHome (db : Database Name K V) : Prop :=
  ∀ batch ∈ db.records, ∀ writer ∈ batch.writers, ∀ ks, (recoverKeyspaces db.crash).resolve writer.id = some ks → ks = writer

def Database.EntriesAtHome (db : Database Name K V) : Prop :=
  ∀ ks, db.Live ks → ∀ entry ∈ (db.trees ks.id).all, entry.origin = ks.birth

structure Owned (db : Database Name K V) : Prop where
  cataloged : Cataloged db
  born : ∀ ks, db.Live ks → ks.birth < db.births
  writersBorn : ∀ batch ∈ db.records, ∀ writer ∈ batch.writers, writer.birth < db.births
  writers : ∀ batch ∈ db.records, ∀ writer ∈ batch.writers, ∀ ks, db.Live ks → ks.id = writer.id → ks = writer
  entries : db.EntriesAtHome

theorem owned_new : Owned (Database.new : Database Name K V) := by
  constructor
  · exact cataloged_new
  · simp [Database.new, Database.Live]
  · simp [Database.new, Database.records]
  · simp [Database.new, Database.records]
  · simp [Database.EntriesAtHome, Database.new, Database.Live]

theorem owned_records_at_home (owned : Owned db) : db.RecordsAtHome := by
  intro batch member writer wrote ks resolved
  have reopened := recover_keyspaces_reopens db owned.cataloged
  have same := resolve_id _ reopened.cataloged writer.id ks resolved
  obtain ⟨name, found⟩ := (resolve_live _ reopened.cataloged ks).mp (same ▸ resolved)
  exact owned.writers batch member writer wrote ks ⟨name, reopened.keyspaces name ▸ found⟩ same

theorem addressed_writers (batch : Batch K V) (addressed : Addressed db batch) :
    ∀ writer ∈ batch.writers, db.Live writer := by
  intro writer member
  rcases List.mem_append.mp member with item | mark
  · obtain ⟨source, sourceMember, rfl⟩ := List.mem_map.mp item
    exact addressed.items source sourceMember
  · obtain ⟨source, sourceMember, rfl⟩ := List.mem_map.mp mark
    exact addressed.marks source sourceMember

omit [DecidableEq Name] in
theorem batch_put_writer (id : Nat) (batch : Batch K V) (entry : Entry K V) (member : .put entry ∈ batch.events id) :
    ⟨id, entry.origin⟩ ∈ batch.writers := by
  rcases List.mem_append.mp member with put | clear
  · obtain ⟨item, filtered, same⟩ := List.mem_map.mp put
    obtain ⟨itemMember, here⟩ := List.mem_filter.mp filtered
    cases same
    have here : item.keyspaceId = id := by simpa using here
    exact List.mem_append_left _ (List.mem_map.mpr ⟨item, itemMember, by rw [here]; rfl⟩)
  · obtain ⟨mark, -, impossible⟩ := List.mem_map.mp clear
    cases impossible

theorem owned_wrote (owned : Owned db) (batch : Batch K V) (addressed : Addressed db batch) :
    Owned (db.batched batch) := by
  have records := batched_records db batch
  have live := addressed_writers db batch addressed
  constructor
  · exact cataloged_of_same db _ owned.cataloged rfl rfl rfl rfl
  · exact owned.born
  · rw [records]
    refine List.forall_mem_append.mpr ⟨owned.writersBorn, ?_⟩
    simp only [List.forall_mem_singleton]
    exact fun writer member => owned.born writer (live writer member)
  · rw [records]
    refine List.forall_mem_append.mpr ⟨owned.writers, ?_⟩
    simp only [List.forall_mem_singleton]
    exact fun writer member ks ksLive same => live_id_unique db owned.cataloged ks writer ksLive (live writer member) same
  · intro ks ksLive entry member
    rw [Database.batched, Database.journaled, replay_all] at member
    rcases contents_mem _ _ entry member with old | new
    · exact owned.entries ks ksLive entry old
    · have writer := live _ (batch_put_writer ks.id batch entry new)
      have same := live_id_unique db owned.cataloged ks _ ksLive writer rfl
      rw [same]

theorem owned_moved (owned : Owned db) (names : next.metaNames = db.metaNames)
    (keyspaces : next.keyspaces = db.keyspaces) (folders : next.folders = db.folders)
    (counter : next.keyspaceIdCounter = db.keyspaceIdCounter) (births : next.births = db.births)
    (records : ∀ batch ∈ next.records, batch ∈ db.records)
    (entries : ∀ id, ∀ entry ∈ (next.trees id).all, entry ∈ (db.trees id).all) : Owned next := by
  have lives : ∀ ks, next.Live ks ↔ db.Live ks := by
    intro ks
    rw [Database.Live, Database.Live, keyspaces]
  constructor
  · exact cataloged_of_same db next owned.cataloged names keyspaces folders counter
  · rw [births]
    exact fun ks live => owned.born ks ((lives ks).mp live)
  · rw [births]
    exact fun batch member => owned.writersBorn batch (records batch member)
  · exact fun batch member writer wrote ks live => owned.writers batch (records batch member) writer wrote ks ((lives ks).mp live)
  · exact fun ks live entry member => owned.entries ks ((lives ks).mp live) entry (entries ks.id entry member)

theorem owned_created (owned : Owned db) (name : Name) (absent : db.keyspaces.lookup name = none)
    (fresh : ¬ db.Carried db.keyspaceIdCounter) : Owned (db.keyspace name) := by
  have shape := keyspace_created db name absent
  have lives := live_after_keyspace db name absent
  have records := keyspace_records db name
  have births : (db.keyspace name).births = db.births + 1 := by
    rw [shape]
  constructor
  · exact cataloged_keyspace db owned.cataloged name
  · intro ks live
    rw [births]
    rcases (lives ks).mp live with rfl | old
    · exact Nat.lt_succ_self _
    · exact Nat.lt_succ_of_lt (owned.born ks old)
  · rw [records, births]
    exact fun batch member writer wrote => Nat.lt_succ_of_lt (owned.writersBorn batch member writer wrote)
  · rw [records]
    intro batch member writer wrote ks live same
    rcases (lives ks).mp live with rfl | old
    · exact absurd ⟨batch, member, writer, wrote, same.symm⟩ fresh
    · exact owned.writers batch member writer wrote ks old same
  · intro ks live entry member
    rw [shape] at member
    rcases (lives ks).mp live with rfl | old
    · simp [Tree.empty, Tree.all, Tree.memtables] at member
    · have different : ks.id ≠ db.keyspaceIdCounter := Nat.ne_of_lt (owned.cataloged.numbered ks old)
      simp only [Function.update_of_ne different] at member
      exact owned.entries ks old entry member

theorem owned_deleted (owned : Owned db) (name : Name) : Owned (db.deleteKeyspace name) := by
  cases found : db.keyspaces.lookup name with
  | none => rwa [delete_missing db name found]
  | some deleted =>
    have shape := delete_existing db name deleted found
    have lives := live_after_delete db owned.cataloged name deleted found
    have records := delete_records db name
    have births : (db.deleteKeyspace name).births = db.births := by
      rw [shape]
    constructor
    · exact cataloged_delete db owned.cataloged name
    · rw [births]
      exact fun ks live => owned.born ks ((lives ks).mp live).1
    · rw [records, births]
      exact owned.writersBorn
    · rw [records]
      exact fun batch member writer wrote ks live => owned.writers batch member writer wrote ks ((lives ks).mp live).1
    · intro ks live entry member
      obtain ⟨old, different⟩ := (lives ks).mp live
      rw [shape] at member
      simp only [Function.update_of_ne different] at member
      exact owned.entries ks old entry member

theorem owned_ingested (owned : Owned db) (ks : Keyspace) (live : db.Live ks)
    (pairs : List (K × Option V)) : Owned (db.ingest ks pairs) := by
  refine ⟨cataloged_of_same db _ owned.cataloged rfl rfl rfl rfl, owned.born, owned.writersBorn, owned.writers, ?_⟩
  apply entries_update db owned.cataloged (fun ks entry => entry.origin = ks.birth) ks live _ _ owned.entries _ rfl
  intro entry member
  simp only [Tree.ingest, Tree.all, Tree.memtables, List.flatten_nil, List.append_nil, List.nil_append] at member
  rcases List.mem_append.mp member with new | old
  · obtain ⟨pair, -, rfl⟩ := List.mem_map.mp new
    rfl
  · exact owned.entries ks live entry old

theorem owned_took (owned : Owned db) (count : Nat) : Owned (db.takeSeqnos count) :=
  owned_moved db _ owned rfl rfl rfl rfl rfl (fun _ member => member) fun _ _ member => member

theorem owned_collected (owned : Owned db) (ks : Keyspace) (kept : List (Entry K V))
    (collected : Collected (db.trees ks.id).tables kept) : Owned (db.collect ks kept) := by
  refine owned_moved db _ owned rfl rfl rfl rfl rfl (fun _ member => member) ?_
  intro id entry member
  by_cases here : id = ks.id
  · subst here
    simp only [Database.collect, modifyTree, Function.update_self] at member
    exact (List.mem_append.mp member).elim (List.mem_append_left _) fun stored =>
      List.mem_append_right _ (collected.stored.subset stored)
  · simpa only [Database.collect, modifyTree, Function.update_of_ne here] using member

theorem owned_effect (op : Op Name K V) (owned : Owned db) (effect : Effect db op next)
    (fresh : FreshId db (.session op)) : Owned next := by
  cases effect with
  | idle => exact owned
  | wrote batch addressed => exact owned_wrote db owned batch addressed
  | rotatedMemtable ks memtable t rotated =>
    refine owned_moved db _ owned rfl rfl rfl rfl rfl (fun _ member => member) ?_
    intro id entry member
    by_cases here : id = ks.id
    · subst here
      simpa only [Function.update_self, Tree.rotate_memtable_all _ _ _ rotated] using member
    · simpa only [Function.update_of_ne here] using member
  | flushed ks =>
    refine owned_moved db _ owned rfl rfl rfl rfl rfl (fun _ member => member) ?_
    intro id entry member
    by_cases here : id = ks.id
    · subst here
      simpa only [Database.flush, modifyTree, Function.update_self, Tree.flush_all] using member
    · simpa only [Database.flush, modifyTree, Function.update_of_ne here] using member
  | took count => exact owned_took db owned count
  | rotatedJournal =>
    refine owned_moved db _ owned rfl rfl rfl rfl rfl ?_ fun _ _ member => member
    exact fun batch member => rotate_journal_records db ▸ member
  | maintained =>
    refine owned_moved db _ owned rfl rfl rfl rfl rfl ?_ fun _ _ member => member
    exact fun batch member => (maintenance_records db).subset member
  | created name asked absent =>
    subst asked
    exact owned_created db owned name absent (fresh absent)

theorem at_home_fits (base : Database Name K V) (batch : Batch K V)
    (home : ∀ writer ∈ batch.writers, ∀ ks, base.resolve writer.id = some ks → ks = writer) :
    batch.Fits (fun ks entry => entry.origin = ks.birth) base := by
  intro item member ks target
  have writer := home ⟨item.keyspaceId, item.origin⟩ (List.mem_append_left _ (List.mem_map_of_mem member)) ks target
  rw [writer]
  rfl

theorem owned_reopened (order : IterationOrder Nat) (db next : Database Name K V) (owned : Owned db)
    (recovered : recover order db.crash = .ok next) : Owned next := by
  have reopened := recover_keyspaces_reopens db owned.cataloged
  have home := owned_records_at_home db owned
  have lives : ∀ ks, (recoverKeyspaces db.crash).Live ks ↔ db.Live ks := by
    intro ks
    simp only [Database.Live, reopened.keyspaces]
  have initial : Refilled (fun ks entry => entry.origin = ks.birth) (recoverKeyspaces db.crash) db.crash.sealedJournals
      (recoverKeyspaces db.crash) := by
    refine ⟨rfl, by simp [reopened.sealedJournals], ?_⟩
    intro ks live entry member
    rw [reopened.trees ks ((lives ks).mp live)] at member
    simp only [Tree.recovered, Tree.all, Tree.memtables, List.flatten_nil, List.append_nil, List.nil_append] at member
    exact owned.entries ks ((lives ks).mp live) entry (List.mem_append_right _ member)
  have refilled := refilled_recover _ order db.crash next reopened.cataloged initial
    (fun batches member batch inside => at_home_fits _ batch
      (home batch (List.mem_append_left _ (List.mem_flatten.mpr ⟨batches, member, inside⟩))))
    (fun batch member => at_home_fits _ batch (home batch (List.mem_append_right _ member))) recovered
  have keyspaces : next.keyspaces = (recoverKeyspaces db.crash).keyspaces := by
    rw [refilled.frame]
  have births : next.births = db.births := by
    rw [refilled.frame]
    exact reopened.births
  have nextLives : ∀ ks, next.Live ks ↔ db.Live ks := by
    intro ks
    rw [← lives ks, Database.Live, Database.Live, keyspaces]
  have records : ∀ batch ∈ next.records, batch ∈ db.records := by
    intro batch member
    rcases List.mem_append.mp member with sealed | active
    · obtain ⟨batches, batchesMember, inside⟩ := List.mem_flatten.mp sealed
      obtain ⟨journal, journalMember, rfl⟩ := List.mem_map.mp batchesMember
      exact List.mem_append_left _ (List.mem_flatten.mpr ⟨_, refilled.sealed journal journalMember, inside⟩)
    · rw [refilled.frame] at active
      exact List.mem_append_right _ (reopened.journal ▸ active)
  constructor
  · rw [refilled.frame]
    exact cataloged_of_same _ _ reopened.cataloged rfl rfl rfl rfl
  · rw [births]
    exact fun ks live => owned.born ks ((nextLives ks).mp live)
  · rw [births]
    exact fun batch member => owned.writersBorn batch (records batch member)
  · exact fun batch member writer wrote ks live =>
      owned.writers batch (records batch member) writer wrote ks ((nextLives ks).mp live)
  · exact fun ks live => refilled.entries ks ((lives ks).mpr ((nextLives ks).mp live))

theorem owned_step (label : Life Name K V) (owned : Owned db) (fresh : FreshId db label)
    (step : LifeStep db label next) : Owned next := by
  cases label with
  | reopen order =>
    obtain ⟨base, taken, recovered⟩ := step
    exact owned_took base (owned_reopened order db base owned recovered) taken
  | session op =>
    rcases step_effect db next op step with
      ⟨-, effect⟩ | ⟨ks, pairs, -, live, -, rfl⟩ | ⟨name, -, rfl⟩ | ⟨ks, kept, -, live, collected, rfl⟩
    · exact owned_effect db next op owned effect fresh
    · exact owned_ingested db owned ks live pairs
    · exact owned_deleted db owned name
    · exact owned_collected db owned ks kept collected

theorem owned_run (labels : List (Life Name K V)) (db : Database Name K V)
    (run : Run (Guarded LifeStep FreshId) Database.new labels db) : Owned db := by
  apply run_invariant _ Owned _ run owned_new
  intro state label next owned guarded
  exact owned_step state next label owned guarded.1 guarded.2

-- Handing out an id that a record carries: the next recovery gives the record
-- to the new keyspace.
theorem reused_id_captures_record (owned : Owned db) (name : Name)
    (absent : db.keyspaces.lookup name = none) (carried : db.Carried db.keyspaceIdCounter) :
    ¬ (db.keyspace name).RecordsAtHome := by
  intro home
  obtain ⟨batch, member, writer, wrote, same⟩ := carried
  have cataloged := cataloged_keyspace db owned.cataloged name
  have reopened := recover_keyspaces_reopens (db.keyspace name) cataloged
  have records := keyspace_records db name
  have live := (live_after_keyspace db name absent ⟨db.keyspaceIdCounter, db.births⟩).mpr (.inl rfl)
  obtain ⟨liveName, found⟩ := live
  have resolved := (resolve_live _ reopened.cataloged ⟨db.keyspaceIdCounter, db.births⟩).mpr
    ⟨liveName, by rw [reopened.keyspaces liveName]; exact found⟩
  have captured := home batch (records ▸ member) writer wrote _ (same ▸ resolved)
  have born := owned.writersBorn batch member writer wrote
  rw [← captured] at born
  exact Nat.lt_irrefl _ born

-- As long as every new keyspace gets an id that the journals do not know, no
-- record and no entry changes keyspace over any number of sessions. The first
-- creation under a known id leaves a database whose recovery moves a record.
theorem records_stay_in_their_keyspace (labels : List (Life Name K V)) (db : Database Name K V)
    (run : Run (Guarded LifeStep FreshId) Database.new labels db) :
    db.RecordsAtHome ∧ db.EntriesAtHome ∧
      ∀ name next, db.keyspaces.lookup name = none → db.Carried db.keyspaceIdCounter →
        LifeStep db (.session (.keyspace name)) next → ¬ next.RecordsAtHome := by
  have owned := owned_run labels db run
  refine ⟨owned_records_at_home db owned, owned.entries, ?_⟩
  intro name next absent carried step
  have created : db.keyspace name = next := Except.ok.inj step.2
  rw [← created]
  exact reused_id_captures_record db owned name absent carried

theorem deleted_keyspace_stays_gone :
    ∃ db : Database Nat Nat Nat, db.Live ⟨2, 2⟩ ∧ db.EntriesAtHome ∧ (db.trees 2).get 7 = none := by
  have life : ∃ db : Database Nat Nat Nat,
      Run (Guarded LifeStep FreshId) Database.new
        [.session (.keyspace 0), .session (.keyspace 1), .session (.insert ⟨2, 1⟩ 7 70), .session .rotateJournal,
          .session (.deleteKeyspace 1), .session .maintenance, .reopen CountMap.inStoredOrder, .session (.keyspace 2),
          .reopen CountMap.inStoredOrder] db ∧ db.Live ⟨2, 2⟩ ∧ (db.trees 2).get 7 = none :=
    ⟨_, .cons _ _ ⟨fun _ ⟨_, member, _⟩ => (by cases member), trivial, rfl⟩
      (.cons _ _ ⟨fun _ ⟨_, member, _⟩ => (by cases member), trivial, rfl⟩ (.cons _ _ ⟨trivial, ⟨1, rfl⟩, rfl⟩
      (.cons _ _ ⟨trivial, trivial, rfl⟩ (.cons _ _ ⟨trivial, trivial, rfl⟩ (.cons _ _ ⟨trivial, trivial, rfl⟩
      (.cons _ _ ⟨trivial, .mk _ 0 (show recover _ _ = _ from rfl)⟩
      (.cons _ _ ⟨fun _ ⟨_, member, _⟩ => (by cases member), trivial, rfl⟩
      (.cons _ _ ⟨trivial, .mk _ 0 (show recover _ _ = _ from rfl)⟩ (.nil _))))))))), ⟨2, rfl⟩, by decide⟩
  obtain ⟨db, run, live, absent⟩ := life
  exact ⟨db, live, (records_stay_in_their_keyspace _ db run).2.1, absent⟩

-- Created under id 2, written, deleted; the id is handed out again after the
-- reopen, and the next one fills the new keyspace with the record of the old.
theorem record_of_deleted_keyspace_applied :
    ∃ db : Database Nat Nat Nat,
      Run LifeStep Database.new
          [.session (.keyspace 0), .session (.keyspace 1), .session (.insert ⟨2, 1⟩ 7 70), .session (.deleteKeyspace 1),
            .reopen CountMap.inStoredOrder, .session (.keyspace 2), .reopen CountMap.inStoredOrder] db ∧
        db.Live ⟨2, 2⟩ ∧ (db.trees 2).all = [⟨7, 2, some 70, 1⟩] :=
  ⟨_, .cons _ _ ⟨trivial, rfl⟩ (.cons _ _ ⟨trivial, rfl⟩ (.cons _ _ ⟨⟨1, rfl⟩, rfl⟩ (.cons _ _ ⟨trivial, rfl⟩
    (.cons _ _ (.mk _ 0 (show recover _ _ = _ from rfl)) (.cons _ _ ⟨trivial, rfl⟩ (.cons _ _ (.mk _ 0 (show recover _ _ = _ from rfl)) (.nil _))))))),
    ⟨2, rfl⟩, rfl⟩

end OmryaKv.Storage
