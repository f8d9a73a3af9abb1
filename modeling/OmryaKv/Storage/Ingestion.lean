import OmryaKv.Storage.CrashRecovery

set_option autoImplicit false

namespace OmryaKv.Storage

open Lib

variable {Name K V : Type} [DecidableEq K]

variable (db middle next : Database Name K V)

-- What the journal records of an operation leave of a key, if they are about it.
def Op.journals (id : Nat) (key : K) : Op Name K V → Option (Option V)
  | .insert ks written value => if ks.id = id ∧ written = key then some (some value) else none
  | .remove ks removed | .removeWeak ks removed => if ks.id = id ∧ removed = key then some none else none
  | .commit batch =>
    (batch.data.reverse.find? fun item => item.keyspaceId = id ∧ item.key = key).map fun item => item.payload.stored
  | .clear ks => if ks.id = id then some none else none
  | _ => none

def Op.ingests (id : Nat) (key : K) : Op Name K V → Option (Option V)
  | .ingest ks pairs => if ks.id = id then pairs.lookup key else none
  | _ => none

def Op.effect (id : Nat) (key : K) (op : Op Name K V) : Option (Option V) := (op.journals id key).or (op.ingests id key)

-- A session that deletes no keyspace and in which lsm-tree drops nothing but
-- superseded versions.
def Undeleted (db : Database Name K V) : Op Name K V → Prop
  | .deleteKeyspace _ => False
  | .collect ks kept => Superseded (db.trees ks.id).tables kept
  | _ => True

-- What recovery replays of a keyspace: the active journal, and the sealed journals
-- unless the tables cover them. A clear in a sealed journal takes the tables away.
def Disk.replays (disk : Disk Name K V) (ks : Keyspace) : List (Event K V) :=
  (if NoClear (journalEvents ks.id disk.sealedJournals.flatten) then
      (uncovered (disk.tables ks.id) (disk.sealedJournals.map (journalEvents ks.id))).flatten
    else journalEvents ks.id disk.sealedJournals.flatten) ++ journalEvents ks.id disk.journal

def Event.verdict (key : K) : Event K V → Option (Option V)
  | .put entry => if entry.key = key then some entry.value else none
  | .clear _ => some none

def visible (key : K) (entries : List (Entry K V)) : Option V :=
  (entries.find? fun entry => decide (entry.key = key)).bind Entry.value

theorem visible_contents (key : K) (entries : List (Entry K V)) (events : List (Event K V)) :
    visible key (contents entries events) = (latest (Event.verdict key) events).getD (visible key entries) := by
  induction events using List.reverseRecOn with
  | nil => rfl
  | append_singleton front last ih =>
    rw [contents_append, latest_append, latest_singleton]
    cases last with
    | clear seqno => rfl
    | put entry =>
      by_cases same : entry.key = key
      · simp [contents, amend, visible, Event.verdict, same]
      · have skipped : visible key (entry :: contents entries front) = visible key (contents entries front) := by
          simp [visible, same]
        rw [Event.verdict, if_neg same, Option.none_or, ← ih]
        exact skipped

theorem item_events_verdict (id seqno : Nat) (key : K) (items : List (Item K V)) :
    latest (Event.verdict key) (itemEvents id seqno items) =
      (items.reverse.find? fun item => item.keyspaceId = id ∧ item.key = key).map fun item => item.payload.stored := by
  induction items using List.reverseRecOn with
  | nil => rfl
  | append_singleton front item ih =>
    have split : itemEvents id seqno (front ++ [item]) = itemEvents id seqno front ++ itemEvents id seqno [item] := by
      simp [itemEvents]
    rw [split, latest_append, ih, List.reverse_append, List.reverse_singleton, List.singleton_append]
    by_cases here : item.keyspaceId = id
    · by_cases same : item.key = key
      · simp [itemEvents, here, same, latest, Event.verdict, Item.entry]
      · simp [itemEvents, here, same, latest, Event.verdict, Item.entry]
    · simp [itemEvents, here, latest]

theorem journals_batch (id seqno : Nat) (key : K) (op : Op Name K V) :
    op.journals id key = (op.batch seqno).bind fun batch => latest (Event.verdict key) (batch.events id) := by
  have single : ∀ (ks : Keyspace) (written : K) (payload : Payload V),
      latest (Event.verdict key) (Batch.events id ⟨seqno, [⟨ks.id, ks.birth, written, payload⟩], []⟩) =
        if ks.id = id ∧ written = key then some payload.stored else none := by
    intro ks written payload
    rw [Batch.events, clearEvents, List.filter_nil, List.map_nil, List.append_nil, item_events_verdict]
    by_cases matched : ks.id = id ∧ written = key <;> simp [matched]
  cases op with
  | insert ks written value => exact (single ks written (.value value)).symm
  | remove ks removed => exact (single ks removed .tombstone).symm
  | removeWeak ks removed => exact (single ks removed .weakTombstone).symm
  | commit batch =>
    by_cases idle : batch.data = []
    · simp [Op.journals, Op.batch, idle]
    · simp only [Op.journals, Op.batch, List.isEmpty_iff, idle, if_false, Option.bind_some]
      rw [Batch.events, clearEvents, List.filter_nil, List.map_nil, List.append_nil, item_events_verdict]
  | clear ks =>
    by_cases here : ks.id = id <;> simp [Op.journals, Op.batch, Batch.events, itemEvents, clearEvents, here, latest, Event.verdict]
  | _ => rfl

-- The keyspace with the given id after the given operations: what a search of it
-- finds of every key, and how its tree and its records are numbered.
structure Tracked (id : Nat) (ops : List (Op Name K V)) (db : Database Name K V) : Prop where
  descending : Descending Entry.seqno (db.trees id).all
  bounded : ∀ entry ∈ (db.trees id).all, entry.seqno < db.seqno
  ascending : Ascending (journalEvents id db.records)
  recordsBounded : ∀ event ∈ journalEvents id db.records, event.seqno < db.seqno
  found : ∀ key, visible key (db.trees id).all = (latest (Op.effect id key) ops).getD none

theorem tracked_wrote (id : Nat) (ops : List (Op Name K V)) (db : Database Name K V) (op : Op Name K V) (batch : Batch K V)
    (tracked : Tracked id ops db) (logged : op.batch db.seqno = some batch) (numbered : batch.seqno = db.seqno) :
    Tracked id (ops ++ [op]) (db.batched batch) := by
  have fresh : ∀ event ∈ batch.events id, event.seqno = db.seqno := fun event member =>
    (batch_events_seqno id batch event member).trans numbered
  have trees : ((db.batched batch).trees id).all = contents (db.trees id).all (batch.events id) := replay_all _ _
  have records : journalEvents id (db.batched batch).records = journalEvents id db.records ++ batch.events id := by
    rw [batched_records]
    simp [journalEvents]
  obtain ⟨descending, bounded⟩ := contents_fresh db.seqno _ _ tracked.descending tracked.bounded fresh
  constructor
  · rwa [trees]
  · rwa [trees]
  · rw [records]
    refine List.pairwise_append.mpr ⟨tracked.ascending, ?_, ?_⟩
    · exact List.pairwise_of_forall_mem_list fun a first b second => by rw [fresh a first, fresh b second]
    · intro old oldMember new newMember
      rw [fresh new newMember]
      exact Nat.le_of_lt (tracked.recordsBounded old oldMember)
  · rw [records]
    refine List.forall_mem_append.mpr ⟨?_, ?_⟩
    · exact fun event member => Nat.lt_succ_of_lt (tracked.recordsBounded event member)
    · exact fun event member => Nat.lt_succ_of_le (Nat.le_of_eq (fresh event member))
  · intro key
    have unmixed : op.ingests id key = none := by cases op <;> first | rfl | cases logged
    rw [trees, visible_contents, tracked.found, latest_append, latest_singleton, Op.effect, unmixed, Option.or_none,
      journals_batch id db.seqno key op, logged, Option.bind_some]
    cases latest (Event.verdict key) (batch.events id) <;> rfl

theorem tracked_moved (id : Nat) (ops : List (Op Name K V)) (db next : Database Name K V) (op : Op Name K V)
    (tracked : Tracked id ops db) (silent : op.batch db.seqno = none) (unmixed : ∀ key, op.ingests id key = none)
    (seqno : db.seqno ≤ next.seqno) (records : List.Sublist next.records db.records)
    (all : List.Sublist (next.trees id).all (db.trees id).all)
    (same : ∀ key, visible key (next.trees id).all = visible key (db.trees id).all) : Tracked id (ops ++ [op]) next := by
  have unsaid : ∀ key, op.journals id key = none := by
    intro key
    rw [journals_batch id db.seqno key op, silent, Option.bind_none]
  have events : List.Sublist (journalEvents id next.records) (journalEvents id db.records) := records.flatMap (Batch.events id)
  constructor
  · exact tracked.descending.sublist all
  · exact fun entry member => Nat.lt_of_lt_of_le (tracked.bounded entry (all.subset member)) seqno
  · exact tracked.ascending.sublist events
  · exact fun event member => Nat.lt_of_lt_of_le (tracked.recordsBounded event (events.subset member)) seqno
  · intro key
    rw [same, tracked.found, latest_append, latest_singleton, Op.effect, unsaid, unmixed, Option.none_or, Option.none_or]

theorem visible_ingested (key : K) (pairs : List (K × Option V)) (seqno origin : Nat) (entries : List (Entry K V)) :
    visible key ((pairs.map fun pair => (⟨pair.1, seqno, pair.2, origin⟩ : Entry K V)) ++ entries) =
      (pairs.lookup key).getD (visible key entries) := by
  induction pairs with
  | nil => rfl
  | cons pair rest ih =>
    obtain ⟨ingested, value⟩ := pair
    by_cases same : ingested = key
    · subst same
      simp [visible]
    · rw [List.lookup_cons, beq_false_of_ne (Ne.symm same), ← ih]
      simp [visible, same]

theorem tracked_ingested (id : Nat) (ops : List (Op Name K V)) (db : Database Name K V) (ks : Keyspace)
    (pairs : List (K × Option V)) (tracked : Tracked id ops db) : Tracked id (ops ++ [.ingest ks pairs]) (db.ingest ks pairs) := by
  by_cases here : ks.id = id
  · subst here
    have tree : (db.ingest ks pairs).trees ks.id = (db.trees ks.id).ingest pairs db.seqno ks.birth := by
      simp [Database.ingest, modifyTree]
    have all : ((db.trees ks.id).ingest pairs db.seqno ks.birth).all =
        (pairs.map fun pair => ⟨pair.1, db.seqno, pair.2, ks.birth⟩) ++ (db.trees ks.id).all := by
      simp [Tree.ingest, Tree.all, Tree.memtables]
    have fresh : ∀ entry ∈ pairs.map fun pair => (⟨pair.1, db.seqno, pair.2, ks.birth⟩ : Entry K V), entry.seqno = db.seqno := by
      intro entry member
      obtain ⟨pair, -, rfl⟩ := List.mem_map.mp member
      rfl
    constructor
    · rw [tree, all]
      refine List.pairwise_append.mpr ⟨?_, tracked.descending, ?_⟩
      · exact List.pairwise_of_forall_mem_list fun a first b second => by rw [fresh a first, fresh b second]
      · intro new newMember old oldMember
        rw [fresh new newMember]
        exact Nat.le_of_lt (tracked.bounded old oldMember)
    · rw [tree, all]
      refine List.forall_mem_append.mpr ⟨?_, ?_⟩
      · exact fun entry member => Nat.lt_succ_of_le (Nat.le_of_eq (fresh entry member))
      · exact fun entry member => Nat.lt_succ_of_lt (tracked.bounded entry member)
    · exact tracked.ascending
    · exact fun event member => Nat.lt_succ_of_lt (tracked.recordsBounded event member)
    · intro key
      rw [tree, all, visible_ingested, tracked.found, latest_append, latest_singleton]
      simp only [Op.effect, Op.journals, Op.ingests, if_true, Option.none_or]
      cases pairs.lookup key <;> rfl
  · have elsewhere : (db.ingest ks pairs).trees id = db.trees id := by
      simp [Database.ingest, modifyTree, Function.update_of_ne (Ne.symm here)]
    apply tracked_moved id ops db _ _ tracked rfl
    · intro key
      simp [Op.ingests, here]
    · exact Nat.le_succ _
    · exact List.Sublist.refl _
    · rw [elsewhere]
    · exact fun key => by rw [elsewhere]

structure Ingesting [DecidableEq Name] (ops : List (Op Name K V)) (db : Database Name K V) : Prop where
  cataloged : Cataloged db
  intact : ∀ batch ∈ db.records, batch.Intact
  unissued : ∀ id, db.keyspaceIdCounter ≤ id → db.trees id = .empty
  tracked : ∀ id, Tracked id ops db

variable [DecidableEq Name]

theorem ingesting_new : Ingesting ([] : List (Op Name K V)) Database.new := by
  refine ⟨cataloged_new, by simp [Database.new, Database.records], fun _ _ => rfl, fun id => ?_⟩
  constructor
  · exact List.Pairwise.nil
  · simp [Database.new, Tree.empty, Tree.all, Tree.memtables]
  · exact List.Pairwise.nil
  · simp [Database.new, Database.records, journalEvents]
  · exact fun key => rfl

variable (ops : List (Op Name K V))

theorem ingesting_wrote (db : Database Name K V) (op : Op Name K V) (batch : Batch K V) (ingesting : Ingesting ops db)
    (logged : op.batch db.seqno = some batch) (addressed : Addressed db batch) :
    Ingesting (ops ++ [op]) (db.batched batch) := by
  constructor
  · exact cataloged_of_same db _ ingesting.cataloged rfl rfl rfl rfl
  · rw [batched_records]
    exact List.forall_mem_append.mpr ⟨ingesting.intact, by simpa using addressed.intact⟩
  · intro id unissued
    have silent := addressed_events db ingesting.cataloged batch addressed id unissued
    simp only [Database.batched, Database.journaled, silent, List.foldl_nil]
    exact ingesting.unissued id unissued
  · exact fun id => tracked_wrote id ops db op batch (ingesting.tracked id) logged addressed.seqno

theorem ingesting_tree (db : Database Name K V) (op : Op Name K V) (ks : Keyspace) (t : Tree K V) (ingesting : Ingesting ops db)
    (live : db.Live ks) (silent : op.batch db.seqno = none)
    (unmixed : ∀ id key, op.ingests id key = none) (all : List.Sublist t.all (db.trees ks.id).all)
    (same : ∀ key, visible key t.all = visible key (db.trees ks.id).all) :
    Ingesting (ops ++ [op]) { db with trees := Function.update db.trees ks.id t } := by
  refine ⟨cataloged_of_same db _ ingesting.cataloged rfl rfl rfl rfl, ingesting.intact, ?_, ?_⟩
  · intro id unissued
    have different : id ≠ ks.id := fun same =>
      Nat.not_lt.mpr unissued (same ▸ ingesting.cataloged.numbered ks live)
    simp only [Function.update_of_ne different]
    exact ingesting.unissued id unissued
  · intro id
    refine tracked_moved id ops db { db with trees := Function.update db.trees ks.id t } op (ingesting.tracked id) silent
      (unmixed id) (Nat.le_refl _) (List.Sublist.refl _) ?_ ?_
    · by_cases here : id = ks.id
      · subst here
        simpa only [Function.update_self] using all
      · simp only [Function.update_of_ne here, List.Sublist.refl]
    · by_cases here : id = ks.id
      · subst here
        simpa only [Function.update_self] using same
      · simp only [Function.update_of_ne here, implies_true]

theorem ingesting_same (db next : Database Name K V) (op : Op Name K V) (ingesting : Ingesting ops db)
    (cataloged : Cataloged next) (silent : op.batch db.seqno = none) (unmixed : ∀ id key, op.ingests id key = none)
    (counter : db.keyspaceIdCounter ≤ next.keyspaceIdCounter) (seqno : db.seqno ≤ next.seqno)
    (records : List.Sublist next.records db.records) (trees : next.trees = db.trees) : Ingesting (ops ++ [op]) next := by
  refine ⟨cataloged, fun batch member => ingesting.intact batch (records.subset member), ?_, ?_⟩
  · intro id unissued
    rw [trees]
    exact ingesting.unissued id (Nat.le_trans counter unissued)
  · intro id
    apply tracked_moved id ops db next op (ingesting.tracked id) silent (unmixed id) seqno records
    · rw [trees]
    · exact fun key => by rw [trees]

theorem ingesting_ingested (db : Database Name K V) (ks : Keyspace) (pairs : List (K × Option V)) (ingesting : Ingesting ops db)
    (live : db.Live ks) : Ingesting (ops ++ [.ingest ks pairs]) (db.ingest ks pairs) := by
  refine ⟨cataloged_of_same db _ ingesting.cataloged rfl rfl rfl rfl, ingesting.intact, ?_,
    fun id => tracked_ingested id ops db ks pairs (ingesting.tracked id)⟩
  intro id unissued
  have different : id ≠ ks.id := fun same => Nat.not_lt.mpr unissued (same ▸ ingesting.cataloged.numbered ks live)
  simp only [Database.ingest, modifyTree, Function.update_of_ne different]
  exact ingesting.unissued id unissued

theorem ingesting_created (db : Database Name K V) (name : Name) (ingesting : Ingesting ops db)
    (absent : db.keyspaces.lookup name = none) : Ingesting (ops ++ [.keyspace name]) (db.keyspace name) := by
  have shape := keyspace_created db name absent
  have trees : (db.keyspace name).trees = db.trees := by
    rw [shape, ← ingesting.unissued db.keyspaceIdCounter (Nat.le_refl _)]
    exact Function.update_eq_self _ _
  refine ingesting_same ops db _ _ ingesting (cataloged_keyspace db ingesting.cataloged name) rfl (fun _ _ => rfl) ?_ ?_ ?_ trees
  · rw [shape]
    exact Nat.le_succ _
  · rw [shape]
    exact Nat.le_succ _
  · rw [keyspace_records]

omit [DecidableEq Name] in
theorem superseded_visible (t : Tree K V) (kept : List (Entry K V)) (descending : Descending Entry.seqno t.all)
    (superseded : Superseded t.tables kept) (key : K) : visible key (t.collect kept).all = visible key t.all := by
  have tables := (List.pairwise_append.mp descending).2.1
  have newest := superseded.newest key
  rw [newest_of_descending _ _ key _ tables, newest_of_descending _ _ key _ (tables.sublist superseded.stored)] at newest
  rw [visible, visible, Tree.all, Tree.all, List.find?_append, List.find?_append]
  exact congrArg (fun found => (Option.or _ found).bind Entry.value) newest

theorem ingesting_silent (db next : Database Name K V) (op : Op Name K V) (ingesting : Ingesting ops db)
    (undeleted : Undeleted db op) (enabled : op.Enabled db) (logged : op.batch db.seqno = none) (silent : Silent db op next) :
    Ingesting (ops ++ [op]) next := by
  have idle (unmixed : ∀ id key, op.ingests id key = none) : Ingesting (ops ++ [op]) db :=
    ingesting_same ops db db op ingesting ingesting.cataloged logged unmixed (Nat.le_refl _) (Nat.le_refl _) (List.Sublist.refl _) rfl
  cases silent with
  | deleted name => cases undeleted
  | emptyCommit batch => exact idle fun _ _ => rfl
  | emptyMemtable ks => exact idle fun _ _ => rfl
  | opened name ks found => exact idle fun _ _ => rfl
  | rotatedMemtable ks memtable t rotated =>
    have all := Tree.rotate_memtable_all _ _ _ rotated
    exact ingesting_tree ops db _ ks t ingesting enabled rfl (fun _ _ => rfl) (by rw [all]) fun key => by rw [all]
  | flushed ks =>
    have all := Tree.flush_all (db.trees ks.id)
    exact ingesting_tree ops db _ ks _ ingesting enabled rfl (fun _ _ => rfl) (by rw [all]) fun key => by rw [all]
  | collected ks kept =>
    apply ingesting_tree ops db _ ks _ ingesting enabled.1 rfl fun _ _ => rfl
    · exact undeleted.stored.append_left _
    · exact superseded_visible _ kept (ingesting.tracked ks.id).descending undeleted
  | took count =>
    exact ingesting_same ops db _ _ ingesting (cataloged_of_same db _ ingesting.cataloged rfl rfl rfl rfl) rfl (fun _ _ => rfl)
      (Nat.le_refl _) (Nat.le_add_right _ count) (List.Sublist.refl _) rfl
  | rotatedJournal =>
    exact ingesting_same ops db _ _ ingesting (cataloged_of_same db _ ingesting.cataloged rfl rfl rfl rfl) rfl (fun _ _ => rfl)
      (Nat.le_refl _) (Nat.le_refl _) (by rw [rotate_journal_records]) rfl
  | maintained =>
    exact ingesting_same ops db _ _ ingesting (cataloged_of_same db _ ingesting.cataloged rfl rfl rfl rfl) rfl (fun _ _ => rfl)
      (Nat.le_refl _) (Nat.le_refl _) (maintenance_records db) rfl
  | ingested ks pairs => exact ingesting_ingested ops db ks pairs ingesting enabled.1
  | created name absent => exact ingesting_created ops db name ingesting absent

theorem ingesting_step (db next : Database Name K V) (op : Op Name K V) (ingesting : Ingesting ops db)
    (undeleted : Undeleted db op) (step : Step db op next) : Ingesting (ops ++ [op]) next := by
  cases logged : op.batch db.seqno with
  | some batch =>
    obtain ⟨rfl, addressed⟩ := step_writes db next op step batch logged
    exact ingesting_wrote ops db op batch ingesting logged addressed
  | none => exact ingesting_silent ops db next op ingesting undeleted step.1 logged (perform_silent db next op step.2 logged)

theorem ingesting_run (db : Database Name K V) (run : Run (Guarded Step Undeleted) Database.new ops db) : Ingesting ops db := by
  apply run_history _ Ingesting _ run [] ingesting_new
  intro past state op next ingesting guarded
  exact ingesting_step past state next op ingesting guarded.1 guarded.2

-- No memtable of the keyspace holds the key.
def Settled (id : Nat) (key : K) (db : Database Name K V) : Prop := ∀ entry ∈ (db.trees id).memtables, entry.key ≠ key

omit [DecidableEq K] in
theorem update_memtables (trees : Trees K V) (target id : Nat) (t : Tree K V)
    (fewer : ∀ entry ∈ t.memtables, entry ∈ (trees target).memtables) (entry : Entry K V)
    (member : entry ∈ (Function.update trees target t id).memtables) : entry ∈ (trees id).memtables := by
  by_cases here : id = target
  · subst here
    rw [Function.update_self] at member
    exact fewer entry member
  · rwa [Function.update_of_ne here] at member

omit [DecidableEq K] in
theorem silent_memtables (op : Op Name K V) (silent : Silent db op next) (id : Nat) (entry : Entry K V)
    (member : entry ∈ (next.trees id).memtables) : entry ∈ (db.trees id).memtables := by
  have emptied : ∀ entry ∈ (Tree.empty : Tree K V).memtables, ∀ target, entry ∈ (db.trees target).memtables := by
    simp [Tree.empty, Tree.memtables]
  cases silent with
  | rotatedMemtable ks memtable t rotated =>
    refine update_memtables db.trees ks.id id t ?_ entry member
    rw [Tree.rotate_memtable_memtables _ _ _ rotated]
    exact fun _ held => held
  | flushed ks => exact update_memtables db.trees ks.id id _ (Tree.flush_memtables _) entry member
  | collected ks kept => exact update_memtables db.trees ks.id id ((db.trees ks.id).collect kept) (fun _ held => held) entry member
  | ingested ks pairs =>
    exact update_memtables db.trees ks.id id _ (fun other held => by simp [Tree.ingest, Tree.memtables] at held) entry member
  | created name absent =>
    rw [keyspace_created db name absent] at member
    exact update_memtables db.trees _ id _ (fun other held => emptied other held _) entry member
  | deleted name =>
    cases found : db.keyspaces.lookup name with
    | none => rwa [delete_missing db name found] at member
    | some ks =>
      rw [delete_existing db name ks found] at member
      exact update_memtables db.trees _ id _ (fun other held => emptied other held _) entry member
  | _ => exact member

theorem settled_step (id : Nat) (key : K) (db next : Database Name K V) (op : Op Name K V) (settled : Settled id key db)
    (quiet : op.effect id key = none) (step : Step db op next) : Settled id key next := by
  intro entry member
  cases logged : op.batch db.seqno with
  | none => exact settled entry (silent_memtables db next op (perform_silent db next op step.2 logged) id entry member)
  | some batch =>
    obtain ⟨rfl, -⟩ := step_writes db next op step batch logged
    rcases replay_memtables (db.trees id) (batch.events id) entry member with old | new
    · exact settled entry old
    · intro same
      have unsaid := (Option.or_eq_none_iff.mp quiet).1
      rw [journals_batch id db.seqno key op, logged, Option.bind_some, latest, List.findSome?_eq_none_iff] at unsaid
      have verdict := unsaid (.put entry) (List.mem_reverse.mpr new)
      rw [Event.verdict, if_pos same] at verdict
      cases verdict

-- The ingestion flushes the memtables, and nothing puts the key back there.
theorem settled_after_ingestion (front back : List (Op Name K V)) (ks : Keyspace) (pairs : List (K × Option V)) (key : K)
    (db : Database Name K V) (run : Run (Guarded Step Undeleted) Database.new (front ++ .ingest ks pairs :: back) db)
    (last : ∀ op ∈ back, op.effect ks.id key = none) : Settled ks.id key db := by
  obtain ⟨before, -, later⟩ := run_split _ _ run
  cases later with
  | cons _ _ first rest =>
    have start : Settled ks.id key (before.ingest ks pairs) := by
      simp [Settled, Database.ingest, modifyTree, Tree.ingest, Tree.memtables]
    cases first.2.2
    exact run_invariant_while _ _ _ (fun state op next quiet settled step =>
      settled_step ks.id key state next op settled quiet step.2) rest last start

omit [DecidableEq Name] in
theorem tracked_get (id : Nat) (ops : List (Op Name K V)) (db : Database Name K V) (tracked : Tracked id ops db) (key : K) :
    (db.trees id).get key = (latest (Op.effect id key) ops).getD none := by
  rw [← tracked.found key, Tree.get, Tree.search_eq_find _ (Tree.layered_of_descending _ tracked.descending)]
  rfl

omit [DecidableEq Name] [DecidableEq K] in
theorem replayed_layered (t : Tree K V) (events : List (Event K V)) (idle : t.activeMemtable = []) (layered : t.Layered)
    (ascending : Ascending events) : (events.foldl Tree.replay t).Layered := by
  have active := contents_descending events ascending
  by_cases kept : NoClear events
  · rw [replay_of_no_clear _ _ kept, idle, List.append_nil]
    exact ⟨active, layered.sealed, layered.tables⟩
  · rw [replay_of_clear _ _ kept]
    exact ⟨active, by simp, List.Pairwise.nil⟩

-- What the sealed journals leave of a tree.
theorem sealed_reads (recovered : Recovered db middle next) (ks : Keyspace) (live : db.Live ks)
    (ascending : Ascending (journalEvents ks.id db.crash.sealedJournals.flatten))
    (descending : Descending Entry.seqno (db.trees ks.id).tables) (key : K) :
    (middle.trees ks.id).activeMemtable = [] ∧ (middle.trees ks.id).Layered ∧
      visible key (middle.trees ks.id).all =
        (latest (Event.verdict key)
          (if NoClear (journalEvents ks.id db.crash.sealedJournals.flatten) then
              (uncovered (db.crash.tables ks.id) (db.crash.sealedJournals.map (journalEvents ks.id))).flatten
            else journalEvents ks.id db.crash.sealedJournals.flatten)).getD (visible key (db.trees ks.id).tables) := by
  have layered (memtables : List (List (Entry K V))) (events : List (Event K V)) (ordered : Ascending events)
      (filled : memtables.flatten = contents [] events) : ∀ memtable ∈ memtables, Descending Entry.seqno memtable :=
    (List.pairwise_flatten.mp (filled ▸ contents_descending events ordered)).1
  by_cases kept : NoClear (journalEvents ks.id db.crash.sealedJournals.flatten)
  · rw [if_pos kept]
    rw [← journal_events_flatten] at ascending kept
    obtain ⟨filled, loop, flattened⟩ := recover_logs_kept (db.trees ks.id).tables _ [] ascending kept
    have shape : middle.trees ks.id = ⟨[], filled, (db.trees ks.id).tables⟩ :=
      Except.ok.inj ((recovered.folded ks live).symm.trans loop)
    have replayed := uncovered_sublist (db.trees ks.id).tables (db.crash.sealedJournals.map (journalEvents ks.id))
    rw [shape]
    refine ⟨rfl, ⟨List.Pairwise.nil, layered filled _ (ascending.sublist replayed) flattened, descending⟩, ?_⟩
    have uncleared : NoClear (uncovered (db.trees ks.id).tables (db.crash.sealedJournals.map (journalEvents ks.id))).flatten :=
      fun event member => kept event (replayed.subset member)
    have all : (⟨[], filled, (db.trees ks.id).tables⟩ : Tree K V).all =
        contents (db.trees ks.id).tables
          (uncovered (db.trees ks.id).tables (db.crash.sealedJournals.map (journalEvents ks.id))).flatten := by
      rw [contents_of_no_clear _ _ uncleared, ← List.flatten_nil, ← flattened]
      simp [Tree.all, Tree.memtables]
    rw [all, visible_contents]
    rfl
  · rw [if_neg kept]
    obtain ⟨memtables, shape, filled⟩ := replayed_wiped _ _ _ (recovered.sealed ks live) kept
    rw [shape]
    refine ⟨rfl, ⟨List.Pairwise.nil, layered memtables _ ascending filled, List.Pairwise.nil⟩, ?_⟩
    have all : (⟨[], memtables, []⟩ : Tree K V).all =
        contents (db.trees ks.id).tables (journalEvents ks.id db.crash.sealedJournals.flatten) := by
      rw [contents_of_clear _ _ kept, ← filled]
      simp [Tree.all, Tree.memtables]
    rw [all, visible_contents]

theorem recovered_reads (recovered : Recovered db middle next) (ks : Keyspace)
    (live : db.Live ks) (ascending : Ascending (journalEvents ks.id db.records))
    (descending : Descending Entry.seqno (db.trees ks.id).tables) (key : K) :
    (next.trees ks.id).get key =
      (latest (Event.verdict key) (db.crash.replays ks)).getD (visible key (db.trees ks.id).tables) := by
  have split : journalEvents ks.id db.records =
      journalEvents ks.id db.crash.sealedJournals.flatten ++ journalEvents ks.id db.journal := List.flatMap_append
  rw [split] at ascending
  obtain ⟨sealedAscending, activeAscending, -⟩ := List.pairwise_append.mp ascending
  obtain ⟨idle, layered, reads⟩ := sealed_reads db middle next recovered ks live sealedAscending descending key
  have whole := replayed_layered _ (journalEvents ks.id db.journal) idle layered activeAscending
  rw [recovered.active ks live, Tree.get, Tree.search_eq_find _ whole, replay_all]
  change visible key (contents _ _) = _
  rw [visible_contents, reads, Disk.replays, latest_append]
  change _ = (Option.or (latest (Event.verdict key) (journalEvents ks.id db.journal)) _).getD _
  cases latest (Event.verdict key) (journalEvents ks.id db.journal) <;> rfl

-- A key last set by an ingestion comes back from recovery exactly if the last
-- record of the key that recovery replays, should there be one, agrees with it.
theorem ingested_value_survives_iff (order : IterationOrder Nat) (front back : List (Op Name K V)) (ks : Keyspace)
    (pairs : List (K × Option V)) (key : K) (value : Option V) (db : Database Name K V)
    (run : Run (Guarded Step Undeleted) Database.new (front ++ .ingest ks pairs :: back) db) (live : db.Live ks)
    (ingested : pairs.lookup key = some value) (last : ∀ op ∈ back, op.effect ks.id key = none) :
    (db.trees ks.id).get key = value ∧ ∃ next, recover order db.crash = .ok next ∧
      ((next.trees ks.id).get key = value ↔
        ∀ old, latest (Event.verdict key) (db.crash.replays ks) = some old → old = value) := by
  have ingesting := ingesting_run _ db run
  have tracked := ingesting.tracked ks.id
  have effect : latest (Op.effect ks.id key) (front ++ .ingest ks pairs :: back) = some value := by
    rw [latest_before_silent _ _ _ _ last]
    simp [Op.effect, Op.journals, Op.ingests, ingested]
  have settled := settled_after_ingestion front back ks pairs key db run last
  have stored : visible key (db.trees ks.id).tables = value := by
    have absent : (db.trees ks.id).memtables.find? (fun entry => decide (entry.key = key)) = none := by
      rw [List.find?_eq_none]
      exact fun entry member => by simpa using settled entry member
    have found := tracked.found key
    rw [effect, Option.getD_some, visible, Tree.all, List.find?_append, absent, Option.none_or] at found
    exact found
  obtain ⟨middle, next, completed, recovered⟩ := replayable_recovers order db
    ⟨ingesting.cataloged, ingesting.intact, fun ks _ => (ingesting.tracked ks.id).ascending⟩
  refine ⟨by rw [tracked_get ks.id _ db tracked key, effect, Option.getD_some], next, completed, ?_⟩
  rw [recovered_reads db middle next recovered ks live tracked.ascending (List.pairwise_append.mp tracked.descending).2.1 key, stored]
  cases latest (Event.verdict key) (db.crash.replays ks) <;> simp

-- The insert of the key was in a journal that the ingested table covers.
theorem ingested_over_sealed_insert_survives :
    ∃ db next : Database Nat Nat Nat, db.sealedJournals.length = 1 ∧ (db.trees 1).get 5 = some 51 ∧
      recover CountMap.inStoredOrder db.crash = .ok next ∧ (next.trees 1).get 5 = some 51 := by
  let ks : Keyspace := ⟨1, 0⟩
  have session : ∃ db : Database Nat Nat Nat,
      Run (Guarded Step Undeleted) Database.new
        ([.keyspace 0, .insert ks 5 50, .rotateJournal, .insert ks 6 60] ++ .ingest ks [(5, some 51)] :: [.insert ks 6 61]) db ∧
        db.Live ks ∧ db.sealedJournals.length = 1 ∧ latest (Event.verdict 5) (db.crash.replays ks) = none :=
    ⟨_, .cons _ _ ⟨trivial, trivial, rfl⟩ (.cons _ _ ⟨trivial, ⟨0, rfl⟩, rfl⟩ (.cons _ _ ⟨trivial, trivial, rfl⟩
      (.cons _ _ ⟨trivial, ⟨0, rfl⟩, rfl⟩ (.cons _ _ ⟨trivial, ⟨⟨0, rfl⟩, by decide⟩, rfl⟩
      (.cons _ _ ⟨trivial, ⟨0, rfl⟩, rfl⟩ (.nil _)))))), ⟨0, rfl⟩, rfl, by decide⟩
  obtain ⟨db, run, live, sealed, silent⟩ := session
  obtain ⟨before, next, recovered, survives⟩ := ingested_value_survives_iff CountMap.inStoredOrder _ _ ks [(5, some 51)] 5 (some 51)
    db run live rfl (by simp [Op.effect, Op.journals, Op.ingests])
  exact ⟨db, next, sealed, before, recovered, survives.mpr (by simp [silent])⟩

-- The journal still says 50 of the key, and replay puts that above the ingested table.
theorem ingested_value_lost :
    ∃ db next : Database Nat Nat Nat,
      Run (Guarded Step Undeleted) Database.new
          [.keyspace 0, .insert ⟨1, 0⟩ 5 50, .ingest ⟨1, 0⟩ [(5, some 51)]] db ∧
        (db.trees 1).get 5 = some 51 ∧ recover CountMap.inStoredOrder db.crash = .ok next ∧ (next.trees 1).get 5 = some 50 :=
  ⟨_, _, .cons _ _ ⟨trivial, trivial, rfl⟩ (.cons _ _ ⟨trivial, ⟨0, rfl⟩, rfl⟩
    (.cons _ _ ⟨trivial, ⟨⟨0, rfl⟩, by decide⟩, rfl⟩ (.nil _))), by decide, rfl, by decide⟩

end OmryaKv.Storage
