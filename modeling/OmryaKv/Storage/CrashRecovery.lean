import OmryaKv.Storage.Effects

set_option autoImplicit false

namespace OmryaKv.Storage

open Lib

variable {Name K V : Type} [DecidableEq Name]

variable (db middle next : Database Name K V)

-- What a session keeps true of the database between any two operations.
structure Sound (db : Database Name K V) : Prop where
  cataloged : Cataloged db
  intact : ∀ batch ∈ db.records, batch.Intact
  issued : ∀ batch ∈ db.records, ∀ id, db.keyspaceIdCounter ≤ id → batch.events id = []
  accounted : ∀ ks, db.Live ks → ∃ evicted, Accounted db.seqno evicted (db.project ks.id)

omit [DecidableEq Name] in
theorem project_batched (batch : Batch K V) (id : Nat) :
    (db.batched batch).project id = (db.project id).record (batch.events id) := by
  simp [Database.project, Database.batched, Database.journaled, KeyspaceLog.record, journalEvents]

theorem numbered_events (bound : Nat) (batch : Batch K V) (items : ∀ item ∈ batch.items, item.keyspaceId < bound)
    (marks : ∀ mark ∈ batch.clearedKeyspaces, mark.keyspaceId < bound) (id : Nat) (unissued : bound ≤ id) :
    batch.events id = [] := by
  have noItem : ∀ item ∈ batch.items, item.keyspaceId ≠ id := fun item member same =>
    Nat.not_lt.mpr unissued (same ▸ items item member)
  have noMark : ∀ mark ∈ batch.clearedKeyspaces, mark.keyspaceId ≠ id := fun mark member same =>
    Nat.not_lt.mpr unissued (same ▸ marks mark member)
  rw [Batch.events, itemEvents, clearEvents, List.filter_eq_nil_iff.mpr (by simpa using noItem),
    List.filter_eq_nil_iff.mpr (by simpa using noMark)]
  rfl

theorem addressed_events (cataloged : Cataloged db) (batch : Batch K V) (addressed : Addressed db batch) :
    ∀ id, db.keyspaceIdCounter ≤ id → batch.events id = [] :=
  numbered_events db.keyspaceIdCounter batch (fun item member => cataloged.numbered _ (addressed.items item member))
    fun mark member => cataloged.numbered _ (addressed.marks mark member)

-- Sound apart from the catalog: the journals account for what is in the trees.
structure Ledger (db : Database Name K V) : Prop where
  intact : ∀ batch ∈ db.records, batch.Intact
  issued : ∀ batch ∈ db.records, ∀ id, db.keyspaceIdCounter ≤ id → batch.events id = []
  accounted : ∀ ks, db.Live ks → ∃ evicted, Accounted db.seqno evicted (db.project ks.id)

theorem Sound.ledger {db : Database Name K V} (sound : Sound db) : Ledger db := ⟨sound.intact, sound.issued, sound.accounted⟩

theorem Ledger.sound {db : Database Name K V} (ledger : Ledger db) (cataloged : Cataloged db) : Sound db :=
  ⟨cataloged, ledger.intact, ledger.issued, ledger.accounted⟩

theorem ledger_wrote (ledger : Ledger db) (batch : Batch K V) (seqno : batch.seqno = db.seqno)
    (intact : batch.Intact) (issued : ∀ id, db.keyspaceIdCounter ≤ id → batch.events id = []) : Ledger (db.batched batch) := by
  have records := batched_records db batch
  constructor
  · rw [records]
    exact List.forall_mem_append.mpr ⟨ledger.intact, by simpa using intact⟩
  · rw [records]
    refine List.forall_mem_append.mpr ⟨ledger.issued, ?_⟩
    intro other member
    rw [List.mem_singleton.mp member]
    exact issued
  · intro ks live
    obtain ⟨evicted, accounted⟩ := ledger.accounted ks live
    refine ⟨evicted, ?_⟩
    rw [project_batched]
    apply accounted_record db.seqno evicted _ _ accounted
    intro event member
    rw [batch_events_seqno ks.id batch event member, seqno]

theorem sound_wrote (sound : Sound db) (batch : Batch K V) (addressed : Addressed db batch) :
    Sound (db.batched batch) :=
  (ledger_wrote db sound.ledger batch addressed.seqno addressed.intact
    (addressed_events db sound.cataloged batch addressed)).sound (cataloged_of_same db _ sound.cataloged rfl rfl rfl rfl)

theorem sound_tree (sound : Sound db) (ks : Keyspace) (t : Tree K V)
    (moved : ∀ evicted p, Accounted db.seqno evicted p → p.tree = db.trees ks.id → Accounted db.seqno evicted { p with tree := t }) :
    Sound { db with trees := Function.update db.trees ks.id t } := by
  refine ⟨cataloged_of_same db _ sound.cataloged rfl rfl rfl rfl, sound.intact, sound.issued, ?_⟩
  intro other live
  obtain ⟨evicted, accounted⟩ := sound.accounted other live
  refine ⟨evicted, ?_⟩
  by_cases here : other.id = ks.id
  · have result := moved evicted _ accounted (by rw [here]; rfl)
    simpa only [Database.project, here, Function.update_self] using result
  · simpa only [Database.project, Function.update_of_ne here] using accounted

theorem live_entry (ks : Keyspace) (live : db.Live ks) : ∃ name, ⟨name, ks⟩ ∈ db.keyspaces.entries := by
  obtain ⟨name, found⟩ := live
  exact ⟨name, AList.mem_lookup_iff.mp found⟩

theorem entry_live (entry : (_ : Name) × Keyspace) (member : entry ∈ db.keyspaces.entries) :
    db.Live entry.2 := ⟨entry.1, AList.mem_lookup_iff.mpr member⟩

theorem memtable_watermark (ks : Keyspace) (live : db.Live ks) :
    db.memtableWatermarks.lookup ks.id = (db.trees ks.id).getHighestMemtableSeqno := by
  have shape : ∀ watermark ∈ db.memtableWatermarks, (db.trees watermark.1).getHighestMemtableSeqno = some watermark.2 := by
    intro watermark member
    obtain ⟨entry, -, found⟩ := List.mem_filterMap.mp member
    obtain ⟨lsn, top, rfl⟩ := Option.map_eq_some_iff.mp found
    exact top
  obtain ⟨name, member⟩ := live_entry db ks live
  cases top : (db.trees ks.id).getHighestMemtableSeqno with
  | none =>
    rw [List.lookup_eq_none_iff]
    intro watermark stored
    refine bne_iff_ne.mpr fun same => ?_
    have held := shape watermark stored
    rw [← same, top] at held
    cases held
  | some lsn =>
    have marked : (ks.id, lsn) ∈ db.memtableWatermarks := List.mem_filterMap.mpr ⟨⟨name, ks⟩, member, by simp [top]⟩
    cases found : db.memtableWatermarks.lookup ks.id with
    | none =>
      have absent := List.lookup_eq_none_iff.mp found _ marked
      simp at absent
    | some other =>
      obtain ⟨front, back, split, -⟩ := List.lookup_eq_some_iff.mp found
      have held := shape (ks.id, other) (by simp [split])
      rw [top] at held
      exact held.symm

theorem sound_rotated_journal (sound : Sound db) : Sound db.rotateJournal := by
  have records := rotate_journal_records db
  constructor
  · exact cataloged_of_same db _ sound.cataloged rfl rfl rfl rfl
  · rw [records]
    exact sound.intact
  · rw [records]
    exact sound.issued
  · intro ks live
    obtain ⟨evicted, accounted⟩ := sound.accounted ks live
    have projected : db.rotateJournal.project ks.id = (db.project ks.id).rotateJournal := by
      simp only [Database.project, Database.rotateJournal, KeyspaceLog.rotateJournal, List.map_append, List.map_cons,
        List.map_nil, memtable_watermark db ks live]
      rfl
    exact ⟨evicted, projected ▸ accounted_rotate_journal db.seqno evicted _ accounted⟩

theorem live_not_deleted (ks : Keyspace) (live : db.Live ks) : db.isDeleted ks.id = false := by
  obtain ⟨name, member⟩ := live_entry db ks live
  rw [Database.isDeleted, List.all_eq_false]
  exact ⟨⟨name, ks⟩, member, by simp⟩

theorem evict_accounted (ks : Keyspace) (live : db.Live ks) (bound : Nat) (log : List (Event K V))
    (journals : List (SealedJournal K V)) (evicted : List (Event K V))
    (accounted : Accounted bound evicted
      ⟨db.trees ks.id, journals.map fun journal => (journal.watermarks.lookup ks.id, journalEvents ks.id journal.batches), log⟩) :
    ∃ evicted, Accounted bound evicted
      ⟨db.trees ks.id,
        (db.evict journals).map fun journal => (journal.watermarks.lookup ks.id, journalEvents ks.id journal.batches), log⟩ := by
  induction journals generalizing evicted with
  | nil => exact ⟨evicted, accounted⟩
  | cons journal rest ih =>
    unfold Database.evict
    split
    · rename_i evictable
      have reached : ∀ lsn, journal.watermarks.lookup ks.id = some lsn → (db.trees ks.id).flushedUpTo lsn = true := by
        intro lsn marked
        obtain ⟨front, back, split, -⟩ := List.lookup_eq_some_iff.mp marked
        have checked := List.all_eq_true.mp evictable (ks.id, lsn) (by simp [split])
        simpa [live_not_deleted db ks live] using checked
      exact ih _ (accounted_evict bound evicted _ _ _ _ _ accounted reached)
    · exact ⟨evicted, accounted⟩

theorem sound_maintained (sound : Sound db) : Sound db.maintenance := by
  constructor
  · exact cataloged_of_same db _ sound.cataloged rfl rfl rfl rfl
  · exact fun batch member => sound.intact batch ((maintenance_records db).subset member)
  · exact fun batch member => sound.issued batch ((maintenance_records db).subset member)
  · intro ks live
    obtain ⟨evicted, accounted⟩ := sound.accounted ks live
    exact evict_accounted db ks live db.seqno _ db.sealedJournals evicted accounted

omit [DecidableEq Name] in
theorem silent_journal (id : Nat) (silent : ∀ batch ∈ db.records, batch.events id = []) :
    (∀ log ∈ (db.project id).sealedLogs, log.2 = []) ∧ (db.project id).log = [] := by
  constructor
  · intro log member
    obtain ⟨journal, journalMember, rfl⟩ := List.mem_map.mp member
    rw [journalEvents, List.flatMap_eq_nil_iff]
    intro batch inside
    exact silent batch (List.mem_append_left _ (List.mem_flatten.mpr ⟨_, List.mem_map_of_mem journalMember, inside⟩))
  · change journalEvents id db.journal = []
    rw [journalEvents, List.flatMap_eq_nil_iff]
    intro batch inside
    exact silent batch (List.mem_append_right _ inside)

theorem ledger_created (ledger : Ledger db) (numbered : ∀ ks, db.Live ks → ks.id < db.keyspaceIdCounter)
    (name : Name) (absent : db.keyspaces.lookup name = none) : Ledger (db.keyspace name) := by
  have shape := keyspace_created db name absent
  constructor
  · rw [shape]
    exact ledger.intact
  · rw [shape]
    exact fun batch member id unissued => ledger.issued batch member id (Nat.le_of_succ_le unissued)
  · intro ks live
    rcases (live_after_keyspace db name absent ks).mp live with rfl | old
    · obtain ⟨sealedSilent, logSilent⟩ := silent_journal db db.keyspaceIdCounter fun batch member =>
        ledger.issued batch member _ (Nat.le_refl _)
      have projected : (db.keyspace name).project db.keyspaceIdCounter =
          ⟨.empty, (db.project db.keyspaceIdCounter).sealedLogs, []⟩ := by
        rw [shape, ← logSilent]
        simp [Database.project]
      exact ⟨[], projected ▸ accounted_fresh _ _ sealedSilent⟩
    · obtain ⟨evicted, accounted⟩ := ledger.accounted ks old
      have different : ks.id ≠ db.keyspaceIdCounter := Nat.ne_of_lt (numbered ks old)
      have projected : (db.keyspace name).project ks.id = db.project ks.id := by
        rw [shape]
        simp only [Database.project, Function.update_of_ne different]
      have raised : db.seqno ≤ (db.keyspace name).seqno := by
        rw [shape]
        exact Nat.le_succ _
      exact ⟨evicted, projected ▸ accounted_bound _ _ _ _ accounted raised⟩

theorem sound_created (sound : Sound db) (name : Name) (absent : db.keyspaces.lookup name = none) :
    Sound (db.keyspace name) :=
  (ledger_created db sound.ledger sound.cataloged.numbered name absent).sound (cataloged_keyspace db sound.cataloged name)

theorem sound_took (sound : Sound db) (count : Nat) : Sound (db.takeSeqnos count) := by
  refine ⟨cataloged_of_same db _ sound.cataloged rfl rfl rfl rfl, sound.intact, sound.issued, ?_⟩
  intro ks live
  obtain ⟨evicted, accounted⟩ := sound.accounted ks live
  exact ⟨evicted, accounted_bound _ _ _ _ accounted (Nat.le_add_right _ count)⟩

theorem sound_effect (op : Op Name K V) (sound : Sound db) (effect : Effect db op next) :
    Sound next := by
  cases effect with
  | idle => exact sound
  | wrote batch addressed => exact sound_wrote db sound batch addressed
  | rotatedMemtable ks memtable t rotated =>
    apply sound_tree db sound ks t
    intro evicted p accounted same
    exact accounted_rotate_memtable db.seqno evicted p accounted memtable t (same ▸ rotated)
  | flushed ks =>
    apply sound_tree db sound ks
    intro evicted p accounted same
    rw [← same]
    exact accounted_flush db.seqno evicted p accounted
  | took count => exact sound_took db sound count
  | rotatedJournal => exact sound_rotated_journal db sound
  | maintained => exact sound_maintained db sound
  | created name _ absent => exact sound_created db sound name absent

theorem sound_new : Sound (Database.new : Database Name K V) := by
  constructor
  · exact cataloged_new
  · simp [Database.new, Database.records]
  · simp [Database.new, Database.records]
  · simp [Database.new, Database.Live]

theorem plain_run_sound (ops : List (Op Name K V)) (db : Database Name K V)
    (run : Run (Guarded Step fun _ op => op.Plain) Database.new ops db) : Sound db := by
  apply run_invariant _ Sound _ run sound_new
  intro state op next sound guarded
  obtain ⟨plain, step⟩ := guarded
  rcases step_effect state next op step with ⟨-, effect⟩ | ⟨ks, pairs, rfl, -⟩ | ⟨name, rfl, -⟩ | ⟨ks, kept, rfl, -⟩
  · exact sound_effect state next op sound effect
  · exact absurd plain (by simp [Op.Plain])
  · exact absurd plain (by simp [Op.Plain])
  · exact absurd plain (by simp [Op.Plain])

theorem reopened_resolves (reopened : Reopened db next) (id : Nat)
    (resolved : (next.resolve id).isSome) : ∃ ks, db.Live ks ∧ ks.id = id := by
  obtain ⟨ks, found⟩ := Option.isSome_iff_exists.mp resolved
  have same := resolve_id next reopened.cataloged id ks found
  obtain ⟨name, live⟩ := (resolve_live next reopened.cataloged ks).mp (same ▸ found)
  exact ⟨ks, ⟨name, reopened.keyspaces name ▸ live⟩, same⟩

theorem reopened_live (reopened : Reopened db next) (ks : Keyspace) (live : db.Live ks) :
    (next.resolve ks.id).isSome := by
  obtain ⟨name, found⟩ := live
  rw [(resolve_live next reopened.cataloged ks).mpr ⟨name, reopened.keyspaces name ▸ found⟩]
  rfl

theorem reopened_idle (reopened : Reopened db next) :
    ∀ entry ∈ next.keyspaces.entries, (next.trees entry.2.id).activeMemtable = [] := by
  intro entry member
  obtain ⟨name, found⟩ := entry_live next entry member
  rw [reopened.trees entry.2 ⟨name, reopened.keyspaces name ▸ found⟩]
  rfl

omit [DecidableEq Name] in
theorem check_rotated_ok
    (idle : ∀ entry ∈ db.keyspaces.entries, (db.trees entry.2.id).activeMemtable = []) : db.checkRotated = .ok () := by
  have none : ¬ (db.keyspaces.entries.any fun entry => !(db.trees entry.2.id).activeMemtable.isEmpty) = true := by
    rw [List.any_eq_true]
    rintro ⟨entry, member, busy⟩
    simp [idle entry member] at busy
  rw [Database.checkRotated, if_neg none]

omit [DecidableEq Name] in
theorem journal_events_flatten (id : Nat) (journals : List (List (Batch K V))) :
    (journals.map (journalEvents id)).flatten = journalEvents id journals.flatten := by
  induction journals with
  | nil => rfl
  | cons batches rest ih =>
    rw [List.map_cons, List.flatten_cons, List.flatten_cons, ih, journalEvents, journalEvents, journalEvents, List.flatMap_append]

omit [DecidableEq Name] in
theorem sealed_logs_events (id : Nat) :
    ((db.project id).sealedLogs.map Prod.snd).flatten = journalEvents id db.crash.sealedJournals.flatten := by
  rw [← journal_events_flatten, Database.project, Database.crash, List.map_map, List.map_map]
  rfl

omit [DecidableEq Name] in
theorem records_events (id : Nat) :
    journalEvents id db.records = ((db.project id).sealedLogs.map Prod.snd).flatten ++ (db.project id).log := by
  rw [sealed_logs_events, Database.records, journalEvents, List.flatMap_append]
  rfl

-- All that replaying the journals asks of them.
structure Replayable (db : Database Name K V) : Prop where
  cataloged : Cataloged db
  intact : ∀ batch ∈ db.records, batch.Intact
  ascending : ∀ ks, db.Live ks → Ascending (journalEvents ks.id db.records)

theorem ledger_ascending (ledger : Ledger db) (ks : Keyspace) (live : db.Live ks) :
    Ascending (journalEvents ks.id db.records) := by
  obtain ⟨evicted, accounted⟩ := ledger.accounted ks live
  rw [records_events]
  exact (List.pairwise_append.mp accounted.ascending).2.1

theorem sealed_logs_recover (ascending : ∀ ks, db.Live ks → Ascending (journalEvents ks.id db.records))
    (ks : Keyspace) (live : db.Live ks) (front back : List (List (Batch K V))) (journals : db.crash.sealedJournals = front ++ back) :
    ∃ t, (front.map (journalEvents ks.id)).foldlM recoverLog (.recovered (db.trees ks.id).tables) = .ok t ∧
      Replayed (db.trees ks.id).tables (journalEvents ks.id front.flatten) t := by
  have ordered : Ascending (journalEvents ks.id front.flatten) := by
    have whole := ascending ks live
    have split : db.records = front.flatten ++ (back.flatten ++ db.journal) := by
      rw [← List.append_assoc, ← List.flatten_append, ← journals]
      rfl
    rw [split, journalEvents, List.flatMap_append] at whole
    exact (List.pairwise_append.mp whole).1
  rw [← journal_events_flatten] at ordered ⊢
  exact recover_logs (db.trees ks.id).tables [] (front.map (journalEvents ks.id)) _ (replayed_initially _) ordered

-- A recovery that went through: middle is the database after the sealed journals.
structure Recovered (db middle next : Database Name K V) : Prop where
  resealed : ∃ target, Resealed (recoverKeyspaces db.crash) db.crash.sealedJournals
    (SealedEntry (recoverKeyspaces db.crash) db.crash.sealedJournals) target middle
  folded : ∀ ks, db.Live ks →
    (db.crash.sealedJournals.map (journalEvents ks.id)).foldlM recoverLog (.recovered (db.trees ks.id).tables) =
      .ok (middle.trees ks.id)
  sealed : ∀ ks, db.Live ks →
    Replayed (db.trees ks.id).tables (journalEvents ks.id db.crash.sealedJournals.flatten) (middle.trees ks.id)
  active : ∀ ks, db.Live ks → next.trees ks.id = (journalEvents ks.id db.journal).foldl Tree.replay (middle.trees ks.id)
  counted : next = Database.recoverSeqno { middle with trees := next.trees }

variable (order : IterationOrder Nat)

theorem recover_of_sealed (disk : Disk Name K V) (middle : Database Name K V)
    (sealed : disk.sealedJournals.foldlM (Database.recoverSealedJournal order) (recoverKeyspaces disk) = .ok middle)
    (routed : middle.Routed) (idle : ∀ entry ∈ middle.keyspaces.entries, (middle.trees entry.2.id).activeMemtable = [])
    (intact : ∀ batch ∈ disk.journal, batch.Intact) :
    ∃ next, recover order disk = .ok next ∧ next = Database.recoverSeqno { middle with trees := next.trees } ∧
      ∀ id, (middle.resolve id).isSome → next.trees id = (journalEvents id disk.journal).foldl Tree.replay (middle.trees id) := by
  obtain ⟨replayed, loop, replays⟩ := replay_journal_replays middle routed disk.journal intact
  refine ⟨replayed.recoverSeqno, ?_, ?_, replays.trees⟩
  · rw [recover, sealed]
    simp only [bind, Except.bind, check_rotated_ok middle idle, loop]
    rfl
  · rw [replays.frame]
    rfl

theorem recovers_sealed (db : Database Name K V) (reopened : Reopened db (recoverKeyspaces db.crash))
    (whole : ∀ batch ∈ db.records, batch.Intact) (ascending : ∀ ks, db.Live ks → Ascending (journalEvents ks.id db.records)) :
    ∃ target middle,
      db.crash.sealedJournals.foldlM (Database.recoverSealedJournal order) (recoverKeyspaces db.crash) = .ok middle ∧
      Resealed (recoverKeyspaces db.crash) db.crash.sealedJournals
        (SealedEntry (recoverKeyspaces db.crash) db.crash.sealedJournals) target middle ∧
      ∀ ks, db.Live ks →
        (db.crash.sealedJournals.map (journalEvents ks.id)).foldlM recoverLog (.recovered (db.trees ks.id).tables) =
          .ok (middle.trees ks.id) ∧
        Replayed (db.trees ks.id).tables (journalEvents ks.id db.crash.sealedJournals.flatten) (middle.trees ks.id) := by
  have routed : (recoverKeyspaces db.crash).Routed := resolve_id _ reopened.cataloged
  let target : Trees K V := fun id =>
    match (db.crash.sealedJournals.map (journalEvents id)).foldlM recoverLog (.recovered (db.trees id).tables) with
    | .ok t => t
    | .error _ => .empty
  have targeted : ∀ ks, db.Live ks →
      (db.crash.sealedJournals.map (journalEvents ks.id)).foldlM recoverLog (.recovered (db.trees ks.id).tables) =
        .ok (target ks.id) ∧
      Replayed (db.trees ks.id).tables (journalEvents ks.id db.crash.sealedJournals.flatten) (target ks.id) := by
    intro ks live
    obtain ⟨t, recovered, replayed⟩ := sealed_logs_recover db ascending ks live _ [] (List.append_nil _).symm
    have same : target ks.id = t := by
      simp only [target, recovered]
    exact ⟨same ▸ recovered, same ▸ replayed⟩
  have sealable : ∀ id, ((recoverKeyspaces db.crash).resolve id).isSome →
      (db.crash.sealedJournals.map (journalEvents id)).foldlM recoverLog ((recoverKeyspaces db.crash).trees id) =
        .ok (target id) := by
    intro id resolved
    obtain ⟨ks, live, rfl⟩ := reopened_resolves db _ reopened id resolved
    rw [reopened.trees ks live]
    exact (targeted ks live).1
  have intact : ∀ batches ∈ db.crash.sealedJournals, ∀ batch ∈ batches, batch.Intact := by
    intro batches member batch inside
    exact whole batch (List.mem_append_left _ (List.mem_flatten.mpr ⟨batches, member, inside⟩))
  obtain ⟨middle, sealed, resealed⟩ := recover_sealed_journals_ok order _ routed db.crash.sealedJournals intact target sealable
  refine ⟨target, middle, sealed, resealed, ?_⟩
  intro ks live
  rw [resealed.trees ks.id (reopened_live db _ reopened ks live)]
  exact targeted ks live

theorem reopened_recovers (db : Database Name K V) (reopened : Reopened db (recoverKeyspaces db.crash))
    (whole : ∀ batch ∈ db.records, batch.Intact) (ascending : ∀ ks, db.Live ks → Ascending (journalEvents ks.id db.records)) :
    ∃ middle next, recover order db.crash = .ok next ∧ Recovered db middle next := by
  obtain ⟨target, middle, sealed, resealed, replayed⟩ := recovers_sealed order db reopened whole ascending
  have resolve := resealed_resolve resealed
  have keyspaces : middle.keyspaces = (recoverKeyspaces db.crash).keyspaces := by rw [resealed.frame]
  have idle : ∀ entry ∈ middle.keyspaces.entries, (middle.trees entry.2.id).activeMemtable = [] := by
    intro entry member
    rw [keyspaces] at member
    obtain ⟨name, found⟩ := entry_live _ entry member
    exact replayed_idle _ _ _ (replayed entry.2 ⟨name, reopened.keyspaces name ▸ found⟩).2
  have intact : ∀ batch ∈ db.crash.journal, batch.Intact := fun batch member =>
    whole batch (List.mem_append_right _ member)
  have routed : middle.Routed := by
    rw [Database.Routed, resolve]
    exact resolve_id _ reopened.cataloged
  obtain ⟨next, recovered, counted, followed⟩ := recover_of_sealed order db.crash middle sealed routed idle intact
  refine ⟨middle, next, recovered, ⟨target, resealed⟩, fun ks live => (replayed ks live).1, fun ks live => (replayed ks live).2,
    ?_, counted⟩
  intro ks live
  exact followed ks.id (by rw [resolve]; exact reopened_live db _ reopened ks live)

theorem replayable_recovers (db : Database Name K V) (replayable : Replayable db) :
    ∃ middle next, recover order db.crash = .ok next ∧ Recovered db middle next :=
  reopened_recovers order db (recover_keyspaces_reopens db replayable.cataloged) replayable.intact replayable.ascending

theorem reopened_keyspaces (reopened : Reopened db (recoverKeyspaces db.crash))
    (recovered : Recovered db middle next) (name : Name) : next.keyspaces.lookup name = db.keyspaces.lookup name := by
  obtain ⟨target, resealed⟩ := recovered.resealed
  have same : next.keyspaces = (recoverKeyspaces db.crash).keyspaces := by
    rw [recovered.counted, resealed.frame]
    rfl
  rw [same]
  exact reopened.keyspaces name

theorem recovered_keyspaces (cataloged : Cataloged db) (recovered : Recovered db middle next)
    (name : Name) : next.keyspaces.lookup name = db.keyspaces.lookup name :=
  reopened_keyspaces db middle next (recover_keyspaces_reopens db cataloged) recovered name

theorem ledger_recovers [DecidableEq K] (order : IterationOrder Nat) (db : Database Name K V) (ledger : Ledger db)
    (reopened : Reopened db (recoverKeyspaces db.crash)) :
    ∃ next, recover order db.crash = .ok next ∧ (∀ name, next.keyspaces.lookup name = db.keyspaces.lookup name) ∧
      ∀ ks, db.Live ks → ∀ key, (next.trees ks.id).get key = (db.trees ks.id).get key := by
  obtain ⟨middle, next, completed, recovered⟩ := reopened_recovers order db reopened ledger.intact (ledger_ascending db ledger)
  refine ⟨next, completed, reopened_keyspaces db middle next reopened recovered, ?_⟩
  intro ks live key
  obtain ⟨evicted, accounted⟩ := ledger.accounted ks live
  have sealed := recovered.sealed ks live
  rw [← sealed_logs_events] at sealed
  rw [recovered.active ks live]
  exact recovered_get db.seqno evicted _ accounted _ sealed key

theorem sound_recovers [DecidableEq K] (order : IterationOrder Nat) (db : Database Name K V) (sound : Sound db) :
    ∃ next, recover order db.crash = .ok next ∧ (∀ name, next.keyspaces.lookup name = db.keyspaces.lookup name) ∧
      ∀ ks, db.Live ks → ∀ key, (next.trees ks.id).get key = (db.trees ks.id).get key :=
  ledger_recovers order db sound.ledger (recover_keyspaces_reopens db sound.cataloged)

-- Whatever a session did short of ingesting and deleting, and wherever it was
-- cut off between two operations, recovery succeeds and finds the same values.
theorem recovery_restores_visible_state [DecidableEq K] (order : IterationOrder Nat) (ops : List (Op Name K V))
    (db : Database Name K V) (run : Run (Guarded Step fun _ op => op.Plain) Database.new ops db) :
    ∃ next, recover order db.crash = .ok next ∧ (∀ name, next.keyspaces.lookup name = db.keyspaces.lookup name) ∧
      ∀ ks, db.Live ks → ∀ key, (next.trees ks.id).get key = (db.trees ks.id).get key :=
  sound_recovers order db (plain_run_sound ops db run)

theorem recovery_after_flush_and_clear :
    ∃ db : Database Nat Nat Nat, ∃ next, recover CountMap.inStoredOrder db.crash = .ok next ∧ db.sealedJournals ≠ [] ∧
      (db.trees 1).get 5 = none ∧ (db.trees 1).get 6 = some 61 ∧
      (next.trees 1).get 5 = none ∧ (next.trees 1).get 6 = some 61 := by
  let ks : Keyspace := ⟨1, 0⟩
  have session : ∃ db : Database Nat Nat Nat,
      Run (Guarded Step fun _ op => op.Plain) Database.new
        [.keyspace 0, .insert ks 5 50, .rotateMemtable ks, .flush ks, .clear ks, .insert ks 6 60, .rotateJournal, .maintenance,
          .insert ks 6 61] db ∧ db.Live ks ∧ db.sealedJournals ≠ [] ∧
        (db.trees 1).get 5 = none ∧ (db.trees 1).get 6 = some 61 :=
    ⟨_, .cons _ _ ⟨trivial, trivial, rfl⟩ (.cons _ _ ⟨trivial, ⟨0, rfl⟩, rfl⟩ (.cons _ _ ⟨trivial, ⟨0, rfl⟩, rfl⟩
      (.cons _ _ ⟨trivial, ⟨0, rfl⟩, rfl⟩ (.cons _ _ ⟨trivial, ⟨0, rfl⟩, rfl⟩ (.cons _ _ ⟨trivial, ⟨0, rfl⟩, rfl⟩
      (.cons _ _ ⟨trivial, trivial, rfl⟩ (.cons _ _ ⟨trivial, trivial, rfl⟩ (.cons _ _ ⟨trivial, ⟨0, rfl⟩, rfl⟩ (.nil _))))))))),
      ⟨0, rfl⟩, by decide, by decide, by decide⟩
  obtain ⟨db, run, live, sealed, absent, found⟩ := session
  obtain ⟨next, recovered, -, same⟩ := recovery_restores_visible_state CountMap.inStoredOrder _ db run
  exact ⟨db, next, recovered, sealed, absent, found, absent ▸ same ks live 5, found ▸ same ks live 6⟩

end OmryaKv.Storage
