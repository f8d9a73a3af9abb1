import OmryaKv.Storage.Restart

set_option autoImplicit false

namespace OmryaKv.Storage

open Lib

variable {Name K V : Type}

variable (db next : Database Name K V)

-- A sealed journal has a watermark for the keyspace.
def Database.Awaits (db : Database Name K V) (id lsn : Nat) : Prop := ∃ journal ∈ db.sealedJournals, (id, lsn) ∈ journal.watermarks

theorem evict_all_iff (journals : List (SealedJournal K V)) :
    db.evict journals = [] ↔ ∀ journal ∈ journals, db.evictable journal = true := by
  induction journals with
  | nil => simp [Database.evict]
  | cons journal rest ih =>
    rw [Database.evict, List.forall_mem_cons]
    split
    · next done => rw [ih, and_iff_right done]
    · next waiting => exact iff_of_false (List.cons_ne_nil _ _) fun all => waiting all.1

variable [DecidableEq Name]

namespace Database

-- No keyspace has an entry in a memtable, active or sealed.
def Idle (db : Database Name K V) : Prop := ∀ ks, db.Live ks → (db.trees ks.id).memtables = []

-- Every keyspace still has an entry that is numbered as high as its watermarks.
def Outlasts (db : Database Name K V) : Prop :=
  ∀ ks, db.Live ks → ∀ lsn, db.Awaits ks.id lsn → ∃ entry ∈ (db.trees ks.id).all, lsn ≤ entry.seqno

end Database

-- A keyspace is not cleared while a sealed journal has a watermark for it, and
-- lsm-tree, when it leaves entries out, keeps one as high as each watermark. And
-- at a restart, for every record in a sealed journal there is an item of the same
-- keyspace that is numbered as high and that no clear follows in the journals, or
-- a table entry where the journals hold no clear of the keyspace.
def Harmless (db : Database Name K V) : Life Name K V → Prop
  | .session (.clear ks) => ∀ lsn, ¬ db.Awaits ks.id lsn
  | .session (.collect ks kept) => ∀ lsn, db.Awaits ks.id lsn → ∃ entry ∈ ((db.trees ks.id).collect kept).all, lsn ≤ entry.seqno
  | .session _ => True
  | .reopen _ => ∀ ks ∈ db.crash.existing, ∀ batches ∈ db.crash.sealedJournals, ∀ event ∈ journalEvents ks.id batches,
      ∃ above ∈ db.crash.keptIn ks, event.seqno ≤ above

theorem not_deleted_live (id : Nat) (present : db.isDeleted id ≠ true) : ∃ ks, db.Live ks ∧ ks.id = id := by
  have found : ∃ entry ∈ db.keyspaces.entries, entry.2.id = id := by
    simpa [Database.isDeleted] using present
  obtain ⟨entry, member, same⟩ := found
  exact ⟨entry.2, entry_live db entry member, same⟩

-- In an idle database maintenance asks for just this.
theorem maintenance_evicts_all_iff (idle : db.Idle) :
    db.maintenance.sealedJournals = [] ↔ db.Outlasts := by
  have inTables : ∀ ks, db.Live ks → (db.trees ks.id).all = (db.trees ks.id).tables := by
    intro ks live
    rw [Tree.all, idle ks live]
    rfl
  change db.evict db.sealedJournals = [] ↔ _
  rw [evict_all_iff]
  constructor
  · rintro evictable ks live lsn ⟨journal, journalMember, member⟩
    have passed := List.all_eq_true.mp (evictable journal journalMember) (ks.id, lsn) member
    rcases Bool.or_eq_true _ _ ▸ passed with deleted | flushed
    · exact absurd deleted (by simp [live_not_deleted db ks live])
    · rw [inTables ks live]
      exact (Tree.flushed_up_to_iff _ _).mp flushed
  · intro outlasts journal journalMember
    refine List.all_eq_true.mpr ?_
    rintro ⟨id, lsn⟩ member
    rw [Bool.or_eq_true]
    by_cases deleted : db.isDeleted id = true
    · exact .inl deleted
    · obtain ⟨ks, live, rfl⟩ := not_deleted_live db id deleted
      have held := outlasts ks live lsn ⟨journal, journalMember, member⟩
      rw [inTables ks live] at held
      exact .inr ((Tree.flushed_up_to_iff _ _).mpr held)

-- What every run keeps true of the records and the watermarks.
structure Traced (db : Database Name K V) : Prop where
  cataloged : Cataloged db
  intact : ∀ batch ∈ db.records, batch.Intact
  numbered : ∀ id lsn, db.Awaits id lsn → id < db.keyspaceIdCounter

theorem traced_new : Traced (Database.new : Database Name K V) :=
  ⟨cataloged_new, by simp [Database.new, Database.records], by simp [Database.new, Database.Awaits]⟩

theorem memtable_watermarks_live (id lsn : Nat) (member : (id, lsn) ∈ db.memtableWatermarks) :
    ∃ ks, db.Live ks ∧ ks.id = id ∧ (db.trees id).getHighestMemtableSeqno = some lsn := by
  obtain ⟨entry, entryMember, marked⟩ := List.mem_filterMap.mp member
  obtain ⟨top, found, same⟩ := Option.map_eq_some_iff.mp marked
  cases same
  exact ⟨entry.2, entry_live db entry entryMember, rfl, found⟩

theorem step_awaits (op : Op Name K V) (step : Step db op next) (id lsn : Nat)
    (awaits : next.Awaits id lsn) : db.Awaits id lsn ∨ (id, lsn) ∈ db.memtableWatermarks := by
  obtain ⟨journal, journalMember, member⟩ := awaits
  by_cases rotated : op = .rotateJournal
  · subst rotated
    cases step.2
    rcases List.mem_append.mp journalMember with old | new
    · exact .inl ⟨journal, old, member⟩
    · rw [List.mem_singleton.mp new] at member
      exact .inr member
  by_cases evicted : op = .maintenance
  · subst evicted
    cases step.2
    exact .inl ⟨journal, (evict_suffix db db.sealedJournals).subset journalMember, member⟩
  rw [(step_journal db next op step rotated evicted).2] at journalMember
  exact .inl ⟨journal, journalMember, member⟩

theorem traced_step (label : Life Name K V) (traced : Traced db) (step : LifeStep db label next) :
    Traced next := by
  cases label with
  | reopen order =>
    obtain ⟨base, taken, recovered⟩ := step
    have restarted := recover_restarts order db base traced.cataloged traced.intact recovered
    refine ⟨cataloged_of_same base _ restarted.cataloged rfl rfl rfl rfl, fun batch member => traced.intact batch ?_, ?_⟩
    · exact restarted.records ▸ member
    · rintro id lsn ⟨journal, journalMember, member⟩
      obtain ⟨ks, found⟩ := Option.isSome_iff_exists.mp ((restarted.watermarks journal journalMember id lsn).mp member).1
      have same := resolve_id base restarted.cataloged id ks found
      exact same ▸ restarted.cataloged.numbered ks ((resolve_live base restarted.cataloged ks).mp (same ▸ found))
  | session op =>
    refine ⟨cataloged_step db next op traced.cataloged step, ?_, ?_⟩
    · intro batch member
      rcases step_records db next op step batch member with old | logged
      · exact traced.intact batch old
      · exact (step_writes db next op step batch logged).2.intact
    · intro id lsn awaits
      refine Nat.lt_of_lt_of_le ?_ (counter_grows db next op step)
      rcases step_awaits db next op step id lsn awaits with old | new
      · exact traced.numbered id lsn old
      · obtain ⟨ks, live, rfl, -⟩ := memtable_watermarks_live db id lsn new
        exact traced.cataloged.numbered ks live

omit [DecidableEq Name] in
theorem op_batch_clears (op : Op Name K V) (seqno : Nat) (batch : Batch K V) (logged : op.batch seqno = some batch)
    (mark : ClearMark) (member : mark ∈ batch.clearedKeyspaces) : op = .clear ⟨mark.keyspaceId, mark.origin⟩ := by
  cases op with
  | clear ks =>
    cases logged
    rw [List.mem_singleton.mp member]
  | commit writes =>
    simp only [Op.batch] at logged
    split at logged
    · cases logged
    · cases logged
      cases member
  | insert ks key value | remove ks key | removeWeak ks key =>
    cases logged
    cases member
  | _ => cases logged

omit [DecidableEq Name] in
theorem wrote_keeps (batch : Batch K V) (id : Nat)
    (spared : ∀ mark ∈ batch.clearedKeyspaces, mark.keyspaceId ≠ id) (entry : Entry K V) (member : entry ∈ (db.trees id).all) :
    entry ∈ ((db.batched batch).trees id).all := by
  have kept : NoClear (batch.events id) := by
    intro event eventMember
    rcases List.mem_append.mp eventMember with put | clear
    · obtain ⟨item, -, rfl⟩ := List.mem_map.mp put
      rfl
    · obtain ⟨mark, filtered, -⟩ := List.mem_map.mp clear
      obtain ⟨markMember, here⟩ := List.mem_filter.mp filtered
      exact absurd (by simpa using here) (spared mark markMember)
  change entry ∈ ((batch.events id).foldl Tree.replay (db.trees id)).all
  rw [replay_all, contents_of_no_clear _ _ kept]
  exact List.mem_append_right _ member

theorem update_keeps (trees : Trees K V) (id target : Nat) (t : Tree K V)
    (kept : ∀ entry ∈ (trees target).all, entry ∈ t.all) (entry : Entry K V) (member : entry ∈ (trees id).all) :
    entry ∈ (Function.update trees target t id).all := by
  by_cases here : id = target
  · subst here
    rw [Function.update_self]
    exact kept entry member
  · rwa [Function.update_of_ne here]

theorem created_keeps (traced : Traced db) (name : Name) (absent : db.keyspaces.lookup name = none)
    (ks : Keyspace) (live : (db.keyspace name).Live ks) (lsn : Nat) (awaits : db.Awaits ks.id lsn) :
    db.Live ks ∧ (db.keyspace name).trees ks.id = db.trees ks.id := by
  have below := traced.numbered ks.id lsn awaits
  rcases (live_after_keyspace db name absent ks).mp live with rfl | old
  · exact absurd below (Nat.lt_irrefl _)
  · refine ⟨old, ?_⟩
    rw [keyspace_created db name absent]
    exact Function.update_of_ne (Nat.ne_of_lt below) _ _

-- Apart from a clear and lsm-tree's garbage collection, no operation of a session
-- takes an entry out of a tree, and a new keyspace has no watermark yet.
theorem session_keeps (op : Op Name K V) (traced : Traced db) (step : Step db op next)
    (harmless : Harmless db (.session op)) (uncollected : ∀ ks kept, op ≠ .collect ks kept) (ks : Keyspace) (live : next.Live ks)
    (lsn : Nat) (awaits : next.Awaits ks.id lsn) :
    db.Live ks ∧ ∀ entry ∈ (db.trees ks.id).all, entry ∈ (next.trees ks.id).all := by
  cases logged : op.batch db.seqno with
  | some batch =>
    obtain ⟨rfl, -⟩ := step_writes db next op step batch logged
    refine ⟨live, wrote_keeps db batch ks.id ?_⟩
    intro mark member same
    cases op_batch_clears op db.seqno batch logged mark member
    exact harmless lsn (same ▸ awaits)
  | none =>
    cases perform_silent db next op step.2 logged with
    | rotatedMemtable target memtable t rotated =>
      refine ⟨live, update_keeps db.trees ks.id target.id t ?_⟩
      rw [Tree.rotate_memtable_all _ _ _ rotated]
      exact fun _ member => member
    | flushed target =>
      refine ⟨live, update_keeps db.trees ks.id target.id _ ?_⟩
      rw [Tree.flush_all]
      exact fun _ member => member
    | collected target kept => exact absurd rfl (uncollected target kept)
    | ingested target pairs =>
      refine ⟨live, update_keeps db.trees ks.id target.id _ ?_⟩
      exact fun _ member => List.mem_append_right _ (List.mem_append_right _ member)
    | created name absent =>
      have before : db.Awaits ks.id lsn := by
        rw [keyspace_created db name absent] at awaits
        exact awaits
      obtain ⟨old, same⟩ := created_keeps db traced name absent ks live lsn before
      rw [same]
      exact ⟨old, fun _ member => member⟩
    | deleted name =>
      cases found : db.keyspaces.lookup name with
      | none =>
        rw [delete_missing db name found] at live ⊢
        exact ⟨live, fun _ member => member⟩
      | some deleted =>
        obtain ⟨old, apart⟩ := (live_after_delete db traced.cataloged name deleted found ks).mp live
        refine ⟨old, ?_⟩
        rw [delete_existing db name deleted found]
        intro entry member
        simpa only [Function.update_of_ne apart] using member
    | _ => exact ⟨live, fun _ member => member⟩

theorem outlasts_session (op : Op Name K V) (traced : Traced db) (outlasts : db.Outlasts)
    (step : Step db op next) (harmless : Harmless db (.session op)) (uncollected : ∀ ks kept, op ≠ .collect ks kept) :
    next.Outlasts := by
  intro ks live lsn awaits
  obtain ⟨old, kept⟩ := session_keeps db next op traced step harmless uncollected ks live lsn awaits
  have held : ∃ entry ∈ (db.trees ks.id).all, lsn ≤ entry.seqno := by
    rcases step_awaits db next op step ks.id lsn awaits with before | new
    · exact outlasts ks old lsn before
    · obtain ⟨_, -, -, top⟩ := memtable_watermarks_live db ks.id lsn new
      obtain ⟨entry, member, rfl⟩ := highest_attained _ _ _ top
      exact ⟨entry, List.mem_append_left _ member, Nat.le_refl _⟩
  obtain ⟨entry, member, reached⟩ := held
  exact ⟨entry, kept entry member, reached⟩

theorem cleared_not_outlasts (ks : Keyspace) (step : Step db (.clear ks) next) (lsn : Nat)
    (awaits : db.Awaits ks.id lsn) : ¬ next.Outlasts := by
  intro outlasts
  obtain ⟨live, performed⟩ := step
  cases performed
  obtain ⟨entry, member, -⟩ := outlasts ks live lsn awaits
  simp [Database.clear, Database.journaled, modifyTree, Tree.clear, Tree.empty, Tree.all, Tree.memtables] at member

theorem outlasts_collected_iff (outlasts : db.Outlasts) (ks : Keyspace) (live : db.Live ks)
    (kept : List (Entry K V)) : (db.collect ks kept).Outlasts ↔ Harmless db (.session (.collect ks kept)) := by
  have here : (db.collect ks kept).trees ks.id = (db.trees ks.id).collect kept := Function.update_self ..
  constructor
  · intro after lsn awaits
    rw [← here]
    exact after ks live lsn awaits
  · intro harmless other otherLive lsn awaits
    by_cases same : other.id = ks.id
    · rw [same, here]
      exact harmless lsn (same ▸ awaits)
    · have elsewhere : (db.collect ks kept).trees other.id = db.trees other.id := Function.update_of_ne same ..
      rw [elsewhere]
      exact outlasts other otherLive lsn awaits

theorem outlasts_restarted_iff (order : IterationOrder Nat) (traced : Traced db)
    (restarted : Restarted db next) : next.Outlasts ↔ Harmless db (.reopen order) := by
  constructor
  · intro outlasts ks existing batches batchesMember event eventMember
    have live := (crash_existing db traced.cataloged ks).mp existing
    have nextLive := (restarted.live ks).mpr live
    have found := (resolve_live next restarted.cataloged ks).mpr nextLive
    have sealed : batches ∈ next.sealedJournals.map SealedJournal.batches := by
      rw [restarted.sealed]
      exact batchesMember
    obtain ⟨journal, journalMember, rfl⟩ := List.mem_map.mp sealed
    cases top : highest Event.seqno (journalEvents ks.id journal.batches) with
    | none =>
      rw [(highest_eq_none_iff _ _).mp top] at eventMember
      cases eventMember
    | some lsn =>
      have marked := (restarted.watermarks journal journalMember ks.id lsn).mpr ⟨by rw [found]; rfl, top⟩
      obtain ⟨entry, member, reached⟩ := outlasts ks nextLive lsn ⟨journal, journalMember, marked⟩
      have inside := (restarted.spans ks live).inside entry member
      refine ⟨entry.seqno, (crash_kept_in db ks entry.seqno).mpr ⟨entry, inside, rfl⟩, ?_⟩
      exact Nat.le_trans (rank_le_highest _ _ _ top event eventMember) reached
  · rintro harmless ks nextLive lsn ⟨journal, journalMember, member⟩
    have live := (restarted.live ks).mp nextLive
    have top := ((restarted.watermarks journal journalMember ks.id lsn).mp member).2
    obtain ⟨event, eventMember, rfl⟩ := highest_attained _ _ _ top
    have sealed : journal.batches ∈ db.crash.sealedJournals := by
      change _ ∈ db.sealedJournals.map SealedJournal.batches
      rw [← restarted.sealed]
      exact List.mem_map_of_mem journalMember
    obtain ⟨above, kept, reached⟩ :=
      harmless ks ((crash_existing db traced.cataloged ks).mpr live) journal.batches sealed event eventMember
    obtain ⟨entry, inside, rfl⟩ := (crash_kept_in db ks above).mp kept
    obtain ⟨other, otherMember, further⟩ := (restarted.spans ks live).covered entry inside
    exact ⟨other, otherMember, Nat.le_trans reached further⟩

theorem outlasts_step_iff (label : Life Name K V) (traced : Traced db) (outlasts : db.Outlasts)
    (step : LifeStep db label next) : next.Outlasts ↔ Harmless db label := by
  cases label with
  | reopen order =>
    obtain ⟨base, taken, recovered⟩ := step
    exact outlasts_restarted_iff db base order traced (recover_restarts order db base traced.cataloged traced.intact recovered)
  | session op =>
    by_cases collecting : ∃ ks kept, op = .collect ks kept
    · obtain ⟨ks, kept, rfl⟩ := collecting
      obtain ⟨enabled, performed⟩ := step
      cases performed
      exact outlasts_collected_iff db outlasts ks enabled.1 kept
    · refine ⟨?_, fun harmless => outlasts_session db next op traced outlasts step harmless fun ks kept same =>
        collecting ⟨ks, kept, same⟩⟩
      intro lasts
      cases op with
      | clear ks => exact fun lsn awaits => cleared_not_outlasts db next ks step lsn awaits lasts
      | collect ks kept => exact absurd ⟨ks, kept, rfl⟩ collecting
      | _ => trivial

theorem harmless_run (labels : List (Life Name K V)) (db : Database Name K V)
    (run : Run (Guarded LifeStep Harmless) Database.new labels db) : Traced db ∧ db.Outlasts := by
  have start : (Database.new : Database Name K V).Outlasts := by simp [Database.Outlasts, Database.new, Database.Awaits]
  apply run_invariant _ (fun db : Database Name K V => Traced db ∧ db.Outlasts) _ run ⟨traced_new, start⟩
  rintro state label next ⟨traced, outlasts⟩ ⟨harmless, step⟩
  exact ⟨traced_step state next label traced step, (outlasts_step_iff state next label traced outlasts step).mpr harmless⟩

-- As long as all steps are harmless, maintenance empties the list of sealed
-- journals whenever nothing is left to flush. The first step that is not, if it
-- leaves nothing to flush, leaves a journal that maintenance does not remove.
theorem sealed_journals_evicted_iff (labels : List (Life Name K V)) (db : Database Name K V)
    (run : Run (Guarded LifeStep Harmless) Database.new labels db) :
    (db.Idle → db.maintenance.sealedJournals = []) ∧
      ∀ label next, LifeStep db label next → next.Idle → (next.maintenance.sealedJournals = [] ↔ Harmless db label) := by
  obtain ⟨traced, outlasts⟩ := harmless_run labels db run
  refine ⟨fun idle => (maintenance_evicts_all_iff db idle).mpr outlasts, ?_⟩
  intro label next step idle
  rw [maintenance_evicts_all_iff next idle]
  exact outlasts_step_iff db next label traced outlasts step

omit [DecidableEq Name] in
theorem collect_above_watermark (ks : Keyspace) (kept : List (Entry K V)) (journal : SealedJournal K V)
    (lsn : Nat) (only : db.sealedJournals = [journal]) (marked : journal.watermarks = [(ks.id, lsn)]) (entry : Entry K V)
    (stays : entry ∈ kept) (reached : lsn ≤ entry.seqno) : Harmless db (.session (.collect ks kept)) := by
  rintro other ⟨found, foundMember, member⟩
  rw [only, List.mem_singleton] at foundMember
  subst foundMember
  rw [marked, List.mem_singleton] at member
  cases member
  exact ⟨entry, List.mem_append_right _ stays, reached⟩

theorem idle_of_single (db : Database Nat Nat Nat) (ks : Keyspace) (only : db.keyspaces.entries = [⟨0, ks⟩])
    (flushed : (db.trees ks.id).memtables = []) : db.Idle := by
  intro other live
  obtain ⟨name, member⟩ := live_entry db other live
  rw [only] at member
  cases List.mem_singleton.mp member
  exact flushed

theorem evicted_after_clear_and_insert :
    ∃ db : Database Nat Nat Nat, db.sealedJournals.length = 1 ∧ db.Idle ∧ db.maintenance.sealedJournals = [] := by
  let ks : Keyspace := ⟨1, 0⟩
  have life : ∃ db : Database Nat Nat Nat,
      Run (Guarded LifeStep Harmless) Database.new
        [.session (.keyspace 0), .session (.insert ks 5 50), .session (.clear ks), .session (.takeSeqnos 1),
          .session (.insert ks 6 60), .session (.insert ks 6 61), .session .rotateJournal, .session (.rotateMemtable ks),
          .session (.flush ks), .session (.collect ks [⟨6, 5, some 61, 0⟩]), .reopen CountMap.inStoredOrder,
          .session (.flush ks)] db ∧
        db.sealedJournals.length = 1 ∧ db.keyspaces.entries = [⟨0, ks⟩] ∧ (db.trees ks.id).memtables = [] :=
    ⟨_, .cons _ _ ⟨trivial, trivial, rfl⟩ (.cons _ _ ⟨trivial, ⟨0, rfl⟩, rfl⟩
      (.cons _ _ ⟨fun _ ⟨_, member, _⟩ => (by cases member), ⟨0, rfl⟩, rfl⟩ (.cons _ _ ⟨trivial, trivial, rfl⟩
      (.cons _ _ ⟨trivial, ⟨0, rfl⟩, rfl⟩ (.cons _ _ ⟨trivial, ⟨0, rfl⟩, rfl⟩
      (.cons _ _ ⟨trivial, trivial, rfl⟩ (.cons _ _ ⟨trivial, ⟨0, rfl⟩, rfl⟩ (.cons _ _ ⟨trivial, ⟨0, rfl⟩, rfl⟩
      (.cons _ _ ⟨collect_above_watermark _ ks _ _ 5 rfl rfl _ List.mem_cons_self (Nat.le_refl 5), ⟨⟨0, rfl⟩, ⟨by decide⟩⟩, rfl⟩
      (.cons _ _ ⟨by unfold Harmless; decide, .mk _ 2 (show recover _ _ = _ from rfl)⟩
      (.cons _ _ ⟨trivial, ⟨0, rfl⟩, rfl⟩ (.nil _)))))))))))), rfl, rfl, rfl⟩
  obtain ⟨db, run, sealed, only, flushed⟩ := life
  have idle := idle_of_single db ks only flushed
  exact ⟨db, sealed, idle, (sealed_journals_evicted_iff _ db run).1 idle⟩

-- First, a clear after the journal was sealed takes away what its watermark waits
-- for. Second, the sealed journal ends with a clear: it would be removed, but a
-- restart gives it the seqno of the clear as a watermark. Third, no clear at all:
-- the flush of a value and the weak tombstone on it stores neither.
theorem clear_blocks_eviction :
    (∃ db : Database Nat Nat Nat,
      Run LifeStep Database.new
          [.session (.keyspace 0), .session (.insert ⟨1, 0⟩ 5 50), .session .rotateJournal, .session (.clear ⟨1, 0⟩)] db ∧
        db.Idle ∧ db.maintenance.sealedJournals.length = 1) ∧
      (∃ db next : Database Nat Nat Nat,
        Run LifeStep Database.new
            [.session (.keyspace 0), .session (.insert ⟨1, 0⟩ 5 50), .session (.clear ⟨1, 0⟩), .session .rotateJournal] db ∧
          db.maintenance.sealedJournals = [] ∧ LifeStep db (.reopen CountMap.inStoredOrder) next ∧
          next.Idle ∧ next.maintenance.sealedJournals.length = 1) ∧
      ∃ db : Database Nat Nat Nat,
        Run LifeStep Database.new
            [.session (.keyspace 0), .session (.insert ⟨1, 0⟩ 5 50),
              .session (.commit ⟨[⟨1, 0, 5, .weakTombstone⟩], by decide⟩), .session .rotateJournal,
              .session (.rotateMemtable ⟨1, 0⟩), .session (.flush ⟨1, 0⟩), .session (.collect ⟨1, 0⟩ [])] db ∧
          db.Idle ∧ db.maintenance.sealedJournals.length = 1 :=
  ⟨⟨_, .cons _ _ ⟨trivial, rfl⟩ (.cons _ _ ⟨⟨0, rfl⟩, rfl⟩ (.cons _ _ ⟨trivial, rfl⟩ (.cons _ _ ⟨⟨0, rfl⟩, rfl⟩ (.nil _)))),
      idle_of_single _ ⟨1, 0⟩ rfl rfl, rfl⟩,
    ⟨_, _, .cons _ _ ⟨trivial, rfl⟩ (.cons _ _ ⟨⟨0, rfl⟩, rfl⟩ (.cons _ _ ⟨⟨0, rfl⟩, rfl⟩ (.cons _ _ ⟨trivial, rfl⟩ (.nil _)))),
      rfl, .mk _ 1 (show recover _ _ = _ from rfl), idle_of_single _ ⟨1, 0⟩ rfl rfl, rfl⟩,
    ⟨_, .cons _ _ ⟨trivial, rfl⟩ (.cons _ _ ⟨⟨0, rfl⟩, rfl⟩ (.cons _ _ ⟨by simpa [Op.Enabled] using ⟨0, rfl⟩, rfl⟩
      (.cons _ _ ⟨trivial, rfl⟩ (.cons _ _ ⟨⟨0, rfl⟩, rfl⟩ (.cons _ _ ⟨⟨0, rfl⟩, rfl⟩
      (.cons _ _ ⟨⟨⟨0, rfl⟩, ⟨by decide⟩⟩, rfl⟩ (.nil _))))))), idle_of_single _ ⟨1, 0⟩ rfl rfl, rfl⟩⟩

end OmryaKv.Storage
