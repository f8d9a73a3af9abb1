import OmryaKv.Storage.SeqnoRecovery

set_option autoImplicit false

namespace OmryaKv.Storage

open Lib

variable {Name K V : Type}

variable (db next : Database Name K V)

theorem replay_active (t : Tree K V) (idle : t.activeMemtable = []) (events : List (Event K V)) :
    (events.foldl Tree.replay t).activeMemtable = contents [] events := by
  by_cases kept : NoClear events
  · rw [replay_of_no_clear t events kept, idle]
    exact List.append_nil _
  · rw [replay_of_clear t events kept]

-- Whether a journal is skipped or sealed, the tree keeps the highest seqno. No
-- order of the records is needed for this.
theorem seal_tree_spans (t next : Tree K V) (lsn : Nat) (bounded : ∀ entry ∈ t.activeMemtable, entry.seqno ≤ lsn)
    (sealed : sealTree t lsn = .ok next) : next.activeMemtable = [] ∧ Spans t.all next.all := by
  unfold sealTree at sealed
  split at sealed
  · rename_i flushed
    cases sealed
    obtain ⟨top, topMember, reached⟩ := (Tree.flushed_up_to_iff t lsn).mp flushed
    have shape : t.clearActiveMemtable.all = t.sealedMemtables.flatten ++ t.tables := rfl
    have whole : t.all = t.activeMemtable ++ (t.sealedMemtables.flatten ++ t.tables) := List.append_assoc _ _ _
    rw [shape, whole]
    refine ⟨rfl, fun entry member => List.mem_append_right _ member, ?_⟩
    intro entry member
    rcases List.mem_append.mp member with active | older
    · exact ⟨top, List.mem_append_right _ topMember, Nat.le_trans (bounded entry active) reached⟩
    · exact ⟨entry, older, Nat.le_refl _⟩
  · cases rotated : t.rotateMemtable with
    | none =>
      rw [rotated] at sealed
      cases sealed
      refine ⟨?_, spans_refl _⟩
      by_contra busy
      simp [Tree.rotateMemtable, busy] at rotated
    | some rotation =>
      obtain ⟨memtable, rest⟩ := rotation
      rw [rotated] at sealed
      dsimp only at sealed
      split at sealed
      · cases sealed
        rw [Tree.rotate_memtable_all t _ memtable rotated, Tree.rotate_memtable_shape t _ memtable rotated]
        exact ⟨rfl, spans_refl _⟩
      · cases sealed

theorem recover_log_spans (t next : Tree K V) (events : List (Event K V)) (idle : t.activeMemtable = [])
    (recovered : recoverLog t events = .ok next) : next.activeMemtable = [] ∧ Spans (contents t.all events) next.all := by
  have active := replay_active t idle events
  rw [← replay_all]
  unfold recoverLog at recovered
  dsimp only at recovered
  cases top : highest Event.seqno events with
  | none =>
    rw [top] at recovered
    cases recovered
    refine ⟨?_, spans_refl _⟩
    rw [active, (highest_eq_none_iff _ _).mp top]
    rfl
  | some lsn =>
    rw [top] at recovered
    apply seal_tree_spans _ next lsn _ recovered
    intro entry member
    rw [active] at member
    have logged := (contents_mem [] events entry member).resolve_left (by simp)
    exact rank_le_highest _ _ _ top (.put entry) logged

theorem seal_recovered_tree (watermark : Nat × Nat) (sealed : db.sealRecovered watermark = .ok next) :
    ∃ t seqno, sealTree (db.trees watermark.1) watermark.2 = .ok t ∧
      next = { db with trees := Function.update db.trees watermark.1 t, seqno := seqno } := by
  cases outcome : sealTree (db.trees watermark.1) watermark.2 with
  | ok t =>
    obtain ⟨seqno, expected, -⟩ := seal_recovered_ok db watermark t outcome
    rw [expected] at sealed
    cases sealed
    exact ⟨t, seqno, rfl, rfl⟩
  | error failure =>
    exfalso
    unfold sealTree at outcome
    unfold Database.sealRecovered at sealed
    dsimp only at sealed
    split at outcome
    · cases outcome
    · rename_i unflushed
      rw [if_neg unflushed] at sealed
      cases rotated : (db.trees watermark.1).rotateMemtable with
      | none =>
        rw [rotated] at outcome
        cases outcome
      | some rotation =>
        rw [rotated] at outcome sealed
        dsimp only at outcome sealed
        split at outcome
        · cases outcome
        · rename_i mismatch
          rw [if_neg mismatch] at sealed
          cases sealed

-- What sealing the recovered memtables has made of the trees, if it went through.
structure Resealing (db : Database Name K V) (watermarks : List (Nat × Nat)) (next : Database Name K V) : Prop where
  frame : next = { db with trees := next.trees, seqno := next.seqno }
  marked : ∀ watermark ∈ watermarks, sealTree (db.trees watermark.1) watermark.2 = .ok (next.trees watermark.1)
  rest : ∀ id, id ∉ watermarks.map Prod.fst → next.trees id = db.trees id

theorem seal_all_trees (watermarks : List (Nat × Nat)) (nodup : (watermarks.map Prod.fst).Nodup)
    (sealed : watermarks.foldlM Database.sealRecovered db = .ok next) : Resealing db watermarks next := by
  induction watermarks generalizing db with
  | nil =>
    cases sealed
    exact ⟨rfl, by simp, fun _ _ => rfl⟩
  | cons watermark later ih =>
    obtain ⟨headFresh, laterNodup⟩ := List.nodup_cons.mp nodup
    rw [List.foldlM_cons] at sealed
    obtain ⟨middle, first, loop⟩ := except_bind_ok _ _ _ sealed
    obtain ⟨t, seqno, tree, rfl⟩ := seal_recovered_tree db middle watermark first
    have resealing := ih _ laterNodup loop
    constructor
    · rw [resealing.frame]
    · refine List.forall_mem_cons.mpr ⟨?_, ?_⟩
      · have kept : next.trees watermark.1 = t :=
          (resealing.rest watermark.1 headFresh).trans (Function.update_self watermark.1 t db.trees)
        rw [kept]
        exact tree
      · intro other member
        have elsewhere : other.1 ≠ watermark.1 := fun same => headFresh (List.mem_map.mpr ⟨other, member, same⟩)
        simpa only [Function.update_of_ne elsewhere] using resealing.marked other member
    · intro id absent
      obtain ⟨elsewhere, laterAbsent⟩ := List.ne_and_not_mem_of_not_mem_cons absent
      exact (resealing.rest id laterAbsent).trans (Function.update_of_ne elsewhere t db.trees)

section Journals

variable [DecidableEq Name]

-- The watermarks that recovery gives a journal: for every keyspace it finds
-- records of, the highest seqno among them.
def Rewatermarked (db : Database Name K V) (journal : SealedJournal K V) : Prop :=
  ∀ id lsn, (id, lsn) ∈ journal.watermarks ↔
    (db.resolve id).isSome ∧ highest Event.seqno (journalEvents id journal.batches) = some lsn

variable (order : IterationOrder Nat)

theorem recover_sealed_journal_trees (db next : Database Name K V) (routed : db.Routed) (batches : List (Batch K V))
    (intact : ∀ batch ∈ batches, batch.Intact)
    (recovered : db.recoverSealedJournal order batches = .ok next) :
    ∃ journal, journal.batches = batches ∧ Rewatermarked db journal ∧
      next = { db with trees := next.trees, seqno := next.seqno, sealedJournals := db.sealedJournals ++ [journal] } ∧
      ∀ id, (db.resolve id).isSome → recoverLog (db.trees id) (journalEvents id batches) = .ok (next.trees id) := by
  obtain ⟨replayed, noted, replay, replays, notes⟩ := replay_sealed_journal db routed [] batches intact
  obtain ⟨nodup, marks⟩ := noted_watermarks order db batches noted notes
  rw [Database.recoverSealedJournal, replay] at recovered
  obtain ⟨last, loop, done⟩ := except_bind_ok ((order.visit noted).foldlM Database.sealRecovered replayed) _ _ recovered
  have resealing := seal_all_trees replayed last (order.visit noted) nodup loop
  cases done
  refine ⟨⟨batches, order.visit noted⟩, rfl, marks, ?_, ?_⟩
  · rw [resealing.frame, replays.frame]
  · intro id reach
    rw [recoverLog, ← replays.trees id reach]
    cases top : highest Event.seqno (journalEvents id batches) with
    | none =>
      have absent : id ∉ (order.visit noted).map Prod.fst := by
        intro member
        obtain ⟨⟨other, lsn⟩, found, rfl⟩ := List.mem_map.mp member
        rw [((marks other lsn).mp found).2] at top
        cases top
      exact congrArg Except.ok (resealing.rest id absent).symm
    | some lsn => exact resealing.marked (id, lsn) ((marks id lsn).mpr ⟨reach, top⟩)

-- The database while the sealed journals are read again, after some of them.
structure Reread (base : Database Name K V) (journals : List (List (Batch K V))) (db : Database Name K V) : Prop where
  frame : db = { base with trees := db.trees, seqno := db.seqno, sealedJournals := db.sealedJournals }
  sealed : db.sealedJournals.map SealedJournal.batches = journals
  watermarks : ∀ journal ∈ db.sealedJournals, Rewatermarked base journal
  idle : ∀ id, (base.resolve id).isSome → (db.trees id).activeMemtable = []
  spans : ∀ id, (base.resolve id).isSome →
    Spans (contents (base.trees id).all (journalEvents id journals.flatten)) (db.trees id).all

theorem reread_journal (base db next : Database Name K V) (routed : base.Routed)
    (journals : List (List (Batch K V))) (reread : Reread base journals db) (batches : List (Batch K V))
    (intact : ∀ batch ∈ batches, batch.Intact) (recovered : db.recoverSealedJournal order batches = .ok next) :
    Reread base (journals ++ [batches]) next := by
  have resolve : db.resolve = base.resolve := by
    rw [reread.frame]
    rfl
  obtain ⟨journal, rfl, marks, shape, trees⟩ :=
    recover_sealed_journal_trees order db next (by rwa [Database.Routed, resolve]) batches intact recovered
  have followed : ∀ id, (base.resolve id).isSome → (next.trees id).activeMemtable = [] ∧
      Spans (contents (db.trees id).all (journalEvents id journal.batches)) (next.trees id).all := by
    intro id reach
    exact recover_log_spans _ _ _ (reread.idle id reach) (trees id (by rwa [resolve]))
  have sealedJournals : next.sealedJournals = db.sealedJournals ++ [journal] := by
    rw [shape]
  constructor
  · rw [shape, reread.frame]
  · rw [sealedJournals, List.map_append, reread.sealed]
    rfl
  · rw [sealedJournals]
    refine List.forall_mem_append.mpr ⟨reread.watermarks, ?_⟩
    intro other member
    rw [List.mem_singleton.mp member]
    unfold Rewatermarked
    rw [← resolve]
    exact marks
  · exact fun id reach => (followed id reach).1
  · intro id reach
    have split : journalEvents id (journals ++ [journal.batches]).flatten =
        journalEvents id journals.flatten ++ journalEvents id journal.batches := by
      rw [List.flatten_append, journalEvents, List.flatMap_append, List.flatten_singleton]
      rfl
    rw [split, contents_append]
    exact spans_contents _ _ _ _ (reread.spans id reach) (followed id reach).2

theorem reread_journals (base db last : Database Name K V) (routed : base.Routed)
    (front journals : List (List (Batch K V))) (reread : Reread base front db)
    (intact : ∀ batches ∈ journals, ∀ batch ∈ batches, batch.Intact)
    (recovered : journals.foldlM (Database.recoverSealedJournal order) db = .ok last) : Reread base (front ++ journals) last := by
  induction journals generalizing front db with
  | nil =>
    cases recovered
    rwa [List.append_nil]
  | cons batches rest ih =>
    rw [List.foldlM_cons] at recovered
    obtain ⟨middle, first, loop⟩ := except_bind_ok _ _ _ recovered
    have once := reread_journal order base db middle routed front reread batches (intact batches (by simp)) first
    have whole := ih middle (front ++ [batches]) once (fun other member => intact other (List.mem_cons_of_mem _ member)) loop
    rwa [List.append_assoc] at whole

theorem reread_nothing (reopened : Reopened db (recoverKeyspaces db.crash)) :
    Reread (recoverKeyspaces db.crash) [] (recoverKeyspaces db.crash) := by
  have none : (recoverKeyspaces db.crash).sealedJournals = [] := reopened.sealedJournals
  refine ⟨rfl, by simp [none], by simp [none], ?_, fun id _ => spans_refl _⟩
  intro id reach
  obtain ⟨ks, live, rfl⟩ := reopened_resolves db _ reopened id reach
  rw [reopened.trees ks live]
  rfl

-- The sealed journals first, then the active one, then the counter.
theorem recover_stages (db next : Database Name K V) (reopened : Reopened db (recoverKeyspaces db.crash))
    (intact : ∀ batch ∈ db.records, batch.Intact) (recovered : recover order db.crash = .ok next) :
    ∃ middle last, Reread (recoverKeyspaces db.crash) db.crash.sealedJournals middle ∧
      Replays middle (fun id => journalEvents id db.journal) last ∧ next = last.recoverSeqno := by
  have routed : (recoverKeyspaces db.crash).Routed := resolve_id _ reopened.cataloged
  obtain ⟨middle, sealed, rest⟩ := except_bind_ok _ _ _ recovered
  obtain ⟨-, -, tail⟩ := except_bind_ok _ _ _ rest
  obtain ⟨last, replayed, done⟩ := except_bind_ok _ _ _ tail
  have sealedIntact : ∀ batches ∈ db.crash.sealedJournals, ∀ batch ∈ batches, batch.Intact := by
    intro batches member batch inside
    exact intact batch (List.mem_append_left _ (List.mem_flatten.mpr ⟨batches, member, inside⟩))
  have reread : Reread (recoverKeyspaces db.crash) db.crash.sealedJournals middle :=
    reread_journals order _ _ middle routed [] db.crash.sealedJournals (reread_nothing db reopened) sealedIntact sealed
  have middleRouted : middle.Routed := by
    rw [reread.frame]
    exact routed
  obtain ⟨expected, loop, replays⟩ := replay_journal_replays middle middleRouted db.journal
    fun batch member => intact batch (List.mem_append_right _ member)
  cases replayed.symm.trans loop
  cases done
  exact ⟨middle, last, reread, replays, rfl⟩

-- A restart that goes through, whatever the seqnos in the journals.
structure Restarted (db next : Database Name K V) : Prop where
  cataloged : Cataloged next
  live : ∀ ks, next.Live ks ↔ db.Live ks
  records : next.records = db.records
  sealed : next.sealedJournals.map SealedJournal.batches = db.sealedJournals.map SealedJournal.batches
  watermarks : ∀ journal ∈ next.sealedJournals, Rewatermarked next journal
  spans : ∀ ks, db.Live ks →
    Spans (contents (db.trees ks.id).tables (journalEvents ks.id db.records)) (next.trees ks.id).all

theorem recover_restarts (db next : Database Name K V) (cataloged : Cataloged db) (intact : ∀ batch ∈ db.records, batch.Intact)
    (recovered : recover order db.crash = .ok next) : Restarted db next := by
  have reopened := recover_keyspaces_reopens db cataloged
  have nextCataloged := cataloged_reopened order db next cataloged recovered
  obtain ⟨middle, last, reread, replays, rfl⟩ := recover_stages order db next reopened intact recovered
  have resolve : middle.resolve = (recoverKeyspaces db.crash).resolve := by
    rw [reread.frame]
    rfl
  have keyspaces : last.keyspaces = (recoverKeyspaces db.crash).keyspaces := by
    rw [replays.frame, reread.frame]
  have sealedJournals : last.sealedJournals = middle.sealedJournals := by
    rw [replays.frame]
  have journal : last.journal = db.journal := by
    rw [replays.frame, reread.frame]
    exact reopened.journal
  refine ⟨nextCataloged, ?_, ?_, ?_, ?_, ?_⟩
  · intro ks
    change (∃ name, last.keyspaces.lookup name = some ks) ↔ ∃ name, db.keyspaces.lookup name = some ks
    simp only [keyspaces, reopened.keyspaces]
  · change (last.sealedJournals.map SealedJournal.batches).flatten ++ last.journal = _
    rw [sealedJournals, reread.sealed, journal]
    rfl
  · change last.sealedJournals.map SealedJournal.batches = _
    rw [sealedJournals]
    exact reread.sealed
  · change ∀ journal ∈ last.sealedJournals, _
    rw [sealedJournals]
    intro journal member id lsn
    have names : last.recoverSeqno.resolve id = (recoverKeyspaces db.crash).resolve id := by
      rw [← resolve]
      exact congrFun (replays_resolve replays) id
    rw [names]
    exact reread.watermarks journal member id lsn
  · intro ks live
    have reach := reopened_live db _ reopened ks live
    have sealedSpans := reread.spans ks.id reach
    rw [reopened.trees ks live] at sealedSpans
    change Spans _ (last.trees ks.id).all
    rw [crash_log, contents_append]
    refine spans_contents _ _ _ _ sealedSpans ?_
    rw [replays.trees ks.id (by rwa [resolve]), replay_all]
    exact spans_refl _

end Journals

end OmryaKv.Storage
