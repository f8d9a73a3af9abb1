import OmryaKv.Write.Frontend

set_option autoImplicit false

namespace OmryaKv.Write

open Journal Snapshot

variable (deps : Dependencies)

-- The batch as the journal should hold it: its own count and seqno, every item
-- in order, and the end marker that matches them.
def completeBatch (count : UInt32) (seqno : UInt64) (items : List Entry) : List Entry :=
  .start count seqno :: (items ++ [.endMarker (deps.xxh3 (encodeAll deps items))])

def Database.JournalGained (db after : Database) (data : List BatchItem) : Prop :=
  ∃ count : UInt32, count.toNat = data.length ∧ after.writer.file = db.writer.file ++ encodeAll deps
    (completeBatch deps count db.seqno (data.map (itemEntry db.writer.compression db.writer.compressionThreshold)))

-- What Ok is supposed to mean; an empty batch has nothing to journal.
def OkMeansJournaled (db : Database) (batch : WriteBatch) : Prop :=
  ∀ after, (batch.commit deps).run db = .ok () after → batch.data = [] ∨ db.JournalGained deps after batch.data

def ErrMeansUnapplied (db : Database) (batch : WriteBatch) : Prop :=
  ∀ e after, (batch.commit deps).run db = .error e after → after.applied = db.applied

def PersistFails (db : Database) (batch : WriteBatch) : Prop :=
  ∃ mode, batch.durability = some mode ∧
    true ∈ (scriptAfter (batch.data.length + 2) db.writer.faults).take mode.calls

def WritesSucceed (db : Database) (batch : WriteBatch) : Prop :=
  true ∉ db.writer.faults.take (batch.data.length + 2)

theorem encode_all_shorter (entries : List Entry) (written : Nat) (short : written < entries.length) :
    (encodeAll deps (entries.take written)).length < (encodeAll deps entries).length := by
  have split : encodeAll deps entries = encodeAll deps (entries.take written) ++ encodeAll deps (entries.drop written) := by
    rw [← encode_all_append, List.take_append_drop]
  obtain ⟨rest, tagged⟩ := encode_tag deps entries[written]
  rw [split, List.length_append, List.drop_eq_getElem_cons short, encode_all_cons, List.length_append, tagged, List.length_cons]
  omega

theorem complete_batch_length (count other : UInt32) (seqno : UInt64) (items : List Entry) :
    (encodeAll deps (completeBatch deps count seqno items)).length =
      (encodeAll deps (completeBatch deps other seqno items)).length := by
  simp only [completeBatch, encode_all_cons, List.length_append, Entry.encodeInto, Lib.le_bytes_length]

theorem apply_items_ok (seqno : UInt64) (items : List BatchItem) (plain : ∀ item ∈ items, item.valueType ≠ .indirection)
    (db : Database) : ∃ after, (applyItems seqno items).run db = .ok () after ∧ after.writer = db.writer := by
  induction items generalizing db with
  | nil => exact ⟨db, rfl, rfl⟩
  | cons item items ih =>
    obtain ⟨op, applied⟩ : ∃ op, applyItem seqno item = applyOp op := by
      have direct := plain item List.mem_cons_self
      unfold applyItem
      cases valueType : item.valueType with
      | indirection => exact absurd valueType direct
      | value | tombstone | weakTombstone => exact ⟨_, rfl⟩
    obtain ⟨after, run, same⟩ := ih (fun other member => plain other (List.mem_cons_of_mem _ member))
      { db with applied := op :: db.applied }
    refine ⟨after, ?_, same⟩
    rw [applyItems, applied, EStateM.run_bind]
    exact run

theorem persist_as_outcome (durability : Option PersistMode) (db : Database) (dirty : db.writer.isBufferDirty = true) :
    ((∃ mode, durability = some mode ∧ true ∈ db.writer.faults.take mode.calls) ∧
      ∃ after, (persistAs durability).run db = .error .poisoned after ∧ after.applied = db.applied) ∨
    ((¬ ∃ mode, durability = some mode ∧ true ∈ db.writer.faults.take mode.calls) ∧
      ∃ after, (persistAs durability).run db = .ok () after ∧ after.writer.file = db.writer.file) := by
  cases durability with
  | none => exact .inr ⟨by simp, db, rfl, rfl⟩
  | some mode =>
    rw [persist_as_run]
    rcases persist_dirty mode .poisoned db dirty with ⟨quiet, next, run, file, _⟩ | ⟨fails, next, run, _⟩
    · exact .inr ⟨by simpa using quiet, _, run, file⟩
    · exact .inl ⟨⟨mode, rfl, fails⟩, _, run, rfl⟩

theorem commit_outcome (db : Database) (batch : WriteBatch) (nonempty : batch.data ≠ []) (healthy : db.isPoisoned = false)
    (journaled : Writer) (result : Except IoError Nat) (dirty : journaled.isBufferDirty = true)
    (wrote : (withJournal (writeBatch deps batch.data batch.data.length db.seqno)).run { db with seqno := db.seqno + 1 } =
      .ok result { db with seqno := db.seqno + 1, writer := journaled }) :
    ((∃ mode, batch.durability = some mode ∧ true ∈ journaled.faults.take mode.calls) ∧
      ∃ after, (batch.commit deps).run db = .error .poisoned after ∧ after.applied = db.applied) ∨
    ((¬ ∃ mode, batch.durability = some mode ∧ true ∈ journaled.faults.take mode.calls) ∧
      ∃ after, (batch.commit deps).run db = .ok () after ∧ after.writer.file = journaled.file) := by
  have started : (batch.commit deps).run db = (do
      persistAs batch.durability
      applyItems db.seqno batch.data
      publish db.seqno : DatabaseM Unit).run { db with seqno := db.seqno + 1, writer := journaled } := by
    rw [WriteBatch.commit, if_neg (by simpa using nonempty), EStateM.run_bind, check_poisoned_healthy db healthy]
    change (withJournal _ >>= fun _ => _ : DatabaseM Unit).run { db with seqno := db.seqno + 1 } = _
    rw [EStateM.run_bind, wrote]
  rcases persist_as_outcome batch.durability { db with seqno := db.seqno + 1, writer := journaled } dirty with
    ⟨fails, after, run, kept⟩ | ⟨quiet, after, run, file⟩
  · refine .inl ⟨fails, after, ?_, kept⟩
    rw [started, EStateM.run_bind, run]
  · obtain ⟨applied, applying, same⟩ :=
      apply_items_ok db.seqno batch.data (fun item member => (batch.wellFormed item member).2.2) after
    refine .inr ⟨quiet, { applied with tracker := applied.tracker.publish db.seqno.toNat }, ?_, by rw [same]; exact file⟩
    rw [started, EStateM.run_bind, run]
    dsimp only
    rw [EStateM.run_bind, applying]
    rfl

theorem persist_fails_iff (db : Database) (batch : WriteBatch) (faults : List Bool)
    (left : scriptAfter (batch.data.length + 2) db.writer.faults = faults) :
    PersistFails db batch ↔ ∃ mode, batch.durability = some mode ∧ true ∈ faults.take mode.calls := by
  rw [PersistFails, left]

-- Both ways the journal can take the batch end alike: what counts is whether the
-- persist fails, and else whether the file holds the whole batch.
theorem commit_answers_by (db : Database) (batch : WriteBatch) (nonempty : batch.data ≠ []) (healthy : db.isPoisoned = false)
    (journaled : Writer) (result : Except IoError Nat) (dirty : journaled.isBufferDirty = true)
    (wrote : (withJournal (writeBatch deps batch.data batch.data.length db.seqno)).run { db with seqno := db.seqno + 1 } =
      .ok result { db with seqno := db.seqno + 1, writer := journaled })
    (left : scriptAfter (batch.data.length + 2) db.writer.faults = journaled.faults) (whole : Prop)
    (holds : ∀ after : Database, after.writer.file = journaled.file → (db.JournalGained deps after batch.data ↔ whole)) :
    ErrMeansUnapplied deps db batch ∧ (OkMeansJournaled deps db batch ↔ PersistFails db batch ∨ whole) := by
  rw [persist_fails_iff db batch _ left]
  rcases commit_outcome deps db batch nonempty healthy journaled result dirty wrote with
    ⟨fails, after, committed, kept⟩ | ⟨works, after, committed, same⟩
  · refine ⟨fun e failed refused => ?_, fun _ => .inl fails, fun _ done accepted => ?_⟩
    · cases committed.symm.trans refused
      exact kept
    · cases committed.symm.trans accepted
  · refine ⟨fun e failed refused => ?_, fun answers => ?_, fun safe done accepted => ?_⟩
    · cases committed.symm.trans refused
    · exact .inr ((holds after same).mp ((answers after committed).resolve_left nonempty))
    · cases committed.symm.trans accepted
      exact .inr ((holds after same).mpr (safe.resolve_left works))

theorem commit_writes_through (db : Database) (batch : WriteBatch) (nonempty : batch.data ≠ []) (healthy : db.isPoisoned = false) :
    ErrMeansUnapplied deps db batch ∧
      (OkMeansJournaled deps db batch ↔ PersistFails db batch ∨ (WritesSucceed db batch ∧ batch.data.length < 2 ^ 32)) := by
  have length : (frame deps db.seqno
      (batch.data.map (itemEntry db.writer.compression db.writer.compressionThreshold))).length = batch.data.length + 2 := by
    simp [frame]
  rcases write_batch_outcome batch.data db.seqno nonempty db.writer ⟨rfl, rfl⟩ with
    ⟨next, run, file, _, dirty, quiet, left⟩ | ⟨e, next, written, run, file, _, dirty, short, fault⟩
  · rw [length] at quiet left
    refine commit_answers_by deps db batch nonempty healthy next _ dirty (with_journal_ok _ _ _ _ run)
      (by rw [script_after_quiet _ _ quiet, left]) _ fun after same => ⟨?_, ?_⟩
    · rintro ⟨count, counted, _⟩
      rw [← counted]
      exact ⟨quiet, count.toNat_lt⟩
    · rintro ⟨_, counted⟩
      refine ⟨UInt32.ofNat batch.data.length, UInt32.toNat_ofNat_of_lt counted, ?_⟩
      rw [same, file, frame, List.length_map]
      rfl
  · rw [length] at short
    refine commit_answers_by deps db batch nonempty healthy next _ dirty (with_journal_error _ _ _ _ run)
      (by rw [fault, script_after_fault _ _ _ short]) _ fun after same => ⟨?_, ?_⟩
    · -- The file is too short to hold the whole batch.
      rintro ⟨count, _, whole⟩
      rw [same, file, List.append_cancel_left_eq] at whole
      have shorter := encode_all_shorter deps _ written (length ▸ short)
      have widths := complete_batch_length deps count (UInt32.ofNat batch.data.length) db.seqno
        (batch.data.map (itemEntry db.writer.compression db.writer.compressionThreshold))
      rw [whole, widths, frame, List.length_map] at shorter
      exact absurd shorter (Nat.lt_irrefl _)
    · rintro ⟨quiet, _⟩
      rw [WritesSucceed, fault] at quiet
      exact absurd (fault_in_take written _ next.faults short) quiet

theorem commit_answers (db : Database) (batch : WriteBatch) :
    ErrMeansUnapplied deps db batch ∧
      (OkMeansJournaled deps db batch ↔ batch.data = [] ∨ db.isPoisoned = true ∨ PersistFails db batch ∨
        (WritesSucceed db batch ∧ batch.data.length < 2 ^ 32)) := by
  by_cases empty : batch.data = []
  · have skipped : (batch.commit deps).run db = .ok () db := by
      rw [WriteBatch.commit, empty]
      rfl
    refine ⟨fun e after refused => ?_, fun _ => .inl empty, fun _ after _ => .inl empty⟩
    cases skipped.symm.trans refused
  · cases poisoned : db.isPoisoned with
    | true =>
      have refuses : (batch.commit deps).run db = .error .poisoned db := by
        rw [WriteBatch.commit, if_neg (by simpa using empty), EStateM.run_bind, check_poisoned_refuses db poisoned]
      refine ⟨fun e after refused => ?_, fun _ => .inr (.inl rfl), fun _ after accepted => ?_⟩
      · cases refuses.symm.trans refused
        rfl
      · cases refuses.symm.trans accepted
    | false =>
      obtain ⟨unapplied, exact⟩ := commit_writes_through deps db batch empty poisoned
      refine ⟨unapplied, exact.trans ?_⟩
      simp [empty]

-- The very first write fails and no persist follows.
def failingStart : Database := ⟨⟨[], [true], false, .none, 0⟩, 0, false, .new 0, []⟩

def oneInsert : WriteBatch := ⟨[⟨1, [0x61], ⟨[0x78], by decide⟩, .value⟩], none, by simp⟩

theorem acknowledged_batch_lost :
    ∃ after, (oneInsert.commit .sample).run failingStart = .ok () after ∧ after.writer.file = [] ∧
      after.applied = [.insert 1 [0x61] ⟨[0x78], by decide⟩ 0] ∧ ¬ OkMeansJournaled .sample failingStart oneInsert := by
  refine ⟨_, rfl, rfl, rfl, fun answers => ?_⟩
  rcases answers _ rfl with empty | ⟨count, _, gained⟩
  · cases empty
  · cases gained

end OmryaKv.Write
