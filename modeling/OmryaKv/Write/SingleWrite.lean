import OmryaKv.Write.Frontend
import OmryaKv.Journal.Replay
import OmryaKv.Lib.Run

set_option autoImplicit false

namespace OmryaKv.Write

open Journal Snapshot Lib

variable (deps : Dependencies)

inductive SingleCall where
  | insert (ks : Keyspace) (key : UserKey) (value : UserValue)
  | remove (ks : Keyspace) (key : UserKey)
  | removeWeak (ks : Keyspace) (key : UserKey)
  | clear (ks : Keyspace) (treeFails : Bool)
deriving DecidableEq

namespace SingleCall

def run : SingleCall → DatabaseM Unit
  | insert ks key value => ks.insert deps key value
  | remove ks key => ks.remove deps key
  | removeWeak ks key => ks.removeWeak deps key
  | clear ks treeFails => ks.clear deps treeFails

def keyspace : SingleCall → Keyspace
  | insert ks _ _ => ks
  | remove ks _ => ks
  | removeWeak ks _ => ks
  | clear ks _ => ks

def meetsDeleted : SingleCall → Bool
  | clear _ _ => false
  | call => call.keyspace.isDeleted

def treeFails : SingleCall → Bool
  | clear _ fails => fails
  | _ => false

def entry (compression : CompressionType) (threshold : Nat) : SingleCall → Entry
  | insert ks key value => itemEntry compression threshold ⟨ks.id, key, value, .value⟩
  | remove ks key => itemEntry compression threshold ⟨ks.id, key, .empty, .tombstone⟩
  | removeWeak ks key => itemEntry compression threshold ⟨ks.id, key, .empty, .weakTombstone⟩
  | clear ks _ => .clear ks.id

def batch (seqno : UInt64) : SingleCall → Batch
  | insert ks key value => ⟨seqno, [⟨ks.id, key, value, .value⟩], []⟩
  | remove ks key => ⟨seqno, [⟨ks.id, key, .empty, .tombstone⟩], []⟩
  | removeWeak ks key => ⟨seqno, [⟨ks.id, key, .empty, .weakTombstone⟩], []⟩
  | clear ks _ => ⟨seqno, [], [ks.id]⟩

def entries (db : Database) (call : SingleCall) : List Entry :=
  frame deps db.seqno [call.entry db.writer.compression db.writer.compressionThreshold]

def fileCalls (call : SingleCall) : Nat := if call.keyspace.manualJournalPersist then 3 else 4

def Acknowledged (db : Database) (call : SingleCall) : Prop :=
  call.meetsDeleted = false ∧ db.isPoisoned = false ∧ true ∉ db.writer.faults.take call.fileCalls ∧ call.treeFails = false

-- The write of the item or of the end marker fails, after the start was written.
def leavesPart (db : Database) (call : SingleCall) : Bool :=
  !call.meetsDeleted && !db.isPoisoned &&
    (db.writer.faults.take 2 == [false, true] || db.writer.faults.take 3 == [false, false, true])

end SingleCall

theorem three_file_calls (call : SingleCall) : 3 ≤ call.fileCalls := by
  unfold SingleCall.fileCalls
  split <;> omega

structure Journaled (db after : Database) (entries : List Entry) : Prop where
  file : after.writer.file = db.writer.file ++ encodeAll deps entries
  settings : after.writer.Settings db.writer.compression db.writer.compressionThreshold
  seqno : after.seqno = db.seqno + 1

inductive CallEffect (db : Database) (call : SingleCall) : EStateM.Result WriteError Database Unit → Prop where
  | refused (e : WriteError) (refusal : call.meetsDeleted = true ∨ db.isPoisoned = true) : CallEffect db call (.error e db)
  | cut (e : WriteError) (after : Database) (written : Nat) (short : written < 3) (accepted : call.meetsDeleted = false)
      (healthy : db.isPoisoned = false)
      (faults : db.writer.faults = List.replicate written false ++ true :: after.writer.faults)
      (journaled : Journaled deps db after ((call.entries deps db).take written)) : CallEffect db call (.error e after)
  | failed (e : WriteError) (after : Database) (quiet : true ∉ db.writer.faults.take 3) (unacknowledged : ¬ call.Acknowledged db)
      (journaled : Journaled deps db after (call.entries deps db)) : CallEffect db call (.error e after)
  | done (after : Database) (acknowledged : call.Acknowledged db)
      (journaled : Journaled deps db after (call.entries deps db)) : CallEffect db call (.ok () after)

theorem persist_unless_manual_outcome (ks : Keyspace) (db : Database) (dirty : db.writer.isBufferDirty = true) :
    (true ∉ db.writer.faults.take (if ks.manualJournalPersist then 0 else 1) ∧
      ∃ next, (persistUnlessManual ks).run db = .ok () { db with writer := next } ∧ next.file = db.writer.file ∧
        next.Settings db.writer.compression db.writer.compressionThreshold) ∨
    (true ∈ db.writer.faults.take (if ks.manualJournalPersist then 0 else 1) ∧
      ∃ next, (persistUnlessManual ks).run db = .error .io { db with writer := next, isPoisoned := true } ∧
        next.file = db.writer.file ∧ next.Settings db.writer.compression db.writer.compressionThreshold) := by
  by_cases manual : ks.manualJournalPersist = true
  · refine .inl ⟨by simp [manual], db.writer, ?_, rfl, rfl, rfl⟩
    rw [persist_unless_manual_run, if_pos manual]
    rfl
  · rw [persist_unless_manual_run, if_neg manual, if_neg manual]
    exact persist_dirty .buffer .io db dirty

theorem write_journaled_effect (ks : Keyspace) (journal : UInt64 → WriterM Nat) (toTree : UInt64 → DatabaseM Unit) (fails : Bool)
    (failure : WriteError) (op : TreeOp) (db : Database) (tree : toTree db.seqno = if fails then throw failure else applyOp op)
    (healthy : db.isPoisoned = false) (entries : List Entry) (three : entries.length = 3) (byteCount : Nat)
    (outcome : Outcome deps db.writer.compression db.writer.compressionThreshold entries byteCount db.writer
      ((journal db.seqno).run db.writer)) :
    (∃ after written, (writeJournaled ks journal toTree).run db = .error .io after ∧ written < 3 ∧
      db.writer.faults = List.replicate written false ++ true :: after.writer.faults ∧
      Journaled deps db after (entries.take written)) ∨
    (true ∉ db.writer.faults.take 3 ∧ ∃ after, Journaled deps db after entries ∧
      ((true ∉ db.writer.faults.take (if ks.manualJournalPersist then 3 else 4) ∧ fails = false ∧
          (writeJournaled ks journal toTree).run db = .ok () after) ∨
        (¬ (true ∉ db.writer.faults.take (if ks.manualJournalPersist then 3 else 4) ∧ fails = false) ∧
          ∃ e, (writeJournaled ks journal toTree).run db = .error e after))) := by
  have started (result : Except IoError Nat) (next : Writer)
      (wrote : (withJournal (journal db.seqno)).run { db with seqno := db.seqno + 1 } =
        .ok result { db with seqno := db.seqno + 1, writer := next }) :
      (writeJournaled ks journal toTree).run db =
        (finishJournaled ks toTree db.seqno result).run { db with seqno := db.seqno + 1, writer := next } := by
    rw [writeJournaled, EStateM.run_bind, check_poisoned_healthy db healthy]
    change (withJournal _ >>= fun _ => _ : DatabaseM Unit).run { db with seqno := db.seqno + 1 } = _
    rw [EStateM.run_bind, wrote]
  rcases outcome with ⟨next, run, file, settings, dirty, quiet, left⟩ | ⟨e, next, written, run, file, settings, _, short, fault⟩
  · rw [three] at quiet left
    have wrote := started _ next (with_journal_ok _ _ _ _ run)
    have script : true ∉ db.writer.faults.take (if ks.manualJournalPersist then 3 else 4) ↔
        true ∉ next.faults.take (if ks.manualJournalPersist then 0 else 1) := by
      rw [left]
      split
      · simp [quiet]
      · rw [show (4 : Nat) = 3 + 1 from rfl, List.take_add, List.mem_append]
        simp [quiet]
    refine .inr ⟨quiet, ?_⟩
    rcases persist_unless_manual_outcome ks { db with seqno := db.seqno + 1, writer := next } dirty with
      ⟨works, last, persisted, same, kept⟩ | ⟨breaks, last, persisted, same, kept⟩
    · have settings' : last.Settings db.writer.compression db.writer.compressionThreshold :=
        ⟨kept.1.trans settings.1, kept.2.trans settings.2⟩
      cases fails with
      | true =>
        refine ⟨{ db with seqno := db.seqno + 1, writer := last }, ⟨same.trans file, settings', rfl⟩, .inr ⟨by simp, failure, ?_⟩⟩
        rw [wrote, finishJournaled, EStateM.run_bind, persisted, tree]
        rfl
      | false =>
        refine ⟨{ db with
            seqno := db.seqno + 1, writer := last, applied := op :: db.applied
            tracker := db.tracker.publish db.seqno.toNat }, ⟨same.trans file, settings', rfl⟩, .inl ⟨script.mpr works, rfl, ?_⟩⟩
        rw [wrote, finishJournaled, EStateM.run_bind, persisted, tree]
        rfl
    · refine ⟨{ db with seqno := db.seqno + 1, writer := last, isPoisoned := true },
        ⟨same.trans file, ⟨kept.1.trans settings.1, kept.2.trans settings.2⟩, rfl⟩, .inr ⟨?_, .io, ?_⟩⟩
      · intro clean
        exact script.mp clean.1 breaks
      · rw [wrote, finishJournaled, EStateM.run_bind, persisted]
  · refine .inl ⟨{ db with seqno := db.seqno + 1, writer := next }, written, ?_, three ▸ short, fault, file, settings, rfl⟩
    rw [started _ next (with_journal_error _ _ _ _ run)]
    rfl

variable (db : Database)

theorem call_effect_of_journaled (call : SingleCall) (journal : UInt64 → WriterM Nat) (toTree : UInt64 → DatabaseM Unit)
    (op : TreeOp)
    (accepted : call.meetsDeleted = false) (run : call.run deps = writeJournaled call.keyspace journal toTree)
    (tree : toTree db.seqno = if call.treeFails then throw .storage else applyOp op) (byteCount : Nat)
    (outcome : Outcome deps db.writer.compression db.writer.compressionThreshold (call.entries deps db) byteCount db.writer
      ((journal db.seqno).run db.writer)) : CallEffect deps db call ((call.run deps).run db) := by
  rw [run]
  cases healthy : db.isPoisoned with
  | true =>
    rw [writeJournaled, EStateM.run_bind, check_poisoned_refuses db healthy]
    exact .refused .poisoned (.inr healthy)
  | false =>
    rcases write_journaled_effect deps call.keyspace journal toTree call.treeFails .storage op db tree healthy _ rfl byteCount
      outcome with
      ⟨after, written, ended, short, fault, journaled⟩ | ⟨quiet, after, journaled, ended⟩
    · rw [ended]
      exact .cut .io after written short accepted healthy fault journaled
    · rcases ended with ⟨clean, tree, ended⟩ | ⟨broken, e, ended⟩
      · rw [ended]
        exact .done after ⟨accepted, healthy, clean, tree⟩ journaled
      · rw [ended]
        exact .failed e after quiet (fun acknowledged => broken acknowledged.2.2) journaled

theorem call_effect (call : SingleCall) : CallEffect deps db call ((call.run deps).run db) := by
  cases deleted : call.meetsDeleted with
  | true =>
    cases call with
    | clear ks treeFails => cases deleted
    | insert ks _ _ | remove ks _ | removeWeak ks _ =>
      have refusal : ks.isDeleted = true := deleted
      simp only [SingleCall.run, Keyspace.insert, Keyspace.remove, Keyspace.removeWeak, refusal]
      exact .refused .keyspaceDeleted (.inl deleted)
  | false =>
    cases call with
    | insert ks key value =>
      have kept : ks.isDeleted = false := deleted
      exact call_effect_of_journaled deps db _ _ _ (.insert ks.id key value db.seqno) deleted
        (by simp [SingleCall.run, Keyspace.insert, kept]; rfl) rfl _
        (write_raw_outcome ⟨ks.id, key, value, .value⟩ db.seqno db.writer ⟨rfl, rfl⟩)
    | remove ks key =>
      have kept : ks.isDeleted = false := deleted
      exact call_effect_of_journaled deps db _ _ _ (.remove ks.id key db.seqno) deleted
        (by simp [SingleCall.run, Keyspace.remove, kept]; rfl) rfl _
        (write_raw_outcome ⟨ks.id, key, .empty, .tombstone⟩ db.seqno db.writer ⟨rfl, rfl⟩)
    | removeWeak ks key =>
      have kept : ks.isDeleted = false := deleted
      exact call_effect_of_journaled deps db _ _ _ (.remove ks.id key db.seqno) deleted
        (by simp [SingleCall.run, Keyspace.removeWeak, kept]; rfl) rfl _
        (write_raw_outcome ⟨ks.id, key, .empty, .weakTombstone⟩ db.seqno db.writer ⟨rfl, rfl⟩)
    | clear ks treeFails =>
      exact call_effect_of_journaled deps db _ _ _ (.clear ks.id) deleted rfl rfl _
        (write_clear_outcome ks.id db.seqno db.writer ⟨rfl, rfl⟩)

-- acknowledged holds the batches of the calls that returned Ok. torn says that
-- some call has left a start without its end behind.
structure Session where
  db : Database
  acknowledged : List Batch
  torn : Bool
deriving DecidableEq

def Session.apply (s : Session) (call : SingleCall) : Session :=
  match (call.run deps).run s.db with
  | .ok _ after => ⟨after, call.batch s.db.seqno :: s.acknowledged, s.torn⟩
  | .error _ after => ⟨after, s.acknowledged, s.torn || call.leavesPart s.db⟩

-- Keys and stored values keep to the limits of the journal format, and the seqno
-- counter gives out 63 bits before it panics.
def CallStep (s : Session) (call : SingleCall) (next : Session) : Prop :=
  BodyEntry deps (call.entry s.db.writer.compression s.db.writer.compressionThreshold) ∧
    s.db.seqno.toNat < 2 ^ 63 ∧ next = s.apply deps call

def Session.fresh (faults : List Bool) (compression : CompressionType) (threshold : Nat) (seqno : UInt64) : Session :=
  ⟨⟨⟨[], faults, false, compression, threshold⟩, seqno, false, .new seqno.toNat, []⟩, [], false⟩

-- Every acknowledged call is found by recovery, behind any pre-allocated tail.
def Session.Durable (s : Session) : Prop :=
  ∀ padding, ∀ batch ∈ s.acknowledged,
    batch ∈ (recoverJournal deps (s.db.writer.file ++ List.replicate padding 0)).batches

def NoneAfterTorn (s : Session) (call : SingleCall) : Prop :=
  s.torn = true → ¬ call.Acknowledged s.db

-- What a start without an end looks like in the file: at most the call's one
-- entry follows it, and then nothing or the start of another batch.
def Interrupted (rest : Bytes) : Prop :=
  rest = [] ∨ ∃ count seqno more, rest = (Entry.start count seqno).encodeInto deps ++ more

def TornResidue (residue : Bytes) : Prop :=
  ∃ (count : UInt32) (seqno : UInt64) (read : List Entry) (rest : Bytes), read.length ≤ count.toNat ∧
    (∀ entry ∈ read, BodyEntry deps entry) ∧
    residue = encodeAll deps (.start count seqno :: read) ++ rest ∧ Interrupted deps rest

variable {deps}

theorem ends_interrupted (file : Bytes) (pos start : Nat) (seqno : UInt64) (done read : List Entry) (remaining padding : Nat)
    (rest : Bytes) (before : start ≤ pos) (inFile : pos ≤ file.length) (room : read.length ≤ remaining)
    (wellFormed : ∀ entry ∈ read, BodyEntry deps entry) (interrupted : Interrupted deps rest)
    (here : file.drop pos = encodeAll deps read ++ (rest ++ List.replicate padding 0)) :
    Ends deps (within deps file pos start seqno done remaining) := by
  induction read generalizing pos done remaining with
  | nil =>
    have aligned : Aligned (within deps file pos start seqno done remaining) :=
      within_aligned file pos start seqno done remaining before inFile
    rcases interrupted with rfl | ⟨count, other, more, rfl⟩
    · exact ends_padding _ aligned padding here
    · have found := reader_next_decoded file pos pos _ (.start count other) _ (decodes_encoded deps _ trivial)
        (here.trans (List.append_assoc _ _ _))
      exact ends_stop _ _ aligned _ _ found rfl rfl
  | cons entry read ih =>
    obtain ⟨remaining, rfl⟩ : ∃ less, remaining = less + 1 := Nat.exists_eq_succ_of_ne_zero (by
      rw [List.length_cons] at room
      omega)
    rw [encode_all_cons, List.append_assoc] at here
    have stillInFile : pos + (entry.encodeInto deps).length ≤ file.length := by
      have total := congrArg List.length here
      rw [List.length_drop, List.length_append] at total
      omega
    obtain ⟨after, finished, truncated⟩ := ih (pos + (entry.encodeInto deps).length) (done ++ [entry]) remaining (by omega)
      stillInFile (by rw [List.length_cons] at room; omega)
      (fun other member => wellFormed other (List.mem_cons_of_mem _ member)) (drop_entry file _ _ pos here)
    refine ⟨after, ?_, truncated⟩
    rw [next_body_entry file pos start seqno done remaining entry _ (wellFormed entry List.mem_cons_self) here]
    exact finished

theorem ends_residue (file : Bytes) (pos : Nat) (leftover : UInt64) (inFile : pos ≤ file.length) (residue : Bytes) (padding : Nat)
    (torn : TornResidue deps residue) (here : file.drop pos = residue ++ List.replicate padding 0) :
    Ends deps (resting file pos leftover) := by
  obtain ⟨count, seqno, read, rest, room, wellFormed, rfl, interrupted⟩ := torn
  rw [encode_all_cons, List.append_assoc, List.append_assoc] at here
  have stillInFile : pos + ((Entry.start count seqno).encodeInto deps).length ≤ file.length := by
    have total := congrArg List.length here
    rw [List.length_drop, List.length_append] at total
    omega
  obtain ⟨after, finished, truncated⟩ := ends_interrupted file _ pos seqno [] read count.toNat padding rest (Nat.le_add_right _ _)
    stillInFile room wellFormed interrupted (drop_entry file _ _ pos here)
  exact ⟨after, (next_start_entry file pos leftover seqno count _ here).trans finished, truncated⟩

structure JournalShape (file : Bytes) (torn : Bool) (frames : List (Frame deps)) : Prop where
  split : ∃ residue, file = framesBytes frames ++ residue ∧
    (torn = false → residue = []) ∧ (torn = true → TornResidue deps residue)

theorem recover_shape (file : Bytes) (torn : Bool) (frames : List (Frame deps)) (shape : JournalShape file torn frames)
    (padding : Nat) :
    (recoverJournal deps (file ++ List.replicate padding 0)).batches = frames.map Frame.batch := by
  obtain ⟨residue, rfl, clean, broken⟩ := shape.split
  have ends (seqno : UInt64) : Ends deps (resting (framesBytes frames ++ residue ++ List.replicate padding 0)
      (0 + (framesBytes frames).length) seqno) := by
    have inFile : 0 + (framesBytes frames).length ≤ (framesBytes frames ++ residue ++ List.replicate padding 0).length := by
      rw [List.length_append, List.length_append]
      omega
    have here : (framesBytes frames ++ residue ++ List.replicate padding 0).drop (0 + (framesBytes frames).length) =
        residue ++ List.replicate padding 0 := by
      rw [Nat.zero_add, List.append_assoc, List.drop_left]
    cases torn with
    | false =>
      rw [clean rfl] at here inFile ⊢
      exact ends_padding _ (resting_aligned _ _ seqno inFile) padding here
    | true => exact ends_residue _ _ seqno inFile residue padding (broken rfl) here
  have read := read_all_frames frames _ 0 0 _ (List.append_assoc _ _ _) ends
  exact congrArg Recovered.batches read

theorem torn_residue_extends (residue appended : Bytes) (torn : TornResidue deps residue)
    (starts : Interrupted deps appended) : TornResidue deps (residue ++ appended) := by
  obtain ⟨count, seqno, read, rest, room, wellFormed, rfl, interrupted⟩ := torn
  refine ⟨count, seqno, read, rest ++ appended, room, wellFormed, List.append_assoc _ _ _, ?_⟩
  rcases interrupted with rfl | ⟨otherCount, other, more, rfl⟩
  · exact starts
  · exact .inr ⟨otherCount, other, more ++ appended, List.append_assoc _ _ _⟩

theorem entries_start_anew (call : SingleCall) (written : Nat) :
    Interrupted deps (encodeAll deps ((call.entries deps db).take written)) := by
  cases written with
  | zero => exact .inl rfl
  | succ written => exact .inr ⟨_, _, _, encode_all_cons deps _ _⟩

def SingleCall.toFrame (db : Database) (call : SingleCall)
    (fits : BodyEntry deps (call.entry db.writer.compression db.writer.compressionThreshold)) : Frame deps :=
  ⟨db.seqno, [call.entry db.writer.compression db.writer.compressionThreshold], by simpa using fits, by simp⟩

theorem to_frame_batch (call : SingleCall)
    (fits : BodyEntry deps (call.entry db.writer.compression db.writer.compressionThreshold)) :
    (call.toFrame db fits).batch = call.batch db.seqno := by
  cases call <;> rfl

theorem leaves_part_of_cut (call : SingleCall) (written : Nat) (short : written < 3) (faults : List Bool)
    (accepted : call.meetsDeleted = false) (healthy : db.isPoisoned = false)
    (script : db.writer.faults = List.replicate written false ++ true :: faults) :
    call.leavesPart db = decide (0 < written) := by
  rw [SingleCall.leavesPart, accepted, healthy, script]
  match written with
  | 0 => rfl
  | 1 => rfl
  | 2 => rfl
  | more + 3 => omega

theorem leaves_no_part (call : SingleCall) (quiet : true ∉ db.writer.faults.take 3) : call.leavesPart db = false := by
  rw [SingleCall.leavesPart, Bool.and_eq_false_iff]
  right
  rcases script : db.writer.faults with _ | ⟨first, _ | ⟨second, _ | ⟨third, rest⟩⟩⟩ <;> rw [script] at quiet <;>
    simp_all

structure SessionInv (s : Session) (frames : List (Frame deps)) : Prop where
  shape : JournalShape s.db.writer.file s.torn frames
  older : ∀ f ∈ frames, f.seqno.toNat < s.db.seqno.toNat
  found : ∀ batch ∈ s.acknowledged, batch ∈ frames.map Frame.batch

theorem shape_after_part (db after : Database) (call : SingleCall) (torn : Bool) (frames : List (Frame deps)) (written : Nat)
    (fits : BodyEntry deps (call.entry db.writer.compression db.writer.compressionThreshold)) (short : written < 3)
    (shape : JournalShape db.writer.file torn frames)
    (journaled : Journaled deps db after ((call.entries deps db).take written)) :
    JournalShape after.writer.file (torn || decide (0 < written)) frames := by
  obtain ⟨residue, file, clean, broken⟩ := shape.split
  refine ⟨residue ++ encodeAll deps ((call.entries deps db).take written), ?_, ?_, ?_⟩
  · rw [journaled.file, file, List.append_assoc]
  · intro still
    rw [Bool.or_eq_false_iff, decide_eq_false_iff_not, Nat.not_lt, Nat.le_zero] at still
    rw [clean still.1, still.2]
    rfl
  · intro now
    cases torn with
    | true => exact torn_residue_extends _ _ (broken rfl) (entries_start_anew db call written)
    | false =>
      rw [clean rfl, List.nil_append]
      match written with
      | 0 => simp at now
      | 1 => exact ⟨1, db.seqno, [], [], by simp, by simp, (List.append_nil _).symm, .inl rfl⟩
      | 2 => exact ⟨1, db.seqno, [_], [], by simp, by simpa using fits, (List.append_nil _).symm, .inl rfl⟩
      | more + 3 => omega

theorem shape_after_whole (db after : Database) (call : SingleCall) (torn : Bool) (frames : List (Frame deps))
    (fits : BodyEntry deps (call.entry db.writer.compression db.writer.compressionThreshold))
    (shape : JournalShape db.writer.file torn frames) (journaled : Journaled deps db after (call.entries deps db)) :
    JournalShape after.writer.file torn (if torn then frames else frames ++ [call.toFrame db fits]) := by
  obtain ⟨residue, file, clean, broken⟩ := shape.split
  cases torn with
  | true =>
    refine ⟨residue ++ encodeAll deps (call.entries deps db), ?_, by simp, fun _ => ?_⟩
    · rw [journaled.file, file, List.append_assoc]
      rfl
    · exact torn_residue_extends _ _ (broken rfl) (entries_start_anew db call 3)
  | false =>
    refine ⟨[], ?_, fun _ => rfl, by simp⟩
    rw [journaled.file, file, clean rfl, List.append_nil, List.append_nil, if_neg (by simp), frames_bytes_append]
    exact congrArg _ (List.append_nil _).symm

theorem seqno_increases (bounded : db.seqno.toNat < 2 ^ 63) : (db.seqno + 1).toNat = db.seqno.toNat + 1 := by
  rw [UInt64.toNat_add]
  exact Nat.mod_eq_of_lt (by simp only [UInt64.toNat_one]; omega)

-- One call, whatever it meets: the batches that recovery finds stay older than the
-- next seqno, and an acknowledged call joins them unless the journal was torn.
theorem call_step_inv (s next : Session) (call : SingleCall) (frames : List (Frame deps)) (inv : SessionInv s frames)
    (step : CallStep deps s call next) :
    ∃ frames', JournalShape next.db.writer.file next.torn frames' ∧ (∀ f ∈ frames', f.seqno.toNat < next.db.seqno.toNat) ∧
      (∀ batch ∈ s.acknowledged, batch ∈ frames'.map Frame.batch) ∧
      ((next.acknowledged = s.acknowledged ∧ ¬ call.Acknowledged s.db) ∨
        (next.acknowledged = call.batch s.db.seqno :: s.acknowledged ∧ call.Acknowledged s.db ∧
          (s.torn = true → frames' = frames) ∧ (s.torn = false → call.batch s.db.seqno ∈ frames'.map Frame.batch))) := by
  obtain ⟨fits, bounded, rfl⟩ := step
  have increases := seqno_increases s.db bounded
  have effect := call_effect deps s.db call
  rw [Session.apply]
  generalize outcome : (call.run deps).run s.db = result at effect
  have older (f : Frame deps) (member : f ∈ if s.torn then frames else frames ++ [call.toFrame s.db fits]) :
      f.seqno.toNat < s.db.seqno.toNat + 1 := by
    split at member
    · exact Nat.lt_succ_of_lt (inv.older f member)
    · rcases List.mem_append.mp member with old | new
      · exact Nat.lt_succ_of_lt (inv.older f old)
      · rw [List.mem_singleton.mp new]
        exact Nat.lt_succ_self _
  have found (batch : Batch) (member : batch ∈ s.acknowledged) :
      batch ∈ (if s.torn then frames else frames ++ [call.toFrame s.db fits]).map Frame.batch := by
    have before := inv.found batch member
    split
    · exact before
    · rw [List.map_append]
      exact List.mem_append_left _ before
  cases effect with
  | refused e refusal =>
    have unacknowledged : ¬ call.Acknowledged s.db := by
      rintro ⟨accepted, healthy, _⟩
      simp [accepted, healthy] at refusal
    have nothing : call.leavesPart s.db = false := by
      rcases refusal with deleted | poisoned
      · simp [SingleCall.leavesPart, deleted]
      · simp [SingleCall.leavesPart, poisoned]
    refine ⟨frames, ?_, inv.older, inv.found, .inl ⟨rfl, unacknowledged⟩⟩
    rw [nothing, Bool.or_false]
    exact inv.shape
  | cut e after written short accepted healthy faults journaled =>
    have unacknowledged : ¬ call.Acknowledged s.db := by
      rintro ⟨_, _, clean, _⟩
      rw [faults] at clean
      exact clean (fault_in_take written _ after.writer.faults (Nat.lt_of_lt_of_le short (three_file_calls call)))
    refine ⟨frames, ?_, ?_, inv.found, .inl ⟨rfl, unacknowledged⟩⟩
    · rw [leaves_part_of_cut s.db call written short _ accepted healthy faults]
      exact shape_after_part s.db after call s.torn frames written fits short inv.shape journaled
    · intro f member
      rw [journaled.seqno, increases]
      exact Nat.lt_succ_of_lt (inv.older f member)
  | failed e after quiet unacknowledged journaled =>
    refine ⟨_, ?_, ?_, found, .inl ⟨rfl, unacknowledged⟩⟩
    · rw [leaves_no_part s.db call quiet, Bool.or_false]
      exact shape_after_whole s.db after call s.torn frames fits inv.shape journaled
    · rw [journaled.seqno, increases]
      exact older
  | done after acknowledged journaled =>
    refine ⟨_, shape_after_whole s.db after call s.torn frames fits inv.shape journaled, ?_, found,
      .inr ⟨rfl, acknowledged, fun torn => if_pos torn, fun whole => ?_⟩⟩
    · rw [journaled.seqno, increases]
      exact older
    · rw [whole, if_neg (by simp), List.map_append, List.map_singleton, to_frame_batch]
      exact List.mem_append_right _ List.mem_cons_self

theorem durable_of_inv (s : Session) (frames : List (Frame deps)) (inv : SessionInv s frames) : s.Durable deps := by
  intro padding batch member
  rw [recover_shape _ _ frames inv.shape padding]
  exact inv.found batch member

theorem guarded_session_inv (faults : List Bool) (compression : CompressionType) (threshold : Nat) (seqno : UInt64)
    (calls : List SingleCall) (s : Session)
    (run : Run (Guarded (CallStep deps) NoneAfterTorn) (.fresh faults compression threshold seqno) calls s) :
    ∃ frames : List (Frame deps), SessionInv s frames := by
  refine run_invariant _ (fun s => ∃ frames : List (Frame deps), SessionInv s frames) ?_ run
    ⟨[], ⟨[], rfl, fun _ => rfl, by simp [Session.fresh]⟩, by simp, by simp [Session.fresh]⟩
  rintro s call next ⟨frames, inv⟩ ⟨safe, step⟩
  obtain ⟨frames', shape, older, found, acknowledged⟩ := call_step_inv s next call frames inv step
  refine ⟨frames', shape, older, fun batch member => ?_⟩
  rcases acknowledged with ⟨same, _⟩ | ⟨more, acknowledges, _, whole⟩
  · exact found batch (same ▸ member)
  · rw [more] at member
    rcases List.mem_cons.mp member with rfl | older
    · refine whole ?_
      cases torn : s.torn with
      | false => rfl
      | true => exact absurd acknowledges (safe torn)
    · exact found batch older

theorem single_writes_durable (faults : List Bool) (compression : CompressionType) (threshold : Nat) (seqno : UInt64) :
    (∀ calls s, Run (Guarded (CallStep deps) NoneAfterTorn) (.fresh faults compression threshold seqno) calls s →
      s.Durable deps) ∧
    (∀ calls s call next, Run (Guarded (CallStep deps) NoneAfterTorn) (.fresh faults compression threshold seqno) calls s →
      CallStep deps s call next → ¬ NoneAfterTorn s call → ¬ next.Durable deps) := by
  constructor
  · intro calls s run
    obtain ⟨frames, inv⟩ := guarded_session_inv faults compression threshold seqno calls s run
    exact durable_of_inv s frames inv
  · intro calls s call next run step hazard durable
    obtain ⟨frames, inv⟩ := guarded_session_inv faults compression threshold seqno calls s run
    obtain ⟨frames', shape, _, _, acknowledged⟩ := call_step_inv s next call frames inv step
    simp only [NoneAfterTorn, Classical.not_imp, not_not] at hazard
    rcases acknowledged with ⟨_, unacknowledged⟩ | ⟨more, _, same, _⟩
    · exact unacknowledged hazard.2
    · -- Recovery finds only the batches from before the tear, all with smaller seqnos.
      have kept := durable 0 (call.batch s.db.seqno) (by rw [more]; exact List.mem_cons_self)
      rw [recover_shape _ _ frames' shape 0, same hazard.1] at kept
      obtain ⟨f, member, batch⟩ := List.mem_map.mp kept
      have smaller := inv.older f member
      have equal : f.seqno = s.db.seqno := by
        have seqnos := congrArg Batch.seqno batch
        cases call <;> exact seqnos
      rw [equal] at smaller
      exact Nat.lt_irrefl _ smaller

def sampleKeyspace : Keyspace := ⟨1, false, true⟩

def sampleValue : UserValue := ⟨[0x7a], by decide⟩

def twoInserts : List SingleCall := [.insert sampleKeyspace [0x61] sampleValue, .insert sampleKeyspace [0x62] sampleValue]

theorem insert_after_clean_failure :
    ∃ s, Run (Guarded (CallStep .sample) NoneAfterTorn) (.fresh [true] .none 0 0) twoInserts s ∧
      s.acknowledged = [⟨1, [⟨1, [0x62], sampleValue, .value⟩], []⟩] ∧ s.Durable .sample := by
  have reached : ∃ s, Run (Guarded (CallStep .sample) NoneAfterTorn) (.fresh [true] .none 0 0) twoInserts s ∧
      s.acknowledged = [⟨1, [⟨1, [0x62], sampleValue, .value⟩], []⟩] :=
    ⟨_, .cons _ _ ⟨by rintro ⟨⟩, .item _ _ _ _ _ ⟨by decide, by decide⟩, by decide, rfl⟩
      (.cons _ _ ⟨by rintro ⟨⟩, .item _ _ _ _ _ ⟨by decide, by decide⟩, by decide, rfl⟩ (.nil _)), rfl⟩
  obtain ⟨s, run, acknowledged⟩ := reached
  exact ⟨s, run, acknowledged, (single_writes_durable [true] .none 0 0).1 _ s run⟩

-- Here it fails at its second write and leaves its start entry behind.
theorem insert_after_torn_failure :
    ∃ s, Run (CallStep .sample) (.fresh [false, true] .none 0 0) twoInserts s ∧
      s.acknowledged = [⟨1, [⟨1, [0x62], sampleValue, .value⟩], []⟩] ∧
      ∀ padding, (recoverJournal .sample (s.db.writer.file ++ List.replicate padding 0)).batches = [] := by
  refine ⟨_, .cons _ _ ⟨.item _ _ _ _ _ ⟨by decide, by decide⟩, by decide, rfl⟩
    (.cons _ _ ⟨.item _ _ _ _ _ ⟨by decide, by decide⟩, by decide, rfl⟩ (.nil _)), rfl, fun padding => ?_⟩
  refine recover_shape _ true [] ⟨_, rfl, by simp, fun _ => ?_⟩ padding
  exact ⟨1, 0, [], _, by decide, by simp, rfl, .inr ⟨1, 1, _, rfl⟩⟩

end OmryaKv.Write
