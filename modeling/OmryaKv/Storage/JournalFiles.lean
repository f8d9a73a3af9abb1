import OmryaKv.Journal.TornTail
import OmryaKv.Storage.Effects

set_option autoImplicit false

namespace OmryaKv.Storage

open Lib

variable {Name : Type}

def Payload.onDisk : Payload UserValue → UserValue × ValueType
  | .value v => (v, .value)
  | .tombstone => (.empty, .tombstone)
  | .weakTombstone => (.empty, .weakTombstone)
  | .indirection => (.empty, .indirection)

def Item.onDisk (item : Item UserKey UserValue) : Journal.BatchItem :=
  ⟨.ofNat item.keyspaceId, item.key, item.payload.onDisk.1, item.payload.onDisk.2⟩

-- What a batch looks like to the reader of a journal: the ghosts are gone.
def Batch.onDisk (batch : Batch UserKey UserValue) : Journal.Batch :=
  ⟨.ofNat batch.seqno, batch.items.map Item.onDisk, batch.clearedKeyspaces.map fun mark => .ofNat mark.keyspaceId⟩

def Op.call (seqno : Nat) : Op Name UserKey UserValue → Option Journal.WriteCall
  | .insert ks key value => some (.raw ⟨.ofNat ks.id, key, value, .value⟩ (.ofNat seqno))
  | .remove ks key => some (.raw ⟨.ofNat ks.id, key, .empty, .tombstone⟩ (.ofNat seqno))
  | .removeWeak ks key => some (.raw ⟨.ofNat ks.id, key, .empty, .weakTombstone⟩ (.ofNat seqno))
  | .commit batch => some (.batch (batch.data.map Item.onDisk) (.ofNat seqno))
  | .clear ks => some (.clear (.ofNat ks.id) (.ofNat seqno))
  | _ => none

theorem call_writes_batch (op : Op Name UserKey UserValue) (seqno : Nat) :
    (op.call seqno).toList.flatMap Journal.WriteCall.batches = (op.batch seqno).toList.map Batch.onDisk := by
  cases op with
  | commit batch =>
    obtain ⟨data, wellFormed⟩ := batch
    cases data <;> rfl
  | _ => rfl

structure JournalFiles where
  active : Bytes
  sealedFiles : List Bytes

section

variable (deps : Journal.Dependencies) (compression : CompressionType) (threshold : Nat)

def writeCall (file : Bytes) (call : Journal.WriteCall) : Bytes :=
  match (call.run deps).run (.new file compression threshold) with
  | .ok _ w => w.file
  | .error _ w => w.file

-- maintenance deletes the files of the journals it evicts, oldest first.
def JournalFiles.perform (files : JournalFiles) (db : Database Name UserKey UserValue) : Op Name UserKey UserValue → JournalFiles
  | .rotateJournal => ⟨[], files.sealedFiles ++ [files.active]⟩
  | .maintenance =>
    { files with
      sealedFiles := files.sealedFiles.drop (db.sealedJournals.length - db.maintenance.sealedJournals.length) }
  | op => { files with active := (op.call db.seqno).toList.foldl (writeCall deps compression threshold) files.active }

inductive FileStep [DecidableEq Name] : Database Name UserKey UserValue × JournalFiles → Op Name UserKey UserValue →
    Database Name UserKey UserValue × JournalFiles → Prop where
  | mk (db next : Database Name UserKey UserValue) (files : JournalFiles) (op : Op Name UserKey UserValue)
      (step : Step db op next) (fits : ∀ call ∈ op.call db.seqno, call.Fits deps compression threshold) :
      FileStep (db, files) op (next, files.perform deps compression threshold db op)

def FileRep (file : Bytes) (batches : List (Batch UserKey UserValue)) : Prop :=
  ∃ frames : List (Journal.Frame deps), file = Journal.framesBytes frames ∧
    frames.map Journal.Frame.batch = batches.map Batch.onDisk

variable {deps compression threshold}

theorem file_rep_read_back (file : Bytes) (batches : List (Batch UserKey UserValue)) (rep : FileRep deps file batches) :
    Journal.recoverJournal deps file = ⟨batches.map Batch.onDisk, none, file⟩ := by
  obtain ⟨frames, rfl, same⟩ := rep
  rw [Journal.recover_whole_frames, same]

theorem write_call_appends (file : Bytes) (call : Journal.WriteCall) (fits : call.Fits deps compression threshold) :
    ∃ frames : List (Journal.Frame deps), writeCall deps compression threshold file call = file ++ Journal.framesBytes frames ∧
      frames.map Journal.Frame.batch = call.batches := by
  rcases Journal.call_emits_frame compression threshold call fits with ⟨nothing, run⟩ | ⟨f, byteCount, one, outcome⟩
  · refine ⟨[], ?_, nothing.symm⟩
    rw [writeCall, run]
    exact (List.append_nil file).symm
  · rcases outcome (.new file compression threshold) ⟨rfl, rfl⟩ with
      ⟨next, run, appended, _⟩ | ⟨_, _, _, _, _, _, _, _, fault⟩
    · refine ⟨[f], ?_, one.symm⟩
      have single : Journal.framesBytes [f] = f.bytes := List.append_nil _
      rw [writeCall, run, single]
      exact appended
    · simp [Journal.Writer.new] at fault

theorem written_file_rep (file : Bytes) (batches : List (Batch UserKey UserValue)) (rep : FileRep deps file batches)
    (op : Op Name UserKey UserValue) (seqno : Nat) (fits : ∀ call ∈ op.call seqno, call.Fits deps compression threshold) :
    FileRep deps ((op.call seqno).toList.foldl (writeCall deps compression threshold) file)
      (batches ++ (op.batch seqno).toList) := by
  obtain ⟨frames, rfl, same⟩ := rep
  have written := call_writes_batch op seqno
  cases called : op.call seqno with
  | none =>
    rw [called] at written
    exact ⟨frames, rfl, by rw [List.map_append, same, ← written]; simp⟩
  | some call =>
    obtain ⟨more, appended, batched⟩ := write_call_appends (Journal.framesBytes frames) call (fits call called)
    rw [called] at written
    refine ⟨frames ++ more, ?_, ?_⟩
    · rw [Journal.frames_bytes_append]
      exact appended
    · rw [List.map_append, List.map_append, same, batched, ← written]
      simp

structure FilesRep (deps : Journal.Dependencies) (state : Database Name UserKey UserValue × JournalFiles) : Prop where
  active : FileRep deps state.2.active state.1.journal
  sealedFiles : List.Forall₂ (fun file journal => FileRep deps file journal.batches) state.2.sealedFiles state.1.sealedJournals

theorem file_step_rep [DecidableEq Name] (state next : Database Name UserKey UserValue × JournalFiles)
    (op : Op Name UserKey UserValue) (rep : FilesRep deps state) (step : FileStep deps compression threshold state op next) :
    FilesRep deps next := by
  obtain ⟨db, next, files, _, step, fits⟩ := step
  by_cases rotated : op = .rotateJournal
  · subst rotated
    cases step.2
    exact ⟨⟨[], rfl, rfl⟩, List.rel_append rep.sealedFiles (.cons rep.active .nil)⟩
  · by_cases evicted : op = .maintenance
    · subst evicted
      cases step.2
      refine ⟨rep.active, ?_⟩
      have evicted := List.suffix_iff_eq_drop.mp (evict_suffix db db.sealedJournals)
      have kept := List.forall₂_drop (db.sealedJournals.length - (db.evict db.sealedJournals).length) rep.sealedFiles
      rw [← evicted] at kept
      exact kept
    · obtain ⟨journal, sealedJournals⟩ := step_journal db next op step rotated evicted
      have perform : files.perform deps compression threshold db op =
          { files with active := (op.call db.seqno).toList.foldl (writeCall deps compression threshold) files.active } := by
        cases op <;> first | rfl | contradiction
      rw [perform]
      refine ⟨?_, ?_⟩
      · rw [journal]
        exact written_file_rep files.active db.journal rep.active op db.seqno fits
      · rw [sealedJournals]
        exact rep.sealedFiles

-- Whatever a session does, each of its journal files reads back as the batches
-- that the model has in its place, with no error and nothing to cut off.
theorem journal_files_read_back [DecidableEq Name] (ops : List (Op Name UserKey UserValue))
    (db : Database Name UserKey UserValue) (files : JournalFiles)
    (run : Run (FileStep deps compression threshold) (Database.new, ⟨[], []⟩) ops (db, files)) :
    Journal.recoverJournal deps files.active = ⟨db.journal.map Batch.onDisk, none, files.active⟩ ∧
      List.Forall₂ (fun file journal => Journal.recoverJournal deps file = ⟨journal.batches.map Batch.onDisk, none, file⟩)
        files.sealedFiles db.sealedJournals := by
  have rep : FilesRep deps (db, files) := by
    refine run_invariant _ (FilesRep deps) ?_ run ⟨⟨[], rfl, rfl⟩, .nil⟩
    intro state op next rep step
    exact file_step_rep state next op rep step
  exact ⟨file_rep_read_back files.active db.journal rep.active,
    rep.sealedFiles.imp fun file journal held => file_rep_read_back file journal.batches held⟩

end

end OmryaKv.Storage
