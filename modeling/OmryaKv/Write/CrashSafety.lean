import OmryaKv.Write.Reopening

set_option autoImplicit false

namespace OmryaKv.Write

open Journal Lib

variable {deps : Dependencies} {disk after : Disk FileName} {log : DurableLog} {front : List (FileName × DiskFile)} {path : FileName}
  {f : DiskFile} {frames : List (Frame deps)}

-- The batches of the log are those of the frames, as far as whole frames are in the file.
def Recorded (log : DurableLog) (f : DiskFile) (frames : List (Frame deps)) : Prop :=
  ∀ count ≤ wholeFrames frames f.data.length, log.active.take count = (frames.take count).map Frame.batch

theorem recorded_all (active : log.active = frames.map Frame.batch) : Recorded log f frames := by
  intro count _
  rw [active, ← List.map_take]

theorem recorded_length (recorded : Recorded log f frames) {cut : Nat} (within : cut ≤ f.data.length) :
    log.active.take (wholeFrames frames cut) = (frames.take (wholeFrames frames cut)).map Frame.batch ∧
      (log.active.take (wholeFrames frames cut)).length = wholeFrames frames cut := by
  have same := recorded _ (whole_frames_mono frames within)
  refine ⟨same, ?_⟩
  rw [same, List.length_map]
  exact List.length_take_of_le (whole_frames_le frames cut)

theorem laid_killed (laid : Laid deps disk front path f log frames) (recorded : Recorded log f frames)
    (created : disk.created = []) :
    ∃ next, log.Survives .killed next ∧ Down deps disk next front path f frames := by
  obtain ⟨same, counted⟩ := recorded_length recorded (Nat.le_refl _)
  obtain ⟨kept, reaches⟩ := reaches_left laid.active
    { log with
      active := log.active.take (wholeFrames frames f.data.length)
      flushed := (log.active.take (wholeFrames frames f.data.length)).length } counted rfl
  exact ⟨_, .killed _ kept, { laid with active := reaches }, created, same, counted⟩

-- What a power loss leaves: any of the removed journals, all the sealed ones, and
-- the active one unless the folder does not know it yet.
structure PowerLeft (deps : Dependencies) (after : Disk FileName) (front : List (FileName × DiskFile)) (log : DurableLog)
    (last : List (FileName × DiskFile)) (back : List (List Batch)) : Prop where
  files : after.files = front ++ last
  old : back.Sublist log.removed
  whole : List.Forall₂ (Whole deps) front (back ++ log.sealedJournals)
  created : after.created = []
  removed : after.removed = []
  ascending : Ascending after.names

theorem power_left (laid : Laid deps disk front path f log frames) (fresh : ∀ name ∈ disk.created, name = path)
    (lost : disk.PowerLost after) :
    ∃ front' back, (∃ g, f.Torn g ∧ PowerLeft deps after front' log [(path, g)] back) ∨
      (path ∈ disk.created ∧ PowerLeft deps after front' log [] back) := by
  obtain ⟨created, removed, remains⟩ := lost
  have ascending : Ascending after.names := by
    refine ascending_sublist laid.ascending ?_
    rw [Disk.names, removed, List.nil_append]
    exact remains_names remains
  have distinct := ascending_nodup laid.ascending
  rw [Disk.names, laid.files, List.map_append, List.map_append] at distinct
  obtain ⟨gone, goneWhole, goneOld⟩ := laid.removed
  rw [laid.files] at remains
  obtain ⟨leftOld, leftFiles, split, remainsOld, remainsFiles⟩ := remains_append _ _ _ remains
  obtain ⟨leftFront, leftLast, filesSplit, remainsFront, remainsLast⟩ := remains_append _ _ _ remainsFiles
  obtain ⟨back, kept, wholeOld⟩ := remains_all (Whole deps) whole_torn remainsOld goneWhole
  have stay : ∀ name ∈ front.map Prod.fst, ¬ (name ∈ disk.created ∨ name ∈ disk.removed.map Prod.fst) := by
    rintro name member (new | old)
    · rw [fresh name new] at member
      exact (List.nodup_append.mp (List.nodup_append.mp distinct).2.1).2.2 path member path (by simp) rfl
    · exact (List.nodup_append.mp distinct).2.2 name old name (List.mem_append_left _ member) rfl
  have wholeFront := remains_whole (Whole deps) whole_torn remainsFront laid.sealedJournals stay
  have files : after.files = leftOld ++ leftFront ++ leftLast := by rw [split, filesSplit, List.append_assoc]
  have whole := List.rel_append wholeOld wholeFront
  refine ⟨leftOld ++ leftFront, back, ?_⟩
  cases remainsLast with
  | kept _ _ g _ left torn later =>
    cases later
    exact .inl ⟨g, torn, files, kept.trans goneOld, whole, created, removed, ascending⟩
  | lost _ _ _ _ may later =>
    cases later
    refine .inr ⟨may.resolve_right fun old => ?_, files, kept.trans goneOld, whole, created, removed, ascending⟩
    exact (List.nodup_append.mp distinct).2.2 path old path (List.mem_append_right _ (by simp)) rfl

theorem power_left_active {g : DiskFile} {front' : List (FileName × DiskFile)} {back : List (List Batch)}
    (laid : Laid deps disk front path f log frames) (recorded : Recorded log f frames) (torn : f.Torn g)
    (left : PowerLeft deps after front' log [(path, g)] back) :
    ∃ next, log.Survives .powerLost next ∧ Down deps after next front' path g frames := by
  have shorter : g.data.length ≤ f.data.length := by
    obtain ⟨kept, -, data⟩ := torn.data
    rw [data]
    exact List.length_take_le' _ _
  obtain ⟨same, counted⟩ := recorded_length recorded shorter
  obtain ⟨kept, reaches⟩ := reaches_torn laid.active torn
    ⟨[], back ++ log.sealedJournals, log.active.take (wholeFrames frames g.data.length),
      (log.active.take (wholeFrames frames g.data.length)).length, (log.active.take (wholeFrames frames g.data.length)).length⟩
    counted counted
  refine ⟨_, .powerLost _ kept back left.old, ⟨left.files, ⟨[], ?_, .refl _⟩, left.whole, reaches, left.ascending⟩, left.created,
    same, counted⟩
  rw [left.removed]
  exact .nil

theorem laid_crashes {kind : Crash} (laid : Laid deps disk front path f log frames) (recorded : Recorded log f frames)
    (created : disk.created = []) (leaves : kind.Leaves disk after) :
    ∃ next front' g, log.Survives kind next ∧ Down deps after next front' path g frames := by
  cases kind with
  | killed =>
    cases leaves
    obtain ⟨next, survives, down⟩ := laid_killed laid recorded created
    exact ⟨next, front, f, survives, down⟩
  | powerLost =>
    obtain ⟨front', back, ⟨g, torn, left⟩ | ⟨new, -⟩⟩ := power_left laid (by simp [created]) leaves
    · obtain ⟨next, survives, down⟩ := power_left_active laid recorded torn left
      exact ⟨next, front', g, survives, down⟩
    · rw [created] at new
      exact absurd new List.not_mem_nil

-- Every call on an open journal writes so many bytes and then may sync them.
def syncCalls (path : FileName) : PersistMode → List (SysCall FileName)
  | .buffer => []
  | .syncData => [.sync path]
  | .syncAll => [.sync path]

theorem sync_calls_or (path : FileName) (mode : PersistMode) : syncCalls path mode = [] ∨ syncCalls path mode = [.sync path] := by
  cases mode with
  | buffer => exact .inl rfl
  | syncData => exact .inr rfl
  | syncAll => exact .inr rfl

theorem persist_calls (w : BufferedWriter) (clean : w.isBufferDirty = false → w.buf = []) (mode : PersistMode) :
    w.persist mode = (w.toFile w.buf ++ syncCalls w.path mode, { w with buf := [], isBufferDirty := false }) := by
  have flushed : w.flush = (w.toFile w.buf, { w with buf := [], isBufferDirty := false }) := by
    obtain ⟨path, buf, isBufferDirty, compression, threshold⟩ := w
    cases isBufferDirty with
    | true => rfl
    | false =>
      cases (clean rfl : buf = [])
      rfl
  rw [BufferedWriter.persist, flushed]
  cases mode with
  | buffer => simp [syncCalls]
  | syncData => rfl
  | syncAll => rfl

variable {w : BufferedWriter}

theorem laid_traced (laid : Laid deps disk front path f log frames) (more : List (Frame deps)) (bytes : Bytes)
    (tail : List (SysCall FileName)) (shape : tail = [] ∨ tail = [.sync path])
    (next : f.data ++ bytes <+: framesBytes (frames ++ more)) :
    ∃ g, Laid deps (runCalls disk (bytes.map (SysCall.write path) ++ tail)) front path g log (frames ++ more) ∧
      (runCalls disk (bytes.map (SysCall.write path) ++ tail)).created = disk.created ∧ g.data = f.data ++ bytes ∧
      (tail = [.sync path] → g.synced = g.data.length) := by
  have written := laid_written laid more bytes next
  have created : (runCalls disk (bytes.map (SysCall.write path))).created = disk.created := by
    rw [run_writes disk front path f bytes laid.files (laid_distinct laid)]
  rw [run_calls_append]
  rcases shape with rfl | rfl
  · exact ⟨_, written, created, rfl, fun some => absurd some (by simp)⟩
  · exact ⟨_, laid_changed written .sync (reaches_sync written.active), created, rfl, fun _ => rfl⟩

-- The calls stop anywhere: a part of the bytes, or all of them and maybe the sync.
theorem laid_interrupted (laid : Laid deps disk front path f log frames) (more : List (Frame deps)) (bytes : Bytes)
    (tail : List (SysCall FileName)) (shape : tail = [] ∨ tail = [.sync path])
    (next : f.data ++ bytes <+: framesBytes (frames ++ more)) (count : Nat) :
    ∃ g, Laid deps (runCalls disk ((bytes.map (SysCall.write path) ++ tail).take count)) front path g log (frames ++ more) ∧
      (runCalls disk ((bytes.map (SysCall.write path) ++ tail).take count)).created = disk.created := by
  rw [List.take_append, List.length_map, ← List.map_take]
  have part : f.data ++ bytes.take count <+: framesBytes (frames ++ more) :=
    (List.prefix_append_right_inj _ |>.mpr (List.take_prefix _ _)).trans next
  have shape' : tail.take (count - bytes.length) = [] ∨ tail.take (count - bytes.length) = [.sync path] := by
    rcases shape with rfl | rfl
    · exact .inl List.take_nil
    · cases count - bytes.length with
      | zero => exact .inl rfl
      | succ left => exact .inr (by rw [List.take_succ_cons, List.take_nil])
  obtain ⟨g, laid', created, -⟩ := laid_traced laid more (bytes.take count) _ shape' part
  exact ⟨g, laid', created⟩

theorem reaches_persist {g : DiskFile} (reaches : Reaches deps g log frames) (active : log.active.length = frames.length)
    (whole : g.data = framesBytes frames) (mode : PersistMode)
    (synced : syncCalls path mode = [.sync path] → g.synced = g.data.length) : Reaches deps g (log.persist mode) frames := by
  have all : (framesBytes (frames.take log.active.length)).length ≤ g.data.length := by rw [active, List.take_length, whole]
  cases mode with
  | buffer => exact { reaches with flushed := all, flushedCount := Nat.le_of_eq active }
  | syncData | syncAll =>
    have reached : (framesBytes (frames.take log.active.length)).length ≤ g.synced := by
      rw [synced rfl]
      exact all
    exact ⟨reaches.data, reaches.within, all, reached, Nat.le_of_eq active, Nat.le_of_eq active⟩

theorem laid_log {after : DurableLog} (laid : Laid deps disk front path f log frames) (removed : after.removed = log.removed)
    (sealedJournals : after.sealedJournals = log.sealedJournals) (active : Reaches deps f after frames) :
    Laid deps disk front path f after frames :=
  ⟨laid.files, removed ▸ laid.removed, sealedJournals ▸ laid.sealedJournals, active, laid.ascending⟩

theorem log_persist_same (log : DurableLog) (mode : PersistMode) :
    (log.persist mode).removed = log.removed ∧ (log.persist mode).sealedJournals = log.sealedJournals ∧
      (log.persist mode).active = log.active := by
  cases mode with
  | buffer => exact ⟨rfl, rfl, rfl⟩
  | syncData => exact ⟨rfl, rfl, rfl⟩
  | syncAll => exact ⟨rfl, rfl, rfl⟩

section

variable (up : Up deps disk w log front f frames)
include up

theorem up_rest : f.data ++ w.buf <+: framesBytes (frames ++ []) :=
  ⟨[], by rw [List.append_nil, List.append_nil, up.buffered]⟩

-- Everything the writer holds goes to the file; the log then promises what the mode asks for.
theorem up_persist (mode : PersistMode) :
    ∃ g, Up deps (runCalls disk (w.persist mode).1) (w.persist mode).2 (log.persist mode) front g frames := by
  obtain ⟨g, laid, created, data, synced⟩ := laid_traced up.laid [] w.buf _ (sync_calls_or w.path mode) (up_rest up)
  rw [List.append_nil] at laid
  have whole : g.data = framesBytes frames := data.trans up.buffered
  have reaches := reaches_persist laid.active (by rw [up.active, List.length_map]) whole mode synced
  obtain ⟨removed, sealedJournals, active⟩ := log_persist_same log mode
  rw [persist_calls w up.clean mode]
  refine ⟨g, laid_log laid removed sealedJournals reaches, created.trans up.created, active.trans up.active, ?_, fun _ => rfl⟩
  exact (List.append_nil _).trans whole

theorem up_persist_interrupted (mode : PersistMode) (count : Nat) :
    ∃ g, Laid deps (runCalls disk ((w.persist mode).1.take count)) front w.path g log frames ∧
      (runCalls disk ((w.persist mode).1.take count)).created = [] := by
  obtain ⟨g, laid, created⟩ := laid_interrupted up.laid [] w.buf _ (sync_calls_or w.path mode) (up_rest up) count
  rw [List.append_nil] at laid
  rw [persist_calls w up.clean mode]
  exact ⟨g, laid, created.trans up.created⟩

omit up in
theorem write_frame (call : JournalWrite) (seqno : UInt64) (compression : CompressionType) (threshold : Nat)
    (fits : call.Fits deps compression threshold) :
    ∃ frame : Frame deps, (call.pieces deps compression threshold seqno).flatten = frame.bytes ∧ frame.batch = call.batch seqno := by
  have wellFormed : ∀ entry ∈ call.body compression threshold, BodyEntry deps entry := by
    intro entry member
    have fit := fits.2 entry member
    cases call with
    | single call =>
      cases List.mem_singleton.mp member
      cases call with
      | insert ks key value => exact .item _ _ _ _ _ fit
      | remove ks key => exact .item _ _ _ _ _ fit
      | removeWeak ks key => exact .item _ _ _ _ _ fit
      | clear ks treeFails => exact .clear ks.id
    | commit batch =>
      obtain ⟨item, -, rfl⟩ := List.mem_map.mp member
      exact .item _ _ _ _ _ fit
  refine ⟨⟨seqno, call.body compression threshold, wellFormed, fits.1⟩, ?_, ?_⟩
  · rw [JournalWrite.pieces, ← List.flatMap_def]
    rfl
  · cases call with
    | single call => cases call <;> rfl
    | commit batch =>
      have back := read_items_back compression threshold batch.data
      exact congrArg₂ (Batch.mk seqno) back.1 back.2

theorem up_append (pieces : List Bytes) (frame : Frame deps) (framed : pieces.flatten = frame.bytes) :
    (∃ g, Up deps (runCalls disk (w.write pieces).1) (w.write pieces).2 (log.append frame.batch none) front g (frames ++ [frame])) ∧
      ∀ count, ∃ g, Laid deps (runCalls disk ((w.write pieces).1.take count)) front w.path g (log.append frame.batch none)
          (frames ++ [frame]) ∧ (runCalls disk ((w.write pieces).1.take count)).created = [] := by
  have split := buffer_each_keeps w.buf pieces
  have whole : f.data ++ (bufferEach w.buf pieces).1 ++ (bufferEach w.buf pieces).2 = framesBytes (frames ++ [frame]) := by
    rw [List.append_assoc, split, ← List.append_assoc, up.buffered, framed, frames_bytes_append]
    exact congrArg (framesBytes frames ++ ·) (List.append_nil _).symm
  have begun : f.data ++ (bufferEach w.buf pieces).1 <+: framesBytes (frames ++ [frame]) := ⟨_, whole⟩
  have counts {g : DiskFile} (reaches : Reaches deps g log (frames ++ [frame])) :
      Reaches deps g (log.append frame.batch none) (frames ++ [frame]) :=
    ⟨reaches.data, reaches.within, reaches.flushed, reaches.synced, reaches.flushedCount, reaches.syncedCount⟩
  constructor
  · obtain ⟨g, laid, created, data, -⟩ := laid_traced up.laid [frame] _ [] (.inl rfl) begun
    rw [List.append_nil] at laid created
    refine ⟨g, laid_log laid rfl rfl (counts laid.active), created.trans up.created, ?_, ?_, fun clean => ?_⟩
    · rw [List.map_append, ← up.active]
      rfl
    · rw [data]
      exact whole
    · exact absurd clean (by simp [BufferedWriter.write])
  · intro count
    obtain ⟨g, laid, created⟩ := laid_interrupted up.laid [frame] _ [] (.inl rfl) begun count
    rw [List.append_nil] at laid created
    exact ⟨g, laid_log laid rfl rfl (counts laid.active), created.trans up.created⟩

inductive Agrees (deps : Dependencies) : Machine → DurableLog → Prop where
  | up (disk : Disk FileName) (w : BufferedWriter) (log : DurableLog) (front : List (FileName × DiskFile)) (f : DiskFile)
      (frames : List (Frame deps)) (up : Up deps disk w log front f frames) : Agrees deps (.up disk w) log
  | down (disk : Disk FileName) (log : DurableLog) (front : List (FileName × DiskFile)) (path : FileName) (f : DiskFile)
      (frames : List (Frame deps)) (down : Down deps disk log front path f frames) : Agrees deps (.down disk) log

-- A crash on the disk is one of the log at that stage.
def CrashesAs (deps : Dependencies) (disk : Disk FileName) (stages : List DurableLog) : Prop :=
  ∀ kind after, (kind = .killed → disk.created = []) → Crash.Leaves disk after kind →
    ∃ stage ∈ stages, ∃ next, stage.Survives kind next ∧ Agrees deps (.down after) next

omit up in
theorem crashes_as_stage {stages : List DurableLog} (laid : Laid deps disk front path f log frames)
    (active : log.active = frames.map Frame.batch) (created : disk.created = []) (staged : log ∈ stages) :
    CrashesAs deps disk stages := by
  intro kind after _ leaves
  obtain ⟨next, front', g, survives, down⟩ := laid_crashes laid (recorded_all active) created leaves
  exact ⟨log, staged, next, survives, .down after next front' path g frames down⟩

theorem crashes_while_persisting {stages : List DurableLog} (mode : PersistMode) (staged : log ∈ stages)
    (count : Nat) : CrashesAs deps (runCalls disk ((w.persist mode).1.take count)) stages := by
  obtain ⟨g, laid, created⟩ := up_persist_interrupted up mode count
  exact crashes_as_stage laid up.active created staged

structure Carried (deps : Dependencies) (disk : Disk FileName) (w : BufferedWriter) (log : DurableLog) (op : Operation) : Prop where
  done : Agrees deps (.up (runCalls disk (op.run deps disk w).1) (op.run deps disk w).2) (op.after log)
  stopped : ∀ count, CrashesAs deps (runCalls disk ((op.run deps disk w).1.take count)) (op.stages log)

theorem carried_persist (mode : PersistMode) : Carried deps disk w log (.persist mode) := by
  obtain ⟨g, persisted⟩ := up_persist up mode
  exact ⟨.up _ _ _ front g frames persisted, crashes_while_persisting up mode (by simp [Operation.stages])⟩

theorem carried_write (call : JournalWrite) (seqno : UInt64)
    (fits : call.Fits deps w.compression w.compressionThreshold) : Carried deps disk w log (.write call seqno) := by
  cases early : call.returnsEarly with
  | true =>
    have run : Operation.run deps disk w (.write call seqno) = ([], w) := by rw [Operation.run, if_pos early]
    have same : Operation.after log (.write call seqno) = log := by rw [Operation.after, if_pos early]
    refine ⟨?_, fun count => ?_⟩
    · rw [run, same]
      exact .up disk w log front f frames up
    · rw [run, List.take_nil]
      exact crashes_as_stage up.laid up.active up.created (by simp [Operation.stages])
  | false =>
    obtain ⟨frame, framed, batch⟩ := write_frame call seqno _ _ fits
    obtain ⟨⟨g, appended⟩, writing⟩ := up_append up _ frame framed
    rw [batch] at appended writing
    have staged : log.append (call.batch seqno) none ∈ Operation.stages log (.write call seqno) := by simp [Operation.stages]
    have stopped (count : Nat) : CrashesAs deps
        (runCalls disk ((w.write (call.pieces deps w.compression w.compressionThreshold seqno)).1.take count))
        (Operation.stages log (.write call seqno)) := by
      obtain ⟨h, laid, created⟩ := writing count
      exact crashes_as_stage laid appended.active created staged
    cases mode : call.persistMode with
    | none =>
      have run : Operation.run deps disk w (.write call seqno) =
          w.write (call.pieces deps w.compression w.compressionThreshold seqno) := by
        rw [Operation.run, if_neg (by simp [early]), mode]
      have same : Operation.after log (.write call seqno) = log.append (call.batch seqno) none := by
        rw [Operation.after, if_neg (by simp [early]), mode]
      refine ⟨?_, fun count => ?_⟩
      · rw [run, same]
        exact .up _ _ _ front g _ appended
      · rw [run]
        exact stopped count
    | some persistMode =>
      have run : Operation.run deps disk w (.write call seqno) =
          ((w.write (call.pieces deps w.compression w.compressionThreshold seqno)).1 ++
              ((w.write (call.pieces deps w.compression w.compressionThreshold seqno)).2.persist persistMode).1,
            ((w.write (call.pieces deps w.compression w.compressionThreshold seqno)).2.persist persistMode).2) := by
        rw [Operation.run, if_neg (by simp [early]), mode]
      have same : Operation.after log (.write call seqno) = (log.append (call.batch seqno) none).persist persistMode := by
        rw [Operation.after, if_neg (by simp [early]), mode]
        rfl
      obtain ⟨h, persisted⟩ := up_persist appended persistMode
      refine ⟨?_, fun count => ?_⟩
      · rw [run, same, run_calls_append]
        exact .up _ _ _ front h _ persisted
      · rw [run, List.take_append, run_calls_append]
        rcases Nat.le_total count (w.write (call.pieces deps w.compression w.compressionThreshold seqno)).1.length with
          within | beyond
        · rw [Nat.sub_eq_zero_of_le within, List.take_zero]
          exact stopped count
        · rw [List.take_of_length_le beyond]
          exact crashes_while_persisting appended persistMode staged _

omit up in
theorem laid_evicted {oldest : FileName × DiskFile} {first : List Batch} {others : List (List Batch)}
    (laid : Laid deps disk (oldest :: front) path f log frames) (journals : log.sealedJournals = first :: others) :
    Laid deps (SysCall.run disk (.unlink oldest.1)) front path f log.evict frames ∧
      (SysCall.run disk (.unlink oldest.1)).created = disk.created := by
  have sealedJournals := laid.sealedJournals
  rw [journals] at sealedJournals
  have same : log.evict = { log with removed := log.removed ++ [first], sealedJournals := others } := by
    rw [DurableLog.evict, journals]
  obtain ⟨gone, goneWhole, goneOld⟩ := laid.removed
  have reaches := laid.active
  have names := laid.ascending
  rw [Disk.names, laid.files] at names
  rw [unlink_first disk oldest (front ++ [(path, f)]) laid.files (laid_distinct laid), same]
  cases sealedJournals with
  | cons whole rest =>
    refine ⟨⟨rfl, ⟨gone ++ [first], List.rel_append goneWhole (.cons whole .nil), goneOld.append (.refl _)⟩, rest, ?_, ?_⟩, rfl⟩
    · exact ⟨reaches.data, reaches.within, reaches.flushed, reaches.synced, reaches.flushedCount, reaches.syncedCount⟩
    · rw [Disk.names]
      simpa using names

theorem carried_evict : Carried deps disk w log .evict := by
  have laid := up.laid
  have sealedJournals := laid.sealedJournals
  have before : CrashesAs deps disk (Operation.stages log .evict) :=
    crashes_as_stage laid up.active up.created (by simp [Operation.stages])
  cases front with
  | nil =>
    have run : Operation.run deps disk w .evict = ([], w) := by
      rw [Operation.run, laid.files]
      exact if_pos rfl
    have same : Operation.after log .evict = log := by
      have none : log.sealedJournals = [] := List.forall₂_nil_left_iff.mp sealedJournals
      rw [Operation.after, DurableLog.evict, none]
    refine ⟨?_, fun count => ?_⟩
    · rw [run, same]
      exact .up disk w log [] f frames up
    · rw [run, List.take_nil]
      exact before
  | cons oldest rest =>
    obtain ⟨first, others, -, -, journals⟩ := List.forall₂_cons_left_iff.mp sealedJournals
    have other : oldest.1 ≠ w.path := by
      have distinct := laid_distinct laid
      rw [laid.files, List.cons_append, List.map_cons, List.nodup_cons] at distinct
      exact fun same => distinct.1 (by simp [same])
    have run : Operation.run deps disk w .evict = ([.unlink oldest.1], w) := by
      rw [Operation.run, laid.files]
      exact if_neg other
    obtain ⟨removed, created⟩ := laid_evicted laid journals
    have active : log.evict.active = frames.map Frame.batch := by
      rw [DurableLog.evict, journals]
      exact up.active
    refine ⟨?_, fun count => ?_⟩
    · rw [run]
      exact .up _ _ _ rest f frames ⟨removed, created.trans up.created, active, up.buffered, up.clean⟩
    · rw [run]
      cases count with
      | zero => exact before
      | succ count =>
        rw [List.take_succ_cons, List.take_nil]
        exact crashes_as_stage removed active (created.trans up.created) (by simp [Operation.stages, Operation.after])

-- A journal that was just created is not in the folder for good; without it the one
-- before it is the last again.
omit up in
theorem rotating_crashes {stages : List DurableLog} {name : FileName} {h : DiskFile} {g : DiskFile}
    (laid : Laid deps disk (front ++ [(path, g)]) name h log.rotate []) (created : disk.created = [name])
    (counted : log.synced ≤ log.active.length) (before : log ∈ stages) (after : log.rotate ∈ stages) :
    CrashesAs deps disk stages := by
  intro kind left allowed leaves
  cases kind with
  | killed =>
    have none := allowed rfl
    rw [created] at none
    exact absurd none (by simp)
  | powerLost =>
    obtain ⟨front', back, ⟨torn, tears, kept⟩ | ⟨-, lost⟩⟩ := power_left laid (by simp [created]) leaves
    · obtain ⟨next, survives, down⟩ := power_left_active laid (recorded_all rfl) tears kept
      exact ⟨log.rotate, after, next, survives, .down left next front' name torn [] down⟩
    · have whole := lost.whole
      rw [DurableLog.rotate, ← List.append_assoc] at whole
      obtain ⟨older, last, split, olderWhole, own, data, same, synced⟩ := forall_snoc _ _ _ _ whole
      have all : wholeFrames own last.2.data.length = own.length := by rw [data, whole_frames_all]
      have length : (log.active.take log.active.length).length = own.length := by rw [List.take_length, same, List.length_map]
      have reaches : Reaches deps last.2 ⟨[], back ++ log.sealedJournals, log.active.take log.active.length,
          (log.active.take log.active.length).length, (log.active.take log.active.length).length⟩ own := by
        refine ⟨data ▸ List.prefix_refl _, Nat.le_of_eq synced, ?_, ?_, Nat.le_of_eq length, Nat.le_of_eq length⟩
        · rw [length, List.take_length, data]
        · rw [length, List.take_length, synced, data]
      refine ⟨log, before, _, .powerLost log.active.length counted back lost.old,
        .down left _ older last.1 last.2 own ⟨⟨?_, ⟨[], ?_, .refl _⟩, olderWhole, reaches, lost.ascending⟩, lost.created, ?_, ?_⟩⟩
      · rw [lost.files, List.append_nil, split]
      · rw [lost.removed]
        exact .nil
      · rw [all, List.take_length, List.take_length, same]
      · rw [all, ← length]

theorem up_names : ∃ names, disk.names = names ++ [w.path] ∧ ∃ id, journalId w.path = some id := by
  have names : disk.names = disk.removed.map Prod.fst ++ front.map Prod.fst ++ [w.path] := by
    rw [Disk.names, up.laid.files]
    simp
  refine ⟨_, names, Option.isSome_iff_exists.mp ?_⟩
  exact (ascending_is_journal up.laid.ascending w.path (by simp [names])).2

theorem up_next_name (id : Nat) (found : journalId w.path = some id) (room : id + 1 < 2 ^ 64) :
    Ascending (disk.names ++ [journalName (id + 1)]) ∧ journalName (id + 1) ∉ disk.files.map Prod.fst := by
  obtain ⟨names, split, -⟩ := up_names up
  have ascending : Ascending (disk.names ++ [journalName (id + 1)]) := by
    have known := up.laid.ascending
    rw [split] at known ⊢
    exact ascending_next known id found room
  refine ⟨ascending, fun member => ?_⟩
  refine (List.nodup_append.mp (ascending_nodup ascending)).2.2 (journalName (id + 1)) ?_ _ (by simp) rfl
  rw [Disk.names, List.map_append]
  exact List.mem_append_right _ member

-- With everything in its file and synced the active journal can be sealed.
omit up in
theorem laid_created (up : Up deps disk w (log.persist .syncAll) front f frames) (empty : w.buf = []) (id : Nat)
    (found : journalId w.path = some id) (room : id + 1 < 2 ^ 64) :
    Laid deps (SysCall.run disk (.create (journalName (id + 1)))) (front ++ [(w.path, f)]) (journalName (id + 1)) .new log.rotate [] := by
  have active : log.active = frames.map Frame.batch := up.active
  have whole : f.data = framesBytes frames := by
    rw [← up.buffered, empty, List.append_nil]
  have reached : (framesBytes (frames.take log.active.length)).length ≤ f.synced := up.laid.active.synced
  rw [active, List.length_map, List.take_length, ← whole] at reached
  have synced : f.synced = f.data.length := Nat.le_antisymm up.laid.active.within reached
  refine ⟨?_, up.laid.removed, ?_, reaches_new _ 0 rfl rfl, ?_⟩
  · rw [SysCall.run, up.laid.files]
  · exact List.rel_append up.laid.sealedJournals (.cons ⟨frames, whole, active, synced⟩ .nil)
  · have ascending := (up_next_name up id found room).1
    rw [Disk.names] at ascending
    rw [Disk.names, SysCall.run, ← List.append_assoc, List.map_append]
    exact ascending

theorem rotate_calls (id : Nat) (found : journalId w.path = some id) (room : id + 1 < 2 ^ 64) :
    w.rotate disk = ((w.persist .syncAll).1 ++ (BufferedWriter.createNew (journalName (id + 1)) ++ [.syncFolder]),
      .new (journalName (id + 1)) w.compression w.compressionThreshold) := by
  have absent : disk.files.any (fun file => decide (file.1 = journalName (id + 1))) = false := by
    rw [List.any_eq_false]
    intro file member same
    refine (up_next_name up id found room).2 ?_
    rw [← of_decide_eq_true same]
    exact List.mem_map_of_mem member
  rw [BufferedWriter.rotate, persist_calls w up.clean .syncAll]
  simp only [found, Nat.mod_eq_of_lt room, absent, Bool.false_eq_true, if_false, BufferedWriter.toFile, List.map_nil, List.append_nil,
    List.append_assoc]

theorem carried_rotate (allowed : Operation.Allowed deps w .rotate) : Carried deps disk w log .rotate := by
  obtain ⟨-, -, id, found⟩ := up_names up
  have room := allowed id found
  have run := rotate_calls up id found room
  obtain ⟨g, persisted⟩ := up_persist up .syncAll
  have writer := persist_calls w up.clean .syncAll
  have path : (w.persist .syncAll).2.path = w.path := by rw [writer]
  have created := laid_created persisted (by rw [writer]) id (path ▸ found) room
  have extended := laid_changed created (·.extend preAllocatedBytes) (reaches_new _ _ rfl rfl)
  have synced := laid_changed extended .sync (reaches_sync extended.active)
  have names : (runCalls disk (w.persist .syncAll).1).created ++ [journalName (id + 1)] = [journalName (id + 1)] := by
    rw [persisted.created, List.nil_append]
  have counted : log.synced ≤ log.active.length := by
    rw [up.active, List.length_map]
    exact up.laid.active.syncedCount
  have settled : Laid deps (runCalls (runCalls disk (w.persist .syncAll).1)
      (BufferedWriter.createNew (journalName (id + 1)) ++ [.syncFolder])) _ _ _ (Operation.after log .rotate) [] :=
    ⟨synced.files, ⟨[], .nil, .refl _⟩, synced.sealedJournals, reaches_sync (reaches_new _ _ rfl rfl),
      ascending_sublist synced.ascending ((List.sublist_append_right _ _).map _)⟩
  refine ⟨?_, fun count => ?_⟩
  · change Agrees deps (.up (runCalls disk (w.rotate disk).1) (w.rotate disk).2) _
    rw [run, run_calls_append]
    exact .up _ _ _ _ _ [] ⟨settled, rfl, rfl, rfl, fun _ => rfl⟩
  · change CrashesAs deps (runCalls disk ((w.rotate disk).1.take count)) _
    rw [run, List.take_append, run_calls_append]
    have before : log ∈ Operation.stages log .rotate := by simp [Operation.stages]
    have switched : log.rotate ∈ Operation.stages log .rotate := by simp [Operation.stages]
    cases beyond : count - (w.persist .syncAll).1.length with
    | zero =>
      rw [List.take_zero]
      exact crashes_while_persisting up .syncAll before count
    | succ left =>
      rw [List.take_of_length_le (by omega)]
      -- The journal is created, extended and synced, and then the folder is.
      match left with
      | 0 => exact rotating_crashes created names counted before switched
      | 1 => exact rotating_crashes extended names counted before switched
      | 2 => exact rotating_crashes synced names counted before switched
      | more + 3 =>
        have all : (BufferedWriter.createNew (journalName (id + 1)) ++ [SysCall.syncFolder]).length ≤ more + 3 + 1 :=
          Nat.le_add_left 4 more
        rw [List.take_of_length_le all]
        exact crashes_as_stage settled rfl rfl (by simp [Operation.stages])

theorem carried (op : Operation) (allowed : op.Allowed deps w) : Carried deps disk w log op := by
  cases op with
  | write call seqno => exact carried_write up call seqno allowed
  | persist mode => exact carried_persist up mode
  | rotate => exact carried_rotate up allowed
  | evict => exact carried_evict up

end

end OmryaKv.Write
