import OmryaKv.Write.DurableLog

set_option autoImplicit false

namespace OmryaKv.Write

open Journal Lib

variable {deps : Dependencies}

-- Journals in ascending order of their numbers.
def Ascending (names : List FileName) : Prop :=
  ∃ ids : List Nat, names = ids.map journalName ∧ ids.Pairwise (· < ·) ∧ ∀ id ∈ ids, id < 2 ^ 64

theorem ascending_sublist {names fewer : List FileName} (ascending : Ascending names) (sub : fewer.Sublist names) :
    Ascending fewer := by
  obtain ⟨ids, rfl, ordered, bounded⟩ := ascending
  obtain ⟨some, less, rfl⟩ := List.sublist_map_iff.mp sub
  exact ⟨some, rfl, ordered.sublist less, fun id member => bounded id (less.subset member)⟩

theorem ascending_before {names : List FileName} (ascending : Ascending names) : names.Pairwise Before := by
  obtain ⟨ids, rfl, ordered, bounded⟩ := ascending
  rw [List.pairwise_map]
  refine ordered.imp_of_mem fun {a b} first second less => ?_
  exact ⟨a, b, journal_name_id a (bounded a first), journal_name_id b (bounded b second), less⟩

theorem ascending_nodup {names : List FileName} (ascending : Ascending names) : names.Nodup :=
  (ascending_before ascending).imp fun {a b} before => before_ne a b before

theorem ascending_is_journal {names : List FileName} (ascending : Ascending names) (name : FileName) (member : name ∈ names) :
    hasJournalExtension name = true ∧ (journalId name).isSome = true := by
  obtain ⟨ids, rfl, ordered, bounded⟩ := ascending
  obtain ⟨id, listed, rfl⟩ := List.mem_map.mp member
  refine ⟨journal_name_extension id, ?_⟩
  rw [journal_name_id id (bounded id listed)]
  rfl

-- The next number up is not taken.
theorem ascending_next {names : List FileName} {last : FileName} (ascending : Ascending (names ++ [last])) (id : Nat)
    (found : journalId last = some id) (room : id + 1 < 2 ^ 64) : Ascending (names ++ [last] ++ [journalName (id + 1)]) := by
  obtain ⟨ids, shape, ordered, bounded⟩ := ascending
  obtain ⟨front, back, rfl, rfl, single⟩ := List.map_eq_append_iff.mp shape.symm
  obtain ⟨highest, rfl, rfl⟩ := List.map_eq_singleton_iff.mp single
  have top : highest < 2 ^ 64 := bounded highest (by simp)
  have same : highest = id := by
    rw [journal_name_id highest top] at found
    exact Option.some.inj found
  subst same
  refine ⟨front ++ [highest] ++ [highest + 1], by simp, ?_, ?_⟩
  · refine List.pairwise_append.mpr ⟨ordered, List.pairwise_singleton _ _, ?_⟩
    intro earlier member next here
    rw [List.mem_singleton.mp here]
    rcases List.mem_append.mp member with old | current
    · have below := (List.pairwise_append.mp ordered).2.2 earlier old highest (by simp)
      omega
    · rw [List.mem_singleton.mp current]
      omega
  · intro other member
    rcases List.mem_append.mp member with old | new
    · exact bounded other old
    · rw [List.mem_singleton.mp new]
      exact room

-- A sealed journal: whole frames, all of them on the disk.
def Whole (deps : Dependencies) (file : FileName × DiskFile) (batches : List Batch) : Prop :=
  ∃ frames : List (Frame deps), file.2.data = framesBytes frames ∧ batches = frames.map Frame.batch ∧
    file.2.synced = file.2.data.length

theorem whole_torn (name : FileName) (before after : DiskFile) (batches : List Batch) (whole : Whole deps (name, before) batches)
    (torn : before.Torn after) : Whole deps (name, after) batches := by
  obtain ⟨frames, data, same, synced⟩ := whole
  obtain ⟨kept, reached, left⟩ := torn.data
  have unchanged : after.data = before.data := by
    rw [left]
    exact List.take_of_length_le (synced ▸ reached)
  exact ⟨frames, unchanged.trans data, same, torn.synced⟩

-- What the file of the active journal holds of the frames written to it: a prefix
-- that reaches as far as the log says.
structure Reaches (deps : Dependencies) (f : DiskFile) (log : DurableLog) (frames : List (Frame deps)) : Prop where
  data : f.data <+: framesBytes frames
  within : f.synced ≤ f.data.length
  flushed : (framesBytes (frames.take log.flushed)).length ≤ f.data.length
  synced : (framesBytes (frames.take log.synced)).length ≤ f.synced
  flushedCount : log.flushed ≤ frames.length
  syncedCount : log.synced ≤ frames.length

-- The journals on a disk in terms of the log.
structure Laid (deps : Dependencies) (disk : Disk FileName) (front : List (FileName × DiskFile)) (path : FileName) (f : DiskFile)
    (log : DurableLog) (frames : List (Frame deps)) : Prop where
  files : disk.files = front ++ [(path, f)]
  removed : ∃ gone, List.Forall₂ (Whole deps) disk.removed gone ∧ gone.Sublist log.removed
  sealedJournals : List.Forall₂ (Whole deps) front log.sealedJournals
  active : Reaches deps f log frames
  ascending : Ascending disk.names

variable {f g : DiskFile} {log : DurableLog} {frames : List (Frame deps)}

theorem reaches_written (reaches : Reaches deps f log frames) (more : List (Frame deps)) (bytes : Bytes)
    (next : f.data ++ bytes <+: framesBytes (frames ++ more)) :
    Reaches deps { f with data := f.data ++ bytes, padding := f.padding - bytes.length } log (frames ++ more) := by
  have longer : f.data.length ≤ (f.data ++ bytes).length := by
    rw [List.length_append]
    exact Nat.le_add_right _ _
  have counted : frames.length ≤ (frames ++ more).length := by
    rw [List.length_append]
    exact Nat.le_add_right _ _
  constructor
  · exact next
  · exact Nat.le_trans reaches.within longer
  · rw [List.take_append_of_le_length reaches.flushedCount]
    exact Nat.le_trans reaches.flushed longer
  · rw [List.take_append_of_le_length reaches.syncedCount]
    exact reaches.synced
  · exact Nat.le_trans reaches.flushedCount counted
  · exact Nat.le_trans reaches.syncedCount counted

theorem reaches_sync (reaches : Reaches deps f log frames) : Reaches deps f.sync log frames :=
  { reaches with
    within := Nat.le_refl _
    synced := Nat.le_trans reaches.synced reaches.within }

theorem reaches_new (log : DurableLog) (padding : Nat) (flushed : log.flushed = 0) (synced : log.synced = 0) :
    Reaches deps ⟨[], padding, 0⟩ log [] := by
  refine ⟨List.nil_prefix, Nat.le_refl _, ?_, ?_, ?_, ?_⟩
  · rw [List.take_nil]
    exact Nat.le_refl _
  · rw [List.take_nil]
    exact Nat.le_refl _
  · exact Nat.le_of_eq flushed
  · exact Nat.le_of_eq synced

-- The whole frames that a process finds, of which those that were synced stay synced.
theorem reaches_left (reaches : Reaches deps f log frames) (after : DurableLog)
    (flushed : after.flushed = wholeFrames frames f.data.length) (synced : after.synced = log.synced) :
    log.flushed ≤ wholeFrames frames f.data.length ∧ Reaches deps f after frames := by
  refine ⟨le_whole_frames frames _ _ reaches.flushedCount reaches.flushed, reaches.data, reaches.within, ?_, ?_, ?_, ?_⟩
  · rw [flushed]
    exact whole_frames_within frames _
  · rw [synced]
    exact reaches.synced
  · rw [flushed]
    exact whole_frames_le frames _
  · rw [synced]
    exact reaches.syncedCount

theorem reaches_torn (reaches : Reaches deps f log frames) (torn : f.Torn g) (after : DurableLog)
    (flushed : after.flushed = wholeFrames frames g.data.length)
    (synced : after.synced = wholeFrames frames g.data.length) :
    log.synced ≤ wholeFrames frames g.data.length ∧ Reaches deps g after frames := by
  obtain ⟨kept, reached, left⟩ := torn.data
  have within := whole_frames_within frames g.data.length
  have some : f.synced ≤ g.data.length := by
    rw [left, List.length_take]
    exact Nat.le_min.mpr ⟨reached, reaches.within⟩
  refine ⟨le_whole_frames frames _ _ reaches.syncedCount (Nat.le_trans reaches.synced some), ?_⟩
  constructor
  · rw [left]
    exact (List.take_prefix _ _).trans reaches.data
  · rw [torn.synced]
  · rw [flushed]
    exact within
  · rw [synced, torn.synced]
    exact within
  · rw [flushed]
    exact whole_frames_le frames _
  · rw [synced]
    exact whole_frames_le frames _

variable {disk : Disk FileName} {front : List (FileName × DiskFile)} {path : FileName}

theorem laid_distinct (laid : Laid deps disk front path f log frames) : (disk.files.map Prod.fst).Nodup := by
  have distinct := ascending_nodup laid.ascending
  rw [Disk.names, List.map_append] at distinct
  exact (List.nodup_append.mp distinct).2.1

theorem laid_active {after : DurableLog} {frames' : List (Frame deps)} (laid : Laid deps disk front path f log frames)
    (removed : after.removed = log.removed) (sealedJournals : after.sealedJournals = log.sealedJournals)
    (active : Reaches deps g after frames') : Laid deps { disk with files := front ++ [(path, g)] } front path g after frames' := by
  have ascending := laid.ascending
  rw [Disk.names, laid.files] at ascending
  refine ⟨rfl, removed ▸ laid.removed, sealedJournals ▸ laid.sealedJournals, active, ?_⟩
  rw [Disk.names]
  simpa using ascending

theorem laid_written (laid : Laid deps disk front path f log frames) (more : List (Frame deps)) (bytes : Bytes)
    (next : f.data ++ bytes <+: framesBytes (frames ++ more)) :
    Laid deps (runCalls disk (bytes.map (.write path))) front path
      { f with data := f.data ++ bytes, padding := f.padding - bytes.length } log (frames ++ more) := by
  rw [run_writes disk front path f bytes laid.files (laid_distinct laid)]
  exact laid_active laid rfl rfl (reaches_written laid.active more bytes next)

theorem laid_changed {frames' : List (Frame deps)} (laid : Laid deps disk front path f log frames)
    (change : DiskFile → DiskFile) (active : Reaches deps (change f) log frames') :
    Laid deps (disk.update path change) front path (change f) log frames' := by
  rw [update_at disk front [] path f change laid.files (laid_distinct laid)]
  exact laid_active laid rfl rfl active

end OmryaKv.Write
