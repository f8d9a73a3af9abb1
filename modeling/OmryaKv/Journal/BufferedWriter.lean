import OmryaKv.Journal.Folder
import OmryaKv.Journal.TornTail
import OmryaKv.Lib.Disk

set_option autoImplicit false

namespace OmryaKv.Journal

open Lib

def preAllocatedBytes : Nat := 64 * 1024 * 1024

def journalBufferBytes : Nat := 8 * 1024

-- The writer as far as it decides when bytes leave the process. Its file is the one
-- at path on a disk.
structure BufferedWriter where
  path : FileName
  buf : Bytes
  isBufferDirty : Bool
  compression : CompressionType
  compressionThreshold : Nat
deriving DecidableEq

-- write_all of a BufWriter: what it passes on to the file, and what it then holds.
def bufferAll (buf bytes : Bytes) : Bytes × Bytes :=
  let spare := journalBufferBytes - buf.length
  if bytes.length < spare then ([], buf ++ bytes)
  else
    let (out, buf) := if spare < bytes.length then (buf, []) else ([], buf)
    if journalBufferBytes ≤ bytes.length then (out ++ bytes, buf) else (out, buf ++ bytes)

def bufferEach (buf : Bytes) : List Bytes → Bytes × Bytes
  | [] => ([], buf)
  | bytes :: rest =>
    let (out, buf) := bufferAll buf bytes
    let (later, buf) := bufferEach buf rest
    (out ++ later, buf)

namespace BufferedWriter

def new (path : FileName) (compression : CompressionType) (compressionThreshold : Nat) : BufferedWriter :=
  ⟨path, [], false, compression, compressionThreshold⟩

def toFile (w : BufferedWriter) (bytes : Bytes) : List (SysCall FileName) := bytes.map (.write w.path)

-- Each piece is one call of write_all.
def write (w : BufferedWriter) (pieces : List Bytes) : List (SysCall FileName) × BufferedWriter :=
  let (out, buf) := bufferEach w.buf pieces
  (w.toFile out, { w with buf := buf, isBufferDirty := true })

def flush (w : BufferedWriter) : List (SysCall FileName) × BufferedWriter :=
  if w.isBufferDirty then (w.toFile w.buf, { w with buf := [], isBufferDirty := false }) else ([], w)

def persist (w : BufferedWriter) (mode : PersistMode) : List (SysCall FileName) × BufferedWriter :=
  let (calls, w) := w.flush
  match mode with
  | .buffer => (calls, w)
  | .syncData => (calls ++ [.sync w.path], w)
  | .syncAll => (calls ++ [.sync w.path], w)

def createNew (path : FileName) : List (SysCall FileName) := [.create path, .extend path preAllocatedBytes, .sync path]

-- The old writer is dropped when the new one takes its place, and dropping a BufWriter
-- writes out what it still holds.
def rotate (disk : Disk FileName) (w : BufferedWriter) : List (SysCall FileName) × BufferedWriter :=
  let (calls, w) := w.persist .syncAll
  match journalId w.path with
  | none => (calls, w)
  | some id =>
    let path := journalName ((id + 1) % 2 ^ 64)
    if disk.files.any (fun file => file.1 = path) then (calls, w)
    else (calls ++ createNew path ++ w.toFile w.buf ++ [.syncFolder], new path w.compression w.compressionThreshold)

end BufferedWriter

variable (deps : Dependencies)

inductive OpenError where
  | folder (e : FolderError)
  | journal (e : JournalRecoveryError)
deriving DecidableEq

-- found and kept are the lengths of the file before and after it was read.
structure ReadJournal where
  path : FileName
  batches : List Batch
  found : Nat
  kept : Nat

def readJournal (folder : Folder UInt8) (path : FileName) : Except OpenError ReadJournal :=
  let file := (folder.lookup path).getD []
  let read := recoverJournal deps file
  match read.error with
  | some e => .error (.journal e)
  | none => .ok ⟨path, read.batches, file.length, read.file.length⟩

def readJournals (folder : Folder UInt8) : List FileName → Except OpenError (List ReadJournal)
  | [] => .ok []
  | path :: paths => do
      let read ← readJournal deps folder path
      let rest ← readJournals folder paths
      return read :: rest

-- The sealed journals are read from the oldest on, and then the active one.
def openJournals (folder : Folder UInt8) : Except OpenError (FileName × List ReadJournal) := do
  let result ← (recoverJournals folder).mapError .folder
  let reads ← readJournals deps folder (result.sealedJournals.map Prod.snd ++ [result.active])
  return (result.active, reads)

-- The active journal is synced before anything is read, and a reader cuts its file
-- where what it can use ends.
def openCalls (active : FileName) (reads : List ReadJournal) : List (SysCall FileName) :=
  .sync active :: reads.flatMap fun read => if read.kept < read.found then [.truncate read.path read.kept] else []

theorem buffer_all_keeps (buf bytes : Bytes) : (bufferAll buf bytes).1 ++ (bufferAll buf bytes).2 = buf ++ bytes := by
  unfold bufferAll
  by_cases fits : bytes.length < journalBufferBytes - buf.length
  · simp only [fits, if_true, List.nil_append]
  · by_cases tight : journalBufferBytes - buf.length < bytes.length
    · by_cases large : journalBufferBytes ≤ bytes.length
      · simp only [fits, tight, large, if_true, if_false, List.append_nil]
      · simp only [fits, tight, large, if_true, if_false, List.nil_append]
    · by_cases large : journalBufferBytes ≤ bytes.length
      · -- Then the bytes fill the whole buffer, and it was empty.
        have empty : buf = [] := by
          rw [journalBufferBytes] at fits tight large
          exact List.length_eq_zero_iff.mp (by omega)
        simp only [fits, tight, large, if_true, if_false, List.nil_append]
        rw [empty, List.append_nil, List.nil_append]
      · simp only [fits, tight, large, if_false, List.nil_append]

theorem buffer_each_keeps (buf : Bytes) (pieces : List Bytes) :
    (bufferEach buf pieces).1 ++ (bufferEach buf pieces).2 = buf ++ pieces.flatten := by
  induction pieces generalizing buf with
  | nil =>
    rw [List.flatten_nil, List.append_nil]
    rfl
  | cons bytes rest ih =>
    rw [bufferEach, List.append_assoc, ih, ← List.append_assoc, buffer_all_keeps, List.append_assoc, List.flatten_cons]

section Whole

variable {deps}

-- How many frames lie within the first so many bytes.
def wholeFrames (frames : List (Frame deps)) (cut : Nat) : Nat := ((framesWithEnds 0 frames).filter (·.2 ≤ cut)).length

variable (frames : List (Frame deps))

theorem frames_with_ends_length (pos : Nat) : (framesWithEnds pos frames).length = frames.length := by
  induction frames generalizing pos with
  | nil => rfl
  | cons f frames ih => rw [framesWithEnds, List.length_cons, ih, List.length_cons]

theorem frames_with_ends_append (front back : List (Frame deps)) (pos : Nat) :
    framesWithEnds pos (front ++ back) = framesWithEnds pos front ++ framesWithEnds (pos + (framesBytes front).length) back := by
  induction front generalizing pos with
  | nil => rfl
  | cons f front ih =>
    rw [List.cons_append, framesWithEnds, ih, framesWithEnds, frames_bytes_length, List.cons_append, Nat.add_assoc]

theorem whole_frames_le (cut : Nat) : wholeFrames frames cut ≤ frames.length := by
  rw [wholeFrames, ← frames_with_ends_length frames 0]
  exact List.length_filter_le _ _

theorem whole_frames_within (cut : Nat) : (framesBytes (frames.take (wholeFrames frames cut))).length ≤ cut := by
  obtain ⟨count, kept, short⟩ := kept_frames frames 0 cut
  rw [Nat.zero_add] at kept
  rw [wholeFrames, kept, frames_with_ends_length, List.length_take, ← List.take_take]
  rwa [List.take_length]

theorem le_whole_frames (cut count : Nat) (counted : count ≤ frames.length)
    (within : (framesBytes (frames.take count)).length ≤ cut) : count ≤ wholeFrames frames cut := by
  have split := frames_with_ends_append (frames.take count) (frames.drop count) 0
  have all : (framesWithEnds 0 (frames.take count)).filter (·.2 ≤ cut) = framesWithEnds 0 (frames.take count) := by
    rw [List.filter_eq_self]
    intro placed member
    have bound := frame_ends_within (frames.take count) 0 placed member
    exact decide_eq_true (by omega)
  rw [List.take_append_drop] at split
  rw [wholeFrames, split, List.filter_append, all, List.length_append, frames_with_ends_length, List.length_take]
  omega

theorem whole_frames_mono {cut more : Nat} (longer : cut ≤ more) : wholeFrames frames cut ≤ wholeFrames frames more :=
  le_whole_frames frames more _ (whole_frames_le frames cut) (Nat.le_trans (whole_frames_within frames cut) longer)

end Whole

end OmryaKv.Journal
