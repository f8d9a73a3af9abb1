import OmryaKv.Journal.Writer

set_option autoImplicit false

namespace OmryaKv.Journal

open Lib

variable (deps : Dependencies)

def setLen (file : Bytes) (length : Nat) : Bytes := file.take length ++ List.replicate (length - file.length) 0

structure JournalReader where
  file : Bytes
  pos : Nat
  lastValidPos : Nat
deriving DecidableEq

namespace JournalReader

def new (file : Bytes) : JournalReader := ⟨file, 0, 0⟩

def unread (r : JournalReader) : Bytes := r.file.drop r.pos

def truncateFile (r : JournalReader) (pos : Nat) : JournalReader := { r with file := setLen r.file pos }

def maybeTruncateFileToLastValidPos (r : JournalReader) : JournalReader :=
  if r.lastValidPos < r.pos then r.truncateFile r.lastValidPos else r

-- The end of the file and every other decoding error end the iteration alike.
def next (r : JournalReader) : Option Entry × JournalReader :=
  match (Entry.decodeFrom deps).run r.unread with
  | .ok entry rest =>
    let pos := r.pos + (r.unread.length - rest.length)
    (some entry, { r with pos := pos, lastValidPos := pos })
  | .error _ rest =>
    let pos := r.pos + (r.unread.length - rest.length)
    (none, ({ r with pos := pos } : JournalReader).maybeTruncateFileToLastValidPos)

theorem next_shrinks (r after : JournalReader) (entry : Entry) (read : r.next deps = (some entry, after)) :
    after.unread.length < r.unread.length := by
  unfold next at read
  split at read
  · next decoded rest outcome =>
      cases read
      have consumed := decode_consumes deps _ _ _ outcome
      simp only [unread, List.length_drop] at consumed ⊢
      omega
  · cases read

end JournalReader

structure Batch where
  seqno : UInt64
  items : List BatchItem
  clearedKeyspaces : List UInt64
deriving DecidableEq

inductive JournalRecoveryError where
  | insufficientLength
  | tooManyItems
  | checksumMismatch
deriving DecidableEq

-- hashed is what the checksum builder has been fed since it was last reset.
structure JournalBatchReader where
  reader : JournalReader
  items : List BatchItem
  clearedKeyspaces : List UInt64
  isInBatch : Bool
  batchCounter : Nat
  batchSeqno : UInt64
  lastValidPos : Nat
  hashed : Bytes
deriving DecidableEq

-- What the loop body of JournalBatchReader::next does with one entry.
inductive Advance where
  | again (r : JournalBatchReader)
  | emit (result : Except JournalRecoveryError Batch) (r : JournalBatchReader)
  | stop (r : JournalBatchReader)

namespace JournalBatchReader

def new (reader : JournalReader) : JournalBatchReader := ⟨reader, [], [], false, 0, 0, 0, []⟩

def truncateTo (r : JournalBatchReader) (lastValidPos : Nat) : JournalBatchReader :=
  { r with reader := r.reader.truncateFile lastValidPos }

def onClose (r : JournalBatchReader) : JournalBatchReader :=
  if r.isInBatch then r.truncateTo r.lastValidPos else r

def advance (r : JournalBatchReader) : Entry → Advance
  | .start itemCount seqno =>
    if r.isInBatch then .stop (r.truncateTo r.lastValidPos)
    else .again { r with isInBatch := true, batchCounter := itemCount.toNat, batchSeqno := seqno }
  | .endMarker expectedChecksum =>
    if 0 < r.batchCounter then .emit (.error .insufficientLength) r
    else if ¬ r.isInBatch then .stop (r.truncateTo r.lastValidPos)
    else if deps.xxh3 r.hashed ≠ expectedChecksum then .emit (.error .checksumMismatch) { r with hashed := [] }
    else .emit (.ok ⟨r.batchSeqno, r.items, r.clearedKeyspaces⟩)
      { r with
        isInBatch := false, batchCounter := 0, lastValidPos := r.reader.lastValidPos
        items := [], clearedKeyspaces := [], hashed := [] }
  | .item keyspaceId key value valueType compression =>
    let r := { r with hashed := r.hashed ++ (Entry.item keyspaceId key value valueType compression).encodeInto deps }
    if ¬ r.isInBatch then .stop (r.truncateTo r.lastValidPos)
    else if r.batchCounter = 0 then .emit (.error .tooManyItems) r
    else .again { r with
      batchCounter := r.batchCounter - 1, items := r.items ++ [⟨keyspaceId, key, value, valueType⟩] }
  | .clear keyspaceId =>
    let r := { r with hashed := r.hashed ++ (Entry.clear keyspaceId).encodeInto deps }
    if ¬ r.isInBatch then .stop (r.truncateTo r.lastValidPos)
    else if r.batchCounter = 0 then .emit (.error .tooManyItems) r
    else .again { r with
      batchCounter := r.batchCounter - 1, clearedKeyspaces := r.clearedKeyspaces ++ [keyspaceId] }

theorem advance_reader (r : JournalBatchReader) (entry : Entry) :
    match r.advance deps entry with
    | .again after => after.reader = r.reader
    | .emit _ after => after.reader = r.reader
    | .stop after => after = { after with reader := r.reader.truncateFile r.lastValidPos } := by
  cases entry with
  | start itemCount seqno =>
    rw [advance]
    by_cases inside : r.isInBatch = true
    · rw [if_pos inside]
      rfl
    · rw [if_neg inside]
  | endMarker expectedChecksum =>
    rw [advance]
    by_cases missing : 0 < r.batchCounter
    · rw [if_pos missing]
    · rw [if_neg missing]
      by_cases outside : ¬ r.isInBatch = true
      · rw [if_pos outside]
        rfl
      · rw [if_neg outside]
        by_cases differs : deps.xxh3 r.hashed ≠ expectedChecksum
        · rw [if_pos differs]
        · rw [if_neg differs]
  | item keyspaceId key value valueType compression =>
    simp only [advance]
    by_cases outside : ¬ r.isInBatch = true
    · rw [if_pos outside]
      rfl
    · rw [if_neg outside]
      by_cases full : r.batchCounter = 0
      · rw [if_pos full]
      · rw [if_neg full]
  | clear keyspaceId =>
    simp only [advance]
    by_cases outside : ¬ r.isInBatch = true
    · rw [if_pos outside]
      rfl
    · rw [if_neg outside]
      by_cases full : r.batchCounter = 0
      · rw [if_pos full]
      · rw [if_neg full]

def next (r : JournalBatchReader) : Option (Except JournalRecoveryError Batch) × JournalBatchReader :=
  match _read : r.reader.next deps with
  | (none, reader) => (none, ({ r with reader := reader } : JournalBatchReader).onClose)
  | (some entry, reader) =>
    match _moved : ({ r with reader := reader } : JournalBatchReader).advance deps entry with
    | .again after => after.next
    | .emit result after => (some result, after)
    | .stop after => (none, after)
termination_by r.reader.unread.length
decreasing_by
  have kept := advance_reader deps { r with reader := reader } entry
  rw [_moved] at kept
  rw [kept]
  exact JournalReader.next_shrinks deps r.reader reader entry _read

theorem next_eq (r : JournalBatchReader) :
    r.next deps = match r.reader.next deps with
      | (none, reader) => (none, ({ r with reader := reader } : JournalBatchReader).onClose)
      | (some entry, reader) =>
        match ({ r with reader := reader } : JournalBatchReader).advance deps entry with
        | .again after => after.next deps
        | .emit result after => (some result, after)
        | .stop after => (none, after) := by
  rw [next]
  split
  · next read => rw [read]
  · next entry reader read =>
      rw [read]
      dsimp only
      split <;> next moved => rw [moved]

theorem next_shrinks (r after : JournalBatchReader) (result : Except JournalRecoveryError Batch)
    (read : r.next deps = (some result, after)) : after.reader.unread.length < r.reader.unread.length := by
  induction r using next.induct deps with
  | case1 r reader ended =>
    rw [next_eq, ended] at read
    cases read
  | case2 r entry reader found between moved ih =>
    have kept := advance_reader deps { r with reader := reader } entry
    rw [moved] at kept
    rw [next_eq, found] at read
    dsimp only at read
    rw [moved] at read
    have rest := ih read
    rw [kept] at rest
    exact Nat.lt_trans rest (JournalReader.next_shrinks deps r.reader reader entry found)
  | case3 r entry reader found emitted last moved =>
    have kept := advance_reader deps { r with reader := reader } entry
    rw [moved] at kept
    rw [next_eq, found] at read
    dsimp only at read
    rw [moved] at read
    cases read
    rw [kept]
    exact JournalReader.next_shrinks deps r.reader reader entry found
  | case4 r entry reader found last moved =>
    rw [next_eq, found] at read
    dsimp only at read
    rw [moved] at read
    cases read

end JournalBatchReader

structure Recovered where
  batches : List Batch
  error : Option JournalRecoveryError
  file : Bytes
deriving DecidableEq

def readAll (r : JournalBatchReader) : Recovered :=
  match _read : r.next deps with
  | (none, after) => ⟨[], none, after.reader.file⟩
  | (some (.error e), after) => ⟨[], some e, after.reader.file⟩
  | (some (.ok batch), after) =>
    let rest := readAll after
    { rest with batches := batch :: rest.batches }
termination_by r.reader.unread.length
decreasing_by exact JournalBatchReader.next_shrinks deps r after _ _read

theorem read_all_eq (r : JournalBatchReader) :
    readAll deps r = match r.next deps with
      | (none, after) => ⟨[], none, after.reader.file⟩
      | (some (.error e), after) => ⟨[], some e, after.reader.file⟩
      | (some (.ok batch), after) =>
        { readAll deps after with batches := batch :: (readAll deps after).batches } := by
  rw [readAll]
  split <;> next read => rw [read]

def recoverJournal (file : Bytes) : Recovered := readAll deps (.new (.new file))

end OmryaKv.Journal
