import OmryaKv.Journal.Reader

set_option autoImplicit false

namespace OmryaKv.Journal

open Lib

variable (deps : Dependencies)

def Entry.readItem : Entry → Option BatchItem
  | .item keyspaceId key value valueType _ => some ⟨keyspaceId, key, value, valueType⟩
  | _ => none

def Entry.readClear : Entry → Option UInt64
  | .clear keyspaceId => some keyspaceId
  | _ => none

-- An entry that can stand between the start and the end of a batch and that
-- survives its own encoding.
inductive BodyEntry : Entry → Prop where
  | item (keyspaceId : UInt64) (key : UserKey) (value : UserValue) (valueType : ValueType) (compression : CompressionType)
      (fits : (Entry.item keyspaceId key value valueType compression).Fits deps) :
      BodyEntry (.item keyspaceId key value valueType compression)
  | clear (keyspaceId : UInt64) : BodyEntry (.clear keyspaceId)

structure Frame where
  seqno : UInt64
  body : List Entry
  wellFormed : ∀ entry ∈ body, BodyEntry deps entry
  counted : body.length < 2 ^ 32

variable {deps}

def Frame.entries (f : Frame deps) : List Entry := frame deps f.seqno f.body

def Frame.bytes (f : Frame deps) : Bytes := encodeAll deps f.entries

def Frame.batch (f : Frame deps) : Batch := ⟨f.seqno, f.body.filterMap Entry.readItem, f.body.filterMap Entry.readClear⟩

theorem body_entry_fits (entry : Entry) (inBody : BodyEntry deps entry) : entry.Fits deps := by
  cases inBody with
  | item keyspaceId key value valueType compression fits => exact fits
  | clear keyspaceId => trivial

def Entry.InBody : Entry → Prop
  | .item _ _ _ _ _ => True
  | .clear _ => True
  | _ => False

theorem body_entry_in_body (entry : Entry) (inBody : BodyEntry deps entry) : entry.InBody := by
  cases inBody <;> trivial

def resting (file : Bytes) (pos : Nat) (seqno : UInt64) : JournalBatchReader :=
  ⟨⟨file, pos, pos⟩, [], [], false, 0, seqno, pos, []⟩

def within (deps : Dependencies) (file : Bytes) (pos start : Nat) (seqno : UInt64) (read : List Entry) (remaining : Nat) :
    JournalBatchReader :=
  ⟨⟨file, pos, pos⟩, read.filterMap Entry.readItem, read.filterMap Entry.readClear, true, remaining, seqno, start,
    encodeAll deps read⟩

theorem drop_entry (file front tail : Bytes) (pos : Nat) (here : file.drop pos = front ++ tail) :
    file.drop (pos + front.length) = tail := by
  rw [← List.drop_drop, here, List.drop_left]

variable (file : Bytes)

-- The lemmas about decoded entries hold for every encoding that the decoder
-- accepts; the ones after them are about the encoding the writer chooses.
theorem reader_next_decoded (pos valid : Nat) (used : Bytes) (entry : Entry) (tail : Bytes)
    (decodes : Decodes (Entry.decodeFrom deps) used entry) (here : file.drop pos = used ++ tail) :
    (⟨file, pos, valid⟩ : JournalReader).next deps = (some entry, ⟨file, pos + used.length, pos + used.length⟩) := by
  have decoded := decodes tail
  simp only [JournalReader.next, JournalReader.unread, here, decoded, List.length_append, Nat.add_sub_cancel]

variable (pos start : Nat)

theorem next_decoded_body (seqno : UInt64) (read : List Entry) (remaining : Nat) (used : Bytes) (entry : Entry) (tail : Bytes)
    (inBody : entry.InBody)
    (decodes : Decodes (Entry.decodeFrom deps) used entry) (here : file.drop pos = used ++ tail) :
    (within deps file pos start seqno read (remaining + 1)).next deps =
      (within deps file (pos + used.length) start seqno (read ++ [entry]) remaining).next deps := by
  have found := reader_next_decoded file pos pos used entry tail decodes here
  rw [JournalBatchReader.next_eq, within, found]
  simp only [within, List.filterMap_append, encodeAll, List.flatMap_append, List.flatMap_singleton]
  cases entry with
  | start itemCount seqno => cases inBody
  | endMarker checksum => cases inBody
  | item keyspaceId key value valueType compression =>
    simp [JournalBatchReader.advance, List.filterMap_cons, Entry.readItem, Entry.readClear]
  | clear keyspaceId => simp [JournalBatchReader.advance, List.filterMap_cons, Entry.readItem, Entry.readClear]

theorem next_decoded_start (pos : Nat) (leftover seqno : UInt64) (itemCount : UInt32) (used tail : Bytes)
    (decodes : Decodes (Entry.decodeFrom deps) used (.start itemCount seqno)) (here : file.drop pos = used ++ tail) :
    (resting file pos leftover).next deps = (within deps file (pos + used.length) pos seqno [] itemCount.toNat).next deps := by
  rw [JournalBatchReader.next_eq, resting, reader_next_decoded file pos pos used _ tail decodes here]
  rfl

theorem next_decoded_end (seqno : UInt64) (read : List Entry) (used tail : Bytes)
    (decodes : Decodes (Entry.decodeFrom deps) used (.endMarker (deps.xxh3 (encodeAll deps read))))
    (here : file.drop pos = used ++ tail) :
    (within deps file pos start seqno read 0).next deps =
      (some (.ok ⟨seqno, read.filterMap Entry.readItem, read.filterMap Entry.readClear⟩),
        resting file (pos + used.length) seqno) := by
  rw [JournalBatchReader.next_eq, within, reader_next_decoded file pos pos used _ tail decodes here]
  simp [JournalBatchReader.advance, resting]

theorem next_body_entry (seqno : UInt64) (read : List Entry) (remaining : Nat) (entry : Entry) (tail : Bytes)
    (inBody : BodyEntry deps entry) (here : file.drop pos = entry.encodeInto deps ++ tail) :
    (within deps file pos start seqno read (remaining + 1)).next deps =
      (within deps file (pos + (entry.encodeInto deps).length) start seqno (read ++ [entry]) remaining).next deps :=
  next_decoded_body file pos start seqno read remaining _ entry tail (body_entry_in_body entry inBody)
    (decodes_encoded deps entry (body_entry_fits entry inBody)) here

theorem next_start_entry (pos : Nat) (leftover seqno : UInt64) (itemCount : UInt32) (tail : Bytes)
    (here : file.drop pos = (Entry.start itemCount seqno).encodeInto deps ++ tail) :
    (resting file pos leftover).next deps =
      (within deps file (pos + ((Entry.start itemCount seqno).encodeInto deps).length) pos seqno [] itemCount.toNat).next deps :=
  next_decoded_start file pos leftover seqno itemCount _ tail (decodes_encoded deps _ trivial) here

theorem next_end_entry (seqno : UInt64) (read : List Entry) (tail : Bytes)
    (here : file.drop pos = (Entry.endMarker (deps.xxh3 (encodeAll deps read))).encodeInto deps ++ tail) :
    (within deps file pos start seqno read 0).next deps =
      (some (.ok ⟨seqno, read.filterMap Entry.readItem, read.filterMap Entry.readClear⟩),
        resting file (pos + ((Entry.endMarker (deps.xxh3 (encodeAll deps read))).encodeInto deps).length) seqno) :=
  next_decoded_end file pos start seqno read _ tail (decodes_encoded deps _ trivial) here

-- Induction on what is left of the body; read is what came before it.
theorem next_body (seqno : UInt64) (read body : List Entry) (tail : Bytes) (wellFormed : ∀ entry ∈ body, BodyEntry deps entry)
    (here : file.drop pos =
      encodeAll deps (body ++ [.endMarker (deps.xxh3 (encodeAll deps (read ++ body)))]) ++ tail) :
    (within deps file pos start seqno read body.length).next deps =
      (some (.ok ⟨seqno, (read ++ body).filterMap Entry.readItem, (read ++ body).filterMap Entry.readClear⟩),
        resting file (pos + (encodeAll deps (body ++ [.endMarker (deps.xxh3 (encodeAll deps (read ++ body)))])).length) seqno) := by
  induction body generalizing pos read with
  | nil =>
    simp only [List.nil_append, List.append_nil, encodeAll, List.flatMap_singleton] at here ⊢
    exact next_end_entry file pos start seqno read tail here
  | cons entry body ih =>
    have split : encodeAll deps (entry :: body ++ [.endMarker (deps.xxh3 (encodeAll deps (read ++ entry :: body)))]) =
        entry.encodeInto deps ++
          encodeAll deps (body ++ [.endMarker (deps.xxh3 (encodeAll deps (read ++ [entry] ++ body)))]) := by
      rw [List.append_assoc, List.singleton_append]
      rfl
    rw [split, List.append_assoc] at here
    have rest := ih (pos + (entry.encodeInto deps).length) (read ++ [entry])
      (fun other member => wellFormed other (List.mem_cons_of_mem _ member)) (drop_entry file _ _ pos here)
    rw [List.length_cons, next_body_entry file pos start seqno read body.length entry _ (wellFormed entry List.mem_cons_self) here,
      rest, split, List.length_append, List.append_assoc, List.singleton_append, Nat.add_assoc]

theorem next_frame (f : Frame deps) (file : Bytes) (pos : Nat) (leftover : UInt64) (tail : Bytes)
    (here : file.drop pos = f.bytes ++ tail) :
    (resting file pos leftover).next deps = (some (.ok f.batch), resting file (pos + f.bytes.length) f.seqno) := by
  have split : f.bytes = (Entry.start (UInt32.ofNat f.body.length) f.seqno).encodeInto deps ++
      encodeAll deps (f.body ++ [.endMarker (deps.xxh3 (encodeAll deps ([] ++ f.body)))]) := rfl
  have counted : (UInt32.ofNat f.body.length).toNat = f.body.length := UInt32.toNat_ofNat_of_lt f.counted
  rw [split, List.append_assoc] at here
  rw [next_start_entry file pos leftover f.seqno _ _ here, counted,
    next_body file _ pos f.seqno [] f.body tail f.wellFormed (drop_entry file _ _ pos here), split, List.length_append,
    Nat.add_assoc]
  rfl

structure Aligned (r : JournalBatchReader) : Prop where
  atEntry : r.reader.lastValidPos = r.reader.pos
  inFile : r.reader.pos ≤ r.reader.file.length
  batchBefore : r.lastValidPos ≤ r.reader.pos
  outside : r.isInBatch = false → r.lastValidPos = r.reader.pos

theorem set_len_shorter (length : Nat) (shorter : length ≤ file.length) : setLen file length = file.take length := by
  rw [setLen, Nat.sub_eq_zero_of_le shorter, List.replicate_zero, List.append_nil]

def Ends (deps : Dependencies) (r : JournalBatchReader) : Prop :=
  ∃ after, r.next deps = (none, after) ∧ after.reader.file = r.reader.file.take r.lastValidPos

variable (r : JournalBatchReader)

theorem ends_refused (aligned : Aligned r) (e : DecodeError) (rest : Bytes)
    (refused : (Entry.decodeFrom deps).run r.reader.unread = .error e rest) : Ends deps r := by
  obtain ⟨reader, read, file⟩ : ∃ reader, r.reader.next deps = (none, reader) ∧
      reader.file = r.reader.file.take r.reader.pos := by
    refine ⟨_, by rw [JournalReader.next, refused], ?_⟩
    rw [JournalReader.maybeTruncateFileToLastValidPos]
    split
    · rw [aligned.atEntry]
      exact set_len_shorter _ _ aligned.inFile
    · next still =>
        have consumed := (framed_decode deps).refused _ e rest refused
        have empty := refused_in_place deps _ rest e refused (by rw [aligned.atEntry] at still; dsimp only at still; omega)
        exact (List.take_of_length_le (List.drop_eq_nil_iff.mp empty)).symm
  refine ⟨_, by rw [JournalBatchReader.next_eq, read], ?_⟩
  rw [JournalBatchReader.onClose]
  split
  · have shorter : r.lastValidPos ≤ reader.file.length := by
      rw [file, List.length_take]
      exact Nat.le_min.mpr ⟨aligned.batchBefore, aligned.batchBefore.trans aligned.inFile⟩
    change setLen reader.file r.lastValidPos = _
    rw [set_len_shorter _ _ shorter, file, List.take_take, Nat.min_eq_left aligned.batchBefore]
  · next outside =>
      change reader.file = _
      rw [file, aligned.outside (Bool.eq_false_iff.mpr outside)]

theorem ends_padding (aligned : Aligned r) (padding : Nat)
    (here : r.reader.unread = List.replicate padding 0) : Ends deps r := by
  obtain ⟨e, rest, refused⟩ := padding_refused deps padding
  exact ends_refused r aligned e rest (here ▸ refused)

theorem reader_next_ok (r : JournalReader) (inFile : r.pos ≤ r.file.length) (entry : Entry) (rest : Bytes)
    (read : (Entry.decodeFrom deps).run r.unread = .ok entry rest) :
    ∃ pos, r.next deps = (some entry, ⟨r.file, pos, pos⟩) ∧ r.file.drop pos = rest ∧ r.pos ≤ pos ∧ pos ≤ r.file.length := by
  obtain ⟨used, split, _⟩ := (framed_decode deps).accepted _ entry rest read
  have total : r.file.length - r.pos = used.length + rest.length := by
    rw [← List.length_drop, ← List.length_append]
    exact congrArg List.length split
  refine ⟨r.pos + used.length, ?_, drop_entry r.file used rest r.pos split, by omega, by omega⟩
  simp only [JournalReader.next, read]
  rw [split, List.length_append, Nat.add_sub_cancel]

theorem ends_again (r after : JournalBatchReader) (reader : JournalReader) (entry : Entry)
    (read : r.reader.next deps = (some entry, reader)) (sameFile : reader.file = r.reader.file)
    (moved : ({ r with reader := reader } : JournalBatchReader).advance deps entry = .again after)
    (sameBase : after.lastValidPos = r.lastValidPos) (ends : Ends deps after) : Ends deps r := by
  obtain ⟨last, finished, file⟩ := ends
  have kept := JournalBatchReader.advance_reader deps { r with reader := reader } entry
  rw [moved] at kept
  refine ⟨last, ?_, by rw [file, sameBase, kept, sameFile]⟩
  rw [JournalBatchReader.next_eq, read]
  dsimp only
  rw [moved]
  exact finished

theorem ends_stop (r after : JournalBatchReader) (aligned : Aligned r) (reader : JournalReader) (entry : Entry)
    (read : r.reader.next deps = (some entry, reader)) (sameFile : reader.file = r.reader.file)
    (moved : ({ r with reader := reader } : JournalBatchReader).advance deps entry = .stop after) : Ends deps r := by
  have truncated := JournalBatchReader.advance_reader deps { r with reader := reader } entry
  rw [moved] at truncated
  refine ⟨after, ?_, ?_⟩
  · rw [JournalBatchReader.next_eq, read]
    dsimp only
    rw [moved]
  · rw [truncated]
    change setLen reader.file r.lastValidPos = _
    rw [sameFile, set_len_shorter _ _ (aligned.batchBefore.trans aligned.inFile)]

theorem advance_not_end (room : r.isInBatch = true → r.batchCounter ≠ 0) (entry : Entry) (other : ¬ entry.IsEnd) :
    (∃ after, r.advance deps entry = .stop after) ∨
      ∃ after, r.advance deps entry = .again after ∧ after.isInBatch = true ∧ after.lastValidPos = r.lastValidPos := by
  by_cases inside : r.isInBatch = true
  · have spare := room inside
    cases entry with
    | endMarker checksum => exact absurd trivial other
    | start itemCount seqno => exact .inl ⟨_, if_pos inside⟩
    | item keyspaceId key value valueType compression =>
      simp only [JournalBatchReader.advance, inside, spare, not_true, if_false]
      exact .inr ⟨_, rfl, rfl, rfl⟩
    | clear keyspaceId =>
      simp only [JournalBatchReader.advance, inside, spare, not_true, if_false]
      exact .inr ⟨_, rfl, rfl, rfl⟩
  · cases entry with
    | endMarker checksum => exact absurd trivial other
    | start itemCount seqno => exact .inr ⟨_, if_neg inside, rfl, rfl⟩
    | item keyspaceId key value valueType compression => exact .inl ⟨_, if_pos inside⟩
    | clear keyspaceId => exact .inl ⟨_, if_pos inside⟩

theorem ends_torn_entry (aligned : Aligned r) (room : r.isInBatch = true → r.batchCounter ≠ 0) (entry : Entry)
    (fits : entry.Fits deps) (other : ¬ entry.IsEnd) (cut padding : Nat)
    (short : cut < (entry.encodeInto deps).length)
    (here : r.reader.unread = (entry.encodeInto deps).take cut ++ List.replicate padding 0) : Ends deps r := by
  cases outcome : (Entry.decodeFrom deps).run r.reader.unread with
  | error e rest => exact ends_refused r aligned e rest outcome
  | ok torn rest =>
    have notEnd : ¬ torn.IsEnd := torn_entry_not_end deps entry torn other cut padding rest (here ▸ outcome)
    obtain ⟨left, _, padded⟩ := torn_leaves_padding _ (framed_decode deps) _ entry (decodes_encoded deps entry fits)
      cut padding 0 short torn rest (here ▸ outcome)
    obtain ⟨pos, read, dropped, advanced, inFile⟩ := reader_next_ok r.reader aligned.inFile torn rest outcome
    rcases advance_not_end { r with reader := ⟨r.reader.file, pos, pos⟩ } room torn notEnd with
      ⟨after, moved⟩ | ⟨after, moved, inside, base⟩
    · exact ends_stop r after aligned _ torn read rfl moved
    · have reader := JournalBatchReader.advance_reader deps { r with reader := ⟨r.reader.file, pos, pos⟩ } torn
      rw [moved] at reader
      dsimp only at reader base
      refine ends_again r after _ torn read rfl moved base (ends_padding after ⟨?_, ?_, ?_, ?_⟩ left ?_)
      · rw [reader]
      · rw [reader]
        exact inFile
      · rw [reader, base]
        exact aligned.batchBefore.trans advanced
      · intro outside
        rw [inside] at outside
        cases outside
      · rw [reader, JournalReader.unread, dropped, padded]

theorem within_aligned (seqno : UInt64) (read : List Entry) (remaining : Nat) (before : start ≤ pos)
    (inFile : pos ≤ file.length) : Aligned (within deps file pos start seqno read remaining) :=
  ⟨rfl, inFile, before, fun outside => by cases outside⟩

theorem resting_aligned (pos : Nat) (seqno : UInt64) (inFile : pos ≤ file.length) : Aligned (resting file pos seqno) :=
  ⟨rfl, inFile, Nat.le_refl _, fun _ => rfl⟩

theorem ends_torn_body (seqno : UInt64) (read body : List Entry) (checksum : UInt64)
    (wellFormed : ∀ entry ∈ body, BodyEntry deps entry) (before : start ≤ pos) (inFile : pos ≤ file.length) (cut padding : Nat)
    (short : cut < (encodeAll deps (body ++ [.endMarker checksum])).length)
    (here : file.drop pos = (encodeAll deps (body ++ [.endMarker checksum])).take cut ++ List.replicate padding 0) :
    Ends deps (within deps file pos start seqno read body.length) := by
  induction body generalizing pos read cut with
  | nil =>
    simp only [List.nil_append, encodeAll, List.flatMap_singleton] at short here
    obtain ⟨e, rest, refused⟩ := torn_end_refused deps checksum cut padding short
    rw [← here] at refused
    exact ends_refused _ (within_aligned file pos start seqno read 0 before inFile) e rest refused
  | cons entry body ih =>
    have inBody := wellFormed entry List.mem_cons_self
    have split : encodeAll deps (entry :: body ++ [.endMarker checksum]) =
        entry.encodeInto deps ++ encodeAll deps (body ++ [.endMarker checksum]) := rfl
    rw [split, List.length_append] at short
    rw [split] at here
    by_cases torn : cut < (entry.encodeInto deps).length
    · rw [List.take_append_of_le_length (Nat.le_of_lt torn)] at here
      have notEnd : ¬ entry.IsEnd := by cases inBody <;> exact id
      exact ends_torn_entry _ (within_aligned file pos start seqno read _ before inFile) (fun _ => Nat.succ_ne_zero _) entry
        (body_entry_fits entry inBody) notEnd cut padding torn here
    · rw [List.take_append, List.take_of_length_le (Nat.le_of_not_lt torn), List.append_assoc] at here
      have moved := drop_entry file _ _ pos here
      have stillInFile : pos + (entry.encodeInto deps).length ≤ file.length := by
        have total := congrArg List.length here
        rw [List.length_drop, List.length_append] at total
        omega
      obtain ⟨after, finished, truncated⟩ := ih (pos + (entry.encodeInto deps).length) (read ++ [entry])
        (fun other member => wellFormed other (List.mem_cons_of_mem _ member)) (by omega) stillInFile
        (cut - (entry.encodeInto deps).length) (by omega) moved
      exact ⟨after, (next_body_entry file pos start seqno read body.length entry _ inBody here).trans finished, truncated⟩

theorem ends_torn_frame (f : Frame deps) (file : Bytes) (pos : Nat) (leftover : UInt64) (inFile : pos ≤ file.length)
    (cut padding : Nat) (short : cut < f.bytes.length)
    (here : file.drop pos = f.bytes.take cut ++ List.replicate padding 0) : Ends deps (resting file pos leftover) := by
  have split : f.bytes = (Entry.start (UInt32.ofNat f.body.length) f.seqno).encodeInto deps ++
      encodeAll deps (f.body ++ [.endMarker (deps.xxh3 (encodeAll deps f.body))]) := rfl
  have counted : (UInt32.ofNat f.body.length).toNat = f.body.length := UInt32.toNat_ofNat_of_lt f.counted
  rw [split] at here
  rw [split, List.length_append] at short
  by_cases torn : cut < ((Entry.start (UInt32.ofNat f.body.length) f.seqno).encodeInto deps).length
  · rw [List.take_append_of_le_length (Nat.le_of_lt torn)] at here
    exact ends_torn_entry _ (resting_aligned file pos leftover inFile) (fun inside => by cases inside)
      (.start _ f.seqno) trivial id cut padding torn here
  · rw [List.take_append, List.take_of_length_le (Nat.le_of_not_lt torn), List.append_assoc] at here
    have moved := drop_entry file _ _ pos here
    have stillInFile : pos + ((Entry.start (UInt32.ofNat f.body.length) f.seqno).encodeInto deps).length ≤ file.length := by
      have total := congrArg List.length here
      rw [List.length_drop, List.length_append] at total
      omega
    obtain ⟨after, finished, truncated⟩ := ends_torn_body file _ pos f.seqno [] f.body _ f.wellFormed (Nat.le_add_right _ _)
      stillInFile _ padding (by omega) moved
    refine ⟨after, ?_, truncated⟩
    rw [next_start_entry file pos leftover f.seqno _ _ here, counted]
    exact finished

theorem read_all_ends (ends : Ends deps r) : readAll deps r = ⟨[], none, r.reader.file.take r.lastValidPos⟩ := by
  obtain ⟨after, finished, truncated⟩ := ends
  rw [read_all_eq, finished]
  dsimp only
  rw [truncated]

theorem read_all_frame (f : Frame deps) (file : Bytes) (pos : Nat) (leftover : UInt64) (tail : Bytes)
    (here : file.drop pos = f.bytes ++ tail) :
    readAll deps (resting file pos leftover) =
      { readAll deps (resting file (pos + f.bytes.length) f.seqno) with
        batches := f.batch :: (readAll deps (resting file (pos + f.bytes.length) f.seqno)).batches } := by
  rw [read_all_eq, next_frame f file pos leftover tail here]

def framesWithEnds : Nat → List (Frame deps) → List (Frame deps × Nat)
  | _, [] => []
  | pos, f :: frames => (f, pos + f.bytes.length) :: framesWithEnds (pos + f.bytes.length) frames

def framesBytes (frames : List (Frame deps)) : Bytes := frames.flatMap Frame.bytes

theorem frames_bytes_length (f : Frame deps) (frames : List (Frame deps)) :
    (framesBytes (f :: frames)).length = f.bytes.length + (framesBytes frames).length := by
  rw [framesBytes, List.flatMap_cons, List.length_append]
  rfl

theorem frames_bytes_append (front back : List (Frame deps)) :
    framesBytes (front ++ back) = framesBytes front ++ framesBytes back := List.flatMap_append

variable (frames : List (Frame deps))

theorem read_all_frames (file : Bytes) (pos : Nat) (leftover : UInt64) (tail : Bytes)
    (here : file.drop pos = framesBytes frames ++ tail)
    (ends : ∀ seqno, Ends deps (resting file (pos + (framesBytes frames).length) seqno)) :
    readAll deps (resting file pos leftover) =
      ⟨frames.map Frame.batch, none, file.take (pos + (framesBytes frames).length)⟩ := by
  induction frames generalizing pos leftover with
  | nil => exact read_all_ends _ (ends leftover)
  | cons f frames ih =>
    rw [frames_bytes_length, ← Nat.add_assoc] at ends ⊢
    have split : framesBytes (f :: frames) ++ tail = f.bytes ++ (framesBytes frames ++ tail) := List.append_assoc _ _ _
    rw [split] at here
    rw [read_all_frame f file pos leftover _ here, ih _ f.seqno (drop_entry file _ _ pos here) ends]
    rfl

theorem frame_ends_after (pos : Nat) : ∀ placed ∈ framesWithEnds pos frames, pos ≤ placed.2 := by
  induction frames generalizing pos with
  | nil => simp [framesWithEnds]
  | cons f frames ih =>
    intro placed member
    rcases List.mem_cons.mp member with rfl | later
    · exact Nat.le_add_right _ _
    · have bound := ih _ placed later
      omega

-- The induction is on the frames; whole frames are read, and the first torn one
-- ends the reading with everything from it on cut off.
theorem read_all_torn_frames (file : Bytes) (pos : Nat) (leftover : UInt64) (inFile : pos ≤ file.length) (cut padding : Nat)
    (here : file.drop pos = (framesBytes frames).take cut ++ List.replicate padding 0) :
    readAll deps (resting file pos leftover) =
      ⟨((framesWithEnds pos frames).filter (·.2 ≤ pos + cut)).map (·.1.batch), none,
        file.take ((((framesWithEnds pos frames).filter (·.2 ≤ pos + cut)).map (·.2)).getLastD pos)⟩ := by
  induction frames generalizing pos leftover cut with
  | nil =>
    rw [framesBytes, List.flatMap_nil, List.take_nil, List.nil_append] at here
    exact read_all_ends _ (ends_padding _ (resting_aligned file pos leftover inFile) padding here)
  | cons f frames ih =>
    have split : framesBytes (f :: frames) = f.bytes ++ framesBytes frames := rfl
    rw [split] at here
    by_cases torn : cut < f.bytes.length
    · rw [List.take_append_of_le_length (Nat.le_of_lt torn)] at here
      have none : (framesWithEnds pos (f :: frames)).filter (·.2 ≤ pos + cut) = [] := by
        rw [List.filter_eq_nil_iff]
        intro placed member
        rcases List.mem_cons.mp member with rfl | later
        · simp only [decide_eq_true_eq]
          omega
        · have bound := frame_ends_after frames _ placed later
          simp only [decide_eq_true_eq]
          omega
      rw [read_all_ends _ (ends_torn_frame f file pos leftover inFile cut padding torn here), none]
      rfl
    · rw [List.take_append, List.take_of_length_le (Nat.le_of_not_lt torn), List.append_assoc] at here
      have stillInFile : pos + f.bytes.length ≤ file.length := by
        have total := congrArg List.length here
        rw [List.length_drop, List.length_append] at total
        omega
      have rest := ih (pos + f.bytes.length) f.seqno stillInFile (cut - f.bytes.length) (drop_entry file _ _ pos here)
      have same : pos + f.bytes.length + (cut - f.bytes.length) = pos + cut := by omega
      have kept : decide (pos + f.bytes.length ≤ pos + cut) = true := decide_eq_true (by omega)
      rw [read_all_frame f file pos leftover _ here, rest, same, framesWithEnds, List.filter_cons, if_pos kept]
      simp only [List.map_cons, List.getLastD_cons]

end OmryaKv.Journal
