import OmryaKv.Journal.Replay

set_option autoImplicit false

namespace OmryaKv.Journal

open Lib

variable (deps : Dependencies)

inductive WriteCall where
  | raw (item : BatchItem) (seqno : UInt64)
  | clear (keyspaceId seqno : UInt64)
  | batch (items : List BatchItem) (seqno : UInt64)
deriving DecidableEq

def WriteCall.run : WriteCall → WriterM Nat
  | .raw item seqno => writeRaw deps item.keyspaceId item.key item.value item.valueType seqno
  | .clear keyspaceId seqno => writeClear deps keyspaceId seqno
  | .batch items seqno => writeBatch deps items items.length seqno

-- What a call is meant to leave in the journal; write_batch skips an empty batch.
def WriteCall.batches : WriteCall → List Batch
  | .raw item seqno => [⟨seqno, [item], []⟩]
  | .clear keyspaceId seqno => [⟨seqno, [], [keyspaceId]⟩]
  | .batch [] _ => []
  | .batch (item :: items) seqno => [⟨seqno, item :: items, []⟩]

def BatchItem.Fits (compression : CompressionType) (threshold : Nat) (item : BatchItem) : Prop :=
  item.key.length ≤ 65535 ∧
    (storedValue deps item.value (chosenCompression compression threshold item.value)).length < 2 ^ 32

def WriteCall.Fits (compression : CompressionType) (threshold : Nat) : WriteCall → Prop
  | .raw item _ => item.Fits deps compression threshold
  | .clear _ _ => True
  | .batch items _ => items.length < 2 ^ 32 ∧ ∀ item ∈ items, item.Fits deps compression threshold

def writeCalls : List WriteCall → WriterM (List (Batch × Nat))
  | [] => return []
  | call :: calls => do
      let _ ← call.run deps
      let ended := (← get).file.length
      let later ← writeCalls calls
      return call.batches.map (fun batch => (batch, ended)) ++ later

variable {deps}
variable (compression : CompressionType)

theorem item_entry_in_body (threshold : Nat) (item : BatchItem)
    (fits : item.Fits deps compression threshold) : BodyEntry deps (itemEntry compression threshold item) :=
  .item _ _ _ _ _ ⟨Nat.lt_succ_of_le fits.1, fits.2⟩

theorem read_items_back (threshold : Nat) (items : List BatchItem) :
    (items.map (itemEntry compression threshold)).filterMap Entry.readItem = items ∧
      (items.map (itemEntry compression threshold)).filterMap Entry.readClear = [] := by
  induction items with
  | nil => exact ⟨rfl, rfl⟩
  | cons item items ih => exact ⟨congrArg (item :: ·) ih.1, ih.2⟩

theorem call_emits_frame (threshold : Nat) (call : WriteCall) (fits : call.Fits deps compression threshold) :
    (call.batches = [] ∧ ∀ w, (call.run deps).run w = .ok 0 w) ∨
      ∃ (f : Frame deps) (byteCount : Nat), call.batches = [f.batch] ∧ ∀ w : Writer, w.Settings compression threshold →
        Outcome deps compression threshold f.entries byteCount w ((call.run deps).run w) := by
  cases call with
  | raw item seqno =>
    have inBody := item_entry_in_body compression threshold item fits
    exact .inr ⟨⟨seqno, [itemEntry compression threshold item], by simpa using inBody, by simp⟩, _, rfl,
      write_raw_outcome item seqno⟩
  | clear keyspaceId seqno =>
    exact .inr ⟨⟨seqno, [.clear keyspaceId], by simpa using BodyEntry.clear keyspaceId, by simp⟩, _, rfl,
      write_clear_outcome keyspaceId seqno⟩
  | batch items seqno =>
    cases items with
    | nil => exact .inl ⟨rfl, fun _ => rfl⟩
    | cons item items =>
      have wellFormed : ∀ entry ∈ (item :: items).map (itemEntry compression threshold), BodyEntry deps entry := by
        intro entry member
        obtain ⟨original, listed, rfl⟩ := List.mem_map.mp member
        exact item_entry_in_body compression threshold original (fits.2 original listed)
      have back := read_items_back compression threshold (item :: items)
      refine .inr ⟨⟨seqno, (item :: items).map (itemEntry compression threshold), wellFormed, ?_⟩, _, ?_,
        write_batch_outcome (item :: items) seqno (List.cons_ne_nil item items)⟩
      · rw [List.length_map]
        exact fits.1
      · rw [Frame.batch, back.1, back.2]
        rfl

def placedBatches (placed : List (Frame deps × Nat)) : List (Batch × Nat) := placed.map fun f => (f.1.batch, f.2)

theorem write_calls_append_frames (threshold : Nat) (calls : List WriteCall)
    (fits : ∀ call ∈ calls, call.Fits deps compression threshold) (w : Writer) (settings : w.Settings compression threshold)
    (quiet : w.faults = []) :
    ∃ (frames : List (Frame deps)) (written : Writer),
      (writeCalls deps calls).run w = .ok (placedBatches (framesWithEnds w.file.length frames)) written ∧
      written.file = w.file ++ framesBytes frames ∧ frames.map Frame.batch = calls.flatMap WriteCall.batches := by
  induction calls generalizing w with
  | nil => exact ⟨[], w, rfl, (List.append_nil _).symm, rfl⟩
  | cons call calls ih =>
    have later := ih fun other member => fits other (List.mem_cons_of_mem _ member)
    rcases call_emits_frame compression threshold call (fits call List.mem_cons_self) with
      ⟨nothing, run⟩ | ⟨f, byteCount, one, outcome⟩
    · obtain ⟨frames, written, rest, appended, batches⟩ := later w settings quiet
      refine ⟨frames, written, ?_, appended, by rw [List.flatMap_cons, nothing, batches, List.nil_append]⟩
      simp only [writeCalls, EStateM.run_bind, run, EStateM.run_get, rest, nothing, List.map_nil, List.nil_append]
      rfl
    · rcases outcome w settings with ⟨next, run, file, kept, _, _, left⟩ | ⟨_, _, _, _, _, _, _, _, fault⟩
      · obtain ⟨frames, written, rest, appended, batches⟩ := later next kept (by rw [left, quiet, List.drop_nil])
        have length : next.file.length = w.file.length + f.bytes.length := by rw [file, List.length_append]; rfl
        refine ⟨f :: frames, written, ?_, ?_, by rw [List.map_cons, List.flatMap_cons, one, batches, List.singleton_append]⟩
        · simp only [writeCalls, EStateM.run_bind, run, EStateM.run_get, rest, one, length]
          rfl
        · rw [appended, file, List.append_assoc]
          rfl
      · rw [quiet] at fault
        simp at fault

variable (frames : List (Frame deps))

theorem kept_frames (pos cut : Nat) :
    ∃ count, (framesWithEnds pos frames).filter (·.2 ≤ pos + cut) = framesWithEnds pos (frames.take count) ∧
      (framesBytes (frames.take count)).length ≤ cut := by
  induction frames generalizing pos cut with
  | nil => exact ⟨0, rfl, Nat.zero_le _⟩
  | cons f frames ih =>
    by_cases torn : cut < f.bytes.length
    · refine ⟨0, ?_, Nat.zero_le _⟩
      rw [List.take_zero, framesWithEnds, List.filter_eq_nil_iff]
      intro placed member
      have bound : pos + f.bytes.length ≤ placed.2 := by
        rcases List.mem_cons.mp member with rfl | later
        · exact Nat.le_refl _
        · exact frame_ends_after frames _ placed later
      simp only [decide_eq_true_eq]
      omega
    · obtain ⟨count, kept, short⟩ := ih (pos + f.bytes.length) (cut - f.bytes.length)
      have same : pos + f.bytes.length + (cut - f.bytes.length) = pos + cut := by omega
      have whole : decide (pos + f.bytes.length ≤ pos + cut) = true := decide_eq_true (by omega)
      refine ⟨count + 1, ?_, ?_⟩
      · rw [framesWithEnds, List.filter_cons, if_pos whole, ← same, kept]
        rfl
      · rw [List.take_succ_cons, frames_bytes_length]
        omega

theorem last_frame_end (pos : Nat) :
    ((framesWithEnds pos frames).map (·.2)).getLastD pos = pos + (framesBytes frames).length := by
  induction frames generalizing pos with
  | nil => rfl
  | cons f frames ih =>
    rw [framesWithEnds, List.map_cons, List.getLastD_cons, ih, frames_bytes_length, Nat.add_assoc]

theorem frames_batches (pos : Nat) : (framesWithEnds pos frames).map (·.1.batch) = frames.map Frame.batch := by
  induction frames generalizing pos with
  | nil => rfl
  | cons f frames ih => rw [framesWithEnds, List.map_cons, List.map_cons, ih]

theorem frame_ends_within (pos : Nat) : ∀ placed ∈ framesWithEnds pos frames, placed.2 ≤ pos + (framesBytes frames).length := by
  induction frames generalizing pos with
  | nil => simp [framesWithEnds]
  | cons f frames ih =>
    intro placed member
    rw [frames_bytes_length]
    rcases List.mem_cons.mp member with rfl | later
    · omega
    · have bound := ih _ placed later
      omega

theorem recover_whole_frames :
    recoverJournal deps (framesBytes frames) = ⟨frames.map Frame.batch, none, framesBytes frames⟩ := by
  have here : (framesBytes frames).drop 0 = (framesBytes frames).take (framesBytes frames).length ++ List.replicate 0 0 := by
    simp
  have all : (framesWithEnds 0 frames).filter (·.2 ≤ 0 + (framesBytes frames).length) = framesWithEnds 0 frames := by
    rw [List.filter_eq_self]
    intro placed member
    exact decide_eq_true (frame_ends_within frames 0 placed member)
  have read := read_all_torn_frames frames (framesBytes frames) 0 0 (Nat.zero_le _) _ 0 here
  rw [all, frames_batches, last_frame_end, Nat.zero_add, List.take_length] at read
  exact read

theorem recover_cut_frames (cut padding : Nat) :
    ∃ count, (framesWithEnds 0 frames).filter (·.2 ≤ cut) = framesWithEnds 0 (frames.take count) ∧
      (framesBytes frames).take (framesBytes (frames.take count)).length = framesBytes (frames.take count) ∧
      recoverJournal deps ((framesBytes frames).take cut ++ List.replicate padding 0) =
        ⟨(frames.take count).map Frame.batch, none, framesBytes (frames.take count)⟩ := by
  obtain ⟨count, kept, short⟩ := kept_frames frames 0 cut
  have split : framesBytes frames = framesBytes (frames.take count) ++ framesBytes (frames.drop count) := by
    rw [← frames_bytes_append, List.take_append_drop]
  have whole : (framesBytes frames).take (framesBytes (frames.take count)).length = framesBytes (frames.take count) := by
    rw [split, List.take_left]
  refine ⟨count, by rw [← kept, Nat.zero_add], whole, ?_⟩
  have read := read_all_torn_frames frames ((framesBytes frames).take cut ++ List.replicate padding 0) 0 0 (Nat.zero_le _) cut
    padding rfl
  rw [kept, frames_batches, last_frame_end, Nat.zero_add] at read
  have inside : (framesBytes (frames.take count)).length ≤ ((framesBytes frames).take cut).length := by
    rw [List.length_take, split, List.length_append]
    omega
  rw [List.take_append_of_le_length inside, List.take_take, Nat.min_eq_left short, whole] at read
  exact read

-- The whole journal contract: what survives a cut, what the file is cut to, and
-- that a writer appending to it afterwards is read back behind what survived.
theorem torn_tail_discarded (compression : CompressionType) (threshold : Nat) (calls : List WriteCall)
    (fits : ∀ call ∈ calls, call.Fits deps compression threshold) (p padding : Nat) :
    ∃ ends written, (writeCalls deps calls).run (.new [] compression threshold) = .ok ends written ∧
      ends.map (·.1) = calls.flatMap WriteCall.batches ∧
      recoverJournal deps (written.file.take p ++ List.replicate padding 0) =
        ⟨(ends.filter (·.2 ≤ p)).map (·.1), none, written.file.take (((ends.filter (·.2 ≤ p)).map (·.2)).getLastD 0)⟩ ∧
      ∀ (compression' : CompressionType) (threshold' : Nat) (more : List WriteCall),
        (∀ call ∈ more, call.Fits deps compression' threshold') →
        ∃ moreEnds appended, (writeCalls deps more).run
            (.new (written.file.take (((ends.filter (·.2 ≤ p)).map (·.2)).getLastD 0)) compression' threshold') =
              .ok moreEnds appended ∧
          recoverJournal deps appended.file =
            ⟨(ends.filter (·.2 ≤ p)).map (·.1) ++ more.flatMap WriteCall.batches, none, appended.file⟩ := by
  obtain ⟨frames, written, run, file, batches⟩ :=
    write_calls_append_frames compression threshold calls fits (.new [] compression threshold) ⟨rfl, rfl⟩ rfl
  obtain ⟨count, kept, whole, read⟩ := recover_cut_frames frames p padding
  rw [Writer.new, List.nil_append] at file
  have surviving : (placedBatches (framesWithEnds 0 frames)).filter (·.2 ≤ p) =
      placedBatches (framesWithEnds 0 (frames.take count)) := by
    rw [placedBatches, List.filter_map, placedBatches, ← kept]
    rfl
  have first (some : List (Frame deps)) : (placedBatches (framesWithEnds 0 some)).map (·.1) = some.map Frame.batch := by
    rw [placedBatches, List.map_map, ← frames_batches some 0]
    rfl
  have last : ((placedBatches (framesWithEnds 0 (frames.take count))).map (·.2)).getLastD 0 =
      (framesBytes (frames.take count)).length := by
    rw [placedBatches, List.map_map]
    exact (last_frame_end _ 0).trans (Nat.zero_add _)
  refine ⟨placedBatches (framesWithEnds 0 frames), written, run, (first frames).trans batches, ?_, ?_⟩
  · rw [surviving, first, last, file, read, whole]
  · intro compression' threshold' more moreFits
    rw [surviving, first, last, file, whole]
    obtain ⟨moreFrames, appended, moreRun, moreFile, moreBatches⟩ := write_calls_append_frames compression' threshold' more
      moreFits (.new (framesBytes (frames.take count)) compression' threshold') ⟨rfl, rfl⟩ rfl
    refine ⟨_, appended, moreRun, ?_⟩
    have joined : appended.file = framesBytes (frames.take count ++ moreFrames) := by
      rw [moreFile, frames_bytes_append]
      rfl
    rw [joined, recover_whole_frames, List.map_append, moreBatches]

def sampleItem : BatchItem := ⟨1, [0x61], ⟨[0x78, 0x79], by decide⟩, .value⟩

theorem torn_clear_discarded :
    ∃ written, (writeCalls .sample [.raw sampleItem 7, .clear 1 8]).run (.new [] .lz4 1) =
        .ok [(⟨7, [sampleItem], []⟩, 51), (⟨8, [], [1]⟩, 86)] written ∧
      recoverJournal .sample (written.file.take 70 ++ List.replicate 9 0) =
        ⟨[⟨7, [sampleItem], []⟩], none, written.file.take 51⟩ := by
  have fits : ∀ call ∈ [WriteCall.raw sampleItem 7, .clear 1 8], call.Fits .sample .lz4 1 := by
    simp [WriteCall.Fits, BatchItem.Fits, sampleItem, storedValue, chosenCompression, Dependencies.sample]
  obtain ⟨ends, written, run, _, read, _⟩ := torn_tail_discarded .lz4 1 _ fits 70 9
  have noted : ends = [(⟨7, [sampleItem], []⟩, 51), (⟨8, [], [1]⟩, 86)] := by
    injection run with same
    exact same.symm
  subst noted
  exact ⟨written, run, read⟩

end OmryaKv.Journal
