import OmryaKv.Journal.Replay

set_option autoImplicit false

namespace OmryaKv.Journal

open Lib

section

variable (deps : Dependencies)

-- What the decoder finds in the bytes, entry after entry. Any bytes that decode
-- count, not only those the writer would have chosen.
inductive Spells : Bytes → List Entry → Prop where
  | done : Spells [] []
  | more (used rest : Bytes) (entry : Entry) (entries : List Entry) (decodes : Decodes (Entry.decodeFrom deps) used entry)
      (later : Spells rest entries) : Spells (used ++ rest) (entry :: entries)

inductive HoldsBatch : Bytes → Batch → Prop where
  | complete (bytes : Bytes) (itemCount : UInt32) (seqno : UInt64) (body : List Entry)
      (counted : itemCount.toNat = body.length) (inBody : ∀ entry ∈ body, entry.InBody)
      (spelled : Spells deps bytes (.start itemCount seqno :: (body ++ [.endMarker (deps.xxh3 (encodeAll deps body))]))) :
      HoldsBatch bytes ⟨seqno, body.filterMap Entry.readItem, body.filterMap Entry.readClear⟩

-- Batches back to back, nothing before, between or behind them.
inductive HoldsBatches : Bytes → List Batch → Prop where
  | none : HoldsBatches [] []
  | more (first rest : Bytes) (batch : Batch) (batches : List Batch) (holds : HoldsBatch deps first batch)
      (later : HoldsBatches rest batches) : HoldsBatches (first ++ rest) (batch :: batches)

end

variable {deps : Dependencies}

theorem spells_encoded (entries : List Entry) (fits : ∀ entry ∈ entries, entry.Fits deps) :
    Spells deps (encodeAll deps entries) entries := by
  induction entries with
  | nil => exact .done
  | cons entry entries ih =>
    rw [encode_all_cons]
    exact .more _ _ entry entries (decodes_encoded deps entry (fits entry List.mem_cons_self))
      (ih fun other member => fits other (List.mem_cons_of_mem _ member))

theorem frame_holds (f : Frame deps) : HoldsBatch deps f.bytes f.batch := by
  refine .complete f.bytes (UInt32.ofNat f.body.length) f.seqno f.body (UInt32.toNat_ofNat_of_lt f.counted)
    (fun entry member => body_entry_in_body entry (f.wellFormed entry member)) (spells_encoded f.entries ?_)
  intro entry member
  rcases List.mem_cons.mp member with rfl | later
  · trivial
  · rcases List.mem_append.mp later with inBody | last
    · exact body_entry_fits entry (f.wellFormed entry inBody)
    · rw [List.mem_singleton.mp last]
      trivial

theorem frames_hold (frames : List (Frame deps)) : HoldsBatches deps (framesBytes frames) (frames.map Frame.batch) := by
  induction frames with
  | nil => exact .none
  | cons f frames ih => exact .more f.bytes (framesBytes frames) f.batch _ (frame_holds f) ih

variable (file : Bytes)

theorem next_spelled_body (pos start : Nat) (seqno : UInt64) (read body : List Entry) (used tail : Bytes)
    (inBody : ∀ entry ∈ body, entry.InBody)
    (spelled : Spells deps used (body ++ [.endMarker (deps.xxh3 (encodeAll deps (read ++ body)))]))
    (here : file.drop pos = used ++ tail) :
    (within deps file pos start seqno read body.length).next deps =
      (some (.ok ⟨seqno, (read ++ body).filterMap Entry.readItem, (read ++ body).filterMap Entry.readClear⟩),
        resting file (pos + used.length) seqno) := by
  induction body generalizing pos read used with
  | nil =>
    rw [List.append_nil] at spelled ⊢
    cases spelled with
    | more used rest entry entries decodes later =>
      cases later
      rw [List.append_nil] at here ⊢
      exact next_decoded_end file pos start seqno read used tail decodes here
  | cons entry body ih =>
    rw [List.append_cons read entry body] at spelled ⊢
    cases spelled with
    | more used rest entry entries decodes later =>
      rw [List.append_assoc] at here
      rw [List.length_cons, next_decoded_body file pos start seqno read body.length used entry (rest ++ tail)
        (inBody entry List.mem_cons_self) decodes here]
      rw [ih (pos + used.length) (read ++ [entry]) rest (fun other member => inBody other (List.mem_cons_of_mem _ member))
        later (drop_entry file used _ pos here), List.length_append, Nat.add_assoc]

theorem next_batch (pos : Nat) (leftover : UInt64) (bytes : Bytes) (batch : Batch) (tail : Bytes)
    (holds : HoldsBatch deps bytes batch) (here : file.drop pos = bytes ++ tail) :
    (resting file pos leftover).next deps = (some (.ok batch), resting file (pos + bytes.length) batch.seqno) := by
  cases holds with
  | complete itemCount seqno body counted inBody spelled =>
    cases spelled with
    | more used rest entry entries decodes later =>
      rw [List.append_assoc] at here
      rw [next_decoded_start file pos leftover seqno itemCount used _ decodes here, counted]
      rw [next_spelled_body file (pos + used.length) pos seqno [] body rest tail inBody later
        (drop_entry file used _ pos here), List.length_append, Nat.add_assoc]
      rfl

theorem read_all_batches (bytes : Bytes) (batches : List Batch) (holds : HoldsBatches deps bytes batches) (file : Bytes)
    (pos : Nat) (leftover : UInt64) (tail : Bytes) (here : file.drop pos = bytes ++ tail)
    (ends : ∀ seqno, Ends deps (resting file (pos + bytes.length) seqno)) :
    readAll deps (resting file pos leftover) = ⟨batches, none, file.take (pos + bytes.length)⟩ := by
  induction holds generalizing pos leftover with
  | none => exact read_all_ends _ (ends leftover)
  | more first rest batch batches holds later ih =>
    rw [List.append_assoc] at here
    rw [List.length_append, ← Nat.add_assoc] at ends ⊢
    rw [read_all_eq, next_batch file pos leftover first batch _ holds here]
    dsimp only
    rw [ih (pos + first.length) batch.seqno (drop_entry file first _ pos here) ends]

theorem ends_at_end (seqno : UInt64) : Ends deps (resting file file.length seqno) :=
  ends_padding _ (resting_aligned file file.length seqno (Nat.le_refl _)) 0 List.drop_length

theorem recover_batches (bytes : Bytes) (batches : List Batch) (holds : HoldsBatches deps bytes batches) :
    recoverJournal deps bytes = ⟨batches, none, bytes⟩ := by
  have whole := read_all_batches bytes batches holds bytes 0 0 [] (List.append_nil bytes).symm (fun seqno => by
    rw [Nat.zero_add]
    exact ends_at_end bytes seqno)
  rw [Nat.zero_add, List.take_length] at whole
  exact whole

def Refuses (deps : Dependencies) (r : JournalBatchReader) : Prop :=
  ∃ e after, r.next deps = (some (.error e), after) ∧ after.reader.file = r.reader.file

theorem refuses_emit (r after : JournalBatchReader) (reader : JournalReader) (entry : Entry) (e : JournalRecoveryError)
    (read : r.reader.next deps = (some entry, reader)) (sameFile : reader.file = r.reader.file)
    (moved : ({ r with reader := reader } : JournalBatchReader).advance deps entry = .emit (.error e) after) : Refuses deps r := by
  have kept := JournalBatchReader.advance_reader deps { r with reader := reader } entry
  rw [moved] at kept
  refine ⟨e, after, ?_, by rw [kept, sameFile]⟩
  rw [JournalBatchReader.next_eq, read]
  dsimp only
  rw [moved]

variable (deps)

-- What the reader does at any position of the file: either it stops there, or
-- the next bytes decode to an entry and it stands behind them.
theorem decoded_or_ends (pos : Nat) (r : JournalBatchReader) (standing : r.reader = ⟨file, pos, pos⟩) (aligned : Aligned r)
    (inFile : pos ≤ file.length) :
    Ends deps r ∨ ∃ used rest entry, file.drop pos = used ++ rest ∧ Decodes (Entry.decodeFrom deps) used entry ∧
      r.reader.next deps = (some entry, ⟨file, pos + used.length, pos + used.length⟩) ∧ pos + used.length ≤ file.length := by
  have unread : r.reader.unread = file.drop pos := by rw [standing]; rfl
  cases outcome : (Entry.decodeFrom deps).run (file.drop pos) with
  | error e rest => exact .inl (ends_refused r aligned e rest (unread ▸ outcome))
  | ok entry rest =>
    obtain ⟨used, split, decodes⟩ := (framed_decode deps).accepted _ entry rest outcome
    have total := congrArg List.length split
    rw [List.length_drop, List.length_append] at total
    refine .inr ⟨used, rest, entry, split, decodes, ?_, by omega⟩
    rw [standing]
    exact reader_next_decoded file pos pos used entry rest decodes split

-- Every way through the body of a batch: it is cut off, refused, or complete.
theorem within_outcome (pos start : Nat) (seqno : UInt64) (read : List Entry) (remaining : Nat) (before : start ≤ pos)
    (inFile : pos ≤ file.length) :
    Ends deps (within deps file pos start seqno read remaining) ∨
      Refuses deps (within deps file pos start seqno read remaining) ∨
      ∃ used tail body, file.drop pos = used ++ tail ∧ body.length = remaining ∧ (∀ entry ∈ body, entry.InBody) ∧
        Spells deps used (body ++ [.endMarker (deps.xxh3 (encodeAll deps (read ++ body)))]) := by
  induction remaining generalizing pos read with
  | zero =>
    have aligned : Aligned (within deps file pos start seqno read 0) :=
      within_aligned file pos start seqno read 0 before inFile
    rcases decoded_or_ends deps file pos _ rfl aligned inFile with ends | ⟨used, rest, entry, split, decodes, found, _⟩
    · exact .inl ends
    · cases entry with
      | start itemCount other => exact .inl (ends_stop _ _ aligned _ _ found rfl rfl)
      | item keyspaceId key value valueType compression =>
        exact .inr (.inl (refuses_emit _ _ _ _ .tooManyItems found rfl rfl))
      | clear keyspaceId =>
        exact .inr (.inl (refuses_emit _ _ _ _ .tooManyItems found rfl rfl))
      | endMarker checksum =>
        by_cases matching : deps.xxh3 (encodeAll deps read) = checksum
        · subst matching
          refine .inr (.inr ⟨used, rest, [], split, rfl, by simp, ?_⟩)
          rw [List.append_nil, ← List.append_nil used]
          exact .more used [] _ [] decodes .done
        · exact .inr (.inl (refuses_emit _ _ _ _ .checksumMismatch found rfl (if_pos matching)))
  | succ remaining ih =>
    have aligned : Aligned (within deps file pos start seqno read (remaining + 1)) :=
      within_aligned file pos start seqno read (remaining + 1) before inFile
    rcases decoded_or_ends deps file pos _ rfl aligned inFile with
      ends | ⟨used, rest, entry, split, decodes, found, stillInFile⟩
    · exact .inl ends
    · by_cases inBody : entry.InBody
      · have moved := next_decoded_body file pos start seqno read remaining used entry rest inBody decodes split
        rcases ih (pos + used.length) (read ++ [entry]) (by omega) stillInFile with
          ⟨after, finished, truncated⟩ | ⟨e, after, refused, kept⟩ | ⟨more, tail, body, behind, length, allBody, spelled⟩
        · exact .inl ⟨after, moved.trans finished, truncated⟩
        · exact .inr (.inl ⟨e, after, moved.trans refused, kept⟩)
        · rw [drop_entry file used rest pos split] at behind
          rw [List.append_assoc, List.singleton_append] at spelled
          exact .inr (.inr ⟨used ++ more, tail, entry :: body, by rw [split, behind, List.append_assoc],
            congrArg Nat.succ length, List.forall_mem_cons.mpr ⟨inBody, allBody⟩, .more used more entry _ decodes spelled⟩)
      · cases entry with
        | start itemCount other => exact .inl (ends_stop _ _ aligned _ _ found rfl rfl)
        | item keyspaceId key value valueType compression => exact absurd trivial inBody
        | clear keyspaceId => exact absurd trivial inBody
        | endMarker checksum =>
          exact .inr (.inl (refuses_emit _ _ _ _ .insufficientLength found rfl rfl))

theorem resting_outcome (pos : Nat) (leftover : UInt64) (inFile : pos ≤ file.length) :
    Ends deps (resting file pos leftover) ∨ Refuses deps (resting file pos leftover) ∨
      ∃ bytes tail batch, file.drop pos = bytes ++ tail ∧ HoldsBatch deps bytes batch := by
  have aligned := resting_aligned file pos leftover inFile
  rcases decoded_or_ends deps file pos _ rfl aligned inFile with
    ends | ⟨used, rest, entry, split, decodes, found, stillInFile⟩
  · exact .inl ends
  · cases entry with
    | endMarker checksum => exact .inl (ends_stop _ _ aligned _ _ found rfl rfl)
    | item keyspaceId key value valueType compression => exact .inl (ends_stop _ _ aligned _ _ found rfl rfl)
    | clear keyspaceId => exact .inl (ends_stop _ _ aligned _ _ found rfl rfl)
    | start itemCount seqno =>
      have moved := next_decoded_start file pos leftover seqno itemCount used rest decodes split
      rcases within_outcome deps file (pos + used.length) pos seqno [] itemCount.toNat (by omega) stillInFile with
        ⟨after, finished, truncated⟩ | ⟨e, after, refused, kept⟩ | ⟨more, tail, body, behind, length, allBody, spelled⟩
      · exact .inl ⟨after, moved.trans finished, truncated⟩
      · exact .inr (.inl ⟨e, after, moved.trans refused, kept⟩)
      · rw [drop_entry file used rest pos split] at behind
        exact .inr (.inr ⟨used ++ more, tail, _, by rw [split, behind, List.append_assoc],
          .complete _ itemCount seqno body length.symm allBody (.more used more _ _ decodes spelled)⟩)

variable {deps} in
theorem batch_nonempty (bytes : Bytes) (batch : Batch) (holds : HoldsBatch deps bytes batch) : 0 < bytes.length := by
  cases holds with
  | complete itemCount seqno body counted inBody spelled =>
    cases spelled with
    | more used rest entry entries decodes later =>
      have consumed := decode_consumes deps used [] _ (by simpa using decodes [])
      rw [List.length_append]
      exact Nat.lt_of_lt_of_le consumed (Nat.le_add_right _ _)

-- Induction on what is left of the file: each batch that is read makes it shorter.
theorem read_all_outcome (pos : Nat) (leftover : UInt64) (inFile : pos ≤ file.length) :
    ∃ kept tail batches, file.drop pos = kept ++ tail ∧ HoldsBatches deps kept batches ∧
      (readAll deps (resting file pos leftover) = ⟨batches, none, file.take (pos + kept.length)⟩ ∨
        ∃ e, readAll deps (resting file pos leftover) = ⟨batches, some e, file⟩) := by
  induction left : file.length - pos using Nat.strong_induction_on generalizing pos leftover with
  | _ left ih =>
    rcases resting_outcome deps file pos leftover inFile with
      ends | ⟨e, after, refused, kept⟩ | ⟨bytes, tail, batch, here, holds⟩
    · exact ⟨[], file.drop pos, [], rfl, .none, .inl (read_all_ends _ ends)⟩
    · refine ⟨[], file.drop pos, [], rfl, .none, .inr ⟨e, ?_⟩⟩
      rw [read_all_eq, refused]
      dsimp only
      rw [kept]
      rfl
    · have total := congrArg List.length here
      rw [List.length_drop, List.length_append] at total
      have some := batch_nonempty bytes batch holds
      obtain ⟨more, rest, batches, split, later, finished⟩ :=
        ih (file.length - (pos + bytes.length)) (by omega) (pos + bytes.length) batch.seqno (by omega) rfl
      rw [drop_entry file bytes tail pos here] at split
      refine ⟨bytes ++ more, rest, batch :: batches, by rw [here, split, List.append_assoc],
        .more bytes more batch batches holds later, ?_⟩
      rw [read_all_eq, next_batch file pos leftover bytes batch tail holds here, List.length_append, ← Nat.add_assoc]
      dsimp only
      rcases finished with done | ⟨e, failed⟩
      · exact .inl (by rw [done])
      · exact .inr ⟨e, by rw [failed]⟩

theorem recover_outcome : ∃ kept tail batches, file = kept ++ tail ∧ HoldsBatches deps kept batches ∧
      (recoverJournal deps file = ⟨batches, none, kept⟩ ∨ ∃ e, recoverJournal deps file = ⟨batches, some e, file⟩) := by
  obtain ⟨kept, tail, batches, split, holds, finished⟩ := read_all_outcome deps file 0 0 (Nat.zero_le _)
  rw [List.drop_zero] at split
  rw [Nat.zero_add, split, List.take_left, ← split] at finished
  exact ⟨kept, tail, batches, split, holds, finished⟩

theorem recovery_is_idempotent (file : Bytes) :
    ((recoverJournal deps file).error = none →
      (recoverJournal deps file).file <+: file ∧
      HoldsBatches deps (recoverJournal deps file).file (recoverJournal deps file).batches ∧
      recoverJournal deps (recoverJournal deps file).file = recoverJournal deps file) ∧
    ((recoverJournal deps file).error ≠ none →
      (recoverJournal deps file).file = file ∧
      recoverJournal deps (recoverJournal deps file).file = recoverJournal deps file) := by
  obtain ⟨kept, tail, batches, split, holds, finished⟩ := recover_outcome deps file
  rcases finished with done | ⟨e, failed⟩
  · rw [done]
    exact ⟨fun _ => ⟨⟨tail, split.symm⟩, holds, recover_batches kept batches holds⟩, fun other => absurd rfl other⟩
  · rw [failed]
    exact ⟨(nomatch ·), fun _ => ⟨rfl, failed⟩⟩

end OmryaKv.Journal
