import OmryaKv.Journal.Entry

set_option autoImplicit false

namespace OmryaKv.Journal

open Lib

inductive PersistMode where
  | buffer
  | syncData
  | syncAll
deriving DecidableEq

inductive IoError where
  | failed
deriving DecidableEq

-- file is what has been handed to the buffered file. faults holds the outcome of
-- the next calls into the file, true for a failure; past its end nothing fails.
structure Writer where
  file : Bytes
  faults : List Bool
  isBufferDirty : Bool
  compression : CompressionType
  compressionThreshold : Nat
deriving DecidableEq

def Writer.new (file : Bytes) (compression : CompressionType) (compressionThreshold : Nat) : Writer :=
  ⟨file, [], false, compression, compressionThreshold⟩

abbrev WriterM := EStateM IoError Writer

def attempt (onSuccess : Writer → Writer) : WriterM Unit := fun w =>
  match w.faults with
  | true :: faults => .error .failed { w with faults := faults }
  | false :: faults => .ok () (onSuccess { w with faults := faults })
  | [] => .ok () (onSuccess w)

-- A write that fails puts nothing of its entry into the file.
def writeAll (bytes : Bytes) : WriterM Unit := attempt fun w => { w with file := w.file ++ bytes }

def persist (mode : PersistMode) : WriterM Unit := do
  if (← get).isBufferDirty then
    attempt fun w => { w with isBufferDirty := false }
  match mode with
  | .buffer => return
  | .syncData => attempt id
  | .syncAll => attempt id

structure BatchItem where
  keyspaceId : UInt64
  key : UserKey
  value : UserValue
  valueType : ValueType
deriving DecidableEq

variable (deps : Dependencies)

def chosenCompression (compression : CompressionType) (threshold : Nat) (value : UserValue) : CompressionType :=
  if 0 < threshold ∧ threshold ≤ value.bytes.length then compression else .none

def itemEntry (compression : CompressionType) (threshold : Nat) (item : BatchItem) : Entry :=
  .item item.keyspaceId item.key item.value item.valueType (chosenCompression compression threshold item.value)

def writeStart (itemCount : UInt32) (seqno : UInt64) : WriterM Nat := do
  let buf := (Entry.start itemCount seqno).encodeInto deps
  writeAll buf
  return buf.length

def writeEnd (checksum : UInt64) : WriterM Nat := do
  let buf := (Entry.endMarker checksum).encodeInto deps
  writeAll buf
  return buf.length

def markDirty : WriterM Unit := modify fun w => { w with isBufferDirty := true }

def writeRaw (keyspaceId : UInt64) (key : UserKey) (value : UserValue) (valueType : ValueType) (seqno : UInt64) :
    WriterM Nat := do
  markDirty
  let started ← writeStart deps 1 seqno
  let w ← get
  let buf := (itemEntry w.compression w.compressionThreshold ⟨keyspaceId, key, value, valueType⟩).encodeInto deps
  writeAll buf
  let ended ← writeEnd deps (deps.xxh3 buf)
  return started + buf.length + ended

def writeClear (keyspaceId : UInt64) (seqno : UInt64) : WriterM Nat := do
  markDirty
  let started ← writeStart deps 1 seqno
  let buf := (Entry.clear keyspaceId).encodeInto deps
  writeAll buf
  let ended ← writeEnd deps (deps.xxh3 buf)
  return started + buf.length + ended

-- The loop of write_batch; its result is everything the hasher has been fed.
def writeItems : List BatchItem → Bytes → WriterM Bytes
  | [], hashed => return hashed
  | item :: items, hashed => do
      let w ← get
      let buf := (itemEntry w.compression w.compressionThreshold item).encodeInto deps
      writeAll buf
      writeItems items (hashed ++ buf)

def writeBatch (items : List BatchItem) (batchSize : Nat) (seqno : UInt64) : WriterM Nat := do
  if batchSize = 0 then
    return 0
  markDirty
  let started ← writeStart deps (UInt32.ofNat batchSize) seqno
  let hashed ← writeItems deps items []
  let ended ← writeEnd deps (deps.xxh3 hashed)
  return started + hashed.length + ended

def frame (seqno : UInt64) (body : List Entry) : List Entry :=
  .start (UInt32.ofNat body.length) seqno :: (body ++ [.endMarker (deps.xxh3 (body.flatMap (Entry.encodeInto deps)))])

def encodeAll (entries : List Entry) : Bytes := entries.flatMap (Entry.encodeInto deps)

theorem encode_all_cons (entry : Entry) (entries : List Entry) :
    encodeAll deps (entry :: entries) = entry.encodeInto deps ++ encodeAll deps entries := List.flatMap_cons

theorem encode_all_append (front back : List Entry) :
    encodeAll deps (front ++ back) = encodeAll deps front ++ encodeAll deps back := List.flatMap_append

def Writer.Settings (w : Writer) (compression : CompressionType) (threshold : Nat) : Prop :=
  w.compression = compression ∧ w.compressionThreshold = threshold

section Emits

variable {α γ : Type} (compression : CompressionType) (threshold : Nat)

-- Either all the entries reach the file, one write each, or the first fault lets
-- only the entries before it through.
def Outcome (entries : List Entry) (a : α) (w : Writer) (result : EStateM.Result IoError Writer α) : Prop :=
  (∃ next, result = .ok a next ∧ next.file = w.file ++ encodeAll deps entries ∧
    next.Settings compression threshold ∧ next.isBufferDirty = true ∧
    true ∉ w.faults.take entries.length ∧ next.faults = w.faults.drop entries.length) ∨
  ∃ e next written, result = .error e next ∧ next.file = w.file ++ encodeAll deps (entries.take written) ∧
    next.Settings compression threshold ∧ next.isBufferDirty = true ∧
    written < entries.length ∧ w.faults = List.replicate written false ++ true :: next.faults

def Emits (d : WriterM α) (entries : List Entry) (a : α) : Prop :=
  ∀ w : Writer, w.Settings compression threshold → w.isBufferDirty = true →
    Outcome deps compression threshold entries a w (d.run w)

variable {deps compression threshold}

theorem emits_pure (a : α) : Emits deps compression threshold (pure a) [] a := by
  intro w settings dirty
  exact .inl ⟨w, rfl, (List.append_nil _).symm, settings, dirty, List.not_mem_nil, rfl⟩

theorem replicate_of_all_false (faults : List Bool) (quiet : true ∉ faults) : faults = List.replicate faults.length false := by
  rw [List.eq_replicate_iff]
  refine ⟨rfl, fun fault member => ?_⟩
  cases fault with
  | false => rfl
  | true => exact absurd member quiet

theorem emits_bind (d : WriterM α) (f : α → WriterM γ) (front back : List Entry) (a : α) (c : γ)
    (first : Emits deps compression threshold d front a) (second : Emits deps compression threshold (f a) back c) :
    Emits deps compression threshold (d >>= f) (front ++ back) c := by
  intro w settings dirty
  rcases first w settings dirty with
    ⟨middle, firstRun, firstFile, kept, marked, quiet, left⟩ | ⟨e, middle, written, firstRun, firstFile, kept, marked, short, fault⟩
  · have both : w.faults.take (front ++ back).length = w.faults.take front.length ++ middle.faults.take back.length := by
      rw [left, List.length_append, List.take_add]
    rcases second middle kept marked with
      ⟨next, secondRun, file, kept', marked', quiet', left'⟩ | ⟨e, next, written, secondRun, file, kept', marked', short, fault⟩
    · refine .inl ⟨next, ?_, ?_, kept', marked', ?_, ?_⟩
      · rw [EStateM.run_bind, firstRun]
        exact secondRun
      · rw [file, firstFile, encode_all_append, List.append_assoc]
      · rw [both, List.mem_append, not_or]
        exact ⟨quiet, quiet'⟩
      · rw [left', left, List.drop_drop, List.length_append]
    · refine .inr ⟨e, next, front.length + written, ?_, ?_, kept', marked', ?_, ?_⟩
      · rw [EStateM.run_bind, firstRun]
        exact secondRun
      · rw [file, firstFile, List.take_length_add_append, encode_all_append, List.append_assoc]
      · rw [List.length_append]
        omega
      · -- The fault lies behind the writes of the first part, so all of those were scripted.
        have long : front.length ≤ w.faults.length := by
          have some := congrArg List.length (left.symm.trans fault)
          rw [List.length_drop, List.length_append, List.length_cons] at some
          omega
        have before := replicate_of_all_false _ quiet
        rw [List.length_take, Nat.min_eq_left long] at before
        calc w.faults = w.faults.take front.length ++ w.faults.drop front.length := (List.take_append_drop _ _).symm
          _ = List.replicate front.length false ++ (List.replicate written false ++ true :: next.faults) := by
            rw [← before, ← left, fault]
          _ = List.replicate (front.length + written) false ++ true :: next.faults := by
            rw [← List.append_assoc, List.replicate_append_replicate]
  · refine .inr ⟨e, middle, written, ?_, ?_, kept, marked, ?_, fault⟩
    · rw [EStateM.run_bind, firstRun]
    · rw [List.take_append_of_le_length (Nat.le_of_lt short)]
      exact firstFile
    · rw [List.length_append]
      omega

theorem emits_get (f : Writer → WriterM γ) (entries : List Entry) (c : γ)
    (each : ∀ w : Writer, w.Settings compression threshold → Emits deps compression threshold (f w) entries c) :
    Emits deps compression threshold (get >>= f) entries c :=
  fun w settings dirty => each w settings w settings dirty

theorem emits_write_all (entry : Entry) : Emits deps compression threshold (writeAll (entry.encodeInto deps)) [entry] () := by
  intro w settings dirty
  have single : encodeAll deps [entry] = entry.encodeInto deps := List.flatMap_singleton _ _
  rw [writeAll, EStateM.run, attempt]
  cases faults : w.faults with
  | nil => exact .inl ⟨_, rfl, by rw [single], settings, dirty, by simp [faults], by simp [faults]⟩
  | cons fails rest =>
    cases fails with
    | false => exact .inl ⟨_, rfl, by rw [single], settings, dirty, by simp [faults], by simp [faults]⟩
    | true => exact .inr ⟨_, _, 0, rfl, (List.append_nil _).symm, settings, dirty, Nat.one_pos, by simp [faults]⟩

theorem outcome_of_emits (d : WriterM α) (entries : List Entry) (a : α) (emits : Emits deps compression threshold d entries a)
    (w : Writer) (settings : w.Settings compression threshold) :
    Outcome deps compression threshold entries a w ((do markDirty; d).run w) :=
  emits { w with isBufferDirty := true } settings rfl

theorem emits_write_start (itemCount : UInt32) (seqno : UInt64) :
    Emits deps compression threshold (writeStart deps itemCount seqno) [.start itemCount seqno]
      ((Entry.start itemCount seqno).encodeInto deps).length :=
  emits_bind _ _ _ [] () _ (emits_write_all _) (emits_pure _)

theorem emits_write_end (checksum : UInt64) :
    Emits deps compression threshold (writeEnd deps checksum) [.endMarker checksum]
      ((Entry.endMarker checksum).encodeInto deps).length :=
  emits_bind _ _ _ [] () _ (emits_write_all _) (emits_pure _)

theorem frame_length (seqno : UInt64) (body : List Entry) :
    (encodeAll deps (frame deps seqno body)).length =
      ((Entry.start (UInt32.ofNat body.length) seqno).encodeInto deps).length + (encodeAll deps body).length +
        ((Entry.endMarker (deps.xxh3 (encodeAll deps body))).encodeInto deps).length := by
  simp only [encodeAll, frame, List.flatMap_cons, List.flatMap_append, List.flatMap_nil, List.length_append,
    List.append_nil, Nat.add_assoc]

theorem write_raw_outcome (item : BatchItem) (seqno : UInt64) (w : Writer) (settings : w.Settings compression threshold) :
    Outcome deps compression threshold (frame deps seqno [itemEntry compression threshold item])
      (encodeAll deps (frame deps seqno [itemEntry compression threshold item])).length w
      ((writeRaw deps item.keyspaceId item.key item.value item.valueType seqno).run w) := by
  refine outcome_of_emits _ _ _ ?_ w settings
  refine emits_bind _ _ [_] _ _ _ (emits_write_start 1 seqno) ?_
  refine emits_get _ _ _ fun w settings => ?_
  rw [settings.1, settings.2]
  refine emits_bind _ _ [_] _ () _ (emits_write_all _) ?_
  rw [frame_length, encodeAll, List.flatMap_singleton]
  exact emits_bind _ _ [_] [] _ _ (emits_write_end _) (emits_pure _)

theorem write_clear_outcome (keyspaceId seqno : UInt64) (w : Writer) (settings : w.Settings compression threshold) :
    Outcome deps compression threshold (frame deps seqno [.clear keyspaceId])
      (encodeAll deps (frame deps seqno [.clear keyspaceId])).length w ((writeClear deps keyspaceId seqno).run w) := by
  refine outcome_of_emits _ _ _ ?_ w settings
  refine emits_bind _ _ [_] _ _ _ (emits_write_start 1 seqno) ?_
  refine emits_bind _ _ [_] _ () _ (emits_write_all _) ?_
  rw [frame_length, encodeAll, List.flatMap_singleton]
  exact emits_bind _ _ [_] [] _ _ (emits_write_end _) (emits_pure _)

theorem emits_write_items (items : List BatchItem) (hashed : Bytes) :
    Emits deps compression threshold (writeItems deps items hashed) (items.map (itemEntry compression threshold))
      (hashed ++ encodeAll deps (items.map (itemEntry compression threshold))) := by
  induction items generalizing hashed with
  | nil =>
    rw [encodeAll, List.map_nil, List.flatMap_nil, List.append_nil]
    exact emits_pure hashed
  | cons item items ih =>
    refine emits_get _ _ _ fun w settings => ?_
    rw [settings.1, settings.2]
    refine emits_bind _ _ [_] _ () _ (emits_write_all _) ?_
    have rest := ih (hashed ++ (itemEntry compression threshold item).encodeInto deps)
    rwa [List.append_assoc] at rest

theorem write_batch_outcome (items : List BatchItem) (seqno : UInt64) (nonempty : items ≠ []) (w : Writer)
    (settings : w.Settings compression threshold) :
    Outcome deps compression threshold (frame deps seqno (items.map (itemEntry compression threshold)))
      (encodeAll deps (frame deps seqno (items.map (itemEntry compression threshold)))).length w
      ((writeBatch deps items items.length seqno).run w) := by
  have counted : items.length ≠ 0 := fun zero => nonempty (List.length_eq_zero_iff.mp zero)
  rw [writeBatch, if_neg counted, frame_length, ← List.length_map (itemEntry compression threshold)]
  refine outcome_of_emits _ _ _ ?_ w settings
  refine emits_bind _ _ [_] _ _ _ (emits_write_start _ seqno) ?_
  refine emits_bind _ _ _ _ _ _ (emits_write_items items []) ?_
  rw [List.nil_append]
  exact emits_bind _ _ [_] [] _ _ (emits_write_end _) (emits_pure _)

end Emits

def PersistMode.calls : PersistMode → Nat
  | .buffer => 1
  | .syncData => 2
  | .syncAll => 2

theorem persist_outcome (mode : PersistMode) (w : Writer) (dirty : w.isBufferDirty = true) :
    (true ∉ w.faults.take mode.calls ∧ ∃ next, (persist mode).run w = .ok () next ∧ next.file = w.file ∧
        next.Settings w.compression w.compressionThreshold) ∨
      (true ∈ w.faults.take mode.calls ∧ ∃ next, (persist mode).run w = .error .failed next ∧ next.file = w.file ∧
        next.Settings w.compression w.compressionThreshold) := by
  obtain ⟨file, faults, isBufferDirty, compression, threshold⟩ := w
  subst dirty
  rcases faults with _ | ⟨flush, _ | ⟨sync, rest⟩⟩
  · exact .inl ⟨by simp, by cases mode <;> exact ⟨_, rfl, rfl, rfl, rfl⟩⟩
  · cases flush with
    | false => exact .inl ⟨by cases mode <;> simp [PersistMode.calls], by cases mode <;> exact ⟨_, rfl, rfl, rfl, rfl⟩⟩
    | true => exact .inr ⟨by cases mode <;> simp [PersistMode.calls], by cases mode <;> exact ⟨_, rfl, rfl, rfl, rfl⟩⟩
  · cases flush with
    | true => exact .inr ⟨by cases mode <;> simp [PersistMode.calls], by cases mode <;> exact ⟨_, rfl, rfl, rfl, rfl⟩⟩
    | false =>
      cases mode with
      | buffer => exact .inl ⟨by simp [PersistMode.calls], _, rfl, rfl, rfl, rfl⟩
      | syncData | syncAll =>
        cases sync with
        | false => exact .inl ⟨by simp [PersistMode.calls], _, rfl, rfl, rfl, rfl⟩
        | true => exact .inr ⟨by simp [PersistMode.calls], _, rfl, rfl, rfl, rfl⟩

-- What is left of the script after so many writes that stop at the first fault.
def scriptAfter : Nat → List Bool → List Bool
  | 0, faults => faults
  | _ + 1, [] => []
  | _ + 1, true :: faults => faults
  | writes + 1, false :: faults => scriptAfter writes faults

theorem script_after_quiet (writes : Nat) (faults : List Bool) (quiet : true ∉ faults.take writes) :
    scriptAfter writes faults = faults.drop writes := by
  induction writes generalizing faults with
  | zero => rfl
  | succ writes ih =>
    cases faults with
    | nil => rfl
    | cons fault faults =>
      cases fault with
      | true => simp at quiet
      | false => exact ih faults (by simpa using quiet)

theorem fault_in_take (before writes : Nat) (faults : List Bool) (early : before < writes) :
    true ∈ (List.replicate before false ++ true :: faults).take writes := by
  rw [List.take_append, List.mem_append, List.length_replicate]
  right
  obtain ⟨more, same⟩ := Nat.exists_eq_add_of_lt early
  rw [same, show before + more + 1 - before = more + 1 by omega]
  exact List.mem_cons_self

theorem script_after_fault (writes before : Nat) (faults : List Bool) (early : before < writes) :
    scriptAfter writes (List.replicate before false ++ true :: faults) = faults := by
  induction before generalizing writes with
  | zero =>
    cases writes with
    | zero => omega
    | succ writes => rfl
  | succ before ih =>
    cases writes with
    | zero => omega
    | succ writes => exact ih writes (by omega)

end OmryaKv.Journal
