import OmryaKv.Journal.Reread

set_option autoImplicit false

namespace OmryaKv.Journal

open Lib

section

variable (deps : Dependencies)

-- Between whole batches the bytes are read back as this one batch, and recovery
-- leaves the file as it is.
def Intact (bytes : Bytes) (batch : Batch) : Prop :=
  ∀ before after earlier later, HoldsBatches deps before earlier → HoldsBatches deps after later →
    recoverJournal deps (before ++ (bytes ++ after)) =
      ⟨earlier ++ batch :: later, none, before ++ (bytes ++ after)⟩

end

variable {deps : Dependencies}

theorem holds_batches_append (before after : Bytes) (earlier later : List Batch) (first : HoldsBatches deps before earlier)
    (second : HoldsBatches deps after later) : HoldsBatches deps (before ++ after) (earlier ++ later) := by
  induction first with
  | none => exact second
  | more bytes rest batch batches holds tail ih =>
    rw [List.append_assoc]
    exact .more bytes (rest ++ after) batch (batches ++ later) holds ih

theorem intact_iff (bytes : Bytes) (batch : Batch) : Intact deps bytes batch ↔ HoldsBatch deps bytes batch := by
  refine ⟨fun intact => ?_, fun holds => ?_⟩
  · have alone := intact [] [] [] [] .none .none
    rw [List.nil_append, List.append_nil, List.nil_append] at alone
    obtain ⟨kept, tail, batches, split, holds, finished⟩ := recover_outcome deps bytes
    rw [alone] at finished
    rcases finished with same | ⟨e, failed⟩
    · cases same
      cases holds with
      | more first rest batch batches holds later =>
        cases later
        rw [List.append_nil]
        exact holds
    · cases failed
  · intro before after earlier later first second
    exact recover_batches _ _ (holds_batches_append before _ earlier _ first (.more bytes after batch later holds second))

theorem decodes_cut_u16 (n : Nat) : Decodes readU16 (leBytes 2 n) (UInt16.ofNat n) := by
  have cut := decodes_read_u16 (n % 2 ^ 16) (Nat.mod_lt n (by decide))
  have same : UInt16.ofNat (n % 2 ^ 16) = UInt16.ofNat n := by
    apply UInt16.toNat_inj.mp
    simp
  rw [same] at cut
  rw [← le_bytes_mod 2 n]
  exact cut

theorem decodes_cut_u32 (n : Nat) : Decodes readU32 (leBytes 4 n) (UInt32.ofNat n) := by
  have cut := decodes_read_u32 (n % 2 ^ 32) (Nat.mod_lt n (by decide))
  have same : UInt32.ofNat (n % 2 ^ 32) = UInt32.ofNat n := by
    apply UInt32.toNat_inj.mp
    simp
  rw [same] at cut
  rw [← le_bytes_mod 4 n]
  exact cut

theorem slice_read (length : UInt32) (input rest : Bytes) (value : UserValue)
    (read : (sliceFromReader length).run input = .ok value rest) : input.length = length.toNat + rest.length := by
  rw [EStateM.run, sliceFromReader] at read
  split at read
  · cases read
  · cases read
    rw [List.length_drop]
    omega

theorem value_read (valueLen onDiskValueLen : UInt32) (compression : CompressionType) (input rest : Bytes) (value : UserValue)
    (read : (decodeValue deps valueLen onDiskValueLen compression).run input = .ok value rest) :
    input.length = onDiskValueLen.toNat + rest.length := by
  cases compression with
  | none => exact slice_read onDiskValueLen input rest value read
  | lz4 =>
    obtain ⟨compressed, left, sliced, finished⟩ := decoder_bind_ok _ _ _ _ _ read
    have sizes := slice_read onDiskValueLen input left compressed sliced
    split at finished
    · cases finished
    · split at finished
      · cases finished
        exact sizes
      · cases finished

-- The lengths that the decoder reads are the ones the casts have left.
theorem item_read (keyspaceId : UInt64) (key : UserKey) (value : UserValue) (valueType : ValueType)
    (compression : CompressionType) (tail rest : Bytes) (entry : Entry)
    (read : (Entry.decodeFrom deps).run (serializeMarkerItem deps keyspaceId key value valueType compression ++ tail) =
      .ok entry rest) :
    ∃ readKey readValue, entry = .item keyspaceId readKey readValue valueType compression ∧
      readKey.length = key.length % 2 ^ 16 ∧
      readKey.length + (storedValue deps value compression).length % 2 ^ 32 + rest.length =
        key.length + (storedValue deps value compression).length + tail.length := by
  have keyLen : (UInt16.ofNat key.length).toNat = key.length % 2 ^ 16 := UInt16.toNat_ofNat'
  have onDisk : (UInt32.ofNat (storedValue deps value compression).length).toNat =
      (storedValue deps value compression).length % 2 ^ 32 := UInt32.toNat_ofNat'
  simp only [serializeMarkerItem, List.append_assoc] at read
  rw [Entry.decodeFrom, decodes_then _ _ _ Tag.item (decodes_expect_tag _ _ _ _ rfl), Entry.decodeTagged,
    decodes_then _ _ _ valueType (decodes_expect_tag _ _ _ _ (deps.valueTypeTagged valueType)),
    decodes_then _ _ _ compression (decodes_expect_tag _ _ _ _ (deps.compressionTagged compression)),
    decodes_then _ _ _ keyspaceId (decodes_read_u64 keyspaceId), decodes_then _ _ _ _ (decodes_cut_u16 key.length),
    decodes_then _ _ _ _ (decodes_cut_u32 value.bytes.length), decodes_then _ _ _ _ (decodes_cut_u32 _)] at read
  obtain ⟨readKey, left, keyRead, afterKey⟩ := decoder_bind_ok _ _ _ _ _ read
  obtain ⟨split, keySize⟩ := read_exact_ok _ _ _ _ _ keyRead
  obtain ⟨readValue, last, valueRead, returned⟩ := decoder_bind_ok _ _ _ _ _ afterKey
  cases returned
  have valueSize := value_read _ _ _ _ _ _ valueRead
  have sizes := congrArg List.length split
  simp only [List.length_append] at sizes
  exact ⟨readKey, readValue, rfl, keySize.trans keyLen, by omega⟩

theorem end_length (used : Bytes) (checksum : UInt64)
    (decodes : Decodes (Entry.decodeFrom deps) used (.endMarker checksum)) : used.length = 13 := by
  have alone := decodes []
  rw [List.append_nil] at alone
  cases used with
  | nil => cases alone
  | cons byte tail =>
    rw [decode_run] at alone
    cases tagged : Tag.ofByte byte with
    | none =>
      rw [tagged] at alone
      cases alone
    | some tag =>
      rw [tagged] at alone
      by_cases isEnd : tag = .endMarker
      · subst isEnd
        obtain ⟨bytes, size, split⟩ := end_read_back deps tail [] _ alone
        rw [List.length_cons, split, List.length_append, size]
        rfl
      · exact absurd trivial (tagged_not_end deps tag isEnd tail _ [] alone)

theorem spells_first (bytes rest : Bytes) (entry first : Entry) (entries : List Entry)
    (decodes : Decodes (Entry.decodeFrom deps) bytes entry) (spelled : Spells deps (bytes ++ rest) (first :: entries)) :
    first = entry ∧ Spells deps rest entries := by
  have read := decodes rest
  generalize whole : bytes ++ rest = input at spelled read
  cases spelled with
  | more used left _ _ usedDecodes later =>
    rw [usedDecodes left] at read
    cases read
    exact ⟨rfl, later⟩

theorem spells_nothing (entries : List Entry) (spelled : Spells deps [] entries) : entries = [] := by
  generalize same : ([] : Bytes) = bytes at spelled
  cases spelled with
  | done => rfl
  | more used rest entry entries decodes later =>
    obtain ⟨rfl, _⟩ := List.append_eq_nil_iff.mp same.symm
    have read := decodes []
    cases read

theorem empty_body (body : List Entry) (inBody : ∀ entry ∈ body, entry.InBody)
    (items : body.filterMap Entry.readItem = []) (clears : body.filterMap Entry.readClear = []) : body = [] := by
  cases body with
  | nil => rfl
  | cons entry body =>
    have first := inBody entry List.mem_cons_self
    cases entry with
    | start itemCount seqno => cases first
    | endMarker checksum => cases first
    | item keyspaceId key value valueType compression => cases items
    | clear keyspaceId => cases clears

theorem one_item_body (body : List Entry) (inBody : ∀ entry ∈ body, entry.InBody) (item : BatchItem)
    (items : body.filterMap Entry.readItem = [item]) (clears : body.filterMap Entry.readClear = []) :
    ∃ compression, body = [.item item.keyspaceId item.key item.value item.valueType compression] := by
  cases body with
  | nil => cases items
  | cons entry body =>
    have first := inBody entry List.mem_cons_self
    cases entry with
    | start itemCount seqno => cases first
    | endMarker checksum => cases first
    | clear keyspaceId => cases clears
    | item keyspaceId key value valueType compression =>
      have split : (⟨keyspaceId, key, value, valueType⟩ : BatchItem) :: body.filterMap Entry.readItem = [item] := items
      obtain ⟨rfl, none⟩ := List.cons.inj split
      have rest := empty_body body (fun other member => inBody other (List.mem_cons_of_mem _ member)) none clears
      exact ⟨compression, by rw [rest]⟩

theorem one_item_spelled (bytes : Bytes) (seqno : UInt64) (item : BatchItem)
    (holds : HoldsBatch deps bytes ⟨seqno, [item], []⟩) :
    ∃ itemCount compression checksum, Spells deps bytes
      [.start itemCount seqno, .item item.keyspaceId item.key item.value item.valueType compression, .endMarker checksum] := by
  generalize same : (⟨seqno, [item], []⟩ : Batch) = batch at holds
  cases holds with
  | complete itemCount other body counted inBody spelled =>
    obtain ⟨rfl, items, clears⟩ := Batch.mk.inj same
    obtain ⟨compression, rfl⟩ := one_item_body body inBody item items.symm clears.symm
    exact ⟨itemCount, compression, _, spelled⟩

def itemBatch (seqno : UInt64) (item : BatchItem) : Batch := ⟨seqno, [item], []⟩

-- What stands behind the stored value has to make up for the bytes that the cast
-- of its length leaves over.
theorem item_batch_lengths (itemCount : UInt32) (seqno : UInt64) (item : BatchItem) (compression : CompressionType) (tail : Bytes)
    (holds : HoldsBatch deps ((Entry.start itemCount seqno).encodeInto deps ++
      (serializeMarkerItem deps item.keyspaceId item.key item.value item.valueType compression ++ tail)) (itemBatch seqno item)) :
    item.key.length < 2 ^ 16 ∧
      (storedValue deps item.value compression).length % 2 ^ 32 + 13 =
        (storedValue deps item.value compression).length + tail.length := by
  obtain ⟨count, other, checksum, spelled⟩ := one_item_spelled _ seqno item holds
  have behind := (spells_first _ _ _ _ _ (decodes_encoded deps (.start itemCount seqno) trivial) spelled).2
  generalize whole : serializeMarkerItem deps item.keyspaceId item.key item.value item.valueType compression ++ tail = input at behind
  cases behind with
  | more used rest _ _ decodes later =>
    have read := decodes rest
    rw [← whole] at read
    obtain ⟨readKey, readValue, same, keySize, sizes⟩ := item_read _ _ _ _ _ _ _ _ read
    cases same
    cases later with
    | more trailer nothing _ _ ended none =>
      cases none
      have trailerSize := end_length trailer checksum ended
      rw [List.length_append, trailerSize, List.length_nil] at sizes
      exact ⟨by omega, by omega⟩

theorem item_frame_bytes (seqno : UInt64) (item : BatchItem) (compression : CompressionType) (threshold : Nat) :
    encodeAll deps (frame deps seqno [itemEntry compression threshold item]) =
      (Entry.start 1 seqno).encodeInto deps ++
        (serializeMarkerItem deps item.keyspaceId item.key item.value item.valueType
            (chosenCompression compression threshold item.value) ++
          (Entry.endMarker (deps.xxh3 ([itemEntry compression threshold item].flatMap (Entry.encodeInto deps)))).encodeInto deps) := by
  rw [frame, encode_all_cons, encodeAll]
  simp [itemEntry, Entry.encodeInto]

theorem item_frame_holds_iff (seqno : UInt64) (item : BatchItem) (compression : CompressionType) (threshold : Nat) :
    HoldsBatch deps (encodeAll deps (frame deps seqno [itemEntry compression threshold item])) (itemBatch seqno item) ↔
      (itemEntry compression threshold item).Fits deps := by
  refine ⟨fun holds => ?_, fun fits => ?_⟩
  · rw [item_frame_bytes] at holds
    obtain ⟨key, stored⟩ := item_batch_lengths 1 seqno item _ _ holds
    simp only [Entry.encodeInto, List.length_append, le_bytes_length, magicBytes, List.length_cons, List.length_nil] at stored
    exact ⟨key, by omega⟩
  · exact frame_holds ⟨seqno, [itemEntry compression threshold item], by
      intro entry member
      rw [List.mem_singleton.mp member]
      exact .item _ _ _ _ _ fits, by simp⟩

theorem item_part_holds_not (seqno : UInt64) (item : BatchItem) (compression : CompressionType) (threshold written : Nat)
    (short : written < 3) :
    ¬ HoldsBatch deps (encodeAll deps ((frame deps seqno [itemEntry compression threshold item]).take written))
      (itemBatch seqno item) := by
  intro holds
  match written with
  | 0 => exact absurd (batch_nonempty _ _ holds) (by simp [encodeAll])
  | 1 =>
    obtain ⟨count, other, checksum, spelled⟩ := one_item_spelled _ seqno item holds
    have start : encodeAll deps ((frame deps seqno [itemEntry compression threshold item]).take 1) =
        (Entry.start 1 seqno).encodeInto deps ++ [] := rfl
    rw [start] at spelled
    have behind := (spells_first _ _ _ _ _ (decodes_encoded deps (.start 1 seqno) trivial) spelled).2
    cases spells_nothing _ behind
  | 2 =>
    have parts : encodeAll deps ((frame deps seqno [itemEntry compression threshold item]).take 2) =
        (Entry.start 1 seqno).encodeInto deps ++
          (serializeMarkerItem deps item.keyspaceId item.key item.value item.valueType
            (chosenCompression compression threshold item.value) ++ []) := rfl
    rw [parts] at holds
    have stored := (item_batch_lengths 1 seqno item _ _ holds).2
    rw [List.length_nil] at stored
    omega
  | more + 3 => omega

end OmryaKv.Journal
