import OmryaKv.Types
import OmryaKv.Lib.Codec

set_option autoImplicit false

namespace OmryaKv.Journal

open Lib

-- What the journal takes from other crates: the tags of lsm_tree's enums, the
-- lz4 block functions and the xxh3 hash of all bytes fed to a hasher.
-- decompressInto answers with the bytes written into a buffer of the given size.
structure Dependencies where
  valueTypeTag : ValueType → Byte
  valueTypeOfTag : Byte → Option ValueType
  compressionTag : CompressionType → Byte
  compressionOfTag : Byte → Option CompressionType
  compress : Bytes → Bytes
  decompressInto : Bytes → Nat → Option Bytes
  xxh3 : Bytes → UInt64
  valueTypeTagged : ∀ valueType, valueTypeOfTag (valueTypeTag valueType) = some valueType
  compressionTagged : ∀ compression, compressionOfTag (compressionTag compression) = some compression
  decompresses : ∀ value, decompressInto (compress value) value.length = some value

def Dependencies.sample : Dependencies where
  valueTypeTag
    | .value => 0
    | .tombstone => 1
    | .weakTombstone => 2
    | .indirection => 4
  valueTypeOfTag
    | 0 => some .value
    | 1 => some .tombstone
    | 2 => some .weakTombstone
    | 4 => some .indirection
    | _ => none
  compressionTag
    | .none => 0
    | .lz4 => 1
  compressionOfTag
    | 0 => some .none
    | 1 => some .lz4
    | _ => none
  compress value := 0xF0 :: value
  decompressInto block capacity := if block.tail.length ≤ capacity then some block.tail else none
  xxh3 bytes := UInt64.ofNat (bytes.map UInt8.toNat).sum
  valueTypeTagged valueType := by cases valueType <;> rfl
  compressionTagged compression := by cases compression <;> rfl
  decompresses value := by simp

inductive Entry where
  | start (itemCount : UInt32) (seqno : UInt64)
  | item (keyspaceId : UInt64) (key : UserKey) (value : UserValue) (valueType : ValueType) (compression : CompressionType)
  | endMarker (checksum : UInt64)
  | clear (keyspaceId : UInt64)
deriving DecidableEq

inductive Tag where
  | start
  | item
  | endMarker
  | clear
deriving DecidableEq

def Tag.toByte : Tag → Byte
  | .start => 1
  | .item => 2
  | .endMarker => 3
  | .clear => 4

def Tag.ofByte : Byte → Option Tag
  | 1 => some .start
  | 2 => some .item
  | 3 => some .endMarker
  | 4 => some .clear
  | _ => none

inductive DecodeError where
  | unexpectedEof
  | invalidTag (name : String) (value : Byte)
  | decompress (compression : CompressionType)
  | invalidTrailer
deriving DecidableEq

def magicBytes : Bytes := [0x46, 0x4A, 0x4C, 3]

variable (deps : Dependencies)

def storedValue (value : UserValue) : CompressionType → Bytes
  | .none => value.bytes
  | .lz4 => deps.compress value.bytes

-- leBytes keeps the low bytes only, as the casts of the three lengths do.
def serializeMarkerItem (keyspaceId : UInt64) (key : UserKey) (value : UserValue) (valueType : ValueType)
    (compression : CompressionType) : Bytes :=
  let compressedValue := storedValue deps value compression
  [Tag.item.toByte] ++ ([deps.valueTypeTag valueType] ++ ([deps.compressionTag compression] ++
    (leBytes 8 keyspaceId.toNat ++ (leBytes 2 key.length ++ (leBytes 4 value.bytes.length ++
      (leBytes 4 compressedValue.length ++ (key ++ compressedValue)))))))

def Entry.encodeInto : Entry → Bytes
  | .start itemCount seqno => [Tag.start.toByte] ++ (leBytes 4 itemCount.toNat ++ leBytes 8 seqno.toNat)
  | .item keyspaceId key value valueType compression => serializeMarkerItem deps keyspaceId key value valueType compression
  | .endMarker checksum => [Tag.endMarker.toByte] ++ (leBytes 8 checksum.toNat ++ magicBytes)
  | .clear keyspaceId => [Tag.clear.toByte] ++ leBytes 8 keyspaceId.toNat

abbrev EntryDecoder := Decoder DecodeError Byte

def readU16 : EntryDecoder UInt16 := do return UInt16.ofNat (← readLe .unexpectedEof 2)

def readU32 : EntryDecoder UInt32 := do return UInt32.ofNat (← readLe .unexpectedEof 4)

def readU64 : EntryDecoder UInt64 := do return UInt64.ofNat (← readLe .unexpectedEof 8)

def expectTag {T : Type} (name : String) (ofTag : Byte → Option T) : EntryDecoder T := do
  let byte ← readByte .unexpectedEof
  match ofTag byte with
  | some tag => return tag
  | none => throw (.invalidTag name byte)

-- Slice::from_reader; 32 bits of length are all a slice can hold.
def sliceFromReader (length : UInt32) : EntryDecoder UserValue := fun input =>
  if short : input.length < length.toNat then .error .unexpectedEof []
  else .ok ⟨input.take length.toNat, by have bound := length.toNat_lt; rw [List.length_take]; omega⟩ (input.drop length.toNat)

def decodeValue (valueLen onDiskValueLen : UInt32) : CompressionType → EntryDecoder UserValue
  | .none => sliceFromReader onDiskValueLen
  | .lz4 => do
      let compressedValue ← sliceFromReader onDiskValueLen
      match deps.decompressInto compressedValue.bytes valueLen.toNat with
      | none => throw (.decompress .lz4)
      | some value =>
        if size : value.length = valueLen.toNat then return ⟨value, by rw [size]; exact valueLen.toNat_lt⟩
        else throw (.decompress .lz4)

def Entry.decodeTagged : Tag → EntryDecoder Entry
  | .start => do
      let itemCount ← readU32
      let seqno ← readU64
      return .start itemCount seqno
  | .item => do
      let valueType ← expectTag "ValueType" deps.valueTypeOfTag
      let compression ← expectTag "CompressionType" deps.compressionOfTag
      let keyspaceId ← readU64
      let keyLen ← readU16
      let valueLen ← readU32
      let onDiskValueLen ← readU32
      let key ← readExact .unexpectedEof keyLen.toNat
      let value ← decodeValue deps valueLen onDiskValueLen compression
      return .item keyspaceId key value valueType compression
  | .endMarker => do
      let checksum ← readU64
      let magic ← readExact .unexpectedEof magicBytes.length
      if magic ≠ magicBytes then throw .invalidTrailer
      return .endMarker checksum
  | .clear => do
      let keyspaceId ← readU64
      return .clear keyspaceId

def Entry.decodeFrom : EntryDecoder Entry := do
  let tag ← expectTag "JournalMarkerTag" Tag.ofByte
  Entry.decodeTagged deps tag

theorem decodes_read_u16 (n : Nat) (fits : n < 2 ^ 16) : Decodes readU16 (leBytes 2 n) (UInt16.ofNat n) :=
  decodes_last _ _ _ _ _ (decodes_read_le .unexpectedEof 2 n fits) rfl

theorem decodes_read_u32 (n : Nat) (fits : n < 2 ^ 32) : Decodes readU32 (leBytes 4 n) (UInt32.ofNat n) :=
  decodes_last _ _ _ _ _ (decodes_read_le .unexpectedEof 4 n fits) rfl

theorem decodes_read_u64 (n : UInt64) : Decodes readU64 (leBytes 8 n.toNat) n :=
  decodes_last _ _ _ _ _ (decodes_read_le .unexpectedEof 8 n.toNat n.toNat_lt) (by rw [UInt64.ofNat_toNat])

theorem decodes_expect_tag {T : Type} (name : String) (ofTag : Byte → Option T) (byte : Byte) (tag : T)
    (tagged : ofTag byte = some tag) : Decodes (expectTag name ofTag) [byte] tag := by
  intro tail
  unfold expectTag
  rw [decoder_bind, decodes_read_byte]
  simp only [tagged]
  rfl

theorem decodes_slice (value : UserValue) (length : UInt32) (same : length.toNat = value.bytes.length) :
    Decodes (sliceFromReader length) value.bytes value := by
  intro tail
  have enough : ¬ (value.bytes ++ tail).length < length.toNat := by rw [List.length_append]; omega
  rw [EStateM.run, sliceFromReader, dif_neg enough]
  simp only [same, List.take_left, List.drop_left]

theorem decodes_value (value : UserValue) (compression : CompressionType) (stored : UInt32)
    (same : stored.toNat = (storedValue deps value compression).length) :
    Decodes (decodeValue deps (UInt32.ofNat value.bytes.length) stored compression) (storedValue deps value compression) value := by
  cases compression with
  | none => exact decodes_slice value stored same
  | lz4 =>
    intro tail
    have short : (deps.compress value.bytes).length < 2 ^ 32 := same ▸ stored.toNat_lt
    have size : (UInt32.ofNat value.bytes.length).toNat = value.bytes.length := UInt32.toNat_ofNat_of_lt value.bounded
    have read := decodes_slice ⟨deps.compress value.bytes, short⟩ stored same tail
    simp only [decodeValue, storedValue, decoder_bind, read, size, deps.decompresses, dite_true]
    rfl

-- An entry whose lengths survive the casts of serialize_marker_item.
def Entry.Fits : Entry → Prop
  | .item _ key value _ compression => key.length < 2 ^ 16 ∧ (storedValue deps value compression).length < 2 ^ 32
  | _ => True

theorem decodes_encoded (entry : Entry) (fits : entry.Fits deps) :
    Decodes (Entry.decodeFrom deps) (entry.encodeInto deps) entry := by
  cases entry with
  | start itemCount seqno =>
    refine decodes_bind _ _ _ _ Tag.start _ (decodes_expect_tag _ _ _ _ rfl) ?_
    have count := decodes_read_u32 itemCount.toNat itemCount.toNat_lt
    rw [UInt32.ofNat_toNat] at count
    refine decodes_bind _ _ _ _ itemCount _ count ?_
    exact decodes_last _ _ _ seqno _ (decodes_read_u64 seqno) rfl
  | item keyspaceId key value valueType compression =>
    have stored : (UInt32.ofNat (storedValue deps value compression).length).toNat =
        (storedValue deps value compression).length := UInt32.toNat_ofNat_of_lt fits.2
    have keyLen : (UInt16.ofNat key.length).toNat = key.length := UInt16.toNat_ofNat_of_lt fits.1
    refine decodes_bind _ _ _ _ Tag.item _ (decodes_expect_tag _ _ _ _ rfl) ?_
    refine decodes_bind _ _ _ _ valueType _ (decodes_expect_tag _ _ _ _ (deps.valueTypeTagged valueType)) ?_
    refine decodes_bind _ _ _ _ compression _ (decodes_expect_tag _ _ _ _ (deps.compressionTagged compression)) ?_
    refine decodes_bind _ _ _ _ keyspaceId _ (decodes_read_u64 keyspaceId) ?_
    refine decodes_bind _ _ _ _ _ _ (decodes_read_u16 key.length fits.1) ?_
    refine decodes_bind _ _ _ _ _ _ (decodes_read_u32 value.bytes.length value.bounded) ?_
    refine decodes_bind _ _ _ _ _ _ (decodes_read_u32 _ fits.2) ?_
    refine decodes_bind _ _ _ _ key _ (decodes_read_exact _ _ key keyLen.symm) ?_
    exact decodes_last _ _ _ value _ (decodes_value deps value compression _ stored) rfl
  | endMarker checksum =>
    refine decodes_bind _ _ _ _ Tag.endMarker _ (decodes_expect_tag _ _ _ _ rfl) ?_
    refine decodes_bind _ _ _ _ checksum _ (decodes_read_u64 checksum) ?_
    exact decodes_last _ _ _ magicBytes _ (decodes_read_exact _ _ magicBytes rfl) rfl
  | clear keyspaceId =>
    refine decodes_bind _ _ _ _ Tag.clear _ (decodes_expect_tag _ _ _ _ rfl) ?_
    exact decodes_last _ _ _ keyspaceId _ (decodes_read_u64 keyspaceId) rfl

theorem framed_read_u16 : Framed readU16 := framed_bind _ _ (framed_read_le _ 2) fun _ => framed_pure _

theorem framed_read_u32 : Framed readU32 := framed_bind _ _ (framed_read_le _ 4) fun _ => framed_pure _

theorem framed_read_u64 : Framed readU64 := framed_bind _ _ (framed_read_le _ 8) fun _ => framed_pure _

theorem framed_expect_tag {T : Type} (name : String) (ofTag : Byte → Option T) : Framed (expectTag name ofTag) := by
  refine framed_bind _ _ (framed_read_byte _) fun byte => ?_
  split
  · exact framed_pure _
  · exact framed_throw _

theorem framed_slice (length : UInt32) : Framed (sliceFromReader length) := by
  constructor
  · intro input value rest read
    rw [EStateM.run, sliceFromReader] at read
    split at read
    · cases read
    · next enough =>
        cases read
        refine ⟨_, (List.take_append_drop length.toNat input).symm, decodes_slice ⟨input.take length.toNat, _⟩ length ?_⟩
        rw [List.length_take]
        omega
  · intro input e rest read
    rw [EStateM.run, sliceFromReader] at read
    split at read
    · cases read
      exact Nat.zero_le _
    · cases read

theorem framed_value (valueLen onDiskValueLen : UInt32) (compression : CompressionType) :
    Framed (decodeValue deps valueLen onDiskValueLen compression) := by
  cases compression with
  | none => exact framed_slice onDiskValueLen
  | lz4 =>
    refine framed_bind _ _ (framed_slice onDiskValueLen) fun compressedValue => ?_
    split
    · exact framed_throw _
    · split
      · exact framed_pure _
      · exact framed_throw _

theorem framed_tagged (tag : Tag) : Framed (Entry.decodeTagged deps tag) := by
  cases tag with
  | start => exact framed_bind _ _ framed_read_u32 fun _ => framed_bind _ _ framed_read_u64 fun _ => framed_pure _
  | item =>
    refine framed_bind _ _ (framed_expect_tag _ _) fun _ => framed_bind _ _ (framed_expect_tag _ _) fun _ => ?_
    refine framed_bind _ _ framed_read_u64 fun _ => framed_bind _ _ framed_read_u16 fun _ => ?_
    refine framed_bind _ _ framed_read_u32 fun _ => framed_bind _ _ framed_read_u32 fun _ => ?_
    exact framed_bind _ _ (framed_read_exact _ _) fun _ => framed_bind _ _ (framed_value deps _ _ _) fun _ => framed_pure _
  | endMarker =>
    refine framed_bind _ _ framed_read_u64 fun _ => framed_bind _ _ (framed_read_exact _ _) fun magic => ?_
    dsimp only
    split
    · exact framed_bind _ _ (framed_throw _) fun _ => framed_pure _
    · exact framed_bind _ _ (framed_pure _) fun _ => framed_pure _
  | clear => exact framed_bind _ _ framed_read_u64 fun _ => framed_pure _

theorem framed_decode : Framed (Entry.decodeFrom deps) := framed_bind _ _ (framed_expect_tag _ _) (framed_tagged deps)

theorem decode_run (byte : Byte) (tail : Bytes) :
    (Entry.decodeFrom deps).run (byte :: tail) = match Tag.ofByte byte with
      | some tag => (Entry.decodeTagged deps tag).run tail
      | none => .error (.invalidTag "JournalMarkerTag" byte) tail := by
  unfold Entry.decodeFrom expectTag
  rw [decoder_bind, decoder_bind, ← List.singleton_append, decodes_read_byte]
  dsimp only
  cases Tag.ofByte byte <;> rfl

theorem decode_consumes (input rest : Bytes) (entry : Entry) (read : (Entry.decodeFrom deps).run input = .ok entry rest) :
    rest.length < input.length := by
  obtain ⟨used, rfl, decodes⟩ := (framed_decode deps).accepted input entry rest read
  cases used with
  | nil =>
    have nothing := decodes []
    cases nothing
  | cons byte tail =>
    rw [List.length_append, List.length_cons]
    omega

theorem refused_in_place (input rest : Bytes) (e : DecodeError) (read : (Entry.decodeFrom deps).run input = .error e rest)
    (same : input.length ≤ rest.length) : input = [] := by
  cases input with
  | nil => rfl
  | cons byte tail =>
    have shorter : rest.length ≤ tail.length := by
      rw [decode_run] at read
      cases tagged : Tag.ofByte byte with
      | none =>
        rw [tagged] at read
        cases read
        exact Nat.le_refl _
      | some tag =>
        rw [tagged] at read
        exact (framed_tagged deps tag).refused tail e rest read
    rw [List.length_cons] at same
    omega

theorem padding_refused (padding : Nat) :
    ∃ e rest, (Entry.decodeFrom deps).run (List.replicate padding 0) = .error e rest := by
  cases padding with
  | zero => exact ⟨_, _, rfl⟩
  | succ padding =>
    rw [List.replicate_succ, decode_run]
    exact ⟨_, _, rfl⟩

def Entry.IsEnd : Entry → Prop
  | .endMarker _ => True
  | _ => False

theorem tagged_not_end (tag : Tag) (other : tag ≠ .endMarker) : Returns (Entry.decodeTagged deps tag) (¬ ·.IsEnd) := by
  cases tag with
  | endMarker => exact absurd rfl other
  | start => exact returns_bind _ _ _ fun _ => returns_bind _ _ _ fun _ => returns_pure _ _ id
  | clear => exact returns_bind _ _ _ fun _ => returns_pure _ _ id
  | item =>
    refine returns_bind _ _ _ fun _ => returns_bind _ _ _ fun _ => returns_bind _ _ _ fun _ => returns_bind _ _ _ fun _ => ?_
    refine returns_bind _ _ _ fun _ => returns_bind _ _ _ fun _ => returns_bind _ _ _ fun _ => returns_bind _ _ _ fun _ => ?_
    exact returns_pure _ _ id

def Entry.tag : Entry → Tag
  | .start _ _ => .start
  | .item _ _ _ _ _ => .item
  | .endMarker _ => .endMarker
  | .clear _ => .clear

theorem encode_tag (entry : Entry) : ∃ rest, entry.encodeInto deps = entry.tag.toByte :: rest := by
  cases entry <;> exact ⟨_, rfl⟩

theorem tag_of_byte (tag : Tag) : Tag.ofByte tag.toByte = some tag := by
  cases tag <;> rfl

theorem torn_entry_not_end (entry torn : Entry) (other : ¬ entry.IsEnd) (cut padding : Nat) (rest : Bytes)
    (read : (Entry.decodeFrom deps).run ((entry.encodeInto deps).take cut ++ List.replicate padding 0) = .ok torn rest) :
    ¬ torn.IsEnd := by
  cases cut with
  | zero =>
    obtain ⟨e, left, refused⟩ := padding_refused deps padding
    rw [List.take_zero, List.nil_append, refused] at read
    cases read
  | succ cut =>
    obtain ⟨more, encoded⟩ := encode_tag deps entry
    rw [encoded, List.take_succ_cons, List.cons_append, decode_run, tag_of_byte] at read
    refine tagged_not_end deps entry.tag ?_ _ torn rest read
    cases entry <;> simp_all [Entry.tag, Entry.IsEnd]

theorem end_read_back (input rest : Bytes) (entry : Entry)
    (read : (Entry.decodeTagged deps .endMarker).run input = .ok entry rest) :
    ∃ checksum : Bytes, checksum.length = 8 ∧ input = checksum ++ (magicBytes ++ rest) := by
  obtain ⟨checksum, afterChecksum, checksumRead, afterRead⟩ := decoder_bind_ok _ _ _ _ _ read
  obtain ⟨number, left, numberRead, returned⟩ := decoder_bind_ok _ _ _ _ _ checksumRead
  cases returned
  obtain ⟨bytes, rfl, length⟩ := read_le_ok _ _ _ _ _ numberRead
  obtain ⟨magic, afterMagic, magicRead, checked⟩ := decoder_bind_ok _ _ _ _ _ afterRead
  obtain ⟨rfl, _⟩ := read_exact_ok _ _ _ _ _ magicRead
  dsimp only at checked
  by_cases trailer : magic = magicBytes
  · subst trailer
    cases checked
    exact ⟨bytes, length, rfl⟩
  · rw [if_pos trailer] at checked
    cases checked

-- The trailer ends in a byte that padding cannot supply.
theorem torn_end_refused (checksum : UInt64) (cut padding : Nat) (short : cut < ((Entry.endMarker checksum).encodeInto deps).length) :
    ∃ e rest, (Entry.decodeFrom deps).run
      (((Entry.endMarker checksum).encodeInto deps).take cut ++ List.replicate padding 0) = .error e rest := by
  cases cut with
  | zero => exact padding_refused deps padding
  | succ cut =>
    have tagged : ((Entry.endMarker checksum).encodeInto deps).take (cut + 1) ++ List.replicate padding 0 =
        Tag.endMarker.toByte :: ((leBytes 8 checksum.toNat ++ magicBytes).take cut ++ List.replicate padding 0) := rfl
    have bound : cut ≤ 11 := by
      simp only [Entry.encodeInto, List.length_append, le_bytes_length, magicBytes,
        List.length_cons, List.length_nil] at short
      omega
    rw [tagged, decode_run]
    change ∃ e rest, (Entry.decodeTagged deps .endMarker).run _ = .error e rest
    cases read : (Entry.decodeTagged deps .endMarker).run
        ((leBytes 8 checksum.toNat ++ magicBytes).take cut ++ List.replicate padding 0) with
    | error e rest => exact ⟨e, rest, rfl⟩
    | ok entry rest =>
      obtain ⟨bytes, length, split⟩ := end_read_back deps _ rest entry read
      have last := congrArg (fun bytes : Bytes => bytes[11]?) split
      rw [List.getElem?_append_right (by rw [List.length_take]; omega), List.getElem?_append_right (by omega), length,
        List.getElem?_append_left (by decide), List.getElem?_replicate] at last
      split at last <;> cases last

end OmryaKv.Journal
