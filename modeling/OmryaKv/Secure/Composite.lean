import OmryaKv.Types
import OmryaKv.Lib.Run
import OmryaKv.Lib.OrderedCode
import OmryaKv.Lib.ByteOrder
import OmryaKv.Tx.ConflictManager

set_option autoImplicit false

namespace OmryaKv.Secure

open Lib

-- The errors the secure modules raise themselves, and those a provider or the
-- keyspace below may hand up to them.
inductive Error where
  | storage
  | io
  | invalidCompositeKey (message : String)
  | invalidVisibilityExpression (message : String)
  | permissionDenied (permission : String)
  | crypto (message : String)
  | audit (message : String)
  | invalidPolicy (message : String)
  | poisoned
  | keyspaceDeleted
deriving DecidableEq

abbrev KeyBounds := Tx.Bound UserKey × Tx.Bound UserKey

def formatVersion : Byte := 1

def fieldTerminator : Byte := 0

def fieldEscape : Byte := 1

def escapedZero : Byte := 1

def escapedOne : Byte := 2

def encodedTimestampLen : Nat := 8

def maxUserKeyLen : Nat := 65535

structure CompositeKey where
  row : Bytes
  family : Bytes
  qualifier : Bytes
  visibility : Bytes
  timestamp : Int64
deriving DecidableEq

structure CompositePrefix where
  row : Option Bytes
  family : Option Bytes
  qualifier : Option Bytes
  visibility : Option Bytes
deriving DecidableEq

def validateEncodedLen (len : Nat) : Except Error Unit :=
  if len > maxUserKeyLen then
    .error (.invalidCompositeKey "encoded composite key exceeds Fjall's user-key length limit")
  else .ok ()

def escape (byte : Byte) : Bytes :=
  if byte = fieldTerminator then [fieldEscape, escapedZero]
  else if byte = fieldEscape then [fieldEscape, escapedOne]
  else [byte]

def encodeField (field encoded : Bytes) : Bytes :=
  field.foldl (fun encoded byte => encoded ++ escape byte) encoded ++ [fieldTerminator]

def encodePrefixFields (fields : List Bytes) : Bytes :=
  fields.foldl (fun encoded field => encodeField field encoded) [formatVersion]

def decodeFieldLoop (decoded : Bytes) : Bytes → Except Error (Bytes × Bytes)
  | [] => .error (.invalidCompositeKey "unterminated composite key field")
  | byte :: tail =>
    if byte = fieldTerminator then .ok (decoded, tail)
    else if byte = fieldEscape then
      match tail with
      | [] => .error (.invalidCompositeKey "unterminated field escape")
      | escaped :: next =>
        if escaped = escapedZero then decodeFieldLoop (decoded ++ [fieldTerminator]) next
        else if escaped = escapedOne then decodeFieldLoop (decoded ++ [fieldEscape]) next
        else .error (.invalidCompositeKey "invalid field escape")
    else decodeFieldLoop (decoded ++ [byte]) tail

def decodeField (remaining : Bytes) : Except Error (Bytes × Bytes) := decodeFieldLoop [] remaining

def encodeDescendingTimestamp (timestamp : Int64) : Bytes :=
  let ascending := timestamp.toUInt64 ^^^ 0x8000000000000000
  beBytes encodedTimestampLen (~~~ ascending).toNat

def decodeDescendingTimestamp (encoded : Bytes) : Int64 :=
  let descending := UInt64.ofNat (beNat encoded)
  let ascending := ~~~ descending
  (ascending ^^^ 0x8000000000000000).toInt64

namespace CompositeKey

def encode (key : CompositeKey) : Except Error UserKey := do
  let encoded := encodePrefixFields [key.row, key.family, key.qualifier, key.visibility] ++
    encodeDescendingTimestamp key.timestamp
  validateEncodedLen encoded.length
  return encoded

def decode : Bytes → Except Error CompositeKey
  | [] => .error (.invalidCompositeKey "missing composite key version")
  | version :: rest =>
    if version ≠ formatVersion then .error (.invalidCompositeKey "unsupported composite key version")
    else do
      let (row, rest) ← decodeField rest
      let (family, rest) ← decodeField rest
      let (qualifier, rest) ← decodeField rest
      let (visibility, rest) ← decodeField rest
      if rest.length ≠ encodedTimestampLen then
        .error (.invalidCompositeKey "composite key timestamp must be exactly 8 bytes")
      else return ⟨row, family, qualifier, visibility, decodeDescendingTimestamp rest⟩

end CompositeKey

def CompositePrefix.fields (pfx : CompositePrefix) : Except Error (List Bytes) :=
  match pfx.row, pfx.family, pfx.qualifier, pfx.visibility with
  | none, none, none, none => .ok []
  | some row, none, none, none => .ok [row]
  | some row, some family, none, none => .ok [row, family]
  | some row, some family, some qualifier, none => .ok [row, family, qualifier]
  | some row, some family, some qualifier, some visibility => .ok [row, family, qualifier, visibility]
  | _, _, _, _ => .error (.invalidCompositeKey "composite prefix fields must be contiguous")

-- prefixToRange is lsm_tree's prefix_to_range.
def CompositePrefix.range (prefixToRange : UserKey → KeyBounds) (pfx : CompositePrefix) :
    Except Error KeyBounds := do
  let fields ← pfx.fields
  let encoded := encodePrefixFields fields
  validateEncodedLen encoded.length
  return prefixToRange encoded

def fieldCode (field : Bytes) : Bytes := field.flatMap escape ++ [fieldTerminator]

theorem encode_field_eq (field encoded : Bytes) : encodeField field encoded = encoded ++ fieldCode field := by
  unfold encodeField fieldCode
  induction field generalizing encoded with
  | nil => rfl
  | cons byte field ih => rw [List.foldl_cons, ih, List.flatMap_cons, List.append_assoc, List.append_assoc]

theorem encode_prefix_fields_eq (fields : List Bytes) : encodePrefixFields fields = formatVersion :: fields.flatMap fieldCode := by
  suffices grown : ∀ encoded : Bytes,
      fields.foldl (fun encoded field => encodeField field encoded) encoded = encoded ++ fields.flatMap fieldCode from
    grown [formatVersion]
  induction fields with
  | nil => simp
  | cons field fields ih =>
    intro encoded
    rw [List.foldl_cons, ih, encode_field_eq, List.flatMap_cons, List.append_assoc]

theorem low_compare (byte : Byte) (notZero : byte ≠ 0) (notOne : byte ≠ 1) : compare 0 byte = .lt ∧ compare 1 byte = .lt := by
  have zero : byte.toNat ≠ 0 := fun same => notZero (UInt8.toNat_inj.mp same)
  have one : byte.toNat ≠ 1 := fun same => notOne (UInt8.toNat_inj.mp same)
  rw [compare_byte, compare_byte, Nat.compare_eq_lt, Nat.compare_eq_lt, UInt8.toNat_zero, UInt8.toNat_one]
  omega

theorem escape_plain (byte : Byte) (notZero : byte ≠ 0) (notOne : byte ≠ 1) : escape byte = [byte] := by
  rw [escape, fieldTerminator, if_neg notZero, fieldEscape, if_neg notOne]

theorem escape_sorts : Sorts escape compare := by
  intro a b x y
  have zero : escape 0 = [1, 1] := rfl
  have one : escape 1 = [1, 2] := rfl
  have first : compare (0 : Byte) 1 = .lt ∧ compare (1 : Byte) 0 = .gt := by decide
  have second : compare (1 : Byte) 2 = .lt ∧ compare (2 : Byte) 1 = .gt := by decide
  have high : ∀ byte : Byte, byte ≠ 0 → byte ≠ 1 → compare byte 0 = .gt ∧ compare byte 1 = .gt := fun byte notZero notOne =>
    (low_compare byte notZero notOne).imp Std.OrientedCmp.gt_of_lt Std.OrientedCmp.gt_of_lt
  by_cases aZero : a = 0
  · subst aZero
    by_cases bZero : b = 0
    · simp [bZero, zero, List.compare_cons_cons]
    · by_cases bOne : b = 1
      · simp [bOne, zero, one, List.compare_cons_cons, first, second]
      · simp [zero, escape_plain b bZero bOne, List.compare_cons_cons, low_compare b bZero bOne]
  · by_cases aOne : a = 1
    · subst aOne
      by_cases bZero : b = 0
      · simp [bZero, zero, one, List.compare_cons_cons, first, second]
      · by_cases bOne : b = 1
        · simp [bOne, one, List.compare_cons_cons]
        · simp [one, escape_plain b bZero bOne, List.compare_cons_cons, low_compare b bZero bOne]
    · rw [escape_plain a aZero aOne]
      by_cases bZero : b = 0
      · simp [bZero, zero, List.compare_cons_cons, high a aZero aOne]
      · by_cases bOne : b = 1
        · simp [bOne, one, List.compare_cons_cons, high a aZero aOne]
        · simp [escape_plain b bZero bOne, List.compare_cons_cons]

theorem field_code_sorts : Sorts fieldCode compare := by
  refine sorts_terminated escape fieldTerminator escape_sorts ?_
  intro byte
  by_cases zero : byte = 0
  · exact ⟨1, [1], by rw [zero]; rfl, by decide⟩
  · by_cases one : byte = 1
    · exact ⟨1, [2], by rw [one]; rfl, by decide⟩
    · exact ⟨byte, [], escape_plain byte zero one, (low_compare byte zero one).1⟩

theorem descending_value (timestamp : Int64) :
    ((~~~ (timestamp.toUInt64 ^^^ 0x8000000000000000)).toNat : Int) = 2 ^ 63 - 1 - timestamp.toInt := by
  have signed : timestamp.toInt = if 2 * timestamp.toUInt64.toNat < 2 ^ 64 then (timestamp.toUInt64.toNat : Int)
      else timestamp.toUInt64.toNat - 2 ^ 64 := BitVec.toInt_eq_toNat_cond _
  have bounded := timestamp.toUInt64.toNat_lt
  have flipped := xor_top_bit 63 timestamp.toUInt64.toNat bounded
  have sign : (0x8000000000000000 : UInt64).toNat = 2 ^ 63 := rfl
  have size : UInt64.size = 2 ^ 64 := rfl
  rw [UInt64.toNat_not, UInt64.toNat_xor, sign, flipped, signed, size]
  split <;> split <;> omega

theorem descending_fits (timestamp : Int64) : (~~~ (timestamp.toUInt64 ^^^ 0x8000000000000000)).toNat < 256 ^ encodedTimestampLen :=
  UInt64.toNat_lt _

theorem timestamp_sorts : Sorts encodeDescendingTimestamp (fun a b => compare b.toInt a.toInt) := by
  refine sorts_fixed_length encodeDescendingTimestamp _ encodedTimestampLen (fun _ => be_bytes_length _ _) ?_
  intro a b
  have aValue := descending_value a
  have bValue := descending_value b
  change compare (beBytes _ _) (beBytes _ _) = _
  rw [compare_be_bytes _ _ _ (descending_fits a) (descending_fits b), Nat.compare_eq_ite_lt, Int.compare_eq_ite_lt]
  congr 1
  · rw [eq_iff_iff]
    omega
  · congr 1
    rw [eq_iff_iff]
    omega

theorem decode_encode_timestamp (timestamp : Int64) :
    decodeDescendingTimestamp (encodeDescendingTimestamp timestamp) = timestamp := by
  rw [encodeDescendingTimestamp, decodeDescendingTimestamp, be_nat_be_bytes _ _ (descending_fits timestamp), UInt64.ofNat_toNat,
    UInt64.not_not, UInt64.xor_assoc, UInt64.xor_self, UInt64.xor_zero, Int64.toInt64_toUInt64]

theorem encode_decode_timestamp (encoded : Bytes) (length : encoded.length = encodedTimestampLen) :
    encodeDescendingTimestamp (decodeDescendingTimestamp encoded) = encoded := by
  have fits := be_nat_lt encoded
  rw [length] at fits
  rw [decodeDescendingTimestamp, encodeDescendingTimestamp, UInt64.toUInt64_toInt64, UInt64.xor_assoc, UInt64.xor_self,
    UInt64.xor_zero, UInt64.not_not, UInt64.toNat_ofNat_of_lt' fits, ← length, be_bytes_be_nat]

theorem validate_encoded_len_iff (len : Nat) : validateEncodedLen len = .ok () ↔ len ≤ maxUserKeyLen := by
  unfold validateEncodedLen
  split
  · next long => exact ⟨nofun, fun short => absurd long (Nat.not_lt.mpr short)⟩
  · next short => exact ⟨fun _ => Nat.not_lt.mp short, fun _ => rfl⟩

theorem field_code_cons (byte : Byte) (field : Bytes) : fieldCode (byte :: field) = escape byte ++ fieldCode field := by
  simp [fieldCode]

theorem field_code_length (field : Bytes) : field.length < (fieldCode field).length := by
  induction field with
  | nil => exact Nat.one_pos
  | cons byte field ih =>
    have some : 0 < (escape byte).length := by
      unfold escape
      split
      · exact Nat.two_pos
      · split
        · exact Nat.two_pos
        · exact Nat.one_pos
    rw [field_code_cons, List.length_append, List.length_cons]
    omega

theorem decode_field_loop_code (decoded field rest : Bytes) :
    decodeFieldLoop decoded (fieldCode field ++ rest) = .ok (decoded ++ field, rest) := by
  induction field generalizing decoded with
  | nil =>
    change decodeFieldLoop decoded (fieldTerminator :: rest) = _
    rw [decodeFieldLoop.eq_def, List.append_nil]
    simp only [if_true]
  | cons byte field ih =>
    rw [field_code_cons, List.append_assoc]
    have grown : decoded ++ byte :: field = decoded ++ [byte] ++ field := by simp
    rw [grown, ← ih (decoded ++ [byte])]
    by_cases zero : byte = 0
    · rw [zero]
      rfl
    · by_cases one : byte = 1
      · rw [one]
        rfl
      · rw [escape_plain byte zero one, List.singleton_append, decodeFieldLoop.eq_def, fieldTerminator, fieldEscape]
        simp only [if_neg zero, if_neg one]

theorem decode_field_loop_ok (decoded input field rest : Bytes) (read : decodeFieldLoop decoded input = .ok (field, rest)) :
    ∃ more, field = decoded ++ more ∧ input = fieldCode more ++ rest := by
  fun_induction decodeFieldLoop decoded input with
  | case1 decoded => cases read
  | case2 decoded tail =>
    cases read
    exact ⟨[], by simp, rfl⟩
  | case3 decoded => cases read
  | case4 decoded next _ ih =>
    obtain ⟨more, rfl, rfl⟩ := ih read
    exact ⟨fieldTerminator :: more, by simp, by rw [field_code_cons]; rfl⟩
  | case5 decoded next _ _ ih =>
    obtain ⟨more, rfl, rfl⟩ := ih read
    exact ⟨fieldEscape :: more, by simp, by rw [field_code_cons]; rfl⟩
  | case6 => cases read
  | case7 decoded byte tail notZero notOne ih =>
    obtain ⟨more, rfl, rfl⟩ := ih read
    exact ⟨byte :: more, by simp, by rw [field_code_cons, escape_plain byte notZero notOne]; rfl⟩

theorem decode_field_iff (input field rest : Bytes) :
    decodeField input = .ok (field, rest) ↔ input = fieldCode field ++ rest := by
  constructor
  · intro read
    obtain ⟨more, rfl, split⟩ := decode_field_loop_ok [] input field rest read
    exact split
  · rintro rfl
    exact decode_field_loop_code [] field rest

namespace CompositeKey

def bytes (key : CompositeKey) : Bytes :=
  formatVersion :: (fieldCode key.row ++ (fieldCode key.family ++ (fieldCode key.qualifier ++ (fieldCode key.visibility ++
    encodeDescendingTimestamp key.timestamp))))

theorem encode_iff (key : CompositeKey) (encoded : Bytes) :
    key.encode = .ok encoded ↔ encoded = key.bytes ∧ key.bytes.length ≤ maxUserKeyLen := by
  have whole : encodePrefixFields [key.row, key.family, key.qualifier, key.visibility] ++
      encodeDescendingTimestamp key.timestamp = key.bytes := by
    simp [encode_prefix_fields_eq, bytes]
  unfold encode
  rw [whole]
  constructor
  · intro completed
    obtain ⟨_, valid, returned⟩ := except_bind_ok _ _ _ completed
    cases returned
    exact ⟨rfl, (validate_encoded_len_iff _).mp valid⟩
  · rintro ⟨rfl, short⟩
    change (validateEncodedLen key.bytes.length >>= fun _ => pure key.bytes) = _
    rw [(validate_encoded_len_iff _).mpr short]
    rfl

theorem decode_iff (encoded : Bytes) (key : CompositeKey) : decode encoded = .ok key ↔ encoded = key.bytes := by
  constructor
  · intro read
    cases encoded with
    | nil => cases read
    | cons version rest =>
      rw [decode] at read
      split at read
      · cases read
      · next supported =>
          obtain ⟨⟨row, rest⟩, rowRead, read⟩ := except_bind_ok _ _ _ read
          obtain ⟨⟨family, rest⟩, familyRead, read⟩ := except_bind_ok _ _ _ read
          obtain ⟨⟨qualifier, rest⟩, qualifierRead, read⟩ := except_bind_ok _ _ _ read
          obtain ⟨⟨visibility, rest⟩, visibilityRead, read⟩ := except_bind_ok _ _ _ read
          dsimp only at read
          split at read
          · cases read
          · next length =>
              cases read
              rw [decode_field_iff] at rowRead familyRead qualifierRead visibilityRead
              rw [bytes, encode_decode_timestamp _ (not_not.mp length), ← visibilityRead, ← qualifierRead, ← familyRead,
                ← rowRead, not_not.mp supported]
  · rintro rfl
    have field := fun field rest => (decode_field_iff (fieldCode field ++ rest) field rest).mpr rfl
    have length : (encodeDescendingTimestamp key.timestamp).length = encodedTimestampLen := be_bytes_length _ _
    rw [bytes, decode, if_neg (not_not.mpr rfl)]
    simp only [field, bind, Except.bind, length, ne_eq, not_true, if_false, decode_encode_timestamp]
    rfl

theorem bytes_injective (a b : CompositeKey) (same : a.bytes = b.bytes) : a = b := by
  have read := (decode_iff a.bytes a).mpr rfl
  rw [same, (decode_iff b.bytes b).mpr rfl] at read
  exact (Except.ok.inj read).symm

-- Row, family, qualifier and visibility ascending, then the newer version first.
def cmpLogical (left right : CompositeKey) : Ordering :=
  (compare left.row right.row).then ((compare left.family right.family).then
    ((compare left.qualifier right.qualifier).then ((compare left.visibility right.visibility).then
      (compare right.timestamp.toInt left.timestamp.toInt))))

theorem bytes_prefix_free (a b : CompositeKey) (inside : a.bytes <+: b.bytes) : a = b := by
  have cancel := sorts_prefix fieldCode compare field_code_sorts fun _ _ => Std.LawfulEqCmp.eq_of_compare
  have lengths : (encodeDescendingTimestamp a.timestamp).length = (encodeDescendingTimestamp b.timestamp).length := by
    rw [encodeDescendingTimestamp, encodeDescendingTimestamp, be_bytes_length, be_bytes_length]
  rw [bytes, bytes, List.cons_prefix_cons, cancel, cancel, cancel, cancel] at inside
  obtain ⟨_, row, family, qualifier, visibility, timestamps⟩ := inside
  apply bytes_injective
  rw [bytes, bytes, row, family, qualifier, visibility, timestamps.eq_of_length lengths]

theorem compare_bytes (a b : CompositeKey) : compare a.bytes b.bytes = cmpLogical a b := by
  have last := timestamp_sorts a.timestamp b.timestamp [] []
  have nothing : compare ([] : Bytes) [] = .eq := rfl
  rw [List.append_nil, List.append_nil, nothing, Ordering.then_eq] at last
  rw [bytes, bytes, List.compare_cons_cons, field_code_sorts, field_code_sorts, field_code_sorts, field_code_sorts, last]
  rfl

theorem encoded_order_is_logical (a b : CompositeKey) (encodedA encodedB : UserKey) (aEncoded : a.encode = .ok encodedA)
    (bEncoded : b.encode = .ok encodedB) : compare encodedA encodedB = cmpLogical a b := by
  rw [((encode_iff a encodedA).mp aEncoded).1, ((encode_iff b encodedB).mp bEncoded).1, compare_bytes]

theorem escaped_row_sorts_before_longer_row :
    compare ([1, 1, 1, 0, 0, 0, 0, 127, 255, 255, 255, 255, 255, 255, 255] : UserKey)
      [1, 1, 1, 2, 0, 0, 0, 0, 127, 255, 255, 255, 255, 255, 255, 255] =
        cmpLogical ⟨[0], [], [], [], 0⟩ ⟨[0, 2], [], [], [], 0⟩ ∧
      cmpLogical ⟨[0], [], [], [], 0⟩ ⟨[0, 2], [], [], [], 0⟩ = .lt :=
  ⟨encoded_order_is_logical ⟨[0], [], [], [], 0⟩ ⟨[0, 2], [], [], [], 0⟩ _ _ (by decide) (by decide), by decide⟩

theorem decode_field_error (input : Bytes) (e : Error) (refused : decodeField input = .error e) :
    ∃ message, e = .invalidCompositeKey message := by
  unfold decodeField at refused
  generalize ([] : Bytes) = decoded at refused
  fun_induction decodeFieldLoop decoded input with
  | case1 decoded => exact ⟨_, (Except.error.inj refused).symm⟩
  | case2 decoded tail => cases refused
  | case3 decoded => exact ⟨_, (Except.error.inj refused).symm⟩
  | case4 decoded next _ ih => exact ih refused
  | case5 decoded next _ _ ih => exact ih refused
  | case6 => exact ⟨_, (Except.error.inj refused).symm⟩
  | case7 decoded byte tail _ _ ih => exact ih refused

theorem decode_error (encoded : Bytes) (e : Error) (refused : decode encoded = .error e) :
    ∃ message, e = .invalidCompositeKey message := by
  cases encoded with
  | nil => exact ⟨_, (Except.error.inj refused).symm⟩
  | cons version rest =>
    rw [decode] at refused
    split at refused
    · exact ⟨_, (Except.error.inj refused).symm⟩
    · rcases except_bind_error _ _ _ refused with failed | ⟨_, _, refused⟩
      · exact decode_field_error _ e failed
      rcases except_bind_error _ _ _ refused with failed | ⟨_, _, refused⟩
      · exact decode_field_error _ e failed
      rcases except_bind_error _ _ _ refused with failed | ⟨_, _, refused⟩
      · exact decode_field_error _ e failed
      rcases except_bind_error _ _ _ refused with failed | ⟨_, _, refused⟩
      · exact decode_field_error _ e failed
      dsimp only at refused
      split at refused
      · exact ⟨_, (Except.error.inj refused).symm⟩
      · cases refused

theorem decode_rejects (encoded : Bytes) (foreign : ∀ key : CompositeKey, encoded ≠ key.bytes) :
    ∃ message, decode encoded = .error (.invalidCompositeKey message) := by
  cases outcome : decode encoded with
  | ok key => exact absurd ((decode_iff encoded key).mp outcome) (foreign key)
  | error e =>
    obtain ⟨message, rfl⟩ := decode_error encoded e outcome
    exact ⟨message, rfl⟩

-- What is rejected: anything but an encoding, and with it every encoding that
-- was cut short or has something behind it.
theorem composite_codec_bijective (key : CompositeKey) (encoded : Bytes) :
    (key.encode = .ok encoded → decode encoded = .ok key) ∧
      (encoded.length ≤ maxUserKeyLen → decode encoded = .ok key → key.encode = .ok encoded) ∧
      (∀ other, decode encoded = .ok key → decode other = .ok key → other = encoded) ∧
      (encoded.length ≤ maxUserKeyLen → (∀ origin : CompositeKey, origin.encode ≠ .ok encoded) →
        ∃ message, decode encoded = .error (.invalidCompositeKey message)) ∧
      (key.encode = .ok encoded → ∀ length < encoded.length,
        ∃ message, decode (encoded.take length) = .error (.invalidCompositeKey message)) ∧
      (key.encode = .ok encoded → ∀ extra ≠ [],
        ∃ message, decode (encoded ++ extra) = .error (.invalidCompositeKey message)) := by
  refine ⟨?_, ?_, ?_, ?_, ?_, ?_⟩
  · intro completed
    exact (decode_iff encoded key).mpr ((encode_iff key encoded).mp completed).1
  · intro short read
    have same := (decode_iff encoded key).mp read
    exact (encode_iff key encoded).mpr ⟨same, same ▸ short⟩
  · intro other read otherRead
    rw [(decode_iff encoded key).mp read, (decode_iff other key).mp otherRead]
  · intro short foreign
    apply decode_rejects
    rintro origin rfl
    exact foreign origin ((encode_iff origin _).mpr ⟨rfl, short⟩)
  · intro completed length cut
    rw [((encode_iff key encoded).mp completed).1] at cut ⊢
    apply decode_rejects
    intro origin same
    have taken : origin.bytes <+: key.bytes := same ▸ List.take_prefix length key.bytes
    rw [bytes_prefix_free origin key taken] at same
    have shorter := congrArg List.length same
    rw [List.length_take] at shorter
    omega
  · intro completed extra some
    rw [((encode_iff key encoded).mp completed).1]
    apply decode_rejects
    intro origin same
    have extended : key.bytes <+: origin.bytes := ⟨extra, same⟩
    rw [← bytes_prefix_free key origin extended] at same
    exact some (List.append_right_eq_self.mp same)

theorem escaped_key_round_trips :
    (⟨[0, 1, 254, 255], [102, 0], [1], [255, 0], -1⟩ : CompositeKey).encode =
        .ok [1, 1, 1, 1, 2, 254, 255, 0, 102, 1, 1, 0, 1, 2, 0, 255, 1, 1, 0, 128, 0, 0, 0, 0, 0, 0, 0] ∧
      decode [1, 1, 1, 1, 2, 254, 255, 0, 102, 1, 1, 0, 1, 2, 0, 255, 1, 1, 0, 128, 0, 0, 0, 0, 0, 0, 0] =
        .ok ⟨[0, 1, 254, 255], [102, 0], [1], [255, 0], -1⟩ :=
  ⟨by decide, (composite_codec_bijective _ _).1 (by decide)⟩

end CompositeKey

namespace CompositePrefix

def Matches (pfx : CompositePrefix) (key : CompositeKey) : Prop :=
  (∀ row, pfx.row = some row → key.row = row) ∧ (∀ family, pfx.family = some family → key.family = family) ∧
    (∀ qualifier, pfx.qualifier = some qualifier → key.qualifier = qualifier) ∧
    ∀ visibility, pfx.visibility = some visibility → key.visibility = visibility

theorem fields_prefix (supplied fields : List Bytes) (rest : Bytes) (more : supplied.length ≤ fields.length) :
    supplied.flatMap fieldCode <+: fields.flatMap fieldCode ++ rest ↔ supplied <+: fields := by
  induction supplied generalizing fields with
  | nil => simp
  | cons field supplied ih =>
    cases fields with
    | nil => cases more
    | cons other fields =>
      rw [List.flatMap_cons, List.flatMap_cons, List.append_assoc,
        sorts_prefix fieldCode compare field_code_sorts fun _ _ => Std.LawfulEqCmp.eq_of_compare,
        ih fields (Nat.le_of_succ_le_succ more), List.cons_prefix_cons]

variable (pfx : CompositePrefix)

theorem fields_match (supplied : List Bytes) (given : pfx.fields = .ok supplied) (key : CompositeKey) :
    supplied.length ≤ 4 ∧ (supplied <+: [key.row, key.family, key.qualifier, key.visibility] ↔ pfx.Matches key) := by
  obtain ⟨row, family, qualifier, visibility⟩ := pfx
  unfold CompositePrefix.fields at given
  split at given
  all_goals cases given
  all_goals rename_i rowGiven familyGiven qualifierGiven visibilityGiven
  all_goals simp only at rowGiven familyGiven qualifierGiven visibilityGiven
  all_goals subst rowGiven familyGiven qualifierGiven visibilityGiven
  all_goals simp [Matches, List.cons_prefix_cons, eq_comm]

variable (prefixToRange : UserKey → KeyBounds)

theorem range_ok (bounds : KeyBounds) (ranged : pfx.range prefixToRange = .ok bounds) :
    ∃ supplied, pfx.fields = .ok supplied ∧ bounds = prefixToRange (formatVersion :: supplied.flatMap fieldCode) := by
  obtain ⟨supplied, given, ranged⟩ := except_bind_ok _ _ _ ranged
  obtain ⟨_, _, returned⟩ := except_bind_ok _ _ _ ranged
  cases returned
  exact ⟨supplied, given, by rw [encode_prefix_fields_eq]⟩

theorem bytes_prefix_iff (supplied : List Bytes) (given : pfx.fields = .ok supplied) (key : CompositeKey) :
    (formatVersion :: supplied.flatMap fieldCode) <+: key.bytes ↔ pfx.Matches key := by
  obtain ⟨few, matching⟩ := pfx.fields_match supplied given key
  have whole : key.bytes = formatVersion :: ([key.row, key.family, key.qualifier, key.visibility].flatMap fieldCode ++
      encodeDescendingTimestamp key.timestamp) := by
    simp [CompositeKey.bytes]
  rw [whole, List.cons_prefix_cons, fields_prefix _ _ _ few, matching]
  simp

theorem range_selects (exactly : ∀ pfx key, Tx.inRange (prefixToRange pfx).1 (prefixToRange pfx).2 key = true ↔ pfx <+: key)
    (pfx : CompositePrefix) (bounds : KeyBounds) (ranged : pfx.range prefixToRange = .ok bounds)
    (key : CompositeKey) : Tx.inRange bounds.1 bounds.2 key.bytes = true ↔ pfx.Matches key := by
  obtain ⟨supplied, given, rfl⟩ := pfx.range_ok prefixToRange bounds ranged
  rw [exactly, bytes_prefix_iff pfx supplied given]

theorem prefix_range_selects_matching (prefixToRange : UserKey → KeyBounds)
    (exactly : ∀ pfx key, Tx.inRange (prefixToRange pfx).1 (prefixToRange pfx).2 key = true ↔ pfx <+: key)
    (pfx : CompositePrefix) (bounds : KeyBounds) (ranged : pfx.range prefixToRange = .ok bounds)
    (key : CompositeKey) (encoded : UserKey) (completed : key.encode = .ok encoded) :
    Tx.inRange bounds.1 bounds.2 encoded = true ↔ pfx.Matches key := by
  obtain ⟨rfl, _⟩ := (CompositeKey.encode_iff key encoded).mp completed
  exact range_selects prefixToRange exactly pfx bounds ranged key

-- Fields given from the row onward, with no gap.
def Contiguous (pfx : CompositePrefix) : Prop :=
  (pfx.row = none → pfx.family = none) ∧ (pfx.family = none → pfx.qualifier = none) ∧
    (pfx.qualifier = none → pfx.visibility = none)

def supplied (pfx : CompositePrefix) : List Bytes := [pfx.row, pfx.family, pfx.qualifier, pfx.visibility].reduceOption

theorem contiguous_fields (contiguous : pfx.Contiguous) : pfx.fields = .ok pfx.supplied := by
  obtain ⟨row, family, qualifier, visibility⟩ := pfx
  obtain ⟨familyGiven, qualifierGiven, visibilityGiven⟩ := contiguous
  cases row with
  | none =>
    cases familyGiven rfl
    cases qualifierGiven rfl
    cases visibilityGiven rfl
    rfl
  | some row =>
    cases family with
    | none =>
      cases qualifierGiven rfl
      cases visibilityGiven rfl
      rfl
    | some family =>
      cases qualifier with
      | none =>
        cases visibilityGiven rfl
        rfl
      | some qualifier => cases visibility <;> rfl

def Fits (pfx : CompositePrefix) : Prop := (encodePrefixFields pfx.supplied).length ≤ maxUserKeyLen

theorem range_total (contiguous : pfx.Contiguous) (fits : pfx.Fits) : ∃ bounds, pfx.range prefixToRange = .ok bounds := by
  rw [range, contiguous_fields pfx contiguous]
  refine ⟨prefixToRange (encodePrefixFields pfx.supplied), ?_⟩
  change (validateEncodedLen _ >>= fun _ => pure (prefixToRange (encodePrefixFields pfx.supplied))) = _
  rw [(validate_encoded_len_iff _).mpr fits]
  rfl

theorem range_refused (contiguous : pfx.Contiguous) (long : ¬ pfx.Fits) : pfx.range prefixToRange =
      .error (.invalidCompositeKey "encoded composite key exceeds Fjall's user-key length limit") := by
  have refused : validateEncodedLen (encodePrefixFields pfx.supplied).length =
      .error (.invalidCompositeKey "encoded composite key exceeds Fjall's user-key length limit") :=
    if_pos (Nat.lt_of_not_le long)
  rw [range, contiguous_fields pfx contiguous]
  change (validateEncodedLen _ >>= fun _ => pure (prefixToRange (encodePrefixFields pfx.supplied))) = _
  rw [refused]
  rfl

-- A prefix_to_range that does what its contract says.
def lsmPrefixToRange (pfx : UserKey) : KeyBounds :=
  match successor pfx with
  | some next => (.included pfx, .excluded next)
  | none => (.included pfx, .unbounded)

theorem lsm_prefix_to_range_exact (pfx key : UserKey) :
    Tx.inRange (lsmPrefixToRange pfx).1 (lsmPrefixToRange pfx).2 key = true ↔ pfx <+: key := by
  rw [prefix_iff_between, lsmPrefixToRange]
  cases successor pfx <;> simp [Tx.inRange, Tx.Bound.afterStart, Tx.Bound.beforeStop]

theorem longer_row_is_no_match :
    Tx.inRange (.included [1, 117, 0]) (.excluded [1, 117, 1]) [1, 117, 49, 0, 0, 0, 0, 127, 255, 255, 255, 255, 255, 255, 255] =
        false ∧
      ¬ Matches ⟨some [117], none, none, none⟩ ⟨[117, 49], [], [], [], 0⟩ := by
  have selected := prefix_range_selects_matching lsmPrefixToRange lsm_prefix_to_range_exact ⟨some [117], none, none, none⟩
    (.included [1, 117, 0], .excluded [1, 117, 1]) (by decide) ⟨[117, 49], [], [], [], 0⟩
    [1, 117, 49, 0, 0, 0, 0, 127, 255, 255, 255, 255, 255, 255, 255] (by decide)
  have outside : Tx.inRange (.included [1, 117, 0]) (.excluded [1, 117, 1])
      ([1, 117, 49, 0, 0, 0, 0, 127, 255, 255, 255, 255, 255, 255, 255] : UserKey) = false := by decide
  exact ⟨outside, fun matched => Bool.noConfusion (outside.symm.trans (selected.mpr matched))⟩

end CompositePrefix

end OmryaKv.Secure
