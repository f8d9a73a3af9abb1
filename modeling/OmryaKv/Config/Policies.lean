import OmryaKv.Lib.Codec
import OmryaKv.Types

set_option autoImplicit false

namespace OmryaKv.Config

open Lib

-- An error that the code returns, or a panic with its message.
inductive Failure where
  | unexpectedEof
  | invalidTag (name : String) (value : Byte)
  | io
  | panic (message : String)
deriving DecidableEq

abbrev ConfigDecoder := Decoder Failure Byte

-- A float is its bit pattern.
abbrev F32 := UInt32

-- lsm-tree limits every per-level policy to 255 entries.
structure Policy (α : Type) where
  entries : List α
  bounded : entries.length ≤ 255
deriving DecidableEq

inductive BloomConstructionPolicy where
  | bitsPerKey (bits : F32)
  | falsePositiveRate (fpr : F32)
deriving DecidableEq

inductive FilterPolicyEntry where
  | none
  | bloom (policy : BloomConstructionPolicy)
deriving DecidableEq

abbrev BlockSizePolicy := Policy UInt32
abbrev CompressionPolicy := Policy CompressionType
abbrev FilterPolicy := Policy FilterPolicyEntry
abbrev HashRatioPolicy := Policy F32
abbrev PinningPolicy := Policy Bool
abbrev PartitioningPolicy := PinningPolicy
abbrev RestartIntervalPolicy := Policy UInt8

variable {α : Type}

def Policy.new (entries : List α) : ConfigDecoder (Policy α) :=
  if bounded : entries.length ≤ 255 then return ⟨entries, bounded⟩ else throw (.panic "policy is too large")

def encodePolicy (item : α → Bytes) (policy : Policy α) : Bytes :=
  [UInt8.ofNat policy.entries.length] ++ policy.entries.flatMap item

def decodePolicy (eof : Failure) (item : ConfigDecoder α) : ConfigDecoder (Policy α) := do
  let len ← readByte eof
  let v ← readMany item len.toNat
  Policy.new v

def readU32 : ConfigDecoder UInt32 := do return UInt32.ofNat (← readLe .unexpectedEof 4)

def readU64 : ConfigDecoder UInt64 := do return UInt64.ofNat (← readLe .unexpectedEof 8)

def readF32 : ConfigDecoder F32 := readU32

def BlockSizePolicy.encode : BlockSizePolicy → Bytes := encodePolicy fun item => leBytes 4 item.toNat

def BlockSizePolicy.decode : ConfigDecoder BlockSizePolicy := decodePolicy .unexpectedEof readU32

def HashRatioPolicy.encode : HashRatioPolicy → Bytes := encodePolicy fun item => leBytes 4 item.toNat

def HashRatioPolicy.decode : ConfigDecoder HashRatioPolicy := decodePolicy .unexpectedEof readF32

def RestartIntervalPolicy.encode : RestartIntervalPolicy → Bytes := encodePolicy fun item => [item]

def RestartIntervalPolicy.decode : ConfigDecoder RestartIntervalPolicy := decodePolicy .unexpectedEof (readByte .unexpectedEof)

def PinningPolicy.encode : PinningPolicy → Bytes := encodePolicy fun item => [if item then 1 else 0]

-- A short slice is a panic here, and an error in the other policies.
def PinningPolicy.decode : ConfigDecoder PinningPolicy :=
  decodePolicy (.panic "cannot fail") do return (← readByte (.panic "cannot fail")) == 1

def FilterPolicyEntry.encode : FilterPolicyEntry → Bytes
  | .none => [0]
  | .bloom (.bitsPerKey bits) => [1] ++ ([0] ++ leBytes 4 bits.toNat)
  | .bloom (.falsePositiveRate fpr) => [1] ++ ([1] ++ leBytes 4 fpr.toNat)

def BloomConstructionPolicy.decode (policyType : Byte) : ConfigDecoder BloomConstructionPolicy :=
  match policyType with
  | 0 => do return .bitsPerKey (← readF32)
  | 1 => do return .falsePositiveRate (← readF32)
  | _ => throw (.panic ("unknown bloom filter policy type: " ++ toString policyType.toNat))

def FilterPolicyEntry.decode : ConfigDecoder FilterPolicyEntry := do
  let tag ← readByte .unexpectedEof
  match tag with
  | 0 => return .none
  | 1 => do
      let policyType ← readByte .unexpectedEof
      return .bloom (← BloomConstructionPolicy.decode policyType)
  | _ => throw (.panic ("unknown filter policy tag: " ++ toString tag.toNat))

def FilterPolicy.encode : FilterPolicy → Bytes := encodePolicy FilterPolicyEntry.encode

def FilterPolicy.decode : ConfigDecoder FilterPolicy := decodePolicy .unexpectedEof FilterPolicyEntry.decode

def CompressionPolicy.encode (encodeInto : CompressionType → Bytes) : CompressionPolicy → Bytes := encodePolicy encodeInto

def CompressionPolicy.decode (decodeFrom : ConfigDecoder CompressionType) : ConfigDecoder CompressionPolicy :=
  decodePolicy .unexpectedEof decodeFrom

theorem decodes_policy (eof : Failure) (item : ConfigDecoder α) (encode : α → Bytes) (each : ∀ a, Decodes item (encode a) a)
    (policy : Policy α) : Decodes (decodePolicy eof item) (encodePolicy encode policy) policy := by
  have length : (UInt8.ofNat policy.entries.length).toNat = policy.entries.length :=
    UInt8.toNat_ofNat_of_lt' (Nat.lt_succ_of_le policy.bounded)
  refine decodes_bind _ _ _ _ (UInt8.ofNat policy.entries.length) _ (decodes_read_byte eof _) ?_
  rw [length]
  refine decodes_last _ _ _ policy.entries _ (decodes_read_many item encode each policy.entries) ?_
  rw [Policy.new, dif_pos policy.bounded]

theorem decodes_read_u32 (n : UInt32) : Decodes readU32 (leBytes 4 n.toNat) n :=
  decodes_last _ _ _ _ _ (decodes_read_le .unexpectedEof 4 n.toNat n.toNat_lt) (by rw [UInt32.ofNat_toNat])

theorem decodes_read_u64 (n : UInt64) : Decodes readU64 (leBytes 8 n.toNat) n :=
  decodes_last _ _ _ _ _ (decodes_read_le .unexpectedEof 8 n.toNat n.toNat_lt) (by rw [UInt64.ofNat_toNat])

theorem decodes_read_f32 (n : F32) : Decodes readF32 (leBytes 4 n.toNat) n := decodes_read_u32 n

theorem decodes_block_size_policy (policy : BlockSizePolicy) : Decodes BlockSizePolicy.decode policy.encode policy :=
  decodes_policy _ _ _ decodes_read_u32 policy

theorem decodes_hash_ratio_policy (policy : HashRatioPolicy) : Decodes HashRatioPolicy.decode policy.encode policy :=
  decodes_policy _ _ _ decodes_read_f32 policy

theorem decodes_restart_interval_policy (policy : RestartIntervalPolicy) :
    Decodes RestartIntervalPolicy.decode policy.encode policy :=
  decodes_policy _ _ _ (decodes_read_byte _) policy

theorem decodes_pinning_policy (policy : PinningPolicy) : Decodes PinningPolicy.decode policy.encode policy := by
  refine decodes_policy _ _ _ (fun item => ?_) policy
  refine decodes_last _ _ _ _ _ (decodes_read_byte _ _) ?_
  cases item <;> rfl

theorem decodes_filter_policy_entry (entry : FilterPolicyEntry) : Decodes FilterPolicyEntry.decode entry.encode entry := by
  cases entry with
  | none => exact decodes_last _ _ _ 0 _ (decodes_read_byte _ 0) rfl
  | bloom policy =>
    cases policy with
    | bitsPerKey bits =>
      refine decodes_bind _ _ _ _ 1 _ (decodes_read_byte _ 1) ?_
      refine decodes_bind _ _ _ _ 0 _ (decodes_read_byte _ 0) ?_
      refine decodes_last _ _ _ (.bitsPerKey bits) _ ?_ rfl
      exact decodes_last _ _ _ bits _ (decodes_read_f32 bits) rfl
    | falsePositiveRate fpr =>
      refine decodes_bind _ _ _ _ 1 _ (decodes_read_byte _ 1) ?_
      refine decodes_bind _ _ _ _ 1 _ (decodes_read_byte _ 1) ?_
      refine decodes_last _ _ _ (.falsePositiveRate fpr) _ ?_ rfl
      exact decodes_last _ _ _ fpr _ (decodes_read_f32 fpr) rfl

theorem decodes_filter_policy (policy : FilterPolicy) : Decodes FilterPolicy.decode policy.encode policy :=
  decodes_policy _ _ _ decodes_filter_policy_entry policy

theorem decodes_compression_policy (encodeInto : CompressionType → Bytes) (decodeFrom : ConfigDecoder CompressionType)
    (roundTrips : ∀ compression, Decodes decodeFrom (encodeInto compression) compression) (policy : CompressionPolicy) :
    Decodes (CompressionPolicy.decode decodeFrom) (CompressionPolicy.encode encodeInto policy) policy :=
  decodes_policy _ _ _ roundTrips policy

end OmryaKv.Config
