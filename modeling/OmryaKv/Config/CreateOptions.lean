import OmryaKv.Config.Policies
import OmryaKv.Lib.Effect
import OmryaKv.Lib.OrderedCode

set_option autoImplicit false

namespace OmryaKv.Config

open Lib

structure KvSeparationOptions where
  compression : CompressionType
  fileTargetSize : UInt64
  separationThreshold : UInt32
  stalenessThreshold : F32
  ageCutoff : F32
deriving DecidableEq

-- Leveled and Fifo of lsm-tree, or any other implementation of the trait.
inductive CompactionStrategy where
  | leveled (l0Threshold : UInt8) (targetSize : UInt64) (levelRatioPolicy : List F32)
  | fifo (limit : UInt64) (ttlSeconds : Option UInt64)
  | other (name : String)
deriving DecidableEq

def leveledCompactionName : String := "LeveledCompaction"

def fifoCompactionName : String := "FifoCompaction"

def CompactionStrategy.getName : CompactionStrategy → String
  | .leveled _ _ _ => leveledCompactionName
  | .fifo _ _ => fifoCompactionName
  | .other name => name

-- A strategy that encode_kvs can store; the layout counts the ratios in a byte.
def CompactionStrategy.Supported : CompactionStrategy → Prop
  | .leveled _ _ levelRatioPolicy => levelRatioPolicy.length ≤ 255
  | .fifo _ _ => True
  | .other _ => False

instance supportedDecidable (strategy : CompactionStrategy) : Decidable strategy.Supported :=
  match strategy with
  | .leveled _ _ levelRatioPolicy => inferInstanceAs (Decidable (levelRatioPolicy.length ≤ 255))
  | .fifo _ _ => .isTrue trivial
  | .other _ => .isFalse id

def strategyNames : List String :=
  ["leveled_l0_threshold", "leveled_target_size", "leveled_level_ratio_policy", "fifo_limit", "fifo_ttl", "fifo_ttl_seconds"]

-- What is assumed of lsm-tree: its codec for compression types reads back what it
-- wrote, and get_config lists the parameters of the two strategies.
structure LsmTree where
  encodeInto : CompressionType → Bytes
  decodeFrom : ConfigDecoder CompressionType
  roundTrips : ∀ compression, Decodes decodeFrom (encodeInto compression) compression
  getConfig : CompactionStrategy → List (String × Bytes)
  distinct : ∀ strategy, strategy.Supported → ((getConfig strategy).map Prod.fst).Nodup
  named : ∀ strategy, strategy.Supported → ∀ kv ∈ getConfig strategy, kv.1 ∈ strategyNames
  leveled : ∀ l0Threshold targetSize levelRatioPolicy,
    ("leveled_l0_threshold", [l0Threshold]) ∈ getConfig (.leveled l0Threshold targetSize levelRatioPolicy) ∧
    ("leveled_target_size", leBytes 8 targetSize.toNat) ∈ getConfig (.leveled l0Threshold targetSize levelRatioPolicy) ∧
    ("leveled_level_ratio_policy",
      [UInt8.ofNat levelRatioPolicy.length] ++ levelRatioPolicy.flatMap fun ratio => leBytes 4 ratio.toNat) ∈
        getConfig (.leveled l0Threshold targetSize levelRatioPolicy)
  fifo : ∀ limit ttlSeconds,
    ("fifo_limit", leBytes 8 limit.toNat) ∈ getConfig (.fifo limit ttlSeconds) ∧
    ("fifo_ttl", [if ttlSeconds.isSome then 1 else 0]) ∈ getConfig (.fifo limit ttlSeconds) ∧
    ∀ seconds, ttlSeconds = some seconds → ("fifo_ttl_seconds", leBytes 8 seconds.toNat) ∈ getConfig (.fifo limit ttlSeconds)

structure CreateOptions (Factory : Type) where
  levelCount : UInt8
  maxMemtableSize : UInt64
  dataBlockHashRatioPolicy : HashRatioPolicy
  dataBlockSizePolicy : BlockSizePolicy
  dataBlockRestartIntervalPolicy : RestartIntervalPolicy
  indexBlockRestartIntervalPolicy : RestartIntervalPolicy
  indexBlockPinningPolicy : PinningPolicy
  filterBlockPinningPolicy : PinningPolicy
  filterBlockPartitioningPolicy : PartitioningPolicy
  indexBlockPartitioningPolicy : PartitioningPolicy
  expectPointReadHits : Bool
  filterPolicy : FilterPolicy
  dataBlockCompressionPolicy : CompressionPolicy
  indexBlockCompressionPolicy : CompressionPolicy
  manualJournalPersist : Bool
  compactionStrategy : CompactionStrategy
  kvSeparationOpts : Option KvSeparationOptions
  compactionFilterFactory : Option Factory
deriving DecidableEq

def utf8 (text : String) : Bytes := text.toUTF8.data.toList

def fromUtf8 (bytes : Bytes) : Option String := String.fromUTF8? ⟨bytes.toArray⟩

def encodeConfigKey (keyspaceId : UInt64) (name : String) : Bytes := [0x63] ++ (beBytes 8 keyspaceId.toNat ++ utf8 name)

namespace CreateOptions

variable {Factory : Type} (lsm : LsmTree)

-- The level count and the leveled strategy are lsm-tree's own defaults.
def default (levelCount : UInt8) (leveled : CompactionStrategy) : CreateOptions Factory where
  manualJournalPersist := false
  maxMemtableSize := 64 * 1024 * 1024
  dataBlockHashRatioPolicy := ⟨[0], by decide⟩
  dataBlockSizePolicy := ⟨[4 * 1024], by decide⟩
  dataBlockRestartIntervalPolicy := ⟨[10, 16], by decide⟩
  indexBlockRestartIntervalPolicy := ⟨[1], by decide⟩
  indexBlockPinningPolicy := ⟨[true, true, false], by decide⟩
  filterBlockPinningPolicy := ⟨[true, false], by decide⟩
  indexBlockPartitioningPolicy := ⟨[false, false, false, true], by decide⟩
  filterBlockPartitioningPolicy := ⟨[false, false, false, true], by decide⟩
  expectPointReadHits := false
  -- A rate of 0.0001, then 10.0 bits a key.
  filterPolicy := ⟨[.bloom (.falsePositiveRate 0x38d1b717), .bloom (.bitsPerKey 0x41200000)], by decide⟩
  levelCount
  dataBlockCompressionPolicy := ⟨[.none, .none, .lz4], by decide⟩
  indexBlockCompressionPolicy := ⟨[.none], by decide⟩
  compactionStrategy := leveled
  kvSeparationOpts := none
  compactionFilterFactory := none

-- What of the options can be stored: a compaction filter factory is code.
def persisted (opts : CreateOptions Factory) : CreateOptions Factory := { opts with compactionFilterFactory := none }

def baseKvs (opts : CreateOptions Factory) : List (String × Bytes) :=
  [("compaction_strategy", utf8 opts.compactionStrategy.getName),
    ("data_block_compression_policy", CompressionPolicy.encode lsm.encodeInto opts.dataBlockCompressionPolicy),
    ("data_block_hash_ratio_policy", HashRatioPolicy.encode opts.dataBlockHashRatioPolicy),
    ("data_block_restart_interval_policy", RestartIntervalPolicy.encode opts.dataBlockRestartIntervalPolicy),
    ("data_block_size_policy", BlockSizePolicy.encode opts.dataBlockSizePolicy),
    ("expect_point_read_hits", if opts.expectPointReadHits then [1] else [0]),
    ("filter_block_partitioning_policy", PinningPolicy.encode opts.filterBlockPartitioningPolicy),
    ("filter_block_pinning_policy", PinningPolicy.encode opts.filterBlockPinningPolicy),
    ("filter_policy", FilterPolicy.encode opts.filterPolicy),
    ("index_block_compression_policy", CompressionPolicy.encode lsm.encodeInto opts.indexBlockCompressionPolicy),
    ("index_block_partitioning_policy", PinningPolicy.encode opts.indexBlockPartitioningPolicy),
    ("index_block_pinning_policy", PinningPolicy.encode opts.indexBlockPinningPolicy),
    ("index_block_restart_interval_policy", RestartIntervalPolicy.encode opts.indexBlockRestartIntervalPolicy),
    ("level_count", [opts.levelCount]),
    ("manual_journal_persist", [if opts.manualJournalPersist then 1 else 0]),
    ("max_memtable_size", leBytes 8 opts.maxMemtableSize.toNat),
    ("version", [3])]

def strategyKvs (opts : CreateOptions Factory) : Except Failure (List (String × Bytes)) :=
  let name := opts.compactionStrategy.getName
  if name = "LeveledCompaction" ∨ name = "FifoCompaction" then .ok (lsm.getConfig opts.compactionStrategy)
  else .error (.panic ("Invalid/unsupported compaction strategy: " ++ name.quote))

def blobKvs (opts : CreateOptions Factory) : List (String × Bytes) :=
  match opts.kvSeparationOpts with
  | none => []
  | some blobOpts =>
    [("blob", [1]),
      ("blob_age_cutoff", leBytes 4 blobOpts.ageCutoff.toNat),
      ("blob_compression", lsm.encodeInto blobOpts.compression),
      ("blob_file_target_size", leBytes 8 blobOpts.fileTargetSize.toNat),
      ("blob_separation_threshold", leBytes 4 blobOpts.separationThreshold.toNat),
      ("blob_staleness_threshold", leBytes 4 blobOpts.stalenessThreshold.toNat)]

def encodeKvs (opts : CreateOptions Factory) (keyspaceId : UInt64) : Except Failure (List (Bytes × Bytes)) := do
  let strategy ← opts.strategyKvs lsm
  return (opts.baseKvs lsm ++ strategy ++ opts.blobKvs lsm).map fun kv => (encodeConfigKey keyspaceId kv.1, kv.2)

end CreateOptions

-- get_kv_for_config with the expect behind it.
def expectKv (read : String → Option Bytes) (name message : String) : Except Failure Bytes :=
  match read name with
  | some bytes => .ok bytes
  | none => .error (.panic message)

def decodeKv {α : Type} (read : String → Option Bytes) (name message : String) (decode : ConfigDecoder α) : Except Failure α := do
  let bytes ← expectKv read name message
  answer (decode.run bytes)

-- The closure over the blob options runs at once, but the error it returns is
-- only raised at the end. A panic does not wait.
def deferred {α : Type} : Except Failure α → Except Failure (Except Failure α)
  | .error (.panic message) => .error (.panic message)
  | result => .ok result

namespace CreateOptions

variable {Factory : Type} (lsm : LsmTree) (read : String → Option Bytes)

def readBlobOpts : Except Failure KvSeparationOptions := do
  let ageCutoff ← decodeKv read "blob_age_cutoff" "blob_age_cutoff should be defined" readF32
  let compression ← decodeKv read "blob_compression" "blob_compression should be defined" lsm.decodeFrom
  let fileTargetSize ← decodeKv read "blob_file_target_size" "blob_file_target_size should be defined" readU64
  let separationThreshold ← decodeKv read "blob_separation_threshold" "blob_separation_threshold should be defined" readU32
  let stalenessThreshold ← decodeKv read "blob_staleness_threshold" "blob_staleness_threshold should be defined" readF32
  return ⟨compression, fileTargetSize, separationThreshold, stalenessThreshold, ageCutoff⟩

def readRatios : ConfigDecoder (List F32) := do
  let len ← readByte .unexpectedEof
  readMany readF32 len.toNat

def readLeveled : Except Failure CompactionStrategy := do
  let l0Threshold ← decodeKv read "leveled_l0_threshold" "leveled_l0_threshold should be defined" (readByte .unexpectedEof)
  let targetSize ← decodeKv read "leveled_target_size" "leveled_target_size should be defined" readU64
  let ratios ← decodeKv read "leveled_level_ratio_policy" "leveled_level_ratio_policy should be defined" readRatios
  return .leveled l0Threshold targetSize ratios

def readTtlSeconds (hasTtl : Bool) : Except Failure (Option UInt64) :=
  if hasTtl then do
    let fifoTtlSeconds ← decodeKv read "fifo_ttl_seconds" "fifo_ttl_seconds should be defined" readU64
    return some fifoTtlSeconds
  else return none

def readFifo : Except Failure CompactionStrategy := do
  let fifoLimit ← decodeKv read "fifo_limit" "fifo_limit should be defined" readU64
  let hasTtl ← expectKv read "fifo_ttl" "fifo_ttl should be defined"
  let ttlSeconds ← readTtlSeconds read (decide (hasTtl = [1]))
  return .fifo fifoLimit ttlSeconds

def readStrategyNamed (name : String) : Except Failure CompactionStrategy :=
  if name = leveledCompactionName then readLeveled read
  else if name = fifoCompactionName then readFifo read
  else .error (.panic ("Invalid/unsupported compaction strategy: " ++ name.quote))

def readStrategy : Except Failure CompactionStrategy := do
  let nameBytes ← expectKv read "compaction_strategy" "compaction_strategy should be defined"
  match fromUtf8 nameBytes with
  | none => .error (.panic "compaction_strategy should be UTF-8")
  | some name => readStrategyNamed read name

def readKvs : Except Failure (CreateOptions Factory) := do
  let blob := read "blob"
  let dataBlockCompressionPolicy ←
    decodeKv read "data_block_compression_policy" "should exist" (CompressionPolicy.decode lsm.decodeFrom)
  let indexBlockCompressionPolicy ←
    decodeKv read "index_block_compression_policy" "should exist" (CompressionPolicy.decode lsm.decodeFrom)
  let dataBlockSizePolicy ← decodeKv read "data_block_size_policy" "should exist" BlockSizePolicy.decode
  let filterBlockPartitioningPolicy ← decodeKv read "filter_block_partitioning_policy" "should exist" PinningPolicy.decode
  let indexBlockPartitioningPolicy ← decodeKv read "index_block_partitioning_policy" "should exist" PinningPolicy.decode
  let filterBlockPinningPolicy ← decodeKv read "filter_block_pinning_policy" "should exist" PinningPolicy.decode
  let indexBlockPinningPolicy ← decodeKv read "index_block_pinning_policy" "should exist" PinningPolicy.decode
  let dataBlockRestartIntervalPolicy ←
    decodeKv read "data_block_restart_interval_policy" "should exist" RestartIntervalPolicy.decode
  let indexBlockRestartIntervalPolicy ←
    decodeKv read "index_block_restart_interval_policy" "should exist" RestartIntervalPolicy.decode
  let dataBlockHashRatioPolicy ← decodeKv read "data_block_hash_ratio_policy" "should exist" HashRatioPolicy.decode
  let expectPointReadHits ← expectKv read "expect_point_read_hits" "should exist"
  let filterPolicy ← decodeKv read "filter_policy" "should exist" FilterPolicy.decode
  let blobOpts ← blob.mapM fun _ => deferred (readBlobOpts lsm read)
  let compactionStrategy ← readStrategy read
  let manualJournalPersist ← expectKv read "manual_journal_persist" "should exist"
  let maxMemtableSize ← decodeKv read "max_memtable_size" "should exist" readU64
  let kvSeparationOpts ← blobOpts.mapM id
  return {
    levelCount := 7
    maxMemtableSize
    dataBlockHashRatioPolicy
    dataBlockSizePolicy
    dataBlockRestartIntervalPolicy
    indexBlockRestartIntervalPolicy
    indexBlockPinningPolicy
    filterBlockPinningPolicy
    filterBlockPartitioningPolicy
    indexBlockPartitioningPolicy
    expectPointReadHits := decide (expectPointReadHits = [1])
    filterPolicy
    dataBlockCompressionPolicy
    indexBlockCompressionPolicy
    manualJournalPersist := decide (manualJournalPersist = [1])
    compactionStrategy
    kvSeparationOpts
    compactionFilterFactory := none }

end CreateOptions

end OmryaKv.Config
