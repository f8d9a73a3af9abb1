import OmryaKv.Config.CreateOptions

set_option autoImplicit false

namespace OmryaKv.Config

open Lib

theorem utf8_injective (one two : String) (same : utf8 one = utf8 two) : one = two :=
  String.toByteArray_inj.mp (ByteArray.ext (Array.toList_inj.mp same))

theorem from_utf8_utf8 (text : String) : fromUtf8 (utf8 text) = some text := by
  have whole : (⟨(utf8 text).toArray⟩ : ByteArray) = text.toUTF8 := by
    rw [utf8, Array.toArray_toList]
  rw [fromUtf8, whole]
  exact dif_pos text.isValidUTF8

def Holds (read : String → Option Bytes) (kvs : List (String × Bytes)) : Prop := ∀ kv ∈ kvs, read kv.1 = some kv.2

section Read

variable {α Factory : Type} (lsm : LsmTree) (read : String → Option Bytes)

theorem expect_kv_ok (name message : String) (bytes : Bytes) (stored : read name = some bytes) :
    expectKv read name message = .ok bytes := by
  rw [expectKv, stored]

theorem decode_kv_ok (name message : String) (decode : ConfigDecoder α) (bytes : Bytes) (a : α) (stored : read name = some bytes)
    (decodes : Decodes decode bytes a) : decodeKv read name message decode = .ok a := by
  have whole := decodes []
  rw [List.append_nil] at whole
  rw [decodeKv, expect_kv_ok read name message bytes stored]
  change answer (decode.run bytes) = .ok a
  rw [whole]
  rfl

theorem decodes_ratios (ratios : List F32) (bounded : ratios.length ≤ 255) :
    Decodes CreateOptions.readRatios ([UInt8.ofNat ratios.length] ++ ratios.flatMap fun ratio => leBytes 4 ratio.toNat) ratios := by
  have length : (UInt8.ofNat ratios.length).toNat = ratios.length := UInt8.toNat_ofNat_of_lt' (Nat.lt_succ_of_le bounded)
  refine decodes_bind _ _ _ _ (UInt8.ofNat ratios.length) _ (decodes_read_byte _ _) ?_
  rw [length]
  exact decodes_read_many readF32 _ decodes_read_f32 ratios

theorem read_blob_opts_ok (opts : CreateOptions Factory) (blobOpts : KvSeparationOptions)
    (separated : opts.kvSeparationOpts = some blobOpts) (holds : Holds read (opts.blobKvs lsm)) :
    CreateOptions.readBlobOpts lsm read = .ok blobOpts := by
  simp only [Holds, CreateOptions.blobKvs, separated, List.forall_mem_cons] at holds
  obtain ⟨-, ageCutoff, compression, fileTargetSize, separationThreshold, stalenessThreshold, -⟩ := holds
  rw [CreateOptions.readBlobOpts, decode_kv_ok read _ _ _ _ _ ageCutoff (decodes_read_f32 _),
    decode_kv_ok read _ _ _ _ _ compression (lsm.roundTrips _),
    decode_kv_ok read _ _ _ _ _ fileTargetSize (decodes_read_u64 _),
    decode_kv_ok read _ _ _ _ _ separationThreshold (decodes_read_u32 _),
    decode_kv_ok read _ _ _ _ _ stalenessThreshold (decodes_read_f32 _)]
  rfl

theorem read_leveled_ok (l0Threshold : UInt8) (targetSize : UInt64) (ratios : List F32) (bounded : ratios.length ≤ 255)
    (holds : Holds read (lsm.getConfig (.leveled l0Threshold targetSize ratios))) :
    CreateOptions.readLeveled read = .ok (.leveled l0Threshold targetSize ratios) := by
  obtain ⟨threshold, target, policy⟩ := lsm.leveled l0Threshold targetSize ratios
  rw [CreateOptions.readLeveled, decode_kv_ok read _ _ _ _ _ (holds _ threshold) (decodes_read_byte _ _),
    decode_kv_ok read _ _ _ _ _ (holds _ target) (decodes_read_u64 _),
    decode_kv_ok read _ _ _ _ _ (holds _ policy) (decodes_ratios ratios bounded)]
  rfl

theorem read_fifo_ok (limit : UInt64) (ttlSeconds : Option UInt64) (holds : Holds read (lsm.getConfig (.fifo limit ttlSeconds))) :
    CreateOptions.readFifo read = .ok (.fifo limit ttlSeconds) := by
  obtain ⟨fifoLimit, hasTtl, seconds⟩ := lsm.fifo limit ttlSeconds
  have ttl : CreateOptions.readTtlSeconds read (decide (([if ttlSeconds.isSome then 1 else 0] : Bytes) = [1])) =
      .ok ttlSeconds := by
    cases ttlSeconds with
    | none => rfl
    | some ttl =>
      change CreateOptions.readTtlSeconds read true = _
      rw [CreateOptions.readTtlSeconds, if_pos rfl,
        decode_kv_ok read _ _ _ _ _ (holds _ (seconds ttl rfl)) (decodes_read_u64 _)]
      rfl
  rw [CreateOptions.readFifo, decode_kv_ok read _ _ _ _ _ (holds _ fifoLimit) (decodes_read_u64 _),
    expect_kv_ok read _ _ _ (holds _ hasTtl)]
  change (CreateOptions.readTtlSeconds read _ >>= fun ttlSeconds => pure (CompactionStrategy.fifo limit ttlSeconds)) = _
  rw [ttl]
  rfl

theorem read_strategy_ok (strategy : CompactionStrategy) (supported : strategy.Supported)
    (named : read "compaction_strategy" = some (utf8 strategy.getName)) (holds : Holds read (lsm.getConfig strategy)) :
    CreateOptions.readStrategy read = .ok strategy := by
  have byName : CreateOptions.readStrategyNamed read strategy.getName = .ok strategy := by
    cases strategy with
    | leveled l0Threshold targetSize ratios =>
      rw [CreateOptions.readStrategyNamed, CompactionStrategy.getName, if_pos rfl]
      exact read_leveled_ok lsm read l0Threshold targetSize ratios supported holds
    | fifo limit ttlSeconds =>
      rw [CreateOptions.readStrategyNamed, CompactionStrategy.getName, if_neg (by decide), if_pos rfl]
      exact read_fifo_ok lsm read limit ttlSeconds holds
    | other name => exact False.elim supported
  rw [CreateOptions.readStrategy, expect_kv_ok read _ _ _ named, ← byName]
  simp only [bind, Except.bind, from_utf8_utf8]

theorem read_separation_ok (opts : CreateOptions Factory) (holds : Holds read (opts.blobKvs lsm))
    (unseparated : opts.kvSeparationOpts = none → read "blob" = none) :
    ((read "blob").mapM fun _ => deferred (CreateOptions.readBlobOpts lsm read)) = .ok (opts.kvSeparationOpts.map .ok) := by
  cases separated : opts.kvSeparationOpts with
  | none =>
    rw [unseparated separated]
    rfl
  | some blobOpts =>
    have present : read "blob" = some [1] := holds ("blob", [1]) (by simp [CreateOptions.blobKvs, separated])
    rw [present, read_blob_opts_ok lsm read opts blobOpts separated holds]
    rfl

theorem transpose_ok (options : Option KvSeparationOptions) :
    ((options.map .ok).mapM id : Except Failure (Option KvSeparationOptions)) = .ok options := by
  cases options <;> rfl

theorem read_kvs_ok (opts : CreateOptions Factory) (supported : opts.compactionStrategy.Supported) (levels : opts.levelCount = 7)
    (base : Holds read (opts.baseKvs lsm)) (strategy : Holds read (lsm.getConfig opts.compactionStrategy))
    (blob : Holds read (opts.blobKvs lsm)) (unseparated : opts.kvSeparationOpts = none → read "blob" = none) :
    CreateOptions.readKvs lsm read = .ok opts.persisted := by
  simp only [Holds, CreateOptions.baseKvs, List.forall_mem_cons] at base
  obtain ⟨name, dataCompression, hashRatio, dataRestart, blockSize, hits, filterPartitioning, filterPinning, filter,
    indexCompression, indexPartitioning, indexPinning, indexRestart, -, manual, memtable, -⟩ := base
  have compression := decodes_compression_policy lsm.encodeInto lsm.decodeFrom lsm.roundTrips
  have hitsRead : decide ((if opts.expectPointReadHits then [1] else [0] : Bytes) = [1]) = opts.expectPointReadHits := by
    cases opts.expectPointReadHits <;> rfl
  have manualRead : decide (([if opts.manualJournalPersist then 1 else 0] : Bytes) = [1]) = opts.manualJournalPersist := by
    cases opts.manualJournalPersist <;> rfl
  rw [CreateOptions.readKvs, read_separation_ok lsm read opts blob unseparated,
    read_strategy_ok lsm read opts.compactionStrategy supported name strategy,
    decode_kv_ok read _ _ _ _ _ dataCompression (compression _),
    decode_kv_ok read _ _ _ _ _ indexCompression (compression _),
    decode_kv_ok read _ _ _ _ _ blockSize (decodes_block_size_policy _),
    decode_kv_ok read _ _ _ _ _ filterPartitioning (decodes_pinning_policy _),
    decode_kv_ok read _ _ _ _ _ indexPartitioning (decodes_pinning_policy _),
    decode_kv_ok read _ _ _ _ _ filterPinning (decodes_pinning_policy _),
    decode_kv_ok read _ _ _ _ _ indexPinning (decodes_pinning_policy _),
    decode_kv_ok read _ _ _ _ _ dataRestart (decodes_restart_interval_policy _),
    decode_kv_ok read _ _ _ _ _ indexRestart (decodes_restart_interval_policy _),
    decode_kv_ok read _ _ _ _ _ hashRatio (decodes_hash_ratio_policy _),
    decode_kv_ok read _ _ _ _ _ filter (decodes_filter_policy _),
    decode_kv_ok read _ _ _ _ _ memtable (decodes_read_u64 _),
    expect_kv_ok read _ _ _ hits, expect_kv_ok read _ _ _ manual]
  change ((opts.kvSeparationOpts.map Except.ok).mapM id >>= fun kvSeparationOpts => pure _) = _
  rw [transpose_ok, hitsRead, manualRead, CreateOptions.persisted, ← levels]
  rfl

end Read

end OmryaKv.Config
