import OmryaKv.Config.Records

set_option autoImplicit false

namespace OmryaKv.Config

open Lib

section Options

variable {Factory : Type} (lsm : LsmTree)

def baseNames : List String :=
  ["compaction_strategy", "data_block_compression_policy", "data_block_hash_ratio_policy", "data_block_restart_interval_policy",
    "data_block_size_policy", "expect_point_read_hits", "filter_block_partitioning_policy", "filter_block_pinning_policy",
    "filter_policy", "index_block_compression_policy", "index_block_partitioning_policy", "index_block_pinning_policy",
    "index_block_restart_interval_policy", "level_count", "manual_journal_persist", "max_memtable_size", "version"]

def blobNames : List String :=
  ["blob", "blob_age_cutoff", "blob_compression", "blob_file_target_size", "blob_separation_threshold", "blob_staleness_threshold"]

theorem names_distinct : (baseNames ++ strategyNames ++ blobNames).Nodup := by
  decide

variable (opts : CreateOptions Factory)

theorem blob_kvs_named : ((opts.blobKvs lsm).map Prod.fst).Sublist blobNames := by
  cases separated : opts.kvSeparationOpts with
  | none =>
    rw [CreateOptions.blobKvs, separated]
    exact List.nil_sublist _
  | some blobOpts =>
    rw [CreateOptions.blobKvs, separated]
    exact List.Sublist.refl _

def allKvs (opts : CreateOptions Factory) : List (String × Bytes) :=
  opts.baseKvs lsm ++ lsm.getConfig opts.compactionStrategy ++ opts.blobKvs lsm

theorem strategy_kvs_ok (supported : opts.compactionStrategy.Supported) :
    opts.strategyKvs lsm = .ok (lsm.getConfig opts.compactionStrategy) := by
  rw [CreateOptions.strategyKvs]
  cases strategy : opts.compactionStrategy with
  | leveled => exact if_pos (.inl rfl)
  | fifo => exact if_pos (.inr rfl)
  | other name =>
    rw [strategy] at supported
    exact supported.elim

theorem encode_kvs_ok (id : UInt64) (supported : opts.compactionStrategy.Supported) :
    opts.encodeKvs lsm id = .ok ((allKvs lsm opts).map fun kv => (encodeConfigKey id kv.1, kv.2)) := by
  rw [CreateOptions.encodeKvs, strategy_kvs_ok lsm opts supported]
  rfl

theorem all_kvs_distinct (supported : opts.compactionStrategy.Supported) : ((allKvs lsm opts).map Prod.fst).Nodup := by
  obtain ⟨front, blobDistinct, blobApart⟩ := List.nodup_append.mp names_distinct
  obtain ⟨baseDistinct, -, strategyApart⟩ := List.nodup_append.mp front
  have strategyNamed : ∀ name ∈ (lsm.getConfig opts.compactionStrategy).map Prod.fst, name ∈ strategyNames := by
    intro name member
    obtain ⟨kv, listed, rfl⟩ := List.mem_map.mp member
    exact lsm.named _ supported kv listed
  have blob := blob_kvs_named lsm opts
  rw [allKvs, List.map_append, List.map_append, List.nodup_append, List.nodup_append]
  refine ⟨⟨baseDistinct, lsm.distinct _ supported, ?_⟩, blob.nodup blobDistinct, ?_⟩
  · exact fun one base two strategy => strategyApart one base two (strategyNamed two strategy)
  · intro one member two blobMember
    refine blobApart one ?_ two (blob.subset blobMember)
    rcases List.mem_append.mp member with base | strategy
    · exact List.mem_append_left _ base
    · exact List.mem_append_right _ (strategyNamed one strategy)

theorem record_keys_distinct (supported : opts.compactionStrategy.Supported) (id : UInt64) (name : String) :
    (((allKvs lsm opts).map (fun kv => (encodeConfigKey id kv.1, kv.2)) ++
      [(encodeNameKey id, utf8 name)]).map Prod.fst).Nodup := by
  have config := (all_kvs_distinct lsm opts supported).map (config_key_injective id)
  rw [List.map_map] at config
  rw [List.map_append, List.map_map, List.nodup_append]
  refine ⟨config, List.nodup_singleton _, ?_⟩
  intro key member last listed
  cases List.mem_singleton.mp listed
  obtain ⟨kv, -, rfl⟩ := List.mem_map.mp member
  exact (config_below_name id _ ⟨utf8 kv.1, List.append_assoc _ _ _⟩).ne

theorem blob_unset (supported : opts.compactionStrategy.Supported)
    (unseparated : opts.kvSeparationOpts = none) : "blob" ∉ (allKvs lsm opts).map Prod.fst := by
  have apart := (List.nodup_append.mp names_distinct).2.2
  have blobKvs : opts.blobKvs lsm = [] := by rw [CreateOptions.blobKvs, unseparated]
  rw [allKvs, blobKvs, List.append_nil, List.map_append]
  intro member
  refine apart "blob" ?_ "blob" (by decide) rfl
  rcases List.mem_append.mp member with base | strategy
  · exact List.mem_append_left _ base
  · obtain ⟨kv, listed, same⟩ := List.mem_map.mp strategy
    exact List.mem_append_right _ (same ▸ lsm.named _ supported kv listed)

end Options

section Survival

variable {Factory : Type} (lsm : LsmTree) (id : UInt64) (name : String) (opts : CreateOptions Factory)

-- What a creation leaves behind: the options given, no other, the name and the entry.
structure Recorded (m : MetaKeyspace Factory) : Prop where
  options : Holds (m.getKvForConfig id) (allKvs lsm opts)
  unset : ∀ option, option ∉ (allKvs lsm opts).map Prod.fst → m.getKvForConfig id option = none
  nameRecord : m.inner.get (encodeNameKey id) = some (utf8 name)
  entry : m.keyspaces.lookup name = some ⟨id, opts⟩

theorem create_keyspace_recorded (supported : opts.compactionStrategy.Supported) (fault : Option Failure)
    (m next : MetaKeyspace Factory) (fresh : ∀ key, Owns id key → m.inner.get key = none)
    (created : m.createKeyspace lsm fault id name opts = .ok next) :
    Recorded lsm id name opts next := by
  obtain ⟨kvs, inner, encoded, ingested, rfl⟩ := (create_keyspace_ok lsm fault id name opts m next).mp created
  rw [encode_kvs_ok lsm opts id supported] at encoded
  cases encoded
  have written := ingest_written fault m.inner inner _ ingested
  constructor
  · intro kv member
    refine written _ (some kv.2) ((mem_create_writes _ _).mpr ⟨(encodeConfigKey id kv.1, kv.2), ?_, rfl⟩)
    exact List.mem_append_left _ (List.mem_map.mpr ⟨kv, member, rfl⟩)
  · intro option absent
    refine (ingest_unwritten fault m.inner inner _ ingested _ ?_).trans (fresh _ (owns_config_key id option))
    rintro write member same
    obtain ⟨kv, listed, rfl⟩ := (mem_create_writes _ write).mp member
    rcases List.mem_append.mp listed with config | last
    · obtain ⟨stored, storedMember, rfl⟩ := List.mem_map.mp config
      cases config_key_injective id same
      exact absent (List.mem_map_of_mem storedMember)
    · cases List.mem_singleton.mp last
      exact (config_below_name id _ ⟨utf8 option, List.append_assoc _ _ _⟩).ne same.symm
  · exact written _ (some (utf8 name)) ((mem_create_writes _ _).mpr ⟨_, List.mem_append_right _ (List.mem_singleton.mpr rfl), rfl⟩)
  · exact AList.lookup_insert _

theorem recorded_undisturbed (m next : MetaKeyspace Factory) (recorded : Recorded lsm id name opts m)
    (undisturbed : Undisturbed id m next) : Recorded lsm id name opts next where
  options kv member := (undisturbed.records _ (owns_config_key id kv.1)).trans (recorded.options kv member)
  unset option absent := (undisturbed.records _ (owns_config_key id option)).trans (recorded.unset option absent)
  nameRecord := (undisturbed.records _ (.inr rfl)).trans recorded.nameRecord
  entry := undisturbed.named name _ recorded.entry rfl

theorem recorded_from_kvs (supported : opts.compactionStrategy.Supported) (levels : opts.levelCount = 7)
    (m : MetaKeyspace Factory) (recorded : Recorded lsm id name opts m) : m.fromKvs lsm id = .ok opts.persisted := by
  have options := recorded.options
  rw [allKvs, Holds, List.forall_mem_append, List.forall_mem_append] at options
  exact read_kvs_ok lsm _ opts supported levels options.1.1 options.1.2 options.2
    fun unseparated => recorded.unset "blob" (blob_unset lsm opts supported unseparated)

theorem recorded_resolve_id (m : MetaKeyspace Factory) (recorded : Recorded lsm id name opts m) :
    m.resolveId id = .ok (some name) := by
  rw [MetaKeyspace.resolveId, recorded.nameRecord]
  simp only [from_utf8_utf8]

theorem remove_keyspace_clears (fault : Option Failure) (m next : MetaKeyspace Factory)
    (entry : m.keyspaces.lookup name = some ⟨id, opts⟩) (removed : m.removeKeyspace fault name = .ok next) : ∀ key, Owns id key → next.inner.get key = none := by
  intro key owned
  rcases remove_keyspace_ok fault name m next removed with ⟨absent, -⟩ | ⟨ks, inner, found, ingested, rfl⟩
  · rw [entry] at absent
    cases absent
  · cases entry.symm.trans found
    by_cases listed : (key, none) ∈ MetaKeyspace.removeWrites m.inner id
    · exact ingest_written fault m.inner inner _ ingested key none listed
    · have unlisted : ∀ write ∈ MetaKeyspace.removeWrites m.inner id, write.1 ≠ key := by
        rintro ⟨_, value⟩ member rfl
        cases ((mem_remove_writes m.inner id _).mp member).1
        exact listed member
      refine (ingest_unwritten fault m.inner inner _ ingested key unlisted).trans (OrderedMap.get_eq_none m.inner key ?_)
      rintro ⟨_, value⟩ stored rfl
      apply listed
      exact (mem_remove_writes m.inner id _).mpr ⟨rfl, owned.imp_left fun under => ⟨⟨value, stored⟩, under⟩⟩

theorem keyspace_creates (supported : opts.compactionStrategy.Supported) (m : MetaKeyspace Factory) (sound : m.poisoned = false)
    (absent : m.keyspaces.lookup name = none) : ∃ next, m.keyspace lsm none id name opts = .ok next := by
  have distinct := record_keys_distinct lsm opts supported id name
  obtain ⟨inner, ingested⟩ := ingest_ascending m.inner _ (create_writes_ascending _ distinct)
  refine ⟨{ m with inner, keyspaces := m.keyspaces.insert name ⟨id, opts⟩ }, ?_⟩
  rw [MetaKeyspace.keyspace, (write_ok m).mpr sound, absent]
  exact (create_keyspace_ok lsm none id name opts m _).mpr ⟨_, inner, encode_kvs_ok lsm opts id supported, ingested, rfl⟩

theorem remove_keyspace_returns (m : MetaKeyspace Factory) (sound : m.poisoned = false)
    (entry : m.keyspaces.lookup name = some ⟨id, opts⟩) : ∃ next, m.removeKeyspace none name = .ok next := by
  obtain ⟨inner, ingested⟩ := ingest_ascending m.inner _ (remove_writes_ascending m.inner id)
  refine ⟨{ m with inner, keyspaces := m.keyspaces.erase name }, ?_⟩
  rw [MetaKeyspace.removeKeyspace, (write_ok m).mpr sound, entry]
  change (ingest none m.inner (MetaKeyspace.removeWrites m.inner id) >>= fun inner => pure _) = _
  rw [ingested]
  rfl

end Survival

section Instance

def compressionTag : CompressionType → Bytes
  | .none => [0]
  | .lz4 => [1]

def readCompression : ConfigDecoder CompressionType := do
  match ← readByte .unexpectedEof with
  | 0 => return .none
  | 1 => return .lz4
  | tag => throw (.invalidTag "CompressionType" tag)

def strategyConfig : CompactionStrategy → List (String × Bytes)
  | .leveled l0Threshold targetSize levelRatioPolicy =>
    [("leveled_l0_threshold", [l0Threshold]), ("leveled_target_size", leBytes 8 targetSize.toNat),
      ("leveled_level_ratio_policy",
        [UInt8.ofNat levelRatioPolicy.length] ++ levelRatioPolicy.flatMap fun ratio => leBytes 4 ratio.toNat)]
  | .fifo limit none => [("fifo_limit", leBytes 8 limit.toNat), ("fifo_ttl", [0])]
  | .fifo limit (some seconds) =>
    [("fifo_limit", leBytes 8 limit.toNat), ("fifo_ttl", [1]), ("fifo_ttl_seconds", leBytes 8 seconds.toNat)]
  | .other _ => []

def plainLsmTree : LsmTree where
  encodeInto := compressionTag
  decodeFrom := readCompression
  roundTrips := by
    intro compression rest
    cases compression <;> rfl
  getConfig := strategyConfig
  distinct strategy _ := by
    rcases strategy with _ | ⟨_, _ | _⟩ | _ <;> simp [strategyConfig]
  named strategy _ := by
    rcases strategy with _ | ⟨_, _ | _⟩ | _ <;> simp [strategyConfig, strategyNames]
  leveled l0Threshold targetSize levelRatioPolicy := by
    simp [strategyConfig]
  fifo limit ttlSeconds := by
    cases ttlSeconds <;> simp [strategyConfig]

def defaultOptions : CreateOptions Unit := .default 7 (.leveled 4 67108864 [0x41200000])

end Instance

theorem configuration_survives {Factory : Type} (lsm : LsmTree) (id : UInt64) (name : String) (opts : CreateOptions Factory)
    (supported : opts.compactionStrategy.Supported) (levels : opts.levelCount = 7)
    (earlier : List (MetaOp Factory)) (m₁ : MetaKeyspace Factory)
    (before : Run (Guarded (MetaStep lsm) (Spares id)) .new earlier m₁) (absent : m₁.keyspaces.lookup name = none) :
    (m₁.poisoned = false → ∃ m₂, m₁.keyspace lsm none id name opts = .ok m₂) ∧
    ∀ fault m₂, m₁.keyspace lsm fault id name opts = .ok m₂ →
      ∀ later m₃, Run (Guarded (MetaStep lsm) (Spares id)) m₂ later m₃ →
        m₃.fromKvs lsm id = .ok opts.persisted ∧
        m₃.resolveId id = .ok (some name) ∧
        (m₃.poisoned = false → ∃ m₄, m₃.removeKeyspace none name = .ok m₄) ∧
        ∀ fault m₄, m₃.removeKeyspace fault name = .ok m₄ →
          ∀ last m₅, Run (Guarded (MetaStep lsm) (Spares id)) m₄ last m₅ → ∀ kv ∈ m₅.inner.entries, ¬ Owns id kv.1 := by
  refine ⟨fun sound => keyspace_creates lsm id name opts supported m₁ sound absent, ?_⟩
  intro fault m₂ returned later m₃ after
  have fresh : ∀ key, Owns id key → m₁.inner.get key = none := (run_undisturbed lsm id _ _ _ before).records
  have created : m₁.createKeyspace lsm fault id name opts = .ok m₂ := by
    rcases keyspace_ok lsm fault id name opts m₁ m₂ returned with ⟨⟨ks, found⟩, -⟩ | ⟨-, created⟩
    · rw [absent] at found
      cases found
    · exact created
  have recorded := recorded_undisturbed lsm id name opts m₂ m₃
    (create_keyspace_recorded lsm id name opts supported fault m₁ m₂ fresh created) (run_undisturbed lsm id _ _ _ after)
  refine ⟨recorded_from_kvs lsm id name opts supported levels m₃ recorded, recorded_resolve_id lsm id name opts m₃ recorded,
    fun sound => remove_keyspace_returns id name opts m₃ sound recorded.entry, ?_⟩
  intro fault m₄ removed last m₅ rest kv stored owned
  have gone := remove_keyspace_clears id name opts fault m₃ m₄ recorded.entry removed kv.1 owned
  have kept := (run_undisturbed lsm id _ _ _ rest).records kv.1 owned
  rw [(OrderedMap.get_eq_some_iff m₅.inner kv.1 kv.2).mpr stored, gone] at kept
  cases kept

theorem default_options_survive :
    ∃ m₂, MetaKeyspace.new.keyspace plainLsmTree none 1 "default" defaultOptions = .ok m₂ ∧
      m₂.fromKvs plainLsmTree 1 = .ok defaultOptions ∧ m₂.resolveId 1 = .ok (some "default") ∧
      ∀ m₄, m₂.removeKeyspace none "default" = .ok m₄ → ∀ kv ∈ m₄.inner.entries, ¬ Owns 1 kv.1 := by
  obtain ⟨creates, survives⟩ := configuration_survives plainLsmTree 1 "default" defaultOptions (by decide) rfl [] .new (.nil _) rfl
  obtain ⟨m₂, created⟩ := creates rfl
  obtain ⟨options, name, -, gone⟩ := survives none m₂ created [] m₂ (.nil m₂)
  exact ⟨m₂, created, options, name, fun m₄ removed => gone none m₄ removed [] m₄ (.nil m₄)⟩

end OmryaKv.Config
