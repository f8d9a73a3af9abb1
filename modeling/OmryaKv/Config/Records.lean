import OmryaKv.Config.MetaKeyspace
import OmryaKv.Config.RoundTrip

set_option autoImplicit false

namespace OmryaKv.Config

open Lib

theorem ingestion_complete (writes : List (Bytes × Option Bytes)) (front : Ingestion)
    (sorted : Ascending (front.entries ++ writes)) :
    writes.foldlM (fun ingestion kv => Ingestion.write ingestion kv.1 kv.2) front = .ok ⟨front.entries ++ writes, sorted⟩ := by
  induction writes generalizing front with
  | nil =>
    obtain ⟨entries, _⟩ := front
    simp only [List.append_nil]
    rfl
  | cons kv writes ih =>
    have regrouped : front.entries ++ kv :: writes = front.entries ++ [kv] ++ writes := List.append_cons _ _ _
    have later : Ascending (front.entries ++ [kv] ++ writes) := regrouped ▸ sorted
    have above : ∀ entry ∈ front.entries, entry.1 < kv.1 := by
      rw [Ascending, List.map_append, List.pairwise_append] at sorted
      exact fun entry member => sorted.2.2 _ (List.mem_map_of_mem member) _ (by simp)
    rw [List.foldlM_cons, Ingestion.write, dif_pos above]
    simp only [regrouped]
    exact ih ⟨front.entries ++ [kv], _⟩ later

theorem ingestion_entries (writes : List (Bytes × Option Bytes)) (front last : Ingestion)
    (completed : writes.foldlM (fun ingestion kv => Ingestion.write ingestion kv.1 kv.2) front = .ok last) :
    last.entries = front.entries ++ writes := by
  induction writes generalizing front with
  | nil =>
    cases completed
    exact (List.append_nil _).symm
  | cons kv writes ih =>
    rw [List.foldlM_cons] at completed
    obtain ⟨next, written, rest⟩ := except_bind_ok _ _ _ completed
    rw [Ingestion.write] at written
    split at written
    · cases written
      exact (ih _ rest).trans (List.append_cons _ _ _).symm
    · cases written

theorem ingest_eq_ok (fault : Option Failure) (tree next : MetaTree) (writes : List (Bytes × Option Bytes)) :
    ingest fault tree writes = .ok next ↔ fault = none ∧ ∃ sorted : Ascending writes, next = tree.overlay ⟨writes, sorted⟩ := by
  constructor
  · intro completed
    obtain ⟨⟨entries, sorted⟩, collected, finished⟩ := except_bind_ok _ _ _ completed
    have whole : entries = writes := ingestion_entries writes .empty _ collected
    subst whole
    cases fault with
    | some failure => cases finished
    | none =>
      cases finished
      exact ⟨rfl, sorted, rfl⟩
  · rintro ⟨rfl, sorted, rfl⟩
    rw [ingest, ingestion_complete writes .empty sorted]
    rfl

theorem ingest_ascending (tree : MetaTree) (writes : List (Bytes × Option Bytes)) (sorted : Ascending writes) :
    ∃ next, ingest none tree writes = .ok next :=
  ⟨_, (ingest_eq_ok none tree _ writes).mpr ⟨rfl, sorted, rfl⟩⟩

theorem ingest_written (fault : Option Failure) (tree next : MetaTree) (writes : List (Bytes × Option Bytes))
    (completed : ingest fault tree writes = .ok next) (key : Bytes) (value : Option Bytes) (member : (key, value) ∈ writes) :
    next.get key = value := by
  obtain ⟨-, sorted, rfl⟩ := (ingest_eq_ok fault tree next writes).mp completed
  rw [OrderedMap.get_overlay, (OrderedMap.get_eq_some_iff ⟨writes, sorted⟩ key value).mpr member]
  rfl

theorem ingest_unwritten (fault : Option Failure) (tree next : MetaTree) (writes : List (Bytes × Option Bytes))
    (completed : ingest fault tree writes = .ok next) (key : Bytes) (unwritten : ∀ kv ∈ writes, kv.1 ≠ key) :
    next.get key = tree.get key := by
  obtain ⟨-, sorted, rfl⟩ := (ingest_eq_ok fault tree next writes).mp completed
  rw [OrderedMap.get_overlay, OrderedMap.get_eq_none ⟨writes, sorted⟩ key unwritten]
  rfl

-- The records of a keyspace: what stands under its prefix, and its name.
def Owns (id : UInt64) (key : Bytes) : Prop := configPrefix id <+: key ∨ key = encodeNameKey id

theorem owns_config_key (id : UInt64) (name : String) : Owns id (encodeConfigKey id name) :=
  .inl ⟨utf8 name, List.append_assoc _ _ _⟩

theorem owned_id_bytes (id : UInt64) (key : Bytes) (owned : Owns id key) : (key.drop 1).take 8 = beBytes 8 id.toNat := by
  rcases owned with ⟨rest, rfl⟩ | rfl
  · change (beBytes 8 id.toNat ++ rest).take 8 = _
    exact List.take_left' (be_bytes_length 8 _)
  · change (beBytes 8 id.toNat).take 8 = _
    exact List.take_of_length_le (be_bytes_length 8 _).le

theorem owner_unique (one two : UInt64) (key : Bytes) (first : Owns one key) (second : Owns two key) : one = two := by
  have same : beBytes 8 one.toNat = beBytes 8 two.toNat :=
    (owned_id_bytes one key first).symm.trans (owned_id_bytes two key second)
  apply UInt64.toNat_inj.mp
  rw [← be_nat_be_bytes 8 one.toNat one.toNat_lt, same, be_nat_be_bytes 8 two.toNat two.toNat_lt]

theorem config_key_injective (id : UInt64) : Function.Injective (encodeConfigKey id) := by
  intro one two same
  exact utf8_injective one two (List.append_cancel_left (List.append_cancel_left same))

theorem config_below_name (id : UInt64) (key : Bytes) (under : configPrefix id <+: key) : key < encodeNameKey id := by
  obtain ⟨rest, rfl⟩ := under
  exact List.Lex.rel (by decide)

section Records

variable {Factory : Type} (lsm : LsmTree)

theorem encode_kvs_owned (opts : CreateOptions Factory) (id : UInt64) (kvs : List (Bytes × Bytes))
    (encoded : opts.encodeKvs lsm id = .ok kvs) : ∀ kv ∈ kvs, Owns id kv.1 := by
  obtain ⟨strategy, -, rest⟩ := except_bind_ok _ _ _ encoded
  cases rest
  intro kv member
  obtain ⟨option, -, rfl⟩ := List.mem_map.mp member
  exact owns_config_key id option.1

theorem mem_create_writes (kvs : List (Bytes × Bytes)) (write : Bytes × Option Bytes) :
    write ∈ MetaKeyspace.createWrites kvs ↔ ∃ kv ∈ kvs, (kv.1, some kv.2) = write := by
  rw [MetaKeyspace.createWrites, List.mem_map]
  simp only [List.mem_insertionSort]

theorem create_writes_ascending (kvs : List (Bytes × Bytes)) (distinct : (kvs.map Prod.fst).Nodup) :
    Ascending (MetaKeyspace.createWrites kvs) := by
  have permuted := List.perm_insertionSort (fun a b : Bytes × Bytes => a.1 ≤ b.1) kvs
  have ordered : (kvs.insertionSort fun a b => a.1 ≤ b.1).Pairwise fun a b => a.1 ≤ b.1 := by
    have : Std.Total fun a b : Bytes × Bytes => a.1 ≤ b.1 := ⟨fun a b => le_total a.1 b.1⟩
    have : IsTrans (Bytes × Bytes) fun a b => a.1 ≤ b.1 := ⟨fun _ _ _ => le_trans⟩
    exact List.pairwise_insertionSort _ kvs
  have different : (kvs.insertionSort fun a b => a.1 ≤ b.1).Pairwise fun a b => a.1 ≠ b.1 :=
    List.pairwise_map.mp ((permuted.map Prod.fst).nodup_iff.mpr distinct)
  rw [Ascending, MetaKeyspace.createWrites, List.map_map, List.pairwise_map]
  exact (ordered.and different).imp fun both => lt_of_le_of_ne both.1 both.2

theorem mem_remove_writes (tree : MetaTree) (id : UInt64) (write : Bytes × Option Bytes) :
    write ∈ MetaKeyspace.removeWrites tree id ↔
      write.2 = none ∧
        (((∃ value, (write.1, value) ∈ tree.entries) ∧ configPrefix id <+: write.1) ∨ write.1 = encodeNameKey id) := by
  obtain ⟨key, value⟩ := write
  simp only [MetaKeyspace.removeWrites, List.mem_append, List.mem_map, List.mem_filter, List.isPrefixOf_iff_prefix,
    List.mem_singleton, Prod.mk.injEq, Prod.exists]
  grind

theorem remove_writes_ascending (tree : MetaTree) (id : UInt64) : Ascending (MetaKeyspace.removeWrites tree id) := by
  apply ascending_append_last
  · rw [Ascending, List.map_map]
    exact ascending_filter _ tree.entries tree.sorted
  · intro write member
    obtain ⟨kv, stored, rfl⟩ := List.mem_map.mp member
    exact config_below_name id kv.1 (List.isPrefixOf_iff_prefix.mp (List.mem_filter.mp stored).2)

end Records

section Steps

variable {Factory : Type} (lsm : LsmTree)

theorem write_ok (m : MetaKeyspace Factory) : m.write = .ok () ↔ m.poisoned = false := by
  rw [MetaKeyspace.write]
  cases m.poisoned <;> simp

theorem create_keyspace_ok (fault : Option Failure) (id : UInt64) (name : String) (opts : CreateOptions Factory)
    (m next : MetaKeyspace Factory) :
    m.createKeyspace lsm fault id name opts = .ok next ↔
      ∃ kvs inner, opts.encodeKvs lsm id = .ok kvs ∧
        ingest fault m.inner (MetaKeyspace.createWrites (kvs ++ [(encodeNameKey id, utf8 name)])) = .ok inner ∧
        next = { m with inner, keyspaces := m.keyspaces.insert name ⟨id, opts⟩ } := by
  constructor
  · intro completed
    obtain ⟨kvs, encoded, rest⟩ := except_bind_ok _ _ _ completed
    obtain ⟨inner, ingested, done⟩ := except_bind_ok _ _ _ rest
    cases done
    exact ⟨kvs, inner, encoded, ingested, rfl⟩
  · rintro ⟨kvs, inner, encoded, ingested, rfl⟩
    rw [MetaKeyspace.createKeyspace, encoded]
    change (ingest fault m.inner (MetaKeyspace.createWrites (kvs ++ _)) >>= fun inner => pure _) = _
    rw [ingested]
    rfl

theorem keyspace_ok (fault : Option Failure) (id : UInt64) (name : String) (opts : CreateOptions Factory)
    (m next : MetaKeyspace Factory) (completed : m.keyspace lsm fault id name opts = .ok next) :
    ((∃ ks, m.keyspaces.lookup name = some ks) ∧ next = m) ∨
      m.keyspaces.lookup name = none ∧ m.createKeyspace lsm fault id name opts = .ok next := by
  obtain ⟨_, -, rest⟩ := except_bind_ok _ _ _ completed
  cases found : m.keyspaces.lookup name with
  | some ks =>
    rw [found] at rest
    cases rest
    exact .inl ⟨⟨ks, rfl⟩, rfl⟩
  | none =>
    rw [found] at rest
    exact .inr ⟨rfl, rest⟩

theorem remove_keyspace_ok (fault : Option Failure) (name : String) (m next : MetaKeyspace Factory)
    (completed : m.removeKeyspace fault name = .ok next) :
    (m.keyspaces.lookup name = none ∧ next = m) ∨
      ∃ ks inner, m.keyspaces.lookup name = some ks ∧
        ingest fault m.inner (MetaKeyspace.removeWrites m.inner ks.id) = .ok inner ∧
        next = { m with inner, keyspaces := m.keyspaces.erase name } := by
  obtain ⟨_, -, rest⟩ := except_bind_ok _ _ _ completed
  cases found : m.keyspaces.lookup name with
  | none =>
    rw [found] at rest
    cases rest
    exact .inl ⟨rfl, rfl⟩
  | some ks =>
    rw [found] at rest
    obtain ⟨inner, ingested, done⟩ := except_bind_ok _ _ _ rest
    cases done
    exact .inr ⟨ks, inner, rfl, ingested, rfl⟩

-- Creations and removals of other ids.
def Spares (id : UInt64) (m : MetaKeyspace Factory) : MetaOp Factory → Prop
  | .keyspace keyspaceId _ _ _ => keyspaceId ≠ id
  | .deleteKeyspace name _ => ∀ ks, m.keyspaces.lookup name = some ks → ks.id ≠ id

structure Undisturbed (id : UInt64) (m next : MetaKeyspace Factory) : Prop where
  records : ∀ key, Owns id key → next.inner.get key = m.inner.get key
  named : ∀ name ks, m.keyspaces.lookup name = some ks → ks.id = id → next.keyspaces.lookup name = some ks

variable (id : UInt64)

theorem undisturbed_refl (m : MetaKeyspace Factory) : Undisturbed id m m :=
  ⟨fun _ _ => rfl, fun _ _ found _ => found⟩

theorem undisturbed_trans (first second third : MetaKeyspace Factory) (one : Undisturbed id first second)
    (two : Undisturbed id second third) : Undisturbed id first third where
  records key owned := (two.records key owned).trans (one.records key owned)
  named name ks found same := two.named name ks (one.named name ks found same) same

theorem settle_undisturbed (m : MetaKeyspace Factory) (outcome : Except Failure (MetaKeyspace Factory))
    (returned : ∀ next, outcome = .ok next → Undisturbed id m next) : Undisturbed id m (m.settle outcome) := by
  cases outcome with
  | ok next => exact returned next rfl
  | error failure => cases failure <;> exact ⟨fun _ _ => rfl, fun _ _ found _ => found⟩

theorem keyspace_undisturbed (id other : UInt64) (different : other ≠ id) (fault : Option Failure) (name : String)
    (opts : CreateOptions Factory) (m next : MetaKeyspace Factory) (completed : m.keyspace lsm fault other name opts = .ok next) :
    Undisturbed id m next := by
  rcases keyspace_ok lsm fault other name opts m next completed with ⟨-, rfl⟩ | ⟨absent, created⟩
  · exact undisturbed_refl id next
  · obtain ⟨kvs, inner, encoded, ingested, rfl⟩ := (create_keyspace_ok lsm fault other name opts m next).mp created
    constructor
    · intro key owned
      refine ingest_unwritten fault m.inner inner _ ingested key ?_
      rintro write member rfl
      obtain ⟨kv, listed, rfl⟩ := (mem_create_writes _ write).mp member
      rcases List.mem_append.mp listed with config | last
      · exact different (owner_unique _ _ _ (encode_kvs_owned lsm opts other kvs encoded kv config) owned)
      · cases List.mem_singleton.mp last
        exact different (owner_unique _ _ _ (.inr rfl) owned)
    · intro otherName ks found _
      have apart : otherName ≠ name := by
        rintro rfl
        rw [absent] at found
        cases found
      exact (AList.lookup_insert_ne apart).trans found

theorem remove_undisturbed (fault : Option Failure) (name : String) (m next : MetaKeyspace Factory)
    (spared : ∀ ks, m.keyspaces.lookup name = some ks → ks.id ≠ id) (completed : m.removeKeyspace fault name = .ok next) :
    Undisturbed id m next := by
  rcases remove_keyspace_ok fault name m next completed with ⟨-, rfl⟩ | ⟨ks, inner, found, ingested, rfl⟩
  · exact undisturbed_refl id next
  · constructor
    · intro key owned
      refine ingest_unwritten fault m.inner inner _ ingested key ?_
      rintro write member rfl
      have theirs : Owns ks.id write.1 := ((mem_remove_writes m.inner ks.id write).mp member).2.imp_left And.right
      exact spared ks found (owner_unique _ _ _ theirs owned)
    · intro otherName other kept same
      have apart : otherName ≠ name := by
        rintro rfl
        exact spared other kept same
      exact (AList.lookup_erase_ne apart).trans kept

theorem step_undisturbed (m next : MetaKeyspace Factory) (op : MetaOp Factory)
    (step : Guarded (MetaStep lsm) (Spares id) m op next) : Undisturbed id m next := by
  obtain ⟨spares, rfl⟩ := step
  apply settle_undisturbed
  intro next completed
  cases op with
  | keyspace other name opts fault => exact keyspace_undisturbed lsm id other spares fault name opts m next completed
  | deleteKeyspace name fault => exact remove_undisturbed id fault name m next spares completed

theorem run_undisturbed (m last : MetaKeyspace Factory) (ops : List (MetaOp Factory))
    (run : Run (Guarded (MetaStep lsm) (Spares id)) m ops last) : Undisturbed id m last :=
  run_related _ (fun _ => True) (Undisturbed id) (fun _ _ _ _ _ => trivial) (undisturbed_refl id) (undisturbed_trans id)
    (fun _ _ _ _ step => step_undisturbed lsm id _ _ _ step) run trivial

end Steps

end OmryaKv.Config
