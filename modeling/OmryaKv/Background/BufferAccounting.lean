import OmryaKv.Background.WriteBuffer

set_option autoImplicit false

namespace OmryaKv.Background

open Lib

variable {E : Type} (size : E → Nat)
variable (t : MemTree E)

namespace MemTree

-- The bytes of the sealed memtables among the given ones.
def held (t : MemTree E) (sealedIds : List Nat) : Nat :=
  bytesOf size (t.sealedMemtables.filter fun memtable => decide (memtable.id ∈ sealedIds))

-- What a flush is going to free although the memtables are gone already.
def owed (t : MemTree E) : Nat :=
  match t.flush with
  | .idle => 0
  | .writing sealedIds flushedSize => flushedSize - t.held size sealedIds
  | .flushed bytes => bytes
  | .exchanging bytes _ => bytes

def takenIds (t : MemTree E) : List Nat :=
  match t.flush with
  | .writing sealedIds _ => sealedIds
  | _ => []

-- The bytes of the memtables that no running flush has taken.
def unclaimed (t : MemTree E) : Nat := t.activeMemtable.bytes size + bytesOf size (t.without t.takenIds)

def weight (t : MemTree E) : Nat := t.bytes size + t.owed size

-- Memtable ids only grow, so no later memtable is taken for one that a flush noted.
structure Sound (t : MemTree E) : Prop where
  older : ∀ memtable ∈ t.sealedMemtables, memtable.id < t.activeMemtable.id
  takenOlder : ∀ id ∈ t.takenIds, id < t.activeMemtable.id
  covered : ∀ sealedIds flushedSize, t.flush = .writing sealedIds flushedSize → t.held size sealedIds ≤ flushedSize

theorem bytes_split (sealedIds : List Nat) :
    bytesOf size t.sealedMemtables = t.held size sealedIds + bytesOf size (t.without sealedIds) := by
  rw [held, without]
  induction t.sealedMemtables with
  | nil => rfl
  | cons memtable rest ih =>
    by_cases taken : memtable.id ∈ sealedIds
    · simp only [bytesOf, List.filter_cons, taken, decide_true, if_true, not_true, decide_false, Bool.false_eq_true,
        if_false, List.map_cons, List.sum_cons] at ih ⊢
      omega
    · simp only [bytesOf, List.filter_cons, taken, decide_true, if_true, not_false_iff, decide_false, Bool.false_eq_true,
        if_false, List.map_cons, List.sum_cons] at ih ⊢
      omega

theorem held_all : t.held size (t.sealedMemtables.map Memtable.id) = bytesOf size t.sealedMemtables := by
  rw [held, List.filter_eq_self.mpr]
  intro memtable member
  exact decide_eq_true (List.mem_map_of_mem member)

theorem without_nil : t.without [] = t.sealedMemtables := by
  rw [without, List.filter_eq_self.mpr]
  intro memtable _
  exact decide_eq_true (List.not_mem_nil)

theorem held_nil (memtable : Memtable E) (phase : FlushPhase) (sealedIds : List Nat) :
    (⟨memtable, [], phase⟩ : MemTree E).held size sealedIds = 0 := rfl

theorem put_sound (entry : E) (sound : t.Sound size) : (t.put entry).Sound size :=
  ⟨sound.older, sound.takenOlder, sound.covered⟩

theorem put_weight (entry : E) : (t.put entry).weight size = t.weight size + size entry := by
  have active : (t.put entry).activeMemtable.bytes size = size entry + t.activeMemtable.bytes size := rfl
  have sealed : bytesOf size (t.put entry).sealedMemtables = bytesOf size t.sealedMemtables := rfl
  have owed : (t.put entry).owed size = t.owed size := rfl
  rw [weight, weight, bytes, bytes, active, sealed, owed]
  omega

-- The memtable that is sealed is not one that a running flush has noted.
theorem held_rotated (fresh : Memtable E) (sealedIds : List Nat) (apart : t.activeMemtable.id ∉ sealedIds) :
    (⟨fresh, t.activeMemtable :: t.sealedMemtables, t.flush⟩ : MemTree E).held size sealedIds = t.held size sealedIds := by
  simp only [held, List.filter_cons, apart, decide_false, Bool.false_eq_true, if_false]

theorem active_not_taken (sound : t.Sound size) (sealedIds : List Nat) (flushedSize : Nat)
    (phase : t.flush = .writing sealedIds flushedSize) : t.activeMemtable.id ∉ sealedIds := by
  intro taken
  have older := sound.takenOlder t.activeMemtable.id
  rw [takenIds, phase] at older
  exact Nat.lt_irrefl _ (older taken)

theorem rotate_memtable_sound (sound : t.Sound size) : t.rotateMemtable.Sound size := by
  unfold rotateMemtable
  split
  · exact sound
  · constructor
    · intro memtable member
      rcases List.mem_cons.mp member with rfl | before
      · exact Nat.lt_succ_self _
      · exact Nat.lt_succ_of_lt (sound.older memtable before)
    · intro id taken
      exact Nat.lt_succ_of_lt (sound.takenOlder id taken)
    · intro sealedIds flushedSize phase
      rw [held_rotated size t _ sealedIds (active_not_taken size t sound sealedIds flushedSize phase)]
      exact sound.covered sealedIds flushedSize phase

theorem rotate_memtable_weight (sound : t.Sound size) : t.rotateMemtable.weight size = t.weight size := by
  unfold rotateMemtable
  split
  · rfl
  · have owed : (⟨⟨t.activeMemtable.id + 1, []⟩, t.activeMemtable :: t.sealedMemtables, t.flush⟩ : MemTree E).owed size =
        t.owed size := by
      cases phase : t.flush with
      | writing sealedIds flushedSize =>
        have same := held_rotated size t ⟨t.activeMemtable.id + 1, []⟩ sealedIds
          (active_not_taken size t sound sealedIds flushedSize phase)
        rw [phase] at same
        simp only [MemTree.owed, phase, same]
      | idle | flushed _ | exchanging _ _ => simp only [MemTree.owed, phase]
    rw [weight, weight, owed]
    simp only [bytes, bytesOf, Memtable.bytes, List.map_nil, List.sum_nil, List.map_cons, List.sum_cons, Nat.zero_add]

theorem inner_rotate_memtable_cases (memtableId : Nat) :
    t.innerRotateMemtable memtableId = t ∨ t.innerRotateMemtable memtableId = t.rotateMemtable := by
  unfold innerRotateMemtable
  split
  · exact .inl rfl
  · exact .inr rfl

theorem clear_sound (sound : t.Sound size) : t.clear.Sound size := by
  constructor
  · intro memtable member
    cases member
  · intro id taken
    exact Nat.lt_succ_of_lt (sound.takenOlder id taken)
  · intro sealedIds flushedSize _
    exact Nat.zero_le _

theorem clear_weight (sound : t.Sound size) : t.clear.weight size + t.unclaimed size = t.weight size := by
  have cleared : t.clear.bytes size = 0 := rfl
  have sealed := bytes_split size t t.takenIds
  rw [weight, weight, cleared, unclaimed, bytes]
  cases phase : t.flush with
  | writing sealedIds flushedSize =>
    have covered := sound.covered sealedIds flushedSize phase
    have taken : t.takenIds = sealedIds := by rw [takenIds, phase]
    rw [taken] at sealed ⊢
    simp only [owed, clear, phase, held_nil]
    omega
  | idle | flushed _ | exchanging _ _ =>
    have taken : t.takenIds = [] := by rw [takenIds, phase]
    rw [taken, without_nil]
    simp only [owed, clear, phase]
    omega

-- A phase in which the flush holds no memtables any more.
theorem phase_sound (phase : FlushPhase) (sound : t.Sound size)
    (written : ∀ sealedIds flushedSize, phase ≠ .writing sealedIds flushedSize) :
    ({ t with flush := phase } : MemTree E).Sound size := by
  refine ⟨sound.older, ?_, fun sealedIds flushedSize same => absurd same (written sealedIds flushedSize)⟩
  intro id taken
  cases phase with
  | writing sealedIds flushedSize => exact absurd rfl (written sealedIds flushedSize)
  | idle | flushed _ | exchanging _ _ => cases taken

theorem phase_weight (phase : FlushPhase) : ({ t with flush := phase } : MemTree E).weight size + t.owed size =
      t.weight size + ({ t with flush := phase } : MemTree E).owed size := by
  have same : ({ t with flush := phase } : MemTree E).bytes size = t.bytes size := rfl
  rw [weight, weight, same]
  omega

theorem start_flush_sound (sound : t.Sound size) : (t.startFlush size).Sound size := by
  unfold startFlush
  split
  · exact sound
  · refine ⟨sound.older, ?_, ?_⟩
    · intro id taken
      obtain ⟨memtable, member, rfl⟩ := List.mem_map.mp taken
      exact sound.older memtable member
    · rintro _ _ ⟨⟩
      exact Nat.le_of_eq (held_all size t)

theorem start_flush_weight (unlocked : t.flush = .idle) : (t.startFlush size).weight size = t.weight size := by
  unfold startFlush
  split
  · rfl
  · have nothing : t.owed size = 0 := by rw [owed, unlocked]
    have moved := phase_weight size t (.writing (t.sealedMemtables.map Memtable.id) (bytesOf size t.sealedMemtables))
    have kept : ({ t with flush := .writing (t.sealedMemtables.map Memtable.id) (bytesOf size t.sealedMemtables) } :
        MemTree E).owed size = 0 := by
      change bytesOf size t.sealedMemtables - t.held size (t.sealedMemtables.map Memtable.id) = 0
      rw [held_all, Nat.sub_self]
    rwa [nothing, kept] at moved

theorem register_tables_sound (sealedIds : List Nat) (flushedSize : Nat) (sound : t.Sound size) :
    (t.registerTables sealedIds flushedSize).Sound size := by
  refine ⟨fun memtable member => sound.older memtable (List.mem_of_mem_filter member), ?_, ?_⟩
  · intro id taken
    cases taken
  · rintro _ _ ⟨⟩

theorem register_tables_weight (sealedIds : List Nat) (flushedSize : Nat) (sound : t.Sound size)
    (phase : t.flush = .writing sealedIds flushedSize) :
    (t.registerTables sealedIds flushedSize).weight size = t.weight size := by
  have sealed := bytes_split size t sealedIds
  have covered := sound.covered sealedIds flushedSize phase
  simp only [weight, bytes, registerTables, owed, phase]
  omega

end MemTree

theorem sum_update (keyspaces : Finset Nat) (trees : Nat → MemTree E) (ks : Nat) (t : MemTree E) (opened : ks ∈ keyspaces) :
    ∑ other ∈ keyspaces, (Function.update trees ks t other).weight size + (trees ks).weight size =
      ∑ other ∈ keyspaces, (trees other).weight size + t.weight size := by
  have others : ∑ other ∈ keyspaces.erase ks, (Function.update trees ks t other).weight size =
      ∑ other ∈ keyspaces.erase ks, (trees other).weight size := by
    refine Finset.sum_congr rfl fun other member => ?_
    rw [Function.update_of_ne (Finset.ne_of_mem_erase member)]
  rw [← Finset.add_sum_erase keyspaces _ opened, ← Finset.add_sum_erase keyspaces (fun other => (trees other).weight size) opened,
    others, Function.update_self]
  omega

-- The steps that keep the counter on the memtables. A clear finds nothing but
-- what a running flush has taken, a flush that fails has lost none of its
-- memtables to a clear, and free does not run into zero.
def Tracks (s : Supervisor E) : BufferOp E → Prop
  | .clear ks => (s.trees ks).unclaimed size = 0
  | .flushFails ks => (s.trees ks).owed size = 0
  | .exchange ks => ∀ bytes, (s.trees ks).flush = .exchanging bytes s.writeBufferSize → bytes ≤ s.writeBufferSize
  | _ => True

structure BufferDrift (s : Supervisor E) (amount : Nat) : Prop where
  sound : ∀ ks, (s.trees ks).Sound size
  opened : ∀ item ∈ s.journal.todo, item.1 ∈ s.keyspaces
  counted : s.writeBufferSize + s.pending = ∑ ks ∈ s.keyspaces, (s.trees ks).weight size + amount

theorem buffer_drift_still (s next : Supervisor E) (amount : Nat) (drift : BufferDrift size s amount)
    (keyspaces : next.keyspaces = s.keyspaces) (trees : next.trees = s.trees)
    (opened : ∀ item ∈ next.journal.todo, item.1 ∈ s.keyspaces)
    (counted : next.writeBufferSize + next.pending = s.writeBufferSize + s.pending) : BufferDrift size next amount := by
  refine ⟨?_, ?_, ?_⟩
  · rw [trees]
    exact drift.sound
  · rw [keyspaces]
    exact opened
  · rw [counted, keyspaces, trees]
    exact drift.counted

theorem buffer_drift_tree (s next : Supervisor E) (ks : Nat) (t : MemTree E) (amount more : Nat)
    (drift : BufferDrift size s amount) (member : ks ∈ s.keyspaces) (sound : t.Sound size)
    (keyspaces : next.keyspaces = s.keyspaces) (trees : next.trees = Function.update s.trees ks t)
    (opened : ∀ item ∈ next.journal.todo, item ∈ s.journal.todo)
    (counted : next.writeBufferSize + next.pending + (s.trees ks).weight size =
      s.writeBufferSize + s.pending + t.weight size + more) : BufferDrift size next (amount + more) := by
  refine ⟨?_, ?_, ?_⟩
  · intro other
    rw [trees]
    by_cases same : other = ks
    · rw [same, Function.update_self]
      exact sound
    · rw [Function.update_of_ne same]
      exact drift.sound other
  · intro item left
    rw [keyspaces]
    exact drift.opened item (opened item left)
  · have before := drift.counted
    have changed := sum_update size s.keyspaces s.trees ks t member
    rw [keyspaces, trees]
    omega

variable (s : Supervisor E)

-- Most steps on a tree leave the counter and its own weight as they are.
theorem buffer_drift_kept (ks : Nat) (t : MemTree E) (amount : Nat) (drift : BufferDrift size s amount)
    (member : ks ∈ s.keyspaces) (sound : t.Sound size) (weight : t.weight size = (s.trees ks).weight size) :
    BufferDrift size (s.setTree ks t) amount := by
  refine buffer_drift_tree size s _ ks t amount 0 drift member sound rfl rfl (fun _ left => left) ?_
  have counter : (s.setTree ks t).writeBufferSize = s.writeBufferSize := rfl
  have pending : (s.setTree ks t).pending = s.pending := rfl
  omega

theorem apply_drift (batchSize ks : Nat) (entry : E) (todo : List (Nat × E)) (amount : Nat) (drift : BufferDrift size s amount)
    (phase : s.journal = .applying batchSize ((ks, entry) :: todo)) :
    BufferDrift size
      { s.setTree ks ((s.trees ks).put entry) with journal := .applying (batchSize + size entry) todo } amount := by
  have known : ks ∈ s.keyspaces := drift.opened (ks, entry) (by rw [phase]; exact List.mem_cons_self)
  refine buffer_drift_tree size s _ ks _ amount 0 drift known ((s.trees ks).put_sound size entry (drift.sound ks)) rfl rfl ?_ ?_
  · intro item left
    rw [phase]
    exact List.mem_cons_of_mem _ left
  · rw [(s.trees ks).put_weight size entry]
    simp only [Supervisor.pending, Supervisor.setTree, JournalLock.batchSize, phase]
    omega

-- A flush that ends hands back its lock, and what it owed is set against the counter.
theorem end_flush_drift (ks counter amount more : Nat) (drift : BufferDrift size s amount) (member : ks ∈ s.keyspaces)
    (paid : counter + (s.trees ks).owed size = s.writeBufferSize + more) :
    BufferDrift size { s.setTree ks { s.trees ks with flush := .idle } with writeBufferSize := counter } (amount + more) := by
  have freed := (s.trees ks).phase_weight size .idle
  have idle : ({ s.trees ks with flush := .idle } : MemTree E).owed size = 0 := rfl
  refine buffer_drift_tree size s _ ks _ amount more drift member
    ((s.trees ks).phase_sound size .idle (drift.sound ks) (by simp)) rfl rfl (fun _ left => left) ?_
  rw [idle] at freed
  simp only [Supervisor.pending, Supervisor.setTree]
  omega

-- Between the load and the exchange the flush goes on owing the same bytes.
theorem freeing_drift (ks amount : Nat) (phase : FlushPhase) (drift : BufferDrift size s amount) (member : ks ∈ s.keyspaces)
    (written : ∀ sealedIds flushedSize, phase ≠ .writing sealedIds flushedSize)
    (owed : ({ s.trees ks with flush := phase } : MemTree E).owed size = (s.trees ks).owed size) :
    BufferDrift size (s.setTree ks { s.trees ks with flush := phase }) amount := by
  have weight := (s.trees ks).phase_weight size phase
  rw [owed] at weight
  exact buffer_drift_kept size s ks _ amount drift member ((s.trees ks).phase_sound size phase (drift.sound ks) written)
    (Nat.add_right_cancel weight)

section Moves

variable (amount : Nat) (drift : BufferDrift size s amount)
include drift

-- The journal lock changes hands before anything of the batch is applied.
theorem lock_drift (lock : JournalLock E) (opened : ∀ item ∈ lock.todo, item.1 ∈ s.keyspaces)
    (same : lock.batchSize = s.journal.batchSize) : BufferDrift size { s with journal := lock } amount := by
  refine buffer_drift_still size s _ amount drift rfl rfl opened ?_
  simp only [Supervisor.pending, same]

theorem unlock_drift (batchSize : Nat) (phase : s.journal = .applying batchSize []) :
    BufferDrift size { s with journal := .free, unallocated := batchSize :: s.unallocated } amount := by
  refine buffer_drift_still size s _ amount drift rfl rfl (by simp [JournalLock.todo]) ?_
  simp only [Supervisor.pending, JournalLock.batchSize, phase, List.sum_cons]
  omega

theorem allocate_drift (itemSize : Nat) (written : itemSize ∈ s.unallocated) :
    BufferDrift size { s with writeBufferSize := s.writeBufferSize + itemSize, unallocated := s.unallocated.erase itemSize } amount := by
  refine buffer_drift_still size s _ amount drift rfl rfl drift.opened ?_
  have removed := List.sum_erase written
  simp only [Supervisor.pending]
  omega

variable (ks : Nat) (known : ks ∈ s.keyspaces)
include known

theorem rotate_drift (memtableId : Nat) : BufferDrift size (s.setTree ks ((s.trees ks).innerRotateMemtable memtableId)) amount := by
  rcases (s.trees ks).inner_rotate_memtable_cases memtableId with same | rotated
  · rw [same]
    exact buffer_drift_kept size s ks _ amount drift known (drift.sound ks) rfl
  · rw [rotated]
    exact buffer_drift_kept size s ks _ amount drift known ((s.trees ks).rotate_memtable_sound size (drift.sound ks))
      ((s.trees ks).rotate_memtable_weight size (drift.sound ks))

theorem clear_drift : BufferDrift size (s.setTree ks (s.trees ks).clear) (amount + (s.trees ks).unclaimed size) := by
  have dropped := (s.trees ks).clear_weight size (drift.sound ks)
  refine buffer_drift_tree size s _ ks _ amount _ drift known ((s.trees ks).clear_sound size (drift.sound ks)) rfl rfl
    (fun _ left => left) ?_
  simp only [Supervisor.pending, Supervisor.setTree]
  omega

theorem exchanged_drift (bytes : Nat) (phase : (s.trees ks).flush = .exchanging bytes s.writeBufferSize) :
    BufferDrift size { s.setTree ks { s.trees ks with flush := .idle } with writeBufferSize := s.writeBufferSize - bytes }
      (amount + (bytes - s.writeBufferSize)) ∧ (bytes - s.writeBufferSize = 0 ↔ Tracks size s (.exchange ks)) := by
  have owed : (s.trees ks).owed size = bytes := by rw [MemTree.owed, phase]
  refine ⟨end_flush_drift size s ks _ amount _ drift known (by omega), ?_, ?_⟩
  · intro enough other same
    cases phase.symm.trans same
    omega
  · intro tracks
    have enough := tracks bytes phase
    omega

theorem retry_drift (bytes now : Nat) (phase : (s.trees ks).flush = .exchanging bytes now) (moved : s.writeBufferSize ≠ now) :
    BufferDrift size (s.setTree ks { s.trees ks with flush := .flushed bytes }) amount ∧ Tracks size s (.exchange ks) := by
  refine ⟨freeing_drift size s ks amount _ drift known (by simp) (by simp only [MemTree.owed, phase]), ?_⟩
  intro other same
  cases phase.symm.trans same
  exact absurd rfl moved

end Moves

theorem buffer_ledger : Ledger (BufferStep size) (Tracks size) (BufferDrift size) := by
  constructor
  · intro s one two first second
    have counted := first.counted.symm.trans second.counted
    omega
  · intro s op next amount drift step
    have kept : ∀ {next op}, BufferDrift size next amount → Tracks size s op →
        ∃ more, BufferDrift size next (amount + more) ∧ (more = 0 ↔ Tracks size s op) :=
      fun drift tracks => ⟨0, drift, iff_of_true rfl tracks⟩
    cases step with
    | write ks entry free known =>
      refine kept (lock_drift size s amount drift _ ?_ (by rw [free]; rfl)) trivial
      rintro item member
      rw [List.mem_singleton.mp member]
      exact known
    | commit data free nonempty known => exact kept (lock_drift size s amount drift _ known (by rw [free]; rfl)) trivial
    | giveUp data phase => exact kept (lock_drift size s amount drift _ (by simp [JournalLock.todo]) (by rw [phase]; rfl)) trivial
    | journaled data phase =>
      have opened := drift.opened
      rw [phase] at opened
      exact kept (lock_drift size s amount drift _ opened (by rw [phase]; rfl)) trivial
    | apply batchSize ks entry todo phase => exact kept (apply_drift size s batchSize ks entry todo amount drift phase) trivial
    | unlock batchSize phase => exact kept (unlock_drift size s amount drift batchSize phase) trivial
    | allocate itemSize written => exact kept (allocate_drift size s amount drift itemSize written) trivial
    | rotateMemtable ks memtableId free known => exact kept (rotate_drift size s amount drift ks known memtableId) trivial
    | clear ks free known => exact ⟨_, clear_drift size s amount drift ks known, Iff.rfl⟩
    | flush ks known unlocked =>
      exact kept (buffer_drift_kept size s ks _ amount drift known ((s.trees ks).start_flush_sound size (drift.sound ks))
        ((s.trees ks).start_flush_weight size unlocked)) trivial
    | registerTables ks sealedIds flushedSize known phase =>
      exact kept (buffer_drift_kept size s ks _ amount drift known
        ((s.trees ks).register_tables_sound size sealedIds flushedSize (drift.sound ks))
        ((s.trees ks).register_tables_weight size sealedIds flushedSize (drift.sound ks) phase)) trivial
    | flushFails ks sealedIds flushedSize known phase =>
      exact ⟨(s.trees ks).owed size, end_flush_drift size s ks _ amount _ drift known rfl, Iff.rfl⟩
    | load ks bytes known phase =>
      exact kept (freeing_drift size s ks amount _ drift known (by simp) (by simp only [MemTree.owed, phase])) trivial
    | exchanged ks bytes known phase => exact ⟨_, exchanged_drift size s amount drift ks known bytes phase⟩
    | retry ks bytes now known phase moved =>
      obtain ⟨still, tracks⟩ := retry_drift size s amount drift ks known bytes now phase moved
      exact kept still tracks

-- A database as it is opened, new or recovered.
structure Supervisor.Settled (s : Supervisor E) : Prop where
  idle : s.Idle
  sound : ∀ ks, (s.trees ks).Sound size
  exact : s.writeBufferSize = s.memtableBytes size

theorem new_settled (keyspaces : Finset Nat) : (Supervisor.new keyspaces : Supervisor E).Settled size := by
  refine ⟨⟨rfl, rfl, fun _ _ => rfl⟩, ?_, ?_⟩
  · intro ks
    constructor
    · intro memtable member
      cases member
    · intro id taken
      cases taken
    · intro sealedIds flushedSize phase
      cases phase
  · exact (Finset.sum_eq_zero fun _ _ => rfl).symm

theorem idle_weight (idle : s.Idle) : ∑ ks ∈ s.keyspaces, (s.trees ks).weight size = s.memtableBytes size := by
  refine Finset.sum_congr rfl fun ks known => ?_
  rw [MemTree.weight, MemTree.owed, idle.2.2 ks known, Nat.add_zero]

theorem idle_pending (idle : s.Idle) : s.pending = 0 := by
  rw [Supervisor.pending, idle.1, idle.2.1]
  rfl

theorem idle_drift_iff (idle : s.Idle) (sound : ∀ ks, (s.trees ks).Sound size) :
    BufferDrift size s 0 ↔ s.writeBufferSize = s.memtableBytes size := by
  have pending := idle_pending s idle
  have weight := idle_weight size s idle
  constructor
  · intro drift
    have counted := drift.counted
    omega
  · intro exact
    refine ⟨sound, ?_, ?_⟩
    · intro item member
      rw [idle.1] at member
      cases member
    · omega

theorem empty_bytes (empty : t.Empty) : t.bytes size = 0 := by
  have active : t.activeMemtable.bytes size = 0 := by rw [Memtable.bytes, empty.1, List.map_nil, List.sum_nil]
  have sealed : bytesOf size t.sealedMemtables = 0 := by
    refine List.sum_eq_zero fun bytes member => ?_
    obtain ⟨memtable, among, rfl⟩ := List.mem_map.mp member
    rw [Memtable.bytes, empty.2 memtable among, List.map_nil, List.sum_nil]
  rw [MemTree.bytes, active, sealed]

theorem write_buffer_size_exact_iff (start last : Supervisor E) (ops : List (BufferOp E)) (settled : start.Settled size)
    (run : Run (BufferStep size) start ops last) (idle : last.Idle) :
    (last.writeBufferSize = last.memtableBytes size ∧
      ((∀ ks ∈ last.keyspaces, (last.trees ks).Empty) → last.writeBufferSize = 0)) ↔
      Run (Guarded (BufferStep size) (Tracks size)) start ops last := by
  have balanced := (idle_drift_iff size start settled.idle settled.sound).mpr settled.exact
  obtain ⟨_, drifted, -⟩ := ledger_run (buffer_ledger size) 0 run balanced
  rw [← ledger_balanced_iff (buffer_ledger size) run balanced, idle_drift_iff size last idle drifted.sound]
  constructor
  · rintro ⟨exact, -⟩
    exact exact
  · intro exact
    refine ⟨exact, fun empty => ?_⟩
    rw [exact]
    exact Finset.sum_eq_zero fun ks known => empty_bytes size _ (empty ks known)

def writeThenFlush : List (BufferOp Nat) :=
  [.write 1 5, .journaled, .apply, .unlock, .allocate 5, .rotateMemtable 1 0, .flush 1, .registerTables 1, .load 1, .exchange 1]

theorem flushed_write_leaves_zero :
    ∃ last : Supervisor Nat, Run (BufferStep id) (.new {1}) writeThenFlush last ∧
      last.writeBufferSize = last.memtableBytes id ∧
      ((∀ ks ∈ last.keyspaces, (last.trees ks).Empty) → last.writeBufferSize = 0) := by
  have reached : ∃ last : Supervisor Nat, Run (Guarded (BufferStep id) (Tracks id)) (.new {1}) writeThenFlush last ∧ last.Idle :=
    ⟨_, .cons _ _ ⟨trivial, .write _ 1 5 rfl (by decide)⟩ (.cons _ _ ⟨trivial, .journaled _ _ rfl⟩
      (.cons _ _ ⟨trivial, .apply _ 0 1 5 [] rfl⟩ (.cons _ _ ⟨trivial, .unlock _ 5 rfl⟩
      (.cons _ _ ⟨trivial, .allocate _ 5 (by decide)⟩ (.cons _ _ ⟨trivial, .rotateMemtable _ 1 0 rfl (by decide)⟩
      (.cons _ _ ⟨trivial, .flush _ 1 (by decide) rfl⟩ (.cons _ _ ⟨trivial, .registerTables _ 1 [0] 5 (by decide) rfl⟩
      (.cons _ _ ⟨trivial, .load _ 1 5 (by decide) rfl⟩
      (.cons _ _ ⟨(by rintro bytes ⟨⟩; exact Nat.le_refl _), .exchanged _ 1 5 (by decide) rfl⟩ (.nil _)))))))))),
      rfl, rfl, by decide⟩
  obtain ⟨last, run, idle⟩ := reached
  exact ⟨last, run_of_guarded run,
    (write_buffer_size_exact_iff id _ last _ (new_settled id {1}) (run_of_guarded run) idle).mpr run⟩

-- The clear drops the one entry that was counted, and in the second run the
-- flush frees the entry before its write gets to count it.
theorem clear_or_overtaking_flush_keeps_bytes :
    (∃ last : Supervisor Nat, Run (BufferStep id) (.new {1})
        [.write 1 5, .journaled, .apply, .unlock, .allocate 5, .clear 1] last ∧
      last.Idle ∧ (∀ ks ∈ last.keyspaces, (last.trees ks).Empty) ∧ last.writeBufferSize = 5) ∧
    (∃ last : Supervisor Nat, Run (BufferStep id) (.new {1})
        [.write 1 5, .journaled, .apply, .unlock, .rotateMemtable 1 0, .flush 1, .registerTables 1, .load 1, .exchange 1,
          .allocate 5] last ∧
      last.Idle ∧ (∀ ks ∈ last.keyspaces, (last.trees ks).Empty) ∧ last.writeBufferSize = 5) := by
  constructor
  · exact ⟨_, .cons _ _ (.write _ 1 5 rfl (by decide)) (.cons _ _ (.journaled _ _ rfl) (.cons _ _ (.apply _ 0 1 5 [] rfl)
      (.cons _ _ (.unlock _ 5 rfl) (.cons _ _ (.allocate _ 5 (by decide)) (.cons _ _ (.clear _ 1 rfl (by decide)) (.nil _)))))),
      ⟨rfl, rfl, by decide⟩, by decide, rfl⟩
  · exact ⟨_, .cons _ _ (.write _ 1 5 rfl (by decide)) (.cons _ _ (.journaled _ _ rfl) (.cons _ _ (.apply _ 0 1 5 [] rfl)
      (.cons _ _ (.unlock _ 5 rfl) (.cons _ _ (.rotateMemtable _ 1 0 rfl (by decide)) (.cons _ _ (.flush _ 1 (by decide) rfl)
      (.cons _ _ (.registerTables _ 1 [0] 5 (by decide) rfl) (.cons _ _ (.load _ 1 5 (by decide) rfl)
      (.cons _ _ (.exchanged _ 1 5 (by decide) rfl) (.cons _ _ (.allocate _ 5 (by decide)) (.nil _)))))))))),
      ⟨rfl, rfl, by decide⟩, by decide, rfl⟩

end OmryaKv.Background
