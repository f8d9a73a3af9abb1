import OmryaKv.Snapshot.Tracker
import OmryaKv.Lib.Run

set_option autoImplicit false

namespace OmryaKv.Snapshot

open Lib

variable {Item : Type}

-- Where the holder of the journal lock stands in WriteBatch::commit. From
-- applying on it also holds the keyspaces lock for reading.
inductive CommitPhase (Item : Type) where
  | idle
  | locked (data : List Item)
  | allocated (batchSeqno : Nat) (data : List Item)
  | applying (batchSeqno : Nat) (done todo : List Item)
  | published
deriving DecidableEq

def CommitPhase.holdsKeyspaces : CommitPhase Item → Bool
  | .applying _ _ _ => true
  | .published => true
  | _ => false

def CommitPhase.inFlight : CommitPhase Item → Option Nat
  | .allocated batchSeqno _ => some batchSeqno
  | .applying batchSeqno _ (_ :: _) => some batchSeqno
  | _ => none

-- MetaKeyspace::remove_keyspace, which holds the keyspaces lock for writing
-- and never takes the journal lock. Inside ingestion.finish() and inside the
-- maintenance lsm-tree takes a seqno for each version of the meta tree that it
-- installs, and then raises the visible seqno past it: installing is the time
-- between the two.
inductive DeletionPhase where
  | idle
  | locked
  | allocated (seqno : Nat)
  | raised
  | installing (version : Nat) (back : DeletionPhase)
deriving DecidableEq

def DeletionPhase.holds : DeletionPhase → List Nat
  | .allocated seqno => [seqno]
  | .installing version back => version :: back.holds
  | _ => []

def DeletionPhase.publishes : DeletionPhase → Option Nat
  | .allocated seqno => some seqno
  | .installing version _ => some version
  | _ => none

-- lingering counts the keyspaces read guards that commit drops after the
-- journal guard. batches remembers what every allocated seqno was meant for.
structure Supervisor (Item : Type) where
  seqno : Nat
  tracker : SnapshotTracker
  isPoisoned : Bool
  commit : CommitPhase Item
  deletion : DeletionPhase
  lingering : Nat
  memtables : List (Nat × Item)
  batches : List (Nat × List Item)
  snapshots : List Nat

def Supervisor.new (seqno : Nat) : Supervisor Item :=
  ⟨seqno, .new seqno, false, .idle, .idle, 0, [], [], []⟩

inductive SupervisorOp (Item : Type) where
  | lockJournal (data : List Item)
  | allocateBatch
  | persistFails
  | lockKeyspaces
  | applyItem
  | publish
  | unlockJournal
  | unlockKeyspaces
  | lockForDeletion
  | allocateDeletion
  | installVersion
  | publishVersion
  | raiseVisible
  | abandonDeletion
  | finishDeletion
  | openSnapshot
deriving DecidableEq

inductive SupervisorStep : Supervisor Item → SupervisorOp Item → Supervisor Item → Prop where
  | lockJournal (s : Supervisor Item) (data : List Item) (free : s.commit = .idle) (nonempty : data ≠ [])
      (healthy : s.isPoisoned = false) : SupervisorStep s (.lockJournal data) { s with commit := .locked data }
  | allocateBatch (s : Supervisor Item) (data : List Item) (phase : s.commit = .locked data) :
      SupervisorStep s .allocateBatch
        { s with seqno := s.seqno + 1, commit := .allocated s.seqno data, batches := (s.seqno, data) :: s.batches }
  | persistFails (s : Supervisor Item) (batchSeqno : Nat) (data : List Item) (phase : s.commit = .allocated batchSeqno data) :
      SupervisorStep s .persistFails { s with commit := .idle, isPoisoned := true }
  | lockKeyspaces (s : Supervisor Item) (batchSeqno : Nat) (data : List Item) (phase : s.commit = .allocated batchSeqno data)
      (unlocked : s.deletion = .idle) :
      SupervisorStep s .lockKeyspaces { s with commit := .applying batchSeqno [] data }
  | applyItem (s : Supervisor Item) (batchSeqno : Nat) (done todo : List Item) (item : Item)
      (phase : s.commit = .applying batchSeqno done (item :: todo)) :
      SupervisorStep s .applyItem
        { s with commit := .applying batchSeqno (done ++ [item]) todo, memtables := (batchSeqno, item) :: s.memtables }
  | publish (s : Supervisor Item) (batchSeqno : Nat) (done : List Item) (phase : s.commit = .applying batchSeqno done []) :
      SupervisorStep s .publish { s with commit := .published, tracker := s.tracker.publish batchSeqno }
  | unlockJournal (s : Supervisor Item) (phase : s.commit = .published) :
      SupervisorStep s .unlockJournal { s with commit := .idle, lingering := s.lingering + 1 }
  | unlockKeyspaces (s : Supervisor Item) (others : Nat) (held : s.lingering = others + 1) :
      SupervisorStep s .unlockKeyspaces { s with lingering := others }
  | lockForDeletion (s : Supervisor Item) (free : s.deletion = .idle) (unread : s.commit.holdsKeyspaces = false)
      (dropped : s.lingering = 0) : SupervisorStep s .lockForDeletion { s with deletion := .locked }
  | allocateDeletion (s : Supervisor Item) (phase : s.deletion = .locked) :
      SupervisorStep s .allocateDeletion { s with seqno := s.seqno + 1, deletion := .allocated s.seqno }
  -- How many versions finish() and the maintenance install is left open.
  | installVersion (s : Supervisor Item) (held : (∃ seqno, s.deletion = .allocated seqno) ∨ s.deletion = .raised) :
      SupervisorStep s .installVersion { s with seqno := s.seqno + 1, deletion := .installing s.seqno s.deletion }
  | publishVersion (s : Supervisor Item) (version : Nat) (back : DeletionPhase) (phase : s.deletion = .installing version back) :
      SupervisorStep s .publishVersion { s with tracker := s.tracker.publish version, deletion := back }
  | raiseVisible (s : Supervisor Item) (seqno : Nat) (phase : s.deletion = .allocated seqno) :
      SupervisorStep s .raiseVisible { s with tracker := s.tracker.publish seqno, deletion := .raised }
  -- The name is not in the map, or an ingestion call or the maintenance fails.
  | abandonDeletion (s : Supervisor Item) (held : s.deletion ≠ .idle) :
      SupervisorStep s .abandonDeletion { s with deletion := .idle }
  | finishDeletion (s : Supervisor Item) (phase : s.deletion = .raised) :
      SupervisorStep s .finishDeletion { s with deletion := .idle }
  | openSnapshot (s : Supervisor Item) :
      SupervisorStep s .openSnapshot
        { s with tracker := s.tracker.openSnapshot.2, snapshots := s.tracker.openSnapshot.1 :: s.snapshots }

-- A read at an instant sees the entries with a smaller seqno.
def Supervisor.Sees (s : Supervisor Item) (instant batchSeqno : Nat) (item : Item) : Prop :=
  (batchSeqno, item) ∈ s.memtables ∧ batchSeqno < instant

def Supervisor.SeesAllOrNone (s : Supervisor Item) (instant : Nat) (batch : Nat × List Item) : Prop :=
  (∀ item ∈ batch.2, s.Sees instant batch.1 item) ∨ ∀ item ∈ batch.2, ¬ s.Sees instant batch.1 item

def Supervisor.VisibleBelow (s : Supervisor Item) : Prop :=
  ∀ batchSeqno, s.commit.inFlight = some batchSeqno → s.tracker.get ≤ batchSeqno

def Supervisor.Progress (s : Supervisor Item) : CommitPhase Item → Prop
  | .allocated batchSeqno data => batchSeqno < s.seqno ∧
      (∀ batch ∈ s.batches, batch.1 = batchSeqno → batch.2 = data) ∧ ∀ entry ∈ s.memtables, entry.1 ≠ batchSeqno
  | .applying batchSeqno done todo => batchSeqno < s.seqno ∧
      (∀ batch ∈ s.batches, batch.1 = batchSeqno → batch.2 = done ++ todo) ∧ ∀ item ∈ done, (batchSeqno, item) ∈ s.memtables
  | _ => True

structure SupervisorInv (s : Supervisor Item) : Prop where
  visibleIssued : s.tracker.seqno ≤ s.seqno
  deletionIssued : ∀ seqno ∈ s.deletion.holds, seqno < s.seqno
  batchesIssued : ∀ batch ∈ s.batches, batch.1 < s.seqno
  memtablesIssued : ∀ entry ∈ s.memtables, entry.1 < s.seqno
  snapshotsVisible : ∀ instant ∈ s.snapshots, instant ≤ s.tracker.seqno
  exclusive : s.deletion ≠ .idle → s.commit.holdsKeyspaces = false ∧ s.lingering = 0
  progress : s.Progress s.commit
  settled : ∀ batch ∈ s.batches, (∀ item ∈ batch.2, (batch.1, item) ∈ s.memtables) ∨
    (∀ entry ∈ s.memtables, entry.1 ≠ batch.1) ∨ s.commit.inFlight = some batch.1

theorem supervisor_inv_initial (seqno : Nat) : SupervisorInv (.new seqno : Supervisor Item) where
  visibleIssued := Nat.le_refl _
  deletionIssued := by simp [Supervisor.new, DeletionPhase.holds]
  batchesIssued := by simp [Supervisor.new]
  memtablesIssued := by simp [Supervisor.new]
  snapshotsVisible := by simp [Supervisor.new]
  exclusive := by simp [Supervisor.new]
  progress := trivial
  settled := by simp [Supervisor.new]

variable (s : Supervisor Item)

theorem published_issued (inv : SupervisorInv s) (seqno : Nat)
    (publishing : s.deletion.publishes = some seqno) : seqno < s.seqno := by
  apply inv.deletionIssued
  cases current : s.deletion with
  | allocated own =>
    rw [current] at publishing
    cases publishing
    exact List.mem_cons_self
  | installing version back =>
    rw [current] at publishing
    cases publishing
    exact List.mem_cons_self
  | _ =>
    rw [current] at publishing
    cases publishing

theorem deletion_idle (inv : SupervisorInv s) (held : s.commit.holdsKeyspaces = true) : s.deletion = .idle := by
  by_contra busy
  rw [(inv.exclusive busy).1] at held
  cases held

-- Only the batch in flight has to find a new place when the commit moves on.
theorem settled_by (inv : SupervisorInv s) (phase : CommitPhase Item)
    (landed : ∀ batch ∈ s.batches, s.commit.inFlight = some batch.1 → (∀ item ∈ batch.2, (batch.1, item) ∈ s.memtables) ∨
      (∀ entry ∈ s.memtables, entry.1 ≠ batch.1) ∨ phase.inFlight = some batch.1) :
    ∀ batch ∈ s.batches, (∀ item ∈ batch.2, (batch.1, item) ∈ s.memtables) ∨
      (∀ entry ∈ s.memtables, entry.1 ≠ batch.1) ∨ phase.inFlight = some batch.1 := by
  intro batch member
  rcases inv.settled batch member with complete | absent | flying
  · exact .inl complete
  · exact .inr (.inl absent)
  · exact landed batch member flying

theorem allocate_batch_inv (inv : SupervisorInv s) (data : List Item) (phase : s.commit = .locked data) :
    SupervisorInv { s with seqno := s.seqno + 1, commit := .allocated s.seqno data, batches := (s.seqno, data) :: s.batches } := by
  refine { inv with
    visibleIssued := Nat.le_succ_of_le inv.visibleIssued
    deletionIssued := fun seqno allocated => Nat.lt_succ_of_lt (inv.deletionIssued seqno allocated)
    memtablesIssued := fun entry stored => Nat.lt_succ_of_lt (inv.memtablesIssued entry stored)
    exclusive := fun busy => ⟨rfl, (inv.exclusive busy).2⟩
    batchesIssued := ?_, progress := ?_, settled := ?_ }
  · intro batch member
    rcases List.mem_cons.mp member with rfl | older
    · exact Nat.lt_succ_self _
    · exact Nat.lt_succ_of_lt (inv.batchesIssued batch older)
  · refine ⟨Nat.lt_succ_self _, ?_, fun entry stored => Nat.ne_of_lt (inv.memtablesIssued entry stored)⟩
    intro batch member same
    rcases List.mem_cons.mp member with rfl | older
    · rfl
    · exact absurd same (Nat.ne_of_lt (inv.batchesIssued batch older))
  · intro batch member
    rcases List.mem_cons.mp member with rfl | older
    · exact .inr (.inr rfl)
    · refine settled_by s inv (.allocated s.seqno data) ?_ batch older
      simp [phase, CommitPhase.inFlight]

-- A deletion's own seqno and those of lsm-tree's versions come from the counter
-- that numbers the batches.
theorem take_seqno_inv (inv : SupervisorInv s) (phase : DeletionPhase) (busy : s.deletion ≠ .idle)
    (held : ∀ seqno ∈ phase.holds, seqno < s.seqno + 1) :
    SupervisorInv { s with seqno := s.seqno + 1, deletion := phase } := by
  refine { inv with
    visibleIssued := Nat.le_succ_of_le inv.visibleIssued
    deletionIssued := held
    batchesIssued := fun batch member => Nat.lt_succ_of_lt (inv.batchesIssued batch member)
    memtablesIssued := fun entry stored => Nat.lt_succ_of_lt (inv.memtablesIssued entry stored)
    exclusive := fun _ => inv.exclusive busy, progress := ?_ }
  have progress := inv.progress
  generalize current : s.commit = commit at progress ⊢
  cases commit with
  | allocated batchSeqno data => exact ⟨Nat.lt_succ_of_lt progress.1, progress.2⟩
  | applying batchSeqno done todo => exact ⟨Nat.lt_succ_of_lt progress.1, progress.2⟩
  | _ => trivial

theorem publish_seqno_inv (inv : SupervisorInv s) (seqno : Nat) (phase : DeletionPhase)
    (publishing : s.deletion.publishes = some seqno) (held : ∀ kept ∈ phase.holds, kept ∈ s.deletion.holds) :
    SupervisorInv { s with tracker := s.tracker.publish seqno, deletion := phase } where
  __ := inv
  visibleIssued := Nat.max_le.mpr ⟨inv.visibleIssued, published_issued s inv seqno publishing⟩
  deletionIssued := fun kept member => inv.deletionIssued kept (held kept member)
  snapshotsVisible := fun instant opened => Nat.le_trans (inv.snapshotsVisible instant opened) (Nat.le_max_left _ _)
  exclusive := fun _ => inv.exclusive fun idle => by simp [idle, DeletionPhase.publishes] at publishing

theorem apply_item_inv (inv : SupervisorInv s) (batchSeqno : Nat) (done todo : List Item) (item : Item)
    (phase : s.commit = .applying batchSeqno done (item :: todo)) :
    SupervisorInv { s with
      commit := .applying batchSeqno (done ++ [item]) todo, memtables := (batchSeqno, item) :: s.memtables } := by
  have progress := inv.progress
  rw [phase] at progress
  obtain ⟨issued, intended, applied⟩ := progress
  have inserted : ∀ other ∈ done ++ [item], (batchSeqno, other) ∈ (batchSeqno, item) :: s.memtables := by
    intro other member
    rcases List.mem_append.mp member with earlier | last
    · exact List.mem_cons_of_mem _ (applied other earlier)
    · rw [List.mem_singleton.mp last]
      exact List.mem_cons_self
  refine { inv with
    memtablesIssued := ?_, exclusive := ?_, progress := ⟨issued, ?_, inserted⟩, settled := ?_ }
  · intro entry member
    rcases List.mem_cons.mp member with rfl | stored
    · exact issued
    · exact inv.memtablesIssued entry stored
  · exact fun busy => absurd (deletion_idle s inv (by rw [phase]; rfl)) busy
  · intro batch member same
    rw [intended batch member same, List.append_assoc]
    rfl
  · intro batch member
    by_cases same : batch.1 = batchSeqno
    · cases todo with
      | nil =>
        left
        rw [same, intended batch member same]
        exact inserted
      | cons next rest => exact .inr (.inr (congrArg some same.symm))
    · rcases inv.settled batch member with complete | absent | flying
      · exact .inl fun other listed => List.mem_cons_of_mem _ (complete other listed)
      · refine .inr (.inl fun entry stored => ?_)
        rcases List.mem_cons.mp stored with rfl | older
        · exact Ne.symm same
        · exact absent entry older
      · simp only [phase, CommitPhase.inFlight, Option.some.injEq] at flying
        exact absurd flying.symm same

theorem supervisor_step_inv (s next : Supervisor Item) (op : SupervisorOp Item) (inv : SupervisorInv s)
    (step : SupervisorStep s op next) : SupervisorInv next := by
  cases step with
  | lockJournal data free nonempty healthy =>
    exact { inv with
      exclusive := fun busy => ⟨rfl, (inv.exclusive busy).2⟩, progress := trivial
      settled := settled_by s inv (.locked data) (by simp [free, CommitPhase.inFlight]) }
  | allocateBatch data phase => exact allocate_batch_inv s inv data phase
  | persistFails batchSeqno data phase =>
    have progress := inv.progress
    rw [phase] at progress
    refine { inv with
      exclusive := fun busy => ⟨rfl, (inv.exclusive busy).2⟩, progress := trivial, settled := settled_by s inv .idle ?_ }
    intro batch _ flying
    rw [phase] at flying
    cases flying
    exact .inr (.inl progress.2.2)
  | lockKeyspaces batchSeqno data phase unlocked =>
    have progress := inv.progress
    rw [phase] at progress
    refine { inv with
      exclusive := fun busy => absurd unlocked busy
      progress := ⟨progress.1, progress.2.1, by simp⟩, settled := settled_by s inv (.applying batchSeqno [] data) ?_ }
    intro batch member flying
    rw [phase] at flying
    cases flying
    cases data with
    | nil => exact .inl (by rw [progress.2.1 batch member rfl]; simp)
    | cons first rest => exact .inr (.inr rfl)
  | applyItem batchSeqno done todo item phase => exact apply_item_inv s inv batchSeqno done todo item phase
  | publish batchSeqno done phase =>
    have progress := inv.progress
    rw [phase] at progress
    exact { inv with
      visibleIssued := Nat.max_le.mpr ⟨inv.visibleIssued, progress.1⟩, snapshotsVisible := fun instant opened =>
        Nat.le_trans (inv.snapshotsVisible instant opened) (Nat.le_max_left _ _)
      exclusive := fun busy => absurd (deletion_idle s inv (by rw [phase]; rfl)) busy, progress := trivial
      settled := settled_by s inv .published (by simp [phase, CommitPhase.inFlight]) }
  | unlockJournal phase =>
    exact { inv with
      exclusive := fun busy => absurd (deletion_idle s inv (by rw [phase]; rfl)) busy, progress := trivial
      settled := settled_by s inv .idle (by simp [phase, CommitPhase.inFlight]) }
  | unlockKeyspaces others held =>
    refine { inv with exclusive := ?_ }
    intro busy
    have dropped := (inv.exclusive busy).2
    omega
  | lockForDeletion free unread dropped =>
    exact { inv with deletionIssued := by simp [DeletionPhase.holds], exclusive := fun _ => ⟨unread, dropped⟩ }
  | allocateDeletion phase =>
    exact take_seqno_inv s inv (.allocated s.seqno) (by simp [phase]) (by simp [DeletionPhase.holds])
  | installVersion held =>
    refine take_seqno_inv s inv (.installing s.seqno s.deletion) (by rcases held with ⟨_, held⟩ | held <;> simp [held]) ?_
    intro seqno member
    rcases List.mem_cons.mp member with rfl | kept
    · exact Nat.lt_succ_self _
    · exact Nat.lt_succ_of_lt (inv.deletionIssued seqno kept)
  | publishVersion version back phase =>
    exact publish_seqno_inv s inv version back (by rw [phase]; rfl) fun _ kept => by
      rw [phase]
      exact List.mem_cons_of_mem _ kept
  | raiseVisible seqno phase =>
    exact publish_seqno_inv s inv seqno .raised (by rw [phase]; rfl) (by simp [DeletionPhase.holds])
  | abandonDeletion | finishDeletion =>
    exact { inv with deletionIssued := by simp [DeletionPhase.holds], exclusive := fun busy => absurd rfl busy }
  | openSnapshot =>
    refine { inv with snapshotsVisible := ?_ }
    intro instant opened
    rcases List.mem_cons.mp opened with rfl | older
    · exact Nat.le_refl _
    · exact inv.snapshotsVisible instant older

-- A deletion must not overtake a batch between its seqno allocation and its
-- wait for the keyspaces lock, neither with its own seqno nor with a version's.
def RaiseSafe (s : Supervisor Item) : SupervisorOp Item → Prop
  | .raiseVisible | .publishVersion => ∀ batchSeqno data seqno,
      s.commit = .allocated batchSeqno data → s.deletion.publishes = some seqno → seqno < batchSeqno
  | _ => True

theorem publish_below (inv : SupervisorInv s) (below : s.VisibleBelow) (seqno : Nat) (phase : DeletionPhase)
    (publishing : s.deletion.publishes = some seqno)
    (safe : ∀ batchSeqno data raised,
      s.commit = .allocated batchSeqno data → s.deletion.publishes = some raised → raised < batchSeqno) :
    Supervisor.VisibleBelow { s with tracker := s.tracker.publish seqno, deletion := phase } := by
  intro flying started
  have before := below flying started
  have unread := (inv.exclusive fun idle => by simp [idle, DeletionPhase.publishes] at publishing).1
  cases current : s.commit with
  | allocated batchSeqno data =>
    simp only [current, CommitPhase.inFlight, Option.some.injEq] at started
    subst started
    exact Nat.max_le.mpr ⟨before, safe batchSeqno data seqno current publishing⟩
  | applying batchSeqno done todo => simp [current, CommitPhase.holdsKeyspaces] at unread
  | _ => simp [current, CommitPhase.inFlight] at started

theorem publish_exceeds (seqno : Nat) (phase : DeletionPhase) (publishing : s.deletion.publishes = some seqno)
    (hazard : ¬ ∀ batchSeqno data raised,
      s.commit = .allocated batchSeqno data → s.deletion.publishes = some raised → raised < batchSeqno) :
    ¬ Supervisor.VisibleBelow { s with tracker := s.tracker.publish seqno, deletion := phase } := by
  simp only [not_forall, Nat.not_lt] at hazard
  obtain ⟨batchSeqno, data, raised, waiting, published, overtaken⟩ := hazard
  obtain rfl : raised = seqno := by simpa [published] using publishing
  intro below
  have bound : max s.tracker.seqno (raised + 1) ≤ batchSeqno := below batchSeqno (by simp [waiting, CommitPhase.inFlight])
  omega

theorem supervisor_step_below (s next : Supervisor Item) (op : SupervisorOp Item) (inv : SupervisorInv s)
    (below : s.VisibleBelow) (step : SupervisorStep s op next) (safe : RaiseSafe s op) : next.VisibleBelow := by
  cases step with
  | allocateBatch data phase =>
    rintro _ ⟨⟩
    exact inv.visibleIssued
  | lockKeyspaces batchSeqno data phase unlocked =>
    intro flying started
    apply below
    cases data with
    | nil => cases started
    | cons first rest =>
      rw [phase]
      exact started
  | applyItem batchSeqno done todo item phase =>
    intro flying started
    apply below
    rw [phase]
    cases todo with
    | nil => cases started
    | cons first rest => exact started
  | publishVersion version back phase => exact publish_below s inv below version back (by rw [phase]; rfl) safe
  | raiseVisible seqno phase => exact publish_below s inv below seqno .raised (by rw [phase]; rfl) safe
  | lockJournal => rintro _ ⟨⟩
  | persistFails => rintro _ ⟨⟩
  | publish => rintro _ ⟨⟩
  | unlockJournal => rintro _ ⟨⟩
  | _ => exact below

theorem raise_exceeds (s next : Supervisor Item) (op : SupervisorOp Item) (step : SupervisorStep s op next)
    (hazard : ¬ RaiseSafe s op) : ¬ next.VisibleBelow := by
  cases step with
  | publishVersion version back phase => exact publish_exceeds s version back (by rw [phase]; rfl) hazard
  | raiseVisible seqno phase => exact publish_exceeds s seqno .raised (by rw [phase]; rfl) hazard
  | _ => exact absurd trivial hazard

theorem snapshot_sees_all_or_none (inv : SupervisorInv s) (below : s.VisibleBelow) (instant : Nat)
    (opened : instant ∈ s.snapshots) (batch : Nat × List Item) (member : batch ∈ s.batches) :
    s.SeesAllOrNone instant batch := by
  by_cases visible : batch.1 < instant
  · rcases inv.settled batch member with complete | absent | flying
    · exact .inl fun item listed => ⟨complete item listed, visible⟩
    · exact .inr fun item _ seen => absent _ seen.1 rfl
    · have hidden : s.tracker.seqno ≤ batch.1 := below batch.1 flying
      have published := inv.snapshotsVisible instant opened
      omega
  · exact .inr fun _ _ seen => visible seen.2

theorem snapshots_see_whole_batches (seqno : Nat) :
    (∀ ops (s : Supervisor Item), Run (Guarded SupervisorStep RaiseSafe) (.new seqno) ops s →
      s.VisibleBelow ∧ ∀ instant ∈ s.snapshots, ∀ batch ∈ s.batches, s.SeesAllOrNone instant batch) ∧
    (∀ ops (s : Supervisor Item) op next, Run SupervisorStep (.new seqno) ops s → SupervisorStep s op next →
      ¬ RaiseSafe s op → ¬ next.VisibleBelow) := by
  refine ⟨?_, fun ops s op next _ step hazard => raise_exceeds s next op step hazard⟩
  intro ops s run
  have reached : SupervisorInv s ∧ s.VisibleBelow := by
    refine run_invariant _ (fun s => SupervisorInv s ∧ s.VisibleBelow) ?_ run
      ⟨supervisor_inv_initial seqno, fun _ started => by cases started⟩
    intro s op next inv step
    exact ⟨supervisor_step_inv s next op inv.1 step.2, supervisor_step_below s next op inv.1 inv.2 step.2 step.1⟩
  exact ⟨reached.2, snapshot_sees_all_or_none s reached.1 reached.2⟩

theorem earlier_deletion_leaves_batch_whole :
    ∃ s : Supervisor Nat, Run (Guarded SupervisorStep RaiseSafe) (.new 0)
        [.lockForDeletion, .allocateDeletion, .installVersion, .lockJournal [10, 20], .allocateBatch, .publishVersion,
          .raiseVisible, .finishDeletion, .lockKeyspaces, .applyItem, .openSnapshot] s ∧
      s.snapshots = [2] ∧ s.batches = [(2, [10, 20])] ∧ s.SeesAllOrNone 2 (2, [10, 20]) := by
  have reached : ∃ s : Supervisor Nat, Run (Guarded SupervisorStep RaiseSafe) (.new 0)
      [.lockForDeletion, .allocateDeletion, .installVersion, .lockJournal [10, 20], .allocateBatch, .publishVersion,
        .raiseVisible, .finishDeletion, .lockKeyspaces, .applyItem, .openSnapshot] s ∧
      s.snapshots = [2] ∧ s.batches = [(2, [10, 20])] :=
    ⟨_, .cons _ _ ⟨trivial, .lockForDeletion _ rfl rfl rfl⟩ (.cons _ _ ⟨trivial, .allocateDeletion _ rfl⟩
      (.cons _ _ ⟨trivial, .installVersion _ (.inl ⟨_, rfl⟩)⟩ (.cons _ _ ⟨trivial, .lockJournal _ _ rfl (by decide) rfl⟩
      (.cons _ _ ⟨trivial, .allocateBatch _ _ rfl⟩ (.cons _ _ ⟨by rintro _ _ _ ⟨⟩ ⟨⟩; decide, .publishVersion _ _ _ rfl⟩
      (.cons _ _ ⟨by rintro _ _ _ ⟨⟩ ⟨⟩; decide, .raiseVisible _ _ rfl⟩ (.cons _ _ ⟨trivial, .finishDeletion _ rfl⟩
      (.cons _ _ ⟨trivial, .lockKeyspaces _ _ _ rfl rfl⟩ (.cons _ _ ⟨trivial, .applyItem _ _ _ _ _ rfl⟩
      (.cons _ _ ⟨trivial, .openSnapshot _⟩ (.nil _))))))))))), rfl, rfl⟩
  obtain ⟨s, run, opened, allocated⟩ := reached
  have whole := ((snapshots_see_whole_batches 0).1 _ s run).2 2 (by simp [opened]) (2, [10, 20]) (by simp [allocated])
  exact ⟨s, run, opened, allocated, whole⟩

-- The deletion takes seqno 1, and the version that ingestion.finish() installs
-- takes seqno 2.
theorem deletion_tears_batch :
    ∃ s : Supervisor Nat, Run SupervisorStep (.new 0)
        [.lockJournal [10, 20], .allocateBatch, .lockForDeletion, .allocateDeletion, .installVersion, .publishVersion,
          .raiseVisible, .finishDeletion, .lockKeyspaces, .applyItem, .openSnapshot] s ∧
      ¬ s.VisibleBelow ∧ 3 ∈ s.snapshots ∧ (0, [10, 20]) ∈ s.batches ∧ ¬ s.SeesAllOrNone 3 (0, [10, 20]) := by
  refine ⟨_, .cons _ _ (.lockJournal _ _ rfl (by decide) rfl) (.cons _ _ (.allocateBatch _ _ rfl)
    (.cons _ _ (.lockForDeletion _ rfl rfl rfl) (.cons _ _ (.allocateDeletion _ rfl)
    (.cons _ _ (.installVersion _ (.inl ⟨_, rfl⟩)) (.cons _ _ (.publishVersion _ _ _ rfl)
    (.cons _ _ (.raiseVisible _ _ rfl) (.cons _ _ (.finishDeletion _ rfl)
    (.cons _ _ (.lockKeyspaces _ _ _ rfl rfl) (.cons _ _ (.applyItem _ _ _ _ _ rfl)
    (.cons _ _ (.openSnapshot _) (.nil _))))))))))), ?_, by decide, by decide, ?_⟩
  · intro below
    exact absurd (below 0 rfl) (by decide)
  · rintro (all | none)
    · exact absurd (all 20 (by decide)).1 (by decide)
    · exact none 10 (by decide) ⟨by decide, by decide⟩

end OmryaKv.Snapshot
