import OmryaKv.Tx.OptimisticTxDatabase

set_option autoImplicit false

namespace OmryaKv.Tx

open Lib Snapshot

section Views

variable {K V : Type} [LinearOrder K]
variable (trees : Trees K V)

theorem view_at_covering (instant later : Nat) (ordered : instant ≤ later)
    (published : ∀ keyspaceId, ∀ version ∈ trees keyspaceId, version.seqno < instant) :
    viewAt trees later = viewAt trees instant := by
  funext place
  have everything : ∀ top, instant ≤ top → seen (trees place.1) top = trees place.1 := by
    intro top above
    apply List.filter_eq_self.mpr
    intro version member
    exact decide_eq_true (Nat.lt_of_lt_of_le (published place.1 version member) above)
  rw [viewAt, viewAt, treeGet, treeGet, everything later ordered, everything instant (Nat.le_refl _)]

theorem apply_item_unseen (seqno instant : Nat) (item : (Nat × K) × Option V) (early : instant ≤ seqno) :
    viewAt (applyItem trees seqno item) instant = viewAt trees instant := by
  funext place
  unfold viewAt treeGet applyItem
  by_cases same : place.1 = item.1.1
  · have hidden : ¬ seqno < instant := Nat.not_lt.mpr early
    rw [same, Function.update_self, seen, List.filter_cons_of_neg (by simpa using hidden)]
    rfl
  · rw [Function.update_of_ne same]

omit [LinearOrder K] in
theorem mem_apply_item (seqno : Nat) (item : (Nat × K) × Option V) (keyspaceId : Nat) (version : Version K V)
    (member : version ∈ applyItem trees seqno item keyspaceId) :
    version.seqno = seqno ∨ version ∈ trees keyspaceId := by
  by_cases same : keyspaceId = item.1.1
  · subst same
    rw [applyItem, Function.update_self] at member
    exact (List.mem_cons.mp member).imp_left fun new => by rw [new]
  · rw [applyItem, Function.update_of_ne same] at member
    exact .inr member

theorem apply_item_view (seqno : Nat) (item : (Nat × K) × Option V)
    (newest : ∀ keyspaceId, ∀ version ∈ trees keyspaceId, version.seqno ≤ seqno) :
    viewAt (applyItem trees seqno item) (seqno + 1) = Function.update (viewAt trees (seqno + 1)) item.1 item.2 := by
  funext place
  obtain ⟨placeId, placeKey⟩ := place
  obtain ⟨⟨itemId, itemKey⟩, value⟩ := item
  unfold viewAt treeGet applyItem lookup
  by_cases sameId : placeId = itemId
  · subst sameId
    have outranks : ∀ low ∈ seen (trees placeId) (seqno + 1), low.seqno ≤ seqno := fun low member =>
      newest placeId low (List.mem_filter.mp member).1
    have top := newest_cons Version.key Version.seqno placeKey ⟨itemKey, seqno, value⟩ (seen (trees placeId) (seqno + 1))
      outranks
    have shown : seen (⟨itemKey, seqno, value⟩ :: trees placeId) (seqno + 1) =
        ⟨itemKey, seqno, value⟩ :: seen (trees placeId) (seqno + 1) := List.filter_cons_of_pos (by simp)
    rw [Function.update_self, shown, top]
    by_cases sameKey : placeKey = itemKey
    · subst sameKey
      simp
    · simp [sameKey, Ne.symm sameKey]
  · simp [sameId]

theorem apply_all_view (items : List ((Nat × K) × Option V)) (trees : Trees K V) (seqno : Nat)
    (newest : ∀ keyspaceId, ∀ version ∈ trees keyspaceId, version.seqno ≤ seqno) :
    viewAt (items.foldl (fun applied item => applyItem applied seqno item) trees) (seqno + 1) =
      updateAll (viewAt trees (seqno + 1)) items := by
  induction items generalizing trees with
  | nil => rfl
  | cons item rest ih =>
    have step := apply_item_view trees seqno item newest
    have later := ih (applyItem trees seqno item) fun keyspaceId version member =>
      (mem_apply_item trees seqno item keyspaceId version member).elim Nat.le_of_eq (newest keyspaceId version)
    rw [step] at later
    exact later

end Views

section Invariant

variable {K V : Type} [LinearOrder K] (prefixToRange : K → Bound K × Bound K) (initial : View K V)

abbrev stateAfter (commits : List (Committed K V)) : View K V :=
  afterAll TxOp.apply initial (commits.map Committed.history)

structure SessionInv (db : TxDatabase K V) (session : Session K V) : Prop where
  numbered : session.tx.inner.Numbered
  valid : session.tx.cm.Valid
  published : session.instant ≤ db.visible
  begun : session.begun ≤ db.commits.length
  snapshot : viewAt db.trees session.instant = stateAfter initial (db.commits.take session.begun)
  reproduces : session.tx.Reproduces prefixToRange (viewAt db.trees session.instant) session.history
  framed : Frames TxOp.apply session.tx.cm.Writes session.history
  -- Whoever has committed since is still on record, under a later timestamp.
  rivals : ∀ rival ∈ db.commits.drop session.begun,
    session.instant < rival.timestamp ∧ (rival.timestamp, rival.cm) ∈ db.oracle.committedTxns

structure ApplyingInv (db : TxDatabase K V) (applying : Applying K V) : Prop where
  unpublished : db.visible ≤ applying.seqno
  taken : applying.seqno < db.seqno
  reserved : applying.seqno < reservedSeqno
  replays : Replays (TxOp.Holds prefixToRange) TxOp.apply (stateAfter initial db.commits) applying.session.history
  result : updateAll (viewAt db.trees (applying.seqno + 1)) applying.pending =
    after TxOp.apply (stateAfter initial db.commits) applying.session.history
  framed : Frames TxOp.apply applying.session.tx.cm.Writes applying.session.history

structure ReadOnlyInv (db : TxDatabase K V) (session : Session K V) : Prop where
  begun : session.begun ≤ db.commits.length
  replays : Replays (TxOp.Holds prefixToRange) TxOp.apply (stateAfter initial (db.commits.take session.begun)) session.history
  idle : after TxOp.apply (stateAfter initial (db.commits.take session.begun)) session.history =
    stateAfter initial (db.commits.take session.begun)

structure TxInv (db : TxDatabase K V) : Prop where
  visible : db.visible ≤ db.seqno
  bounded : ∀ keyspaceId, ∀ version ∈ db.trees keyspaceId, version.seqno < reservedSeqno
  published : ∀ keyspaceId, ∀ version ∈ db.trees keyspaceId,
    version.seqno < db.visible ∨ ∃ applying, db.applying = some applying ∧ version.seqno = applying.seqno
  timestamps : ∀ entry ∈ db.oracle.committedTxns, entry.1 ≤ db.visible
  current : db.view = stateAfter initial db.commits
  serial : Serial (TxOp.Holds prefixToRange) TxOp.apply initial db.histories
  framed : ∀ commit ∈ db.commits, Frames TxOp.apply commit.cm.Writes commit.history
  sessions : ∀ name session, db.sessions name = some session → SessionInv prefixToRange initial db session
  applying : ∀ applying, db.applying = some applying → ApplyingInv prefixToRange initial db applying
  readOnly : ∀ session ∈ db.readOnly, ReadOnlyInv prefixToRange initial db session

variable {prefixToRange initial}

-- A session only notices the commits that are added, its own snapshot, and the
-- entries of the oracle that are later than it.
theorem SessionInv.carry {db next : TxDatabase K V} {session : Session K V}
    (inv : SessionInv prefixToRange initial db session) (added : List (Committed K V))
    (commits : next.commits = db.commits ++ added) (visible : db.visible ≤ next.visible)
    (view : viewAt next.trees session.instant = viewAt db.trees session.instant)
    (kept : ∀ entry ∈ db.oracle.committedTxns, session.instant < entry.1 → entry ∈ next.oracle.committedTxns)
    (recorded : ∀ rival ∈ added,
      session.instant < rival.timestamp ∧ (rival.timestamp, rival.cm) ∈ next.oracle.committedTxns) :
    SessionInv prefixToRange initial next session where
  numbered := inv.numbered
  valid := inv.valid
  published := Nat.le_trans inv.published visible
  begun := by
    rw [commits, List.length_append]
    exact Nat.le_add_right_of_le inv.begun
  snapshot := by rw [view, inv.snapshot, commits, List.take_append_of_le_length inv.begun]
  reproduces := by
    rw [view]
    exact inv.reproduces
  framed := inv.framed
  rivals := by
    rw [commits, List.drop_append_of_le_length inv.begun]
    intro rival member
    rcases List.mem_append.mp member with earlier | new
    · have old := inv.rivals rival earlier
      exact ⟨old.1, kept _ old.2 old.1⟩
    · exact recorded rival new

theorem SessionInv.keep {db next : TxDatabase K V} {session : Session K V}
    (inv : SessionInv prefixToRange initial db session) (commits : next.commits = db.commits)
    (visible : db.visible ≤ next.visible)
    (view : viewAt next.trees session.instant = viewAt db.trees session.instant)
    (kept : ∀ entry ∈ db.oracle.committedTxns, session.instant < entry.1 → entry ∈ next.oracle.committedTxns) :
    SessionInv prefixToRange initial next session :=
  inv.carry [] (by rw [commits, List.append_nil]) visible view kept (by simp)

theorem ReadOnlyInv.carry {db next : TxDatabase K V} {session : Session K V}
    (inv : ReadOnlyInv prefixToRange initial db session) (added : List (Committed K V))
    (commits : next.commits = db.commits ++ added) : ReadOnlyInv prefixToRange initial next session := by
  have prefixed : next.commits.take session.begun = db.commits.take session.begun := by
    rw [commits, List.take_append_of_le_length inv.begun]
  refine ⟨?_, ?_, ?_⟩
  · rw [commits, List.length_append]
    exact Nat.le_add_right_of_le inv.begun
  · rw [prefixed]
    exact inv.replays
  · rw [prefixed]
    exact inv.idle

theorem ReadOnlyInv.keep {db next : TxDatabase K V} {session : Session K V}
    (inv : ReadOnlyInv prefixToRange initial db session) (commits : next.commits = db.commits) :
    ReadOnlyInv prefixToRange initial next session :=
  inv.carry [] (by rw [commits, List.append_nil])

theorem ApplyingInv.keep {db next : TxDatabase K V} {applying : Applying K V}
    (inv : ApplyingInv prefixToRange initial db applying) (commits : next.commits = db.commits)
    (visible : next.visible = db.visible) (later : db.seqno ≤ next.seqno)
    (view : viewAt next.trees (applying.seqno + 1) = viewAt db.trees (applying.seqno + 1)) :
    ApplyingInv prefixToRange initial next applying where
  unpublished := by
    rw [visible]
    exact inv.unpublished
  taken := Nat.lt_of_lt_of_le inv.taken later
  reserved := inv.reserved
  replays := by
    rw [commits]
    exact inv.replays
  result := by
    rw [view, commits]
    exact inv.result
  framed := inv.framed

-- The steps that leave the trees and the commit order alone.
theorem TxInv.quiet {db : TxDatabase K V} (inv : TxInv prefixToRange initial db) (oracle : Oracle K) (seqno : Nat)
    (sessions : Nat → Option (Session K V)) (readOnly : List (Session K V)) (later : db.seqno ≤ seqno)
    (visible : oracle.snapshotTracker.seqno = db.tracker.seqno)
    (fewer : ∀ entry ∈ oracle.committedTxns, entry ∈ db.oracle.committedTxns)
    (sessionInv : ∀ name session, sessions name = some session →
      SessionInv prefixToRange initial { db with oracle, seqno, sessions, readOnly } session)
    (readOnlyInv : ∀ session ∈ readOnly,
      ReadOnlyInv prefixToRange initial { db with oracle, seqno, sessions, readOnly } session) :
    TxInv prefixToRange initial { db with oracle, seqno, sessions, readOnly } := by
  have same : { db with oracle, seqno, sessions, readOnly }.visible = db.visible := visible
  refine ⟨?_, inv.bounded, ?_, ?_, ?_, inv.serial, inv.framed, sessionInv, ?_, readOnlyInv⟩
  · rw [same]
    exact Nat.le_trans inv.visible later
  · rw [same]
    exact inv.published
  · rw [same]
    exact fun entry member => inv.timestamps entry (fewer entry member)
  · rw [TxDatabase.view, same]
    exact inv.current
  · intro applying locked
    exact (inv.applying applying locked).keep rfl same later rfl

theorem TxInv.seat {db : TxDatabase K V} (inv : TxInv prefixToRange initial db) (name : Nat) (session : Session K V)
    (current : SessionInv prefixToRange initial db session) (tracker : SnapshotTracker)
    (visible : tracker.seqno = db.tracker.seqno) :
    TxInv prefixToRange initial
      { db.withTracker tracker with sessions := Function.update db.sessions name (some session) } := by
  refine inv.quiet { db.oracle with snapshotTracker := tracker } db.seqno _ db.readOnly (Nat.le_refl _) visible
    (fun _ member => member) ?_ ?_
  · intro other found located
    by_cases same : other = name
    · rw [same, Function.update_self] at located
      cases located
      exact current.keep rfl (Nat.le_of_eq visible.symm) rfl fun _ member _ => member
    · rw [Function.update_of_ne same] at located
      exact (inv.sessions other found located).keep rfl (Nat.le_of_eq visible.symm) rfl fun _ member _ => member
  · intro reader member
    exact (inv.readOnly reader member).keep rfl

-- One session ends, by a rollback or by a commit of any outcome, and the others
-- still find what they need in the oracle.
theorem TxInv.depart {db : TxDatabase K V} (inv : TxInv prefixToRange initial db) (name : Nat) (oracle : Oracle K)
    (seqno : Nat) (readOnly : List (Session K V)) (later : db.seqno ≤ seqno)
    (visible : oracle.snapshotTracker.seqno = db.tracker.seqno)
    (fewer : ∀ entry ∈ oracle.committedTxns, entry ∈ db.oracle.committedTxns)
    (kept : ∀ other rival, other ≠ name → db.sessions other = some rival →
      ∀ entry ∈ db.oracle.committedTxns, rival.instant < entry.1 → entry ∈ oracle.committedTxns)
    (readOnlyInv : ∀ session ∈ readOnly, ReadOnlyInv prefixToRange initial db session) :
    TxInv prefixToRange initial { db with oracle, seqno, sessions := Function.update db.sessions name none, readOnly } := by
  refine inv.quiet oracle seqno _ readOnly later visible fewer ?_ ?_
  · intro other session found
    by_cases same : other = name
    · rw [same, Function.update_self] at found
      cases found
    · rw [Function.update_of_ne same] at found
      exact (inv.sessions other session found).keep rfl (Nat.le_of_eq visible.symm) rfl (kept other session same found)
  · intro session member
    exact (readOnlyInv session member).keep rfl

theorem TxInv.lock {db : TxDatabase K V} (inv : TxInv prefixToRange initial db) (unlocked : db.applying = none)
    (applying : Applying K V) (running : ApplyingInv prefixToRange initial db applying) :
    TxInv prefixToRange initial { db with applying := some applying } := by
  refine ⟨inv.visible, inv.bounded, ?_, inv.timestamps, inv.current, inv.serial, inv.framed, ?_, ?_, ?_⟩
  · intro keyspaceId version member
    rcases inv.published keyspaceId version member with below | ⟨other, locked, _⟩
    · exact .inl below
    · rw [unlocked] at locked
      cases locked
  · intro name session found
    exact (inv.sessions name session found).keep rfl (Nat.le_refl _) rfl fun _ member _ => member
  · rintro other ⟨⟩
    exact running.keep rfl rfl (Nat.le_refl _) rfl
  · intro session member
    exact (inv.readOnly session member).keep rfl

end Invariant

end OmryaKv.Tx
