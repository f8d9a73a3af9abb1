import OmryaKv.Tx.Invariant

set_option autoImplicit false

namespace OmryaKv.Tx

open Lib Snapshot

section

variable {K V : Type} [LinearOrder K] {prefixToRange : K → Bound K × Bound K} {initial : View K V}
variable (db : TxDatabase K V)

theorem opened_inv (opened : Opened db) : TxInv prefixToRange db.view db where
  visible := opened.visible
  bounded := opened.bounded
  published := fun keyspaceId version member => .inl (opened.published keyspaceId version member)
  timestamps := by simp [opened.committedTxns]
  current := by simp [stateAfter, opened.commits]
  serial := by
    rw [TxDatabase.histories, opened.commits]
    trivial
  framed := by simp [opened.commits]
  sessions := by simp [opened.sessions]
  applying := by simp [opened.applying]
  readOnly := by simp [opened.readOnly]

theorem new_session_inv (inv : TxInv prefixToRange initial db) :
    SessionInv prefixToRange initial db ⟨.new db.visible, [], db.commits.length⟩ where
  numbered := BaseTransaction.new_numbered _
  valid := fun keyspaceId reads found => by cases found
  published := Nat.le_refl _
  begun := Nat.le_refl _
  snapshot := by
    rw [List.take_length]
    exact inv.current
  reproduces := fun base _ => ⟨trivial, rfl⟩
  framed := fun view place _ => rfl
  rivals := by simp

theorem read_only_inv (session : Session K V) (old : SessionInv prefixToRange initial db session)
    (unwritten : session.tx.inner.memtables.entries = []) : ReadOnlyInv prefixToRange initial db session := by
  obtain ⟨replays, ends⟩ := old.reproduces (viewAt db.trees session.instant) fun _ _ => rfl
  rw [old.snapshot] at replays ends
  exact ⟨old.begun, replays, ends.trans (session.tx.inner.overlay_unwritten unwritten _)⟩

theorem pruned_kept (instant : Nat) (cm : ConflictManager K) (order : IterationOrder Nat) (conflicted : Bool)
    (oracle : Oracle K) (started : db.oracle.startCommit instant cm order = some (conflicted, oracle))
    (rival : Session K V) (below : (db.tracker.closeRaw instant order).getSeqnoSafeToGc ≤ rival.instant)
    (entry : Nat × ConflictManager K) (member : entry ∈ db.oracle.committedTxns) (later : rival.instant < entry.1) :
    entry ∈ oracle.committedTxns := by
  obtain ⟨_, tracker, committed⟩ := Oracle.start_commit_some _ _ _ _ _ _ started
  rw [committed, tracker]
  exact List.mem_filter.mpr ⟨member, decide_eq_true (Nat.lt_of_le_of_lt below later)⟩

theorem pruned_fewer (instant : Nat) (cm : ConflictManager K) (order : IterationOrder Nat) (conflicted : Bool)
    (oracle : Oracle K) (started : db.oracle.startCommit instant cm order = some (conflicted, oracle))
    (entry : Nat × ConflictManager K) (member : entry ∈ oracle.committedTxns) : entry ∈ db.oracle.committedTxns := by
  obtain ⟨_, _, committed⟩ := Oracle.start_commit_some _ _ _ _ _ _ started
  rw [committed] at member
  exact (List.mem_filter.mp member).1

theorem started_visible (instant : Nat) (cm : ConflictManager K) (order : IterationOrder Nat) (conflicted : Bool)
    (oracle : Oracle K) (started : db.oracle.startCommit instant cm order = some (conflicted, oracle)) :
    oracle.snapshotTracker.seqno = db.tracker.seqno := by
  rw [(Oracle.start_commit_some _ _ _ _ _ _ started).2.1]
  exact SnapshotTracker.close_raw_seqno _ _ _

-- Validation: what a session has read is the same in the latest state as in its snapshot.
theorem validated_agrees (inv : TxInv prefixToRange initial db) (session : Session K V)
    (old : SessionInv prefixToRange initial db session)
    (clear : db.oracle.conflicted session.instant session.tx.cm = some false) (place : Nat × K)
    (read : session.tx.cm.Covers place) : stateAfter initial db.commits place = viewAt db.trees session.instant place := by
  have split : stateAfter initial db.commits = afterAll TxOp.apply (stateAfter initial (db.commits.take session.begun))
      ((db.commits.drop session.begun).map Committed.history) := by
    rw [stateAfter, stateAfter, afterAll, afterAll, afterAll, ← List.foldl_append, ← List.map_append, List.take_append_drop]
  rw [split, old.snapshot]
  apply after_all_unwritten
  intro history member
  obtain ⟨rival, rivalMember, rfl⟩ := List.mem_map.mp member
  obtain ⟨later, recorded⟩ := old.rivals rival rivalMember
  have missed := db.oracle.not_conflicted session.instant session.tx.cm clear _ recorded later
  exact ⟨rival.cm.Writes, inv.framed rival (List.mem_of_mem_drop rivalMember),
    session.tx.cm.has_conflict_false rival.cm missed place read⟩

theorem proceeding_inv (inv : TxInv prefixToRange initial db) (session : Session K V)
    (old : SessionInv prefixToRange initial db session) (unlocked : db.applying = none)
    (clear : db.oracle.conflicted session.instant session.tx.cm = some false) (room : db.seqno < reservedSeqno) :
    ApplyingInv prefixToRange initial { db with seqno := db.seqno + 1 } ⟨session, db.seqno, session.tx.inner.batchData⟩ := by
  obtain ⟨replays, ends⟩ := old.reproduces (stateAfter initial db.commits) (validated_agrees db inv session old clear)
  have published : ∀ keyspaceId, ∀ version ∈ db.trees keyspaceId, version.seqno < db.visible := by
    intro keyspaceId version member
    rcases inv.published keyspaceId version member with below | ⟨applying, locked, _⟩
    · exact below
    · rw [unlocked] at locked
      cases locked
  have view : viewAt db.trees (db.seqno + 1) = stateAfter initial db.commits := by
    rw [← inv.current]
    exact view_at_covering db.trees db.visible _ (Nat.le_succ_of_le inv.visible) published
  refine ⟨inv.visible, Nat.lt_succ_self _, room, replays, ?_, old.framed⟩
  change updateAll (viewAt db.trees (db.seqno + 1)) session.tx.inner.batchData = _
  rw [view, BaseTransaction.batch_data_overlay]
  exact ends.symm

theorem rejected_inv (inv : TxInv prefixToRange initial db) (name : Nat) (session : Session K V)
    (order drop : IterationOrder Nat) (conflicted : Bool) (oracle : Oracle K) (seqno : Nat) (later : db.seqno ≤ seqno)
    (started : db.oracle.startCommit session.instant session.tx.cm order = some (conflicted, oracle))
    (below : ∀ other rival, other ≠ name → db.sessions other = some rival →
      (db.tracker.closeRaw session.instant order).getSeqnoSafeToGc ≤ rival.instant) :
    TxInv prefixToRange initial ({ db with oracle, seqno }.close name session drop) := by
  have visible : (oracle.snapshotTracker.closeRaw session.instant drop).seqno = db.tracker.seqno :=
    (SnapshotTracker.close_raw_seqno _ _ _).trans (started_visible db _ _ _ _ _ started)
  refine inv.depart name { oracle with snapshotTracker := oracle.snapshotTracker.closeRaw session.instant drop } seqno
    db.readOnly later visible (pruned_fewer db _ _ _ _ oracle started) ?_ inv.readOnly
  intro other rival different found
  exact pruned_kept db _ _ _ _ oracle started rival (below other rival different found)

theorem proceeds_inv (inv : TxInv prefixToRange initial db) (name : Nat) (session : Session K V) (order : IterationOrder Nat)
    (oracle : Oracle K) (found : db.sessions name = some session) (unlocked : db.applying = none)
    (started : db.oracle.startCommit session.instant session.tx.cm order = some (false, oracle))
    (room : db.seqno < reservedSeqno)
    (below : ∀ other rival, other ≠ name → db.sessions other = some rival →
      (db.tracker.closeRaw session.instant order).getSeqnoSafeToGc ≤ rival.instant) :
    TxInv prefixToRange initial
      { db with
        oracle := oracle
        seqno := db.seqno + 1
        sessions := Function.update db.sessions name none
        applying := some ⟨session, db.seqno, session.tx.inner.batchData⟩ } := by
  have visible := started_visible db _ _ _ _ oracle started
  have clear := (Oracle.start_commit_some _ _ _ _ _ _ started).1
  have departed := inv.depart name oracle (db.seqno + 1) db.readOnly (Nat.le_succ _) visible
    (pruned_fewer db _ _ _ _ oracle started)
    (fun other rival different rivalFound =>
      pruned_kept db _ _ _ _ oracle started rival (below other rival different rivalFound))
    inv.readOnly
  have running := proceeding_inv db inv session (inv.sessions name session found) unlocked clear room
  exact departed.lock unlocked _ (running.keep rfl visible (Nat.le_refl _) rfl)

theorem apply_item_inv (inv : TxInv prefixToRange initial db) (session : Session K V) (seqno : Nat)
    (item : (Nat × K) × Option V) (rest : List ((Nat × K) × Option V))
    (locked : db.applying = some ⟨session, seqno, item :: rest⟩) :
    TxInv prefixToRange initial
      { db with trees := applyItem db.trees seqno item, applying := some ⟨session, seqno, rest⟩ } := by
  have running := inv.applying _ locked
  have unseen : ∀ instant, instant ≤ db.visible →
      viewAt (applyItem db.trees seqno item) instant = viewAt db.trees instant := fun instant early =>
    apply_item_unseen db.trees seqno instant item (Nat.le_trans early running.unpublished)
  have stored : ∀ keyspaceId, ∀ version ∈ applyItem db.trees seqno item keyspaceId,
      version.seqno = seqno ∨ version ∈ db.trees keyspaceId := mem_apply_item db.trees seqno item
  have numbers : ∀ keyspaceId, ∀ version ∈ db.trees keyspaceId, version.seqno < db.visible ∨ version.seqno = seqno := by
    intro keyspaceId version member
    refine (inv.published keyspaceId version member).imp_right ?_
    rintro ⟨applying, found, number⟩
    cases locked.symm.trans found
    exact number
  refine ⟨inv.visible, ?_, ?_, inv.timestamps, ?_, inv.serial, inv.framed, ?_, ?_, ?_⟩
  · intro keyspaceId version member
    rcases stored keyspaceId version member with new | old
    · rw [new]
      exact running.reserved
    · exact inv.bounded keyspaceId version old
  · intro keyspaceId version member
    rcases stored keyspaceId version member with new | old
    · exact .inr ⟨_, rfl, new⟩
    · exact (numbers keyspaceId version old).imp_right fun number => ⟨_, rfl, number⟩
  · exact (unseen _ (Nat.le_refl _)).trans inv.current
  · intro name other found
    have old := inv.sessions name other found
    exact old.keep rfl (Nat.le_refl _) (unseen _ old.published) fun _ member _ => member
  · rintro applying ⟨⟩
    refine ⟨running.unpublished, running.taken, running.reserved, running.replays, ?_, running.framed⟩
    have highest : ∀ keyspaceId, ∀ version ∈ db.trees keyspaceId, version.seqno ≤ seqno := by
      intro keyspaceId version member
      rcases numbers keyspaceId version member with below | number
      · exact Nat.le_trans (Nat.le_of_lt below) running.unpublished
      · exact Nat.le_of_eq number
    refine Eq.trans ?_ running.result
    exact congrArg (updateAll · rest) (apply_item_view db.trees seqno item highest)
  · intro other member
    exact (inv.readOnly other member).keep rfl

theorem finish_commit_inv (inv : TxInv prefixToRange initial db) (drop : IterationOrder Nat) (session : Session K V)
    (seqno : Nat) (locked : db.applying = some ⟨session, seqno, []⟩) :
    TxInv prefixToRange initial (db.finish session seqno drop) := by
  have running := inv.applying _ locked
  have visible : (db.finish session seqno drop).visible = seqno + 1 := by
    change ((db.tracker.publish seqno).closeRaw session.instant drop).seqno = seqno + 1
    rw [SnapshotTracker.close_raw_seqno]
    exact max_eq_right (Nat.le_succ_of_le running.unpublished)
  have commits : (db.finish session seqno drop).commits =
      db.commits ++ [⟨session.history, seqno + 1, session.tx.cm⟩] := by
    rw [← visible]
    rfl
  have committed : (db.finish session seqno drop).oracle.committedTxns =
      db.oracle.committedTxns.filter (fun entry => decide (entry.1 ≠ seqno + 1)) ++ [(seqno + 1, session.tx.cm)] := by
    rw [← visible]
    rfl
  have state : stateAfter initial (db.finish session seqno drop).commits =
      after TxOp.apply (stateAfter initial db.commits) session.history := by
    simp [stateAfter, commits]
  have earlier : db.visible ≤ seqno + 1 := Nat.le_succ_of_le running.unpublished
  refine ⟨?_, inv.bounded, ?_, ?_, ?_, ?_, ?_, ?_, ?_, ?_⟩
  · rw [visible]
    exact running.taken
  · intro keyspaceId version member
    rw [visible]
    rcases inv.published keyspaceId version member with below | ⟨applying, found, number⟩
    · exact .inl (Nat.lt_of_lt_of_le below earlier)
    · cases locked.symm.trans found
      exact .inl (Nat.lt_succ_of_le (Nat.le_of_eq number))
  · intro entry member
    rw [visible]
    rw [committed] at member
    rcases List.mem_append.mp member with old | new
    · exact Nat.le_trans (inv.timestamps entry (List.mem_filter.mp old).1) earlier
    · rw [List.mem_singleton.mp new]
  · rw [TxDatabase.view, visible, state]
    exact running.result
  · rw [TxDatabase.histories, commits, List.map_append, List.map_singleton, serial_snoc]
    exact ⟨inv.serial, running.replays⟩
  · intro commit member
    rw [commits] at member
    rcases List.mem_append.mp member with old | new
    · exact inv.framed commit old
    · rw [List.mem_singleton.mp new]
      exact running.framed
  · intro name other found
    have old := inv.sessions name other found
    refine old.carry _ commits (visible ▸ earlier) rfl ?_ ?_
    · intro entry member _
      rw [committed]
      have different : entry.1 ≠ seqno + 1 :=
        Nat.ne_of_lt (Nat.lt_succ_of_le (Nat.le_trans (inv.timestamps entry member) running.unpublished))
      exact List.mem_append_left _ (List.mem_filter.mpr ⟨member, decide_eq_true different⟩)
    · intro rival member
      rw [List.mem_singleton.mp member, committed]
      exact ⟨Nat.lt_succ_of_le (Nat.le_trans old.published running.unpublished), List.mem_append_right _ (by simp)⟩
  · rintro applying ⟨⟩
  · intro other member
    exact (inv.readOnly other member).carry _ commits

theorem maintain_inv (inv : TxInv prefixToRange initial db) (trees : Trees K V)
    (fewer : ∀ keyspaceId, ∀ version ∈ trees keyspaceId, version ∈ db.trees keyspaceId)
    (kept : ∀ instant, db.tracker.getSeqnoSafeToGc ≤ instant ∨ db.visible ≤ instant →
      viewAt trees instant = viewAt db.trees instant)
    (below : ∀ name session, db.sessions name = some session → db.tracker.getSeqnoSafeToGc ≤ session.instant) :
    TxInv prefixToRange initial { db with trees := trees } := by
  refine ⟨inv.visible, ?_, ?_, inv.timestamps, ?_, inv.serial, inv.framed, ?_, ?_, ?_⟩
  · intro keyspaceId version member
    exact inv.bounded keyspaceId version (fewer keyspaceId version member)
  · intro keyspaceId version member
    exact inv.published keyspaceId version (fewer keyspaceId version member)
  · exact (kept _ (.inr (Nat.le_refl _))).trans inv.current
  · intro name session found
    exact (inv.sessions name session found).keep rfl (Nat.le_refl _) (kept _ (.inl (below name session found)))
      fun _ member _ => member
  · intro applying locked
    have running := inv.applying applying locked
    exact running.keep rfl rfl (Nat.le_refl _) (kept _ (.inr (Nat.le_succ_of_le running.unpublished)))
  · intro session member
    exact (inv.readOnly session member).keep rfl

variable [DecidableEq V]

theorem acted_session_inv (inv : TxInv prefixToRange initial db) (session : Session K V)
    (old : SessionInv prefixToRange initial db session) (op : TxOp K V) (ranged : op.ValidRange prefixToRange) :
    SessionInv prefixToRange initial db
      { session with
        tx := (session.tx.perform prefixToRange db.trees op).1
        history := session.history ++ [(op, (session.tx.perform prefixToRange db.trees op).2)] } := by
  have inner := session.tx.perform_inner prefixToRange db.trees op
  have instant : (session.tx.perform prefixToRange db.trees op).1.inner.instant = session.instant :=
    inner ▸ session.tx.inner.perform_instant prefixToRange db.trees op
  refine ⟨?_, ?_, ?_, old.begun, ?_, ?_, ?_, ?_⟩
  · exact inner ▸ session.tx.inner.perform_numbered prefixToRange db.trees op old.numbered
  · exact session.tx.perform_valid prefixToRange db.trees op old.valid ranged
  · exact (Nat.le_of_eq instant).trans old.published
  · exact (congrArg (viewAt db.trees) instant).trans old.snapshot
  · change WriteTransaction.Reproduces _ _ (viewAt db.trees (session.tx.perform prefixToRange db.trees op).1.inner.instant) _
    rw [instant]
    exact session.tx.perform_reproduces prefixToRange db.trees op session.history old.numbered inv.bounded old.reproduces
  · have writes := session.tx.perform_writes prefixToRange db.trees op
    apply frames_snoc _ _ _ _ _ old.framed fun place written => (writes place).mpr (.inl written)
    intro view place unwritten
    exact apply_untouched op _ view place fun touched => unwritten ((writes place).mpr (.inr touched))
  · intro rival member
    have known := old.rivals rival member
    exact ⟨(Nat.le_of_eq (congrArg Nat.succ instant)).trans known.1, known.2⟩

theorem tx_step_inv (db next : TxDatabase K V) (label : TxLabel K V) (inv : TxInv prefixToRange initial db)
    (below : WatermarkBelow db label) (step : TxStep prefixToRange db label next) : TxInv prefixToRange initial next := by
  cases step with
  | writeTx name fresh unlocked =>
    exact inv.seat name _ (new_session_inv db inv) db.tracker.openSnapshot.2 rfl
  | act name op session found ranged =>
    have current := acted_session_inv db inv session (inv.sessions name session found) op ranged
    exact inv.seat name _ current db.tracker rfl
  | rollback name drop session found =>
    exact inv.depart name _ db.seqno db.readOnly (Nat.le_refl _) (SnapshotTracker.close_raw_seqno _ _ _)
      (fun _ member => member) (fun _ _ _ _ _ member _ => member) inv.readOnly
  | commitReadOnly name drop session found unwritten =>
    refine inv.depart name _ db.seqno _ (Nat.le_refl _) (SnapshotTracker.close_raw_seqno _ _ _)
      (fun _ member => member) (fun _ _ _ _ _ member _ => member) ?_
    intro reader member
    rcases List.mem_append.mp member with old | new
    · exact inv.readOnly reader old
    · rw [List.mem_singleton.mp new]
      exact read_only_inv db session (inv.sessions name session found) unwritten
  | conflicted name order drop session oracle found written unlocked started =>
    exact rejected_inv db inv name session order drop true oracle db.seqno (Nat.le_refl _) started (below session found)
  | aborted name order drop seqnoTaken session oracle found written unlocked started =>
    refine rejected_inv db inv name session order drop false oracle _ ?_ started (below session found)
    split
    · exact Nat.le_succ _
    · exact Nat.le_refl _
  | proceeds name order session oracle found written unlocked started room =>
    exact proceeds_inv db inv name session order oracle found unlocked started room (below session found)
  | applyItem session seqno item rest locked => exact apply_item_inv db inv session seqno item rest locked
  | finishCommit drop session seqno locked => exact finish_commit_inv db inv drop session seqno locked
  | nonce op =>
    refine inv.quiet _ db.seqno db.sessions db.readOnly (Nat.le_refl _) (nonce_op_seqno _ op) (fun _ member => member) ?_ ?_
    · intro name session found
      exact (inv.sessions name session found).keep rfl (Nat.le_of_eq (nonce_op_seqno _ op).symm) rfl
        fun _ member _ => member
    · intro session member
      exact (inv.readOnly session member).keep rfl
  | maintain trees fewer kept => exact maintain_inv db inv trees fewer kept below

variable (prefixToRange)

-- Each committed transaction that wrote something gets the answers it got when
-- it runs alone after those that committed before it, and that serial execution
-- is what the trees hold. One that wrote nothing can be put where it began. No
-- commit runs into a panic of its conflict check.
theorem optimistic_transactions_serializable (start last : TxDatabase K V) (labels : List (TxLabel K V))
    (opened : Opened start) (run : Run (Guarded (TxStep prefixToRange) WatermarkBelow) start labels last) :
    Serial (TxOp.Holds prefixToRange) TxOp.apply start.view last.histories ∧
    last.view = afterAll TxOp.apply start.view last.histories ∧
    (∀ session ∈ last.readOnly,
      Replays (TxOp.Holds prefixToRange) TxOp.apply
        (afterAll TxOp.apply start.view (last.histories.take session.begun)) session.history ∧
      after TxOp.apply (afterAll TxOp.apply start.view (last.histories.take session.begun)) session.history =
        afterAll TxOp.apply start.view (last.histories.take session.begun)) ∧
    (∀ name session order, last.sessions name = some session →
      last.oracle.startCommit session.instant session.tx.cm order ≠ none) := by
  have inv : TxInv prefixToRange start.view last := by
    refine run_invariant _ (TxInv prefixToRange start.view) ?_ run (opened_inv start opened)
    intro db label next inv step
    exact tx_step_inv db next label inv step.1 step.2
  refine ⟨inv.serial, inv.current, ?_, ?_⟩
  · intro session member
    have reader := inv.readOnly session member
    rw [TxDatabase.histories, ← List.map_take]
    exact ⟨reader.replays, reader.idle⟩
  · intro name session order found
    exact last.oracle.start_commit_defined session.instant session.tx.cm order (inv.sessions name session found).valid

end

def seeded : TxDatabase Nat Nat where
  trees := fun keyspaceId => if keyspaceId = 7 then [⟨1, 0, some 10⟩] else []
  seqno := 1
  oracle := ⟨[], .new 1⟩
  sessions := fun _ => none
  applying := none
  commits := []
  readOnly := []

def singleKeyRange (key : Nat) : Bound Nat × Bound Nat := (.included key, .included key)

theorem seeded_opened : Opened seeded := by
  refine ⟨fun _ => rfl, rfl, rfl, rfl, rfl, Nat.le_refl _, ?_, ?_⟩
  all_goals
    intro keyspaceId version member
    by_cases seven : keyspaceId = 7
    · simp only [seeded, seven, if_true, List.mem_singleton] at member
      subst member
      decide
    · simp [seeded, seven] at member

-- Three transactions begin together. The first commits a key in the range that
-- the second has read, so the second is turned down; the third only reads.
theorem interleaved_transactions_serializable :
    ∃ last, Run (Guarded (TxStep singleKeyRange) WatermarkBelow) seeded
      [.writeTx 1, .writeTx 2, .writeTx 3, .act 1 (.get 7 1), .act 1 (.insert 7 2 20),
        .act 2 (.range 7 (.included 1) (.excluded 3)), .act 2 (.remove 7 1),
        .commit 1 CountMap.inStoredOrder .proceeds, .act 3 (.iter 7), .applyItem,
        .finishCommit CountMap.inStoredOrder, .act 3 (.get 7 2), .commitReadOnly 3 CountMap.inStoredOrder,
        .commit 2 CountMap.inStoredOrder (.conflicted CountMap.inStoredOrder)] last ∧
      last.histories = [[(.get 7 1, .value (some 10)), (.insert 7 2 20, .done)]] ∧
      last.readOnly.map Session.history = [[(.iter 7, .items [(1, 10)]), (.get 7 2, .value none)]] ∧
      Serial (TxOp.Holds singleKeyRange) TxOp.apply seeded.view last.histories := by
  have run : ∃ last, Run (Guarded (TxStep singleKeyRange) WatermarkBelow) seeded
      [.writeTx 1, .writeTx 2, .writeTx 3, .act 1 (.get 7 1), .act 1 (.insert 7 2 20),
        .act 2 (.range 7 (.included 1) (.excluded 3)), .act 2 (.remove 7 1),
        .commit 1 CountMap.inStoredOrder .proceeds, .act 3 (.iter 7), .applyItem,
        .finishCommit CountMap.inStoredOrder, .act 3 (.get 7 2), .commitReadOnly 3 CountMap.inStoredOrder,
        .commit 2 CountMap.inStoredOrder (.conflicted CountMap.inStoredOrder)] last ∧
      last.histories = [[(.get 7 1, .value (some 10)), (.insert 7 2 20, .done)]] ∧
      last.readOnly.map Session.history = [[(.iter 7, .items [(1, 10)]), (.get 7 2, .value none)]] :=
    ⟨_, .cons _ _ ⟨trivial, .writeTx _ 1 rfl rfl⟩ (.cons _ _ ⟨trivial, .writeTx _ 2 rfl rfl⟩
      (.cons _ _ ⟨trivial, .writeTx _ 3 rfl rfl⟩ (.cons _ _ ⟨trivial, .act _ 1 _ _ rfl trivial⟩
      (.cons _ _ ⟨trivial, .act _ 1 _ _ rfl trivial⟩ (.cons _ _ ⟨trivial, .act _ 2 _ _ rfl rfl⟩
      (.cons _ _ ⟨trivial, .act _ 2 _ _ rfl trivial⟩
      (.cons _ _ ⟨fun _ _ _ _ _ _ => Nat.zero_le _, .proceeds _ 1 _ _ _ rfl (List.cons_ne_nil _ _) rfl rfl (by decide)⟩
      (.cons _ _ ⟨trivial, .act _ 3 _ _ rfl trivial⟩ (.cons _ _ ⟨trivial, .applyItem _ _ _ _ _ rfl⟩
      (.cons _ _ ⟨trivial, .finishCommit _ _ _ _ rfl⟩ (.cons _ _ ⟨trivial, .act _ 3 _ _ rfl trivial⟩
      (.cons _ _ ⟨trivial, .commitReadOnly _ 3 _ _ rfl rfl⟩
      (.cons _ _ ⟨fun _ _ _ _ _ _ => Nat.zero_le _, .conflicted _ 2 _ _ _ _ rfl (List.cons_ne_nil _ _) rfl rfl⟩
      (.nil _)))))))))))))), rfl, rfl⟩
  obtain ⟨last, run, committed, readOnly⟩ := run
  exact ⟨last, run, committed, readOnly,
    (optimistic_transactions_serializable singleKeyRange seeded last _ seeded_opened run).1⟩

end OmryaKv.Tx
