import OmryaKv.Tx.Invariant
import OmryaKv.Tx.SingleWriterTxDatabase

set_option autoImplicit false

namespace OmryaKv.Tx.SingleWriter

open Lib Snapshot

section Invariant

variable {T K : Type} [LinearOrder K] (prefixToRange : K → Bound K × Bound K) (initial : View K UserValue) (first : Nat)

def Published (db : TxDatabase T K) : Prop := ∀ keyspaceId, ∀ version ∈ db.trees keyspaceId, version.seqno < db.visible

-- first is the number of the first ticket. Between transactions every version in
-- the trees is published, and every ticket belongs to a transaction that is over.
structure Settled (db : TxDatabase T K) : Prop where
  published : Published db
  tickets : db.tickets = first + db.ended.length

structure Current (db : TxDatabase T K) (ticket : Nat) : Prop where
  ticket : ticket = first + db.ended.length
  tickets : db.tickets = first + db.ended.length + 1

structure SessionInv (db : TxDatabase T K) (session : Session K) : Prop where
  numbered : session.tx.Numbered
  snapshot : viewAt db.trees session.tx.instant = stateAfter initial db.ended
  replays : Replays (Action.Holds prefixToRange) Action.apply (stateAfter initial db.ended) session.history
  overlay : session.tx.overlay (stateAfter initial db.ended) =
    after Action.apply (stateAfter initial db.ended) session.history

structure ApplyingInv (db : TxDatabase T K) (session : Session K) (seqno : Nat)
    (pending : List ((Nat × K) × Option UserValue)) : Prop where
  unpublished : db.visible ≤ seqno
  taken : seqno < db.seqno
  reserved : seqno < reservedSeqno
  stored : ∀ keyspaceId, ∀ version ∈ db.trees keyspaceId, version.seqno < db.visible ∨ version.seqno = seqno
  replays : Replays (Action.Holds prefixToRange) Action.apply (stateAfter initial db.ended) session.history
  result : updateAll (viewAt db.trees (seqno + 1)) pending =
    after Action.apply (stateAfter initial db.ended) session.history

structure ReaderInv (db : TxDatabase T K) (reader : Reader K) : Prop where
  published : reader.instant ≤ db.visible
  observes : ∃ count, Observes prefixToRange initial db.ended reader count ∧
    viewAt db.trees reader.instant = stateAfter initial (db.ended.take count)

def Point (db : TxDatabase T K) : Phase K → Prop
  | .idle | .lockReleased _ => True
  | .locked ticket => Published db ∧ Current first db ticket
  | .writing session => Published db ∧ Current first db session.ticket ∧ SessionInv prefixToRange initial db session
  | .applying session seqno pending =>
    Current first db session.ticket ∧ ApplyingInv prefixToRange initial db session seqno pending
  | .ending _ | .nonceDropped => Settled first db
  | .reading reader => ReaderInv prefixToRange initial db reader

structure DatabaseInv (db : TxDatabase T K) : Prop where
  visible : db.visible ≤ db.seqno
  bounded : ∀ keyspaceId, ∀ version ∈ db.trees keyspaceId, version.seqno < reservedSeqno
  current : viewAt db.trees db.visible = stateAfter initial db.ended
  ended : ∀ position tx, db.ended[position]? = some tx → tx.ticket = first + position ∧
    Replays (Action.Holds prefixToRange) Action.apply (stateAfter initial (db.ended.take position)) tx.history
  observed : ∀ reader ∈ db.observed, ∃ count, Observes prefixToRange initial db.ended reader count
  unlocked : db.writer = none → Settled first db

structure Inv (threads : Threads T (TxDatabase T K) (Phase K)) : Prop where
  database : DatabaseInv prefixToRange initial first threads.shared
  lock : ∀ t, (threads.phase t).Holding ↔ threads.shared.writer = some t
  point : ∀ t, Point prefixToRange initial first threads.shared (threads.phase t)

-- What a thread without the lock has to be able to rely on while others go on.
structure Extends (db next : TxDatabase T K) : Prop where
  visible : db.visible ≤ next.visible
  views : ∀ instant, instant ≤ db.visible → viewAt next.trees instant = viewAt db.trees instant
  ended : db.ended <+: next.ended

variable {prefixToRange initial first}

theorem state_after_snoc (ended : List (Ended K)) (tx : Ended K) :
    stateAfter initial (ended ++ [tx]) =
      if tx.committed then after Action.apply (stateAfter initial ended) tx.history else stateAfter initial ended := by
  cases committed : tx.committed <;> simp [stateAfter, afterAll, committed]

theorem Observes.grow {ended later : List (Ended K)} {reader : Reader K} {count : Nat}
    (observes : Observes prefixToRange initial ended reader count) (grown : ended <+: later) :
    Observes prefixToRange initial later reader count ∧ later.take count = ended.take count := by
  obtain ⟨added, rfl⟩ := grown
  have same : (ended ++ added).take count = ended.take count := List.take_append_of_le_length observes.within
  refine ⟨⟨?_, observes.finished, ?_⟩, same⟩
  · rw [List.length_append]
    exact Nat.le_add_right_of_le observes.within
  · rw [same]
    exact observes.answers

theorem ReaderInv.grow {db next : TxDatabase T K} {reader : Reader K} (inv : ReaderInv prefixToRange initial db reader)
    (grown : Extends db next) : ReaderInv prefixToRange initial next reader := by
  obtain ⟨count, observes, view⟩ := inv.observes
  obtain ⟨later, same⟩ := observes.grow grown.ended
  refine ⟨Nat.le_trans inv.published grown.visible, count, later, ?_⟩
  rw [grown.views reader.instant inv.published, view, same]

theorem point_outside (db next : TxDatabase T K) (phase : Phase K) (outside : ¬ phase.Holding)
    (point : Point prefixToRange initial first db phase) (grown : Extends db next) :
    Point prefixToRange initial first next phase := by
  cases phase with
  | idle => trivial
  | lockReleased instant => trivial
  | reading reader => exact ReaderInv.grow point grown
  | _ => exact absurd trivial outside

-- Opening and closing snapshots moves no one.
theorem point_beside (db : TxDatabase T K) (tracker : SnapshotTracker) (observed : List (Reader K)) (phase : Phase K)
    (visible : tracker.seqno = db.snapshotTracker.seqno) (point : Point prefixToRange initial first db phase) :
    Point prefixToRange initial first { db with snapshotTracker := tracker, observed := observed } phase := by
  obtain ⟨seqno, data, freedCount, lowestFreedInstant⟩ := tracker
  subst visible
  cases phase with
  | idle => trivial
  | lockReleased instant => trivial
  | locked ticket => exact ⟨point.1, point.2.ticket, point.2.tickets⟩
  | writing session =>
    obtain ⟨published, current, inv⟩ := point
    exact ⟨published, ⟨current.ticket, current.tickets⟩, inv.numbered, inv.snapshot, inv.replays, inv.overlay⟩
  | applying session seqno pending =>
    obtain ⟨current, inv⟩ := point
    exact ⟨⟨current.ticket, current.tickets⟩, inv.unpublished, inv.taken, inv.reserved, inv.stored, inv.replays, inv.result⟩
  | ending instant => exact ⟨point.published, point.tickets⟩
  | nonceDropped => exact ⟨point.published, point.tickets⟩
  | reading reader => exact ⟨point.published, point.observes⟩

variable {db : TxDatabase T K}

theorem DatabaseInv.beside (inv : DatabaseInv prefixToRange initial first db) (tracker : SnapshotTracker)
    (observed : List (Reader K)) (visible : tracker.seqno = db.snapshotTracker.seqno)
    (seen : ∀ reader ∈ observed, ∃ count, Observes prefixToRange initial db.ended reader count) :
    DatabaseInv prefixToRange initial first { db with snapshotTracker := tracker, observed := observed } := by
  obtain ⟨seqno, data, freedCount, lowestFreedInstant⟩ := tracker
  subst visible
  refine ⟨inv.visible, inv.bounded, inv.current, inv.ended, seen, ?_⟩
  intro free
  exact ⟨(inv.unlocked free).published, (inv.unlocked free).tickets⟩

-- The list of those that are over grows by the transaction that has the current ticket.
theorem DatabaseInv.record (inv : DatabaseInv prefixToRange initial first db) (tracker : SnapshotTracker) (session : Session K)
    (committed : Bool) (held : db.writer ≠ none)
    (taken : tracker.seqno ≤ db.seqno) (ticket : session.ticket = first + db.ended.length)
    (replays : Replays (Action.Holds prefixToRange) Action.apply (stateAfter initial db.ended) session.history)
    (current : viewAt db.trees tracker.seqno =
      if committed then after Action.apply (stateAfter initial db.ended) session.history else stateAfter initial db.ended) :
    DatabaseInv prefixToRange initial first ({ db with snapshotTracker := tracker }.record session committed) where
  visible := taken
  bounded := inv.bounded
  current := current.trans (state_after_snoc db.ended ⟨session.ticket, session.history, committed⟩).symm
  ended := by
    intro position tx found
    simp only [TxDatabase.record] at found ⊢
    rcases Nat.lt_trichotomy position db.ended.length with inside | same | outside
    · rw [List.getElem?_append_left inside] at found
      rw [List.take_append_of_le_length (Nat.le_of_lt inside)]
      exact inv.ended position tx found
    · subst same
      rw [List.getElem?_append_right (Nat.le_refl _), Nat.sub_self] at found
      cases found
      rw [List.take_left]
      exact ⟨ticket, replays⟩
    · rw [List.getElem?_eq_none (by rw [List.length_append]; exact outside)] at found
      cases found
  observed := fun reader member =>
    (inv.observed reader member).imp fun _ observes => (observes.grow (List.prefix_append _ _)).1
  unlocked := fun free => absurd free held

theorem new_session_inv (inv : DatabaseInv prefixToRange initial first db) (ticket : Nat) :
    SessionInv prefixToRange initial db ⟨ticket, .new db.visible, []⟩ where
  numbered := BaseTransaction.new_numbered _
  snapshot := inv.current
  replays := trivial
  overlay := rfl

theorem called_session_inv (inv : DatabaseInv prefixToRange initial first db) (session : Session K)
    (old : SessionInv prefixToRange initial db session) (op : TxOp K UserValue) :
    SessionInv prefixToRange initial db (session.call prefixToRange db.trees op) where
  numbered := session.tx.perform_numbered prefixToRange db.trees op old.numbered
  snapshot := by
    rw [← old.snapshot]
    exact congrArg (viewAt db.trees) (session.tx.perform_instant prefixToRange db.trees op)
  replays := by
    have holds := session.tx.perform_holds prefixToRange db.trees op old.numbered inv.bounded
    rw [old.snapshot, old.overlay] at holds
    exact (replays_snoc _ _ _ _ _).mpr ⟨old.replays, holds⟩
  overlay := by
    have written := session.tx.perform_overlay prefixToRange db.trees op old.numbered (stateAfter initial db.ended)
      fun place _ => by rw [old.snapshot]
    rw [old.overlay] at written
    simp only [Session.call, after, List.foldl_append]
    exact written

theorem read_session_inv (inv : DatabaseInv prefixToRange initial first db) (session : Session K)
    (old : SessionInv prefixToRange initial db session) (call : ReadCall K) :
    SessionInv prefixToRange initial db (session.read prefixToRange db.trees call) where
  numbered := old.numbered
  snapshot := old.snapshot
  replays := by
    have returned := session.tx.read_returns prefixToRange ⟨db.trees, inv.bounded⟩ old.numbered call
    rw [old.snapshot, old.overlay] at returned
    exact (replays_snoc _ _ _ _ _).mpr ⟨old.replays, returned⟩
  overlay := by
    simp only [Session.read, after, List.foldl_append]
    exact old.overlay

theorem new_reader_inv (inv : DatabaseInv prefixToRange initial first db) :
    ReaderInv prefixToRange initial db ⟨db.visible, db.ended.length, []⟩ := by
  refine ⟨Nat.le_refl _, db.ended.length, ⟨Nat.le_refl _, Nat.le_refl _, by simp⟩, ?_⟩
  rw [List.take_length]
  exact inv.current

theorem read_reader_inv (inv : DatabaseInv prefixToRange initial first db) (reader : Reader K)
    (old : ReaderInv prefixToRange initial db reader) (call : ReadCall K) :
    ReaderInv prefixToRange initial db (reader.read prefixToRange db.trees call) := by
  obtain ⟨count, observes, view⟩ := old.observes
  refine ⟨old.published, count, ⟨observes.within, observes.finished, ?_⟩, view⟩
  intro entry member
  rcases List.mem_append.mp member with earlier | new
  · exact observes.answers entry earlier
  · have returned := (BaseTransaction.new reader.instant).read_returns prefixToRange ⟨db.trees, inv.bounded⟩
      (BaseTransaction.new_numbered _) call
    rw [List.mem_singleton.mp new, ← view]
    exact returned

theorem allocated_inv (inv : DatabaseInv prefixToRange initial first db) (published : Published db) (session : Session K)
    (old : SessionInv prefixToRange initial db session) (items : List ((Nat × K) × Option UserValue))
    (listed : items.Perm session.tx.batchData) (room : db.seqno < reservedSeqno) :
    ApplyingInv prefixToRange initial { db with seqno := db.seqno + 1 } session db.seqno items where
  unpublished := inv.visible
  taken := Nat.lt_succ_self _
  reserved := room
  stored := fun keyspaceId version member => .inl (published keyspaceId version member)
  replays := old.replays
  result := by
    have view : viewAt db.trees (db.seqno + 1) = stateAfter initial db.ended := by
      rw [← inv.current]
      exact view_at_covering db.trees db.visible _ (Nat.le_succ_of_le inv.visible) published
    have staged := BaseTransaction.update_all_overlay session.tx items (fun place value =>
      listed.mem_iff.trans (BaseTransaction.mem_batch_data session.tx place value)) (stateAfter initial db.ended)
    change updateAll (viewAt db.trees (db.seqno + 1)) items = _
    rw [view, staged, old.overlay]

theorem applied_inv (session : Session K) (seqno : Nat) (item : (Nat × K) × Option UserValue)
    (rest : List ((Nat × K) × Option UserValue))
    (old : ApplyingInv prefixToRange initial db session seqno (item :: rest)) :
    ApplyingInv prefixToRange initial { db with trees := applyItem db.trees seqno item } session seqno rest where
  unpublished := old.unpublished
  taken := old.taken
  reserved := old.reserved
  stored := fun keyspaceId version member =>
    (mem_apply_item db.trees seqno item keyspaceId version member).elim .inr (old.stored keyspaceId version)
  replays := old.replays
  result := by
    have newest : ∀ keyspaceId, ∀ version ∈ db.trees keyspaceId, version.seqno ≤ seqno := by
      intro keyspaceId version member
      rcases old.stored keyspaceId version member with below | same
      · exact Nat.le_trans (Nat.le_of_lt below) old.unpublished
      · exact Nat.le_of_eq same
    refine Eq.trans ?_ old.result
    exact congrArg (updateAll · rest) (apply_item_view db.trees seqno item newest)

theorem applied_unseen (session : Session K) (seqno : Nat) (item : (Nat × K) × Option UserValue)
    (pending : List ((Nat × K) × Option UserValue)) (old : ApplyingInv prefixToRange initial db session seqno pending)
    (instant : Nat) (published : instant ≤ db.visible) :
    viewAt (applyItem db.trees seqno item) instant = viewAt db.trees instant :=
  apply_item_unseen db.trees seqno instant item (Nat.le_trans published old.unpublished)

theorem applied_database_inv (inv : DatabaseInv prefixToRange initial first db) (session : Session K) (seqno : Nat)
    (item : (Nat × K) × Option UserValue) (pending : List ((Nat × K) × Option UserValue))
    (old : ApplyingInv prefixToRange initial db session seqno pending) (held : db.writer ≠ none) :
    DatabaseInv prefixToRange initial first { db with trees := applyItem db.trees seqno item } where
  visible := inv.visible
  bounded := by
    intro keyspaceId version member
    rcases mem_apply_item db.trees seqno item keyspaceId version member with new | earlier
    · rw [new]
      exact old.reserved
    · exact inv.bounded keyspaceId version earlier
  current := (applied_unseen session seqno item pending old db.visible (Nat.le_refl _)).trans inv.current
  ended := inv.ended
  observed := inv.observed
  unlocked := fun free => absurd free held

variable [DecidableEq T]

-- A step of the thread that has the lock, had it free or gives it up.
theorem Inv.lead {threads : Threads T (TxDatabase T K) (Phase K)} (inv : Inv prefixToRange initial first threads) (t : T)
    (next : TxDatabase T K) (phase : Phase K)
    (alone : threads.shared.writer = some t ∨ threads.shared.writer = none) (grown : Extends threads.shared next)
    (database : DatabaseInv prefixToRange initial first next)
    (lock : phase.Holding ∧ next.writer = some t ∨ ¬ phase.Holding ∧ next.writer = none)
    (point : Point prefixToRange initial first next phase) :
    Inv prefixToRange initial first ⟨next, Function.update threads.phase t phase⟩ := by
  have outside : ∀ u, u ≠ t → ¬ (threads.phase u).Holding := by
    intro u different holding
    have writer := (inv.lock u).mp holding
    rcases alone with mine | free
    · exact different (Option.some.inj (writer.symm.trans mine))
    · rw [free] at writer
      cases writer
  refine ⟨database, ?_, ?_⟩
  · refine thread_step_all (fun db u phase => phase.Holding ↔ db.writer = some u) next threads.phase t phase ?_ ?_
    · rcases lock with ⟨holding, mine⟩ | ⟨outsider, free⟩
      · exact iff_of_true holding mine
      · exact iff_of_false outsider (by simp [free])
    · intro u different
      refine iff_of_false (outside u different) ?_
      rcases lock with ⟨_, mine⟩ | ⟨_, free⟩
      · simp [mine, Ne.symm different]
      · simp [free]
  · refine thread_step_all (fun db _ phase => Point prefixToRange initial first db phase) next threads.phase t phase point ?_
    intro u different
    exact point_outside threads.shared next _ (outside u different) (inv.point u) grown

-- A step that touches nothing but snapshots and the thread's own place.
theorem Inv.aside {threads : Threads T (TxDatabase T K) (Phase K)} (inv : Inv prefixToRange initial first threads) (t : T)
    (tracker : SnapshotTracker) (observed : List (Reader K)) (phase : Phase K)
    (visible : tracker.seqno = threads.shared.snapshotTracker.seqno)
    (seen : ∀ reader ∈ observed, ∃ count, Observes prefixToRange initial threads.shared.ended reader count)
    (lock : phase.Holding ↔ (threads.phase t).Holding) (point : Point prefixToRange initial first threads.shared phase) :
    Inv prefixToRange initial first
      ⟨{ threads.shared with snapshotTracker := tracker, observed := observed }, Function.update threads.phase t phase⟩ := by
  have beside := fun phase => @point_beside T K _ prefixToRange initial first threads.shared tracker observed phase visible
  refine ⟨inv.database.beside tracker observed visible seen, ?_, ?_⟩
  · exact thread_step_all (fun db u phase => phase.Holding ↔ db.writer = some u)
      { threads.shared with snapshotTracker := tracker, observed := observed } threads.phase t phase
      (lock.trans (inv.lock t)) fun u _ => inv.lock u
  · exact thread_step_all (fun db _ phase => Point prefixToRange initial first db phase) _ threads.phase t phase
      (beside phase point) fun u _ => beside _ (inv.point u)

variable (threads : Threads T (TxDatabase T K) (Phase K))

theorem lock_inv (inv : Inv prefixToRange initial first threads) (t : T) (free : threads.shared.writer = none) :
    Inv prefixToRange initial first
      ⟨{ threads.shared with writer := some t, tickets := threads.shared.tickets + 1 },
        Function.update threads.phase t (.locked threads.shared.tickets)⟩ := by
  have settled := inv.database.unlocked free
  have old := inv.database
  refine inv.lead t _ _ (.inr free) ⟨Nat.le_refl _, fun _ _ => rfl, List.prefix_refl _⟩ ?_ (.inl ⟨trivial, rfl⟩) ?_
  · exact ⟨old.visible, old.bounded, old.current, old.ended, old.observed, fun absent => by cases absent⟩
  · exact ⟨settled.published, settled.tickets, congrArg Nat.succ settled.tickets⟩

-- A transaction is over: committed, with its writes in the trees, or rolled back.
theorem ending_inv (inv : Inv prefixToRange initial first threads) (t : T) (session : Session K) (committed : Bool)
    (tracker : SnapshotTracker) (mine : threads.shared.writer = some t)
    (current : Current first threads.shared session.ticket) (later : threads.shared.visible ≤ tracker.seqno)
    (taken : tracker.seqno ≤ threads.shared.seqno)
    (published : ∀ keyspaceId, ∀ version ∈ threads.shared.trees keyspaceId, version.seqno < tracker.seqno)
    (replays : Replays (Action.Holds prefixToRange) Action.apply (stateAfter initial threads.shared.ended) session.history)
    (view : viewAt threads.shared.trees tracker.seqno =
      if committed then after Action.apply (stateAfter initial threads.shared.ended) session.history
      else stateAfter initial threads.shared.ended) :
    Inv prefixToRange initial first
      ⟨{ threads.shared with snapshotTracker := tracker }.record session committed,
        Function.update threads.phase t (.ending session.tx.instant)⟩ := by
  refine inv.lead t _ _ (.inl mine) ⟨later, fun _ _ => rfl, List.prefix_append _ _⟩ ?_ (.inl ⟨trivial, mine⟩) ?_
  · exact inv.database.record tracker session committed (by simp [mine]) taken current.ticket replays view
  · refine ⟨published, ?_⟩
    simp only [TxDatabase.record, List.length_append]
    exact current.tickets

theorem unlock_inv (inv : Inv prefixToRange initial first threads) (t : T) (phase : Phase K)
    (mine : threads.shared.writer = some t) (settled : Settled first threads.shared)
    (outside : phase = .idle ∨ ∃ instant, phase = .lockReleased instant) :
    Inv prefixToRange initial first ⟨threads.shared.unlock, Function.update threads.phase t phase⟩ := by
  have old := inv.database
  refine inv.lead t _ _ (.inl mine) ⟨Nat.le_refl _, fun _ _ => rfl, List.prefix_refl _⟩ ?_ (.inr ?_) ?_
  · exact ⟨old.visible, old.bounded, old.current, old.ended, old.observed, fun _ => ⟨settled.published, settled.tickets⟩⟩
  · rcases outside with rfl | ⟨instant, rfl⟩ <;> exact ⟨fun holding => holding, rfl⟩
  · rcases outside with rfl | ⟨instant, rfl⟩ <;> trivial

theorem act_inv (label : T × Move K) (next : Threads T (TxDatabase T K) (Phase K))
    (inv : Inv prefixToRange initial first threads)
    (step : ThreadStep (Act prefixToRange) threads label next) :
    Inv prefixToRange initial first next := by
  cases step with
  | move t m db phase act =>
    have point := inv.point t
    have lock := inv.lock t
    have still := fun phase lock point => inv.aside t threads.shared.snapshotTracker threads.shared.observed phase rfl
      inv.database.observed lock point
    generalize here : threads.phase t = place at act point lock still
    cases act with
    | lock free => exact lock_inv threads inv t free
    | openSnapshot ticket =>
      have session := new_session_inv inv.database ticket
      exact inv.aside t _ _ _ rfl inv.database.observed (by rw [here]; exact Iff.rfl) ⟨point.1, point.2, session⟩
    | call session op =>
      obtain ⟨published, current, old⟩ := point
      exact still _ Iff.rfl ⟨published, current, called_session_inv inv.database session old op⟩
    | read session call =>
      obtain ⟨published, current, old⟩ := point
      exact still _ Iff.rfl ⟨published, current, read_session_inv inv.database session old call⟩
    | commitEmpty session empty =>
      obtain ⟨published, current, old⟩ := point
      have unchanged := old.overlay.symm.trans (session.tx.overlay_unwritten empty _)
      exact ending_inv threads inv t session true threads.shared.snapshotTracker (lock.mp trivial) current (Nat.le_refl _)
        inv.database.visible published old.replays (inv.database.current.trans unchanged.symm)
    | commit session items written listed room =>
      obtain ⟨published, current, old⟩ := point
      have mine := lock.mp trivial
      have database := inv.database
      refine inv.lead t _ _ (.inl mine) ⟨Nat.le_refl _, fun _ _ => rfl, List.prefix_refl _⟩ ?_ (.inl ⟨trivial, mine⟩) ?_
      · exact ⟨Nat.le_succ_of_le database.visible, database.bounded, database.current, database.ended,
          database.observed, fun free => by simp [mine] at free⟩
      · exact ⟨⟨current.ticket, current.tickets⟩, allocated_inv database published session old items listed room⟩
    | applyItem session seqno item rest =>
      obtain ⟨current, old⟩ := point
      have mine := lock.mp trivial
      have unseen := applied_unseen session seqno item (item :: rest) old
      refine inv.lead t _ _ (.inl mine) ⟨Nat.le_refl _, unseen, List.prefix_refl _⟩ ?_ (.inl ⟨trivial, mine⟩) ?_
      · exact applied_database_inv inv.database session seqno item _ old (by simp [mine])
      · exact ⟨⟨current.ticket, current.tickets⟩, applied_inv session seqno item rest old⟩
    | publish session seqno =>
      obtain ⟨current, old⟩ := point
      have visible : (threads.shared.snapshotTracker.publish seqno).seqno = seqno + 1 :=
        max_eq_right (Nat.le_succ_of_le old.unpublished)
      refine ending_inv threads inv t session true _ (lock.mp trivial) current (visible ▸ Nat.le_succ_of_le old.unpublished)
        (visible ▸ old.taken) ?_ old.replays ?_
      · intro keyspaceId version member
        rw [visible]
        rcases old.stored keyspaceId version member with below | same
        · exact Nat.lt_succ_of_lt (Nat.lt_of_lt_of_le below old.unpublished)
        · exact Nat.lt_succ_of_le (Nat.le_of_eq same)
      · rw [visible]
        exact old.result
    | rollback session =>
      obtain ⟨published, current, old⟩ := point
      exact ending_inv threads inv t session false threads.shared.snapshotTracker (lock.mp trivial) current (Nat.le_refl _)
        inv.database.visible published old.replays inv.database.current
    | dropNonce instant order =>
      exact inv.aside t _ _ _ (SnapshotTracker.close_raw_seqno _ _ _) inv.database.observed
        (by rw [here]; exact Iff.rfl) ⟨point.published, point.tickets⟩
    | dropLateNonce instant order =>
      exact inv.aside t _ _ _ (SnapshotTracker.close_raw_seqno _ _ _) inv.database.observed
        (by rw [here]; exact Iff.rfl) trivial
    | unlock => exact unlock_inv threads inv t _ (lock.mp trivial) point (.inl rfl)
    | unlockEarly instant => exact unlock_inv threads inv t _ (lock.mp trivial) point (.inr ⟨instant, rfl⟩)
    | readTx =>
      exact inv.aside t _ _ _ rfl inv.database.observed (by rw [here]; exact Iff.rfl) (new_reader_inv inv.database)
    | readSnapshot reader call => exact still _ Iff.rfl (read_reader_inv inv.database reader point call)
    | dropSnapshot reader order =>
      refine inv.aside t _ _ _ (SnapshotTracker.close_raw_seqno _ _ _) ?_ (by rw [here]; exact Iff.rfl) trivial
      intro other member
      rcases List.mem_append.mp member with earlier | new
      · exact inv.database.observed other earlier
      · rw [List.mem_singleton.mp new]
        exact point.observes.imp fun _ seen => seen.1

omit [DecidableEq T] in
theorem opened_inv (start : Threads T (TxDatabase T K) (Phase K)) (opened : Opened start.shared)
    (idle : ∀ t, start.phase t = .idle) :
    Inv prefixToRange (viewAt start.shared.trees start.shared.visible) start.shared.tickets start where
  database :=
    { visible := opened.visible
      bounded := opened.bounded
      current := by simp [opened.ended, stateAfter, afterAll]
      ended := by simp [opened.ended]
      observed := by simp [opened.observed]
      unlocked := fun _ => ⟨opened.published, by simp [opened.ended]⟩ }
  lock := by
    intro t
    rw [idle t, opened.writer]
    exact iff_of_false (fun holding => holding) (by simp)
  point := by
    intro t
    rw [idle t]
    trivial

omit [DecidableEq T] in
theorem settled_unless_applying (inv : Inv prefixToRange initial first threads)
    (quiet : ∀ t session seqno pending, threads.phase t ≠ .applying session seqno pending) : Published threads.shared := by
  cases writer : threads.shared.writer with
  | none => exact (inv.database.unlocked writer).published
  | some t =>
    have holding := (inv.lock t).mpr writer
    have point := inv.point t
    have different := quiet t
    generalize threads.phase t = place at holding point different
    cases place with
    | idle => exact False.elim holding
    | lockReleased instant => exact False.elim holding
    | reading reader => exact False.elim holding
    | applying session seqno pending => exact absurd rfl (different session seqno pending)
    | locked ticket => exact point.1
    | writing session => exact point.1
    | ending instant => exact point.published
    | nonceDropped => exact point.published

-- The transaction at a position is the one that took the lock as so many-th, and
-- its calls answer as if the committed ones before it had run one after another;
-- so do those of the one that is under way. With no batch half applied the trees
-- hold what all of them leave behind, and a read snapshot never shows anything
-- but what the transactions up to some position leave behind.
theorem single_writer_transactions_sequential (start last : Threads T (TxDatabase T K) (Phase K))
    (labels : List (T × Move K)) (initial : View K UserValue) (opened : Opened start.shared)
    (idle : ∀ t, start.phase t = .idle) (begins : viewAt start.shared.trees start.shared.visible = initial)
    (run : Run (ThreadStep (Act prefixToRange)) start labels last) :
    (∀ position tx, last.shared.ended[position]? = some tx → tx.ticket = start.shared.tickets + position ∧
      Replays (Action.Holds prefixToRange) Action.apply (stateAfter initial (last.shared.ended.take position)) tx.history) ∧
    (∀ t session, (last.phase t = .writing session ∨ ∃ seqno pending, last.phase t = .applying session seqno pending) →
      session.ticket = start.shared.tickets + last.shared.ended.length ∧
        Replays (Action.Holds prefixToRange) Action.apply (stateAfter initial last.shared.ended) session.history) ∧
    ((∀ t session seqno pending, last.phase t ≠ .applying session seqno pending) →
      ∀ instant, last.shared.visible ≤ instant → viewAt last.shared.trees instant = stateAfter initial last.shared.ended) ∧
    (∀ reader ∈ last.shared.observed, ∃ count, Observes prefixToRange initial last.shared.ended reader count) ∧
    (∀ t reader, last.phase t = .reading reader → ∃ count, Observes prefixToRange initial last.shared.ended reader count ∧
      viewAt last.shared.trees reader.instant = stateAfter initial (last.shared.ended.take count)) := by
  subst begins
  have inv := run_invariant _ _ act_inv run (opened_inv start opened idle)
  refine ⟨inv.database.ended, ?_, ?_, inv.database.observed, ?_⟩
  · intro t session here
    have point := inv.point t
    rcases here with writing | ⟨seqno, pending, applying⟩
    · rw [writing] at point
      exact ⟨point.2.1.ticket, point.2.2.replays⟩
    · rw [applying] at point
      exact ⟨point.1.ticket, point.2.replays⟩
  · intro quiet instant later
    rw [← inv.database.current]
    exact view_at_covering _ _ _ later (settled_unless_applying last inv quiet)
  · intro t reader here
    have point := inv.point t
    rw [here] at point
    exact point.observes

end Invariant

def emptyDatabase : TxDatabase Bool Nat where
  trees := fun _ => []
  seqno := 0
  snapshotTracker := .new 0
  writer := none
  tickets := 0
  ended := []
  observed := []

def idleThreads : Threads Bool (TxDatabase Bool Nat) (Phase Nat) := ⟨emptyDatabase, fun _ => .idle⟩

def upwards (pfx : Nat) : Bound Nat × Bound Nat := (.included pfx, .unbounded)

-- A batch over two keyspaces, with a snapshot opened when half of it is applied
-- and read again after it is published.
theorem snapshot_amid_commit_sequential :
    ∃ labels, ∃ last : Threads Bool (TxDatabase Bool Nat) (Phase Nat),
      Opened idleThreads.shared ∧ Run (ThreadStep (Act upwards)) idleThreads labels last ∧
      last.shared.ended.length = 1 ∧ last.shared.observed.length = 1 ∧
      (∀ reader ∈ last.shared.observed, ∃ count, Observes upwards (fun _ => none) last.shared.ended reader count) ∧
      ∀ instant, last.shared.visible ≤ instant →
        viewAt last.shared.trees instant = stateAfter (fun _ => none) last.shared.ended := by
  have opened : Opened idleThreads.shared :=
    ⟨rfl, rfl, rfl, Nat.le_refl _, fun _ _ member => (by cases member), fun _ _ member => (by cases member)⟩
  have run : ∃ labels, ∃ last : Threads Bool (TxDatabase Bool Nat) (Phase Nat),
      Run (ThreadStep (Act upwards)) idleThreads labels last ∧ last.shared.ended.length = 1 ∧
        last.shared.observed.length = 1 ∧ ∀ t, last.phase t = .idle := by
    refine ⟨_, _, .cons (false, .lock) _ (.move _ _ _ _ _ (.lock _ _ rfl))
      (.cons (false, .openSnapshot) _ (.move _ _ _ _ _ (.openSnapshot _ _ _))
      (.cons (false, .call (.insert 0 5 .empty)) _ (.move _ _ _ _ _ (.call _ _ _ _))
      (.cons (false, .call (.insert 1 5 .empty)) _ (.move _ _ _ _ _ (.call _ _ _ _))
      (.cons (false, .commit) _
        (.move _ _ _ _ _ (.commit _ _ _ [((0, 5), some .empty), ((1, 5), some .empty)] (by decide) (by decide) (by decide)))
      (.cons (false, .applyItem) _ (.move _ _ _ _ _ (.applyItem _ _ _ _ _ _))
      (.cons (true, .readTx) _ (.move _ _ _ _ _ (.readTx _ _))
      (.cons (true, .read (.get 0 5)) _ (.move _ _ _ _ _ (.readSnapshot _ _ _ _))
      (.cons (false, .applyItem) _ (.move _ _ _ _ _ (.applyItem _ _ _ _ _ _))
      (.cons (false, .publish) _ (.move _ _ _ _ _ (.publish _ _ _ _))
      (.cons (true, .read (.iter 1)) _ (.move _ _ _ _ _ (.readSnapshot _ _ _ _))
      (.cons (false, .dropNonce CountMap.inStoredOrder) _ (.move _ _ _ _ _ (.dropNonce _ _ _ _))
      (.cons (false, .unlock) _ (.move _ _ _ _ _ (.unlock _ _))
      (.cons (true, .dropSnapshot CountMap.inStoredOrder) _ (.move _ _ _ _ _ (.dropSnapshot _ _ _ _)) (.nil _)))))))))))))),
      rfl, rfl, ?_⟩
    intro t
    cases t <;> rfl
  obtain ⟨labels, last, run, ended, observed, idle⟩ := run
  obtain ⟨_, _, states, readers, _⟩ :=
    single_writer_transactions_sequential idleThreads last labels (fun _ => none) opened (fun _ => rfl) rfl run
  exact ⟨labels, last, opened, run, ended, observed, readers, states fun t _ _ _ => by simp [idle t]⟩

end OmryaKv.Tx.SingleWriter
