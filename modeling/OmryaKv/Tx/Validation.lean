import OmryaKv.Tx.ConflictDetection
import OmryaKv.Tx.Serializability

set_option autoImplicit false

namespace OmryaKv.Tx

open Lib Snapshot

section

variable {K V : Type} [LinearOrder K] (prefixToRange : K → Bound K × Bound K)

-- The marks of a transaction are those of the operations it has performed.
structure MarkedBy (cm : ConflictManager K) (history : List (TxOp K V × Answer K V)) : Prop where
  covers : ∀ place, cm.Covers place ↔ ∃ action ∈ history, action.1.Reads prefixToRange place
  writes : ∀ place, cm.Writes place ↔ ∃ action ∈ history, action.1.Touches place

def BeganAfter (commits : List (Committed K V)) (session : Session K V) : Prop :=
  ∀ commit ∈ commits.take session.begun, commit.timestamp ≤ session.instant

-- What the oracle has on record are commits, and a session has the commits it
-- counts behind it.
structure OracleInv (db : TxDatabase K V) : Prop where
  sessions : ∀ name session, db.sessions name = some session →
    MarkedBy prefixToRange session.tx.cm session.history ∧ BeganAfter db.commits session
  applying : ∀ applying, db.applying = some applying →
    MarkedBy prefixToRange applying.session.tx.cm applying.session.history
  commits : ∀ commit ∈ db.commits, MarkedBy prefixToRange commit.cm commit.history ∧ commit.timestamp ≤ db.visible
  recorded : ∀ entry ∈ db.oracle.committedTxns, ∃ commit ∈ db.commits, entry = (commit.timestamp, commit.cm)

variable {prefixToRange}

theorem marked_by_nothing : MarkedBy prefixToRange .new ([] : List (TxOp K V × Answer K V)) := by
  constructor
  · intro place
    simp [ConflictManager.new, ConflictManager.Covers]
  · intro place
    simp [ConflictManager.new, ConflictManager.Writes]

theorem marked_by_perform [DecidableEq V] (tx : WriteTransaction K V) (history : List (TxOp K V × Answer K V)) (trees : Trees K V)
    (op : TxOp K V) (marked : MarkedBy prefixToRange tx.cm history) :
    MarkedBy prefixToRange (tx.perform prefixToRange trees op).1.cm
      (history ++ [(op, (tx.perform prefixToRange trees op).2)]) := by
  constructor
  · intro place
    rw [tx.perform_covers, marked.covers]
    simp [or_and_right, exists_or]
  · intro place
    rw [tx.perform_writes, marked.writes]
    simp [or_and_right, exists_or]

-- The steps that commit nothing.
theorem OracleInv.quiet {db next : TxDatabase K V} (inv : OracleInv prefixToRange db) (commits : next.commits = db.commits)
    (visible : db.visible ≤ next.visible) (fewer : ∀ entry ∈ next.oracle.committedTxns, entry ∈ db.oracle.committedTxns)
    (sessions : ∀ name session, next.sessions name = some session →
      MarkedBy prefixToRange session.tx.cm session.history ∧ BeganAfter db.commits session)
    (applying : ∀ applying, next.applying = some applying →
      MarkedBy prefixToRange applying.session.tx.cm applying.session.history) : OracleInv prefixToRange next where
  sessions := by
    rw [commits]
    exact sessions
  applying := applying
  commits := by
    rw [commits]
    exact fun commit member => (inv.commits commit member).imp_right fun past => Nat.le_trans past visible
  recorded := by
    rw [commits]
    exact fun entry member => inv.recorded entry (fewer entry member)

theorem OracleInv.leave {db : TxDatabase K V} (inv : OracleInv prefixToRange db) (name other : Nat) (session : Session K V)
    (found : Function.update db.sessions name none other = some session) :
    MarkedBy prefixToRange session.tx.cm session.history ∧ BeganAfter db.commits session := by
  by_cases same : other = name
  · rw [same, Function.update_self] at found
    cases found
  · rw [Function.update_of_ne same] at found
    exact inv.sessions other session found

theorem OracleInv.seat {db : TxDatabase K V} (inv : OracleInv prefixToRange db) (name : Nat) (current : Session K V)
    (marked : MarkedBy prefixToRange current.tx.cm current.history) (began : BeganAfter db.commits current) (other : Nat)
    (session : Session K V) (found : Function.update db.sessions name (some current) other = some session) :
    MarkedBy prefixToRange session.tx.cm session.history ∧ BeganAfter db.commits session := by
  by_cases same : other = name
  · rw [same, Function.update_self] at found
    cases found
    exact ⟨marked, began⟩
  · rw [Function.update_of_ne same] at found
    exact inv.sessions other session found

theorem OracleInv.turnDown {db : TxDatabase K V} (inv : OracleInv prefixToRange db) (name : Nat) (session : Session K V)
    (order drop : IterationOrder Nat) (conflicted : Bool) (oracle : Oracle K) (seqno : Nat)
    (started : db.oracle.startCommit session.instant session.tx.cm order = some (conflicted, oracle)) :
    OracleInv prefixToRange ({ db with oracle, seqno }.close name session drop) := by
  have visible : (oracle.snapshotTracker.closeRaw session.instant drop).seqno = db.tracker.seqno :=
    (SnapshotTracker.close_raw_seqno _ _ _).trans (started_visible db _ _ _ _ _ started)
  exact inv.quiet rfl (Nat.le_of_eq visible.symm) (pruned_fewer db _ _ _ _ oracle started) (inv.leave name) inv.applying

theorem OracleInv.finish {db : TxDatabase K V} (inv : OracleInv prefixToRange db) (drop : IterationOrder Nat)
    (session : Session K V) (seqno : Nat) (locked : db.applying = some ⟨session, seqno, []⟩)
    (counted : ∀ name other, db.sessions name = some other → other.begun ≤ db.commits.length) :
    OracleInv prefixToRange (db.finish session seqno drop) := by
  have visible : db.visible ≤ (db.finish session seqno drop).visible := by
    change db.tracker.seqno ≤ ((db.tracker.publish seqno).closeRaw session.instant drop).seqno
    rw [SnapshotTracker.close_raw_seqno]
    exact Nat.le_max_left _ _
  refine ⟨?_, ?_, ?_, ?_⟩
  · intro name other found
    obtain ⟨marked, began⟩ := inv.sessions name other found
    refine ⟨marked, ?_⟩
    intro commit member
    rw [TxDatabase.finish, List.take_append_of_le_length (counted name other found)] at member
    exact began commit member
  · rintro applying ⟨⟩
  · intro commit member
    rcases List.mem_append.mp member with old | new
    · exact (inv.commits commit old).imp_right fun past => Nat.le_trans past visible
    · rw [List.mem_singleton.mp new]
      exact ⟨inv.applying _ locked, Nat.le_refl _⟩
  · intro entry member
    rcases List.mem_append.mp member with old | new
    · obtain ⟨commit, known, same⟩ := inv.recorded entry (List.mem_filter.mp old).1
      exact ⟨commit, List.mem_append_left _ known, same⟩
    · exact ⟨_, List.mem_append_right _ (List.mem_singleton.mpr rfl), List.mem_singleton.mp new⟩

theorem oracle_step_inv [DecidableEq V] (initial : View K V) (db next : TxDatabase K V) (label : TxLabel K V)
    (tx : TxInv prefixToRange initial db) (inv : OracleInv prefixToRange db) (step : TxStep prefixToRange db label next) :
    OracleInv prefixToRange next := by
  cases step with
  | writeTx name fresh unlocked =>
    refine inv.quiet rfl (Nat.le_refl _) (fun _ member => member) (inv.seat name _ marked_by_nothing ?_) inv.applying
    intro commit member
    rw [List.take_length] at member
    exact (inv.commits commit member).2
  | act name op session found ranged =>
    obtain ⟨marked, began⟩ := inv.sessions name session found
    refine inv.quiet rfl (Nat.le_refl _) (fun _ member => member)
      (inv.seat name _ (marked_by_perform session.tx session.history db.trees op marked) ?_) inv.applying
    intro commit member
    have instant := session.tx.inner.perform_instant prefixToRange db.trees op
    rw [← session.tx.perform_inner] at instant
    exact (began commit member).trans (Nat.le_of_eq instant.symm)
  | rollback name drop session found =>
    exact inv.quiet rfl (Nat.le_of_eq (SnapshotTracker.close_raw_seqno _ _ _).symm) (fun _ member => member) (inv.leave name)
      inv.applying
  | commitReadOnly name drop session found unwritten =>
    exact inv.quiet rfl (Nat.le_of_eq (SnapshotTracker.close_raw_seqno _ _ _).symm) (fun _ member => member) (inv.leave name)
      inv.applying
  | conflicted name order drop session oracle found written unlocked started =>
    exact inv.turnDown name session order drop true oracle db.seqno started
  | aborted name order drop seqnoTaken session oracle found written unlocked started =>
    exact inv.turnDown name session order drop false oracle _ started
  | proceeds name order session oracle found written unlocked started room =>
    refine inv.quiet rfl (Nat.le_of_eq (started_visible db _ _ _ _ oracle started).symm)
      (pruned_fewer db _ _ _ _ oracle started) (inv.leave name) ?_
    rintro applying ⟨⟩
    exact (inv.sessions name session found).1
  | applyItem session seqno item rest locked =>
    refine inv.quiet rfl (Nat.le_refl _) (fun _ member => member) inv.sessions ?_
    rintro applying ⟨⟩
    exact inv.applying ⟨session, seqno, item :: rest⟩ locked
  | finishCommit drop session seqno locked =>
    exact inv.finish drop session seqno locked fun name other found => (tx.sessions name other found).begun
  | nonce op =>
    exact inv.quiet rfl (Nat.le_of_eq (nonce_op_seqno _ op).symm) (fun _ member => member) inv.sessions inv.applying
  | maintain trees fewer kept => exact inv.quiet rfl (Nat.le_refl _) (fun _ member => member) inv.sessions inv.applying

-- Whoever is on record under a later timestamp than the session's instant has
-- committed since it began.
theorem conflict_rival (db : TxDatabase K V) (inv : OracleInv prefixToRange db) (name : Nat) (session : Session K V)
    (found : db.sessions name = some session) (rejected : db.oracle.conflicted session.instant session.tx.cm = some true) :
    ∃ rival ∈ db.commits.drop session.begun, ∃ place, session.tx.cm.Covers place ∧ rival.cm.Writes place := by
  obtain ⟨entry, kept, hit⟩ := List.mem_map.mp (any_hit_true _ rejected)
  obtain ⟨member, later⟩ := List.mem_filter.mp kept
  obtain ⟨rival, known, rfl⟩ := inv.recorded entry member
  refine ⟨rival, ?_, session.tx.cm.has_conflict_true rival.cm hit⟩
  rw [← List.take_append_drop session.begun db.commits] at known
  refine (List.mem_append.mp known).resolve_left fun before => ?_
  exact absurd ((inv.sessions name session found).2 rival before) (Nat.not_le.mpr (of_decide_eq_true later))

variable (prefixToRange)

end

end OmryaKv.Tx
