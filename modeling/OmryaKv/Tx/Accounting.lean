import OmryaKv.Lib.Run
import OmryaKv.Tx.Oracle

set_option autoImplicit false

namespace OmryaKv.Tx

open Lib Snapshot

-- alive holds the instants of the nonces that read snapshots, iterators and open
-- transactions own. A transaction that is inside with_commit has given its nonce
-- to the closure; with_commit has closed that nonce and its Drop is still to come.
structure Accounts (K : Type) where
  oracle : Oracle K
  alive : List Nat
  closing : List Nat

-- dropNonce is the end of a read snapshot or an iterator, of a transaction that
-- is rolled back or has written nothing. A commit goes through startCommit and
-- endCommit whether it succeeds, conflicts or aborts; publish and finishCommit
-- come in between when it succeeds.
inductive AccountOp (K : Type) where
  | openNonce
  | cloneNonce (instant : Nat)
  | dropNonce (instant : Nat) (order : IterationOrder Nat)
  | startCommit (instant : Nat) (conflictChecker : ConflictManager K) (order : IterationOrder Nat)
  | endCommit (instant : Nat) (order : IterationOrder Nat)
  | finishCommit (conflictChecker : ConflictManager K)
  | publish (batchSeqno : Nat)
  | gc (order : IterationOrder Nat)
  | pullup

section

variable {K : Type} [LinearOrder K]

def Accounts.tracker (s : Accounts K) : SnapshotTracker := s.oracle.snapshotTracker

def Accounts.withTracker (s : Accounts K) (tracker : SnapshotTracker) : Accounts K :=
  { s with oracle := { s.oracle with snapshotTracker := tracker } }

inductive AccountStep : Accounts K → AccountOp K → Accounts K → Prop where
  | openNonce (s : Accounts K) :
      AccountStep s .openNonce
        { s.withTracker s.tracker.openSnapshot.2 with alive := s.tracker.openSnapshot.1 :: s.alive }
  | cloneNonce (s : Accounts K) (instant : Nat) (owned : instant ∈ s.alive) :
      AccountStep s (.cloneNonce instant)
        { s.withTracker (s.tracker.cloneSnapshot instant) with alive := instant :: s.alive }
  | dropNonce (s : Accounts K) (instant : Nat) (order : IterationOrder Nat) (owned : instant ∈ s.alive) :
      AccountStep s (.dropNonce instant order)
        { s.withTracker (s.tracker.closeRaw instant order) with alive := s.alive.erase instant }
  | startCommit (s : Accounts K) (instant : Nat) (cm : ConflictManager K) (order : IterationOrder Nat)
      (conflicted : Bool) (oracle : Oracle K) (owned : instant ∈ s.alive)
      (started : s.oracle.startCommit instant cm order = some (conflicted, oracle)) :
      AccountStep s (.startCommit instant cm order) ⟨oracle, s.alive.erase instant, instant :: s.closing⟩
  | endCommit (s : Accounts K) (instant : Nat) (order : IterationOrder Nat) (owned : instant ∈ s.closing) :
      AccountStep s (.endCommit instant order)
        { s.withTracker (s.tracker.closeRaw instant order) with closing := s.closing.erase instant }
  | finishCommit (s : Accounts K) (cm : ConflictManager K) :
      AccountStep s (.finishCommit cm) { s with oracle := s.oracle.finishCommit cm }
  | publish (s : Accounts K) (batchSeqno : Nat) :
      AccountStep s (.publish batchSeqno) (s.withTracker (s.tracker.publish batchSeqno))
  | gc (s : Accounts K) (order : IterationOrder Nat) : AccountStep s (.gc order) (s.withTracker (s.tracker.gc order))
  | pullup (s : Accounts K) : AccountStep s .pullup (s.withTracker s.tracker.pullup)

def Exact (s : Accounts K) : Prop := ∀ instant, s.tracker.data.count instant = s.alive.count instant

def SoleHolder (s : Accounts K) : AccountOp K → Prop
  | .endCommit instant _ => instant ∉ s.alive
  | _ => True

omit [LinearOrder K] in
theorem closed_count (s : Accounts K) (exact : Exact s) (instant : Nat) (order : IterationOrder Nat) (other : Nat) :
    (s.tracker.closeRaw instant order).data.count other = (s.alive.erase instant).count other := by
  rw [SnapshotTracker.close_raw_count, List.count_erase, exact, exact]
  by_cases same : other = instant
  · simp [same]
  · simp [same, Ne.symm same]

omit [LinearOrder K] in
theorem opened_count (s : Accounts K) (exact : Exact s) (instant other : Nat) :
    (s.tracker.data.increment instant).count other = (instant :: s.alive).count other := by
  rw [CountMap.count_increment, List.count_cons, exact, exact]
  by_cases same : other = instant
  · simp [same]
  · simp [same, Ne.symm same]

theorem account_step_exact (s next : Accounts K) (op : AccountOp K) (exact : Exact s) (step : AccountStep s op next)
    (sole : SoleHolder s op) : Exact next := by
  cases step with
  | openNonce => exact opened_count s exact s.tracker.seqno
  | cloneNonce instant owned => exact opened_count s exact instant
  | dropNonce instant order owned => exact closed_count s exact instant order
  | startCommit instant cm order conflicted oracle owned started =>
    intro other
    have tracker := (Oracle.start_commit_some _ _ _ _ _ _ started).2.1
    rw [Accounts.tracker, tracker]
    exact closed_count s exact instant order other
  | endCommit instant order owned =>
    -- The count is zero by now and stays there: this second close does nothing.
    intro other
    have absent : s.alive.erase instant = s.alive := List.erase_of_not_mem sole
    have closed := closed_count s exact instant order other
    rwa [absent] at closed
  | finishCommit cm => exact exact
  | publish batchSeqno => exact exact
  | gc order =>
    intro other
    exact (SnapshotTracker.gc_count _ _ _).trans (exact other)
  | pullup =>
    intro other
    exact (congrArg (CountMap.count · other) s.tracker.pullup_data).trans (exact other)

theorem account_step_short (s next : Accounts K) (op : AccountOp K) (exact : Exact s) (step : AccountStep s op next)
    (shared : ¬ SoleHolder s op) :
    ∃ instant ∈ next.alive, next.tracker.data.count instant < next.alive.count instant := by
  cases step with
  | endCommit instant order owned =>
    have held : instant ∈ s.alive := not_not.mp shared
    have positive := List.count_pos_iff.mpr held
    refine ⟨instant, held, ?_⟩
    change (s.tracker.closeRaw instant order).data.count instant < s.alive.count instant
    rw [closed_count s exact, List.count_erase_self]
    omega
  | _ => exact absurd trivial shared

def Accounts.new (seqno : Nat) : Accounts K := ⟨⟨[], .new seqno⟩, [], []⟩

-- with_commit closes the nonce of the transaction and so does its Drop. The
-- count saturates at zero, so the second close is harmless exactly as long as
-- no other nonce has the same instant; otherwise it takes one of theirs away.
-- In between the two, the tracker already counts the nonce as gone.
theorem snapshot_accounting_exact (seqno : Nat) :
    (∀ ops s, Run (Guarded AccountStep SoleHolder) (Accounts.new seqno : Accounts K) ops s →
      ∀ instant, s.tracker.data.count instant = s.alive.count instant ∧
        (s.tracker.data.count instant = (s.alive ++ s.closing).count instant ↔ instant ∉ s.closing)) ∧
    (∀ ops s op next, Run (Guarded AccountStep SoleHolder) (Accounts.new seqno : Accounts K) ops s →
      AccountStep s op next → ¬ SoleHolder s op →
      ∃ instant ∈ next.alive, next.tracker.data.count instant < next.alive.count instant) := by
  have exact : ∀ ops s, Run (Guarded AccountStep SoleHolder) (Accounts.new seqno : Accounts K) ops s → Exact s := by
    intro ops s run
    refine run_invariant _ Exact ?_ run (fun instant => rfl)
    intro s op next counted step
    exact account_step_exact s next op counted step.2 step.1
  refine ⟨?_, ?_⟩
  · intro ops s run instant
    have counted := exact ops s run instant
    refine ⟨counted, ?_⟩
    rw [counted, List.count_append, ← List.count_eq_zero]
    omega
  · intro ops s op next run step shared
    exact account_step_short s next op (exact ops s run) step shared

end

def nothingRead : ConflictManager Nat := .new

theorem commit_beside_other_instant_exact :
    ∃ s, Run (Guarded AccountStep SoleHolder) (Accounts.new 4 : Accounts Nat)
      [.openNonce, .publish 4, .openNonce, .cloneNonce 5, .dropNonce 5 CountMap.inStoredOrder,
        .startCommit 5 nothingRead CountMap.inStoredOrder, .publish 5, .endCommit 5 CountMap.inStoredOrder,
        .finishCommit nothingRead] s ∧
      s.alive = [4] ∧ s.tracker.data.count 4 = 1 := by
  have run : ∃ s, Run (Guarded AccountStep SoleHolder) (Accounts.new 4 : Accounts Nat)
      [.openNonce, .publish 4, .openNonce, .cloneNonce 5, .dropNonce 5 CountMap.inStoredOrder,
        .startCommit 5 nothingRead CountMap.inStoredOrder, .publish 5, .endCommit 5 CountMap.inStoredOrder,
        .finishCommit nothingRead] s ∧ s.alive = [4] :=
    ⟨_, .cons _ _ ⟨trivial, .openNonce _⟩ (.cons _ _ ⟨trivial, .publish _ 4⟩ (.cons _ _ ⟨trivial, .openNonce _⟩
      (.cons _ _ ⟨trivial, .cloneNonce _ 5 (by decide)⟩
      (.cons _ _ ⟨trivial, .dropNonce _ 5 _ (by decide)⟩
      (.cons _ _ ⟨trivial, .startCommit _ 5 _ _ false _ (by decide) rfl⟩ (.cons _ _ ⟨trivial, .publish _ 5⟩
      (.cons _ _ ⟨(by decide : 5 ∉ [4]), .endCommit _ 5 _ (by decide)⟩
      (.cons _ _ ⟨trivial, .finishCommit _ _⟩ (.nil _))))))))), rfl⟩
  obtain ⟨s, run, alive⟩ := run
  refine ⟨s, run, alive, ?_⟩
  rw [((snapshot_accounting_exact 4).1 _ s run 4).1, alive]
  rfl

-- Two transactions begin at instant 5 and the first one commits: the second is
-- still open, and the tracker no longer knows of any snapshot at 5.
theorem commit_releases_other_transaction :
    ∃ s, Run AccountStep (Accounts.new 5 : Accounts Nat)
      [.openNonce, .openNonce, .startCommit 5 nothingRead CountMap.inStoredOrder, .publish 5,
        .endCommit 5 CountMap.inStoredOrder, .finishCommit nothingRead] s ∧
      s.alive = [5] ∧ s.closing = [] ∧ s.tracker.data.count 5 = 0 :=
  ⟨_, .cons _ _ (.openNonce _) (.cons _ _ (.openNonce _)
    (.cons _ _ (.startCommit _ 5 _ _ false _ (by decide) rfl) (.cons _ _ (.publish _ 5)
    (.cons _ _ (.endCommit _ 5 _ (by decide)) (.cons _ _ (.finishCommit _ _) (.nil _)))))), rfl, rfl, rfl⟩

end OmryaKv.Tx
