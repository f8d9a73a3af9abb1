import OmryaKv.Tx.OptimisticTxKeyspace
import OmryaKv.Tx.Validation

set_option autoImplicit false

namespace OmryaKv.Tx

open Lib Snapshot

section

variable {K V : Type} [LinearOrder K] (prefixToRange : K → Bound K × Bound K) (initial : View K V)

-- The commit that is under way, once its one item is in the trees.
def TxDatabase.inFlight (db : TxDatabase K V) : List (List (TxOp K V × Answer K V)) :=
  match db.applying with
  | some ⟨session, _, []⟩ => [session.history]
  | _ => []

def Outstanding (s : Calls K V) (ticket : Ticket K V) (position : Nat) : Prop :=
  Pending s.clock s.records ticket.calledAt ticket.since ∧ ticket.since + ticket.retries ≤ position

def CallPoint (s : Calls K V) (t : Nat) : CallPhase K V → Prop
  | .idle => s.db.sessions t = none
  | .trying ticket => s.db.sessions t = none ∧ Outstanding s ticket s.writes.length
  | .begun ticket => ∃ session, s.db.sessions t = some session ∧ session.tx = .new session.instant ∧ session.history = [] ∧
      Outstanding s ticket session.begun
  | .performed ticket answer => ∃ session, s.db.sessions t = some session ∧
      (session.tx.inner.memtables.entries ≠ [] → session.tx.inner.batchData.length = 1) ∧
      session.history = [(ticket.call.op, answer)] ∧ Outstanding s ticket session.begun
  | .committing ticket answer => s.db.sessions t = none ∧ ∃ session seqno pending,
      s.db.applying = some ⟨session, seqno, pending⟩ ∧ pending.length ≤ 1 ∧ session.history = [(ticket.call.op, answer)] ∧
      Outstanding s ticket s.db.commits.length
  | .panicked _ => False

structure SharedInv (s : Calls K V) : Prop where
  tx : TxInv prefixToRange initial s.db
  oracle : OracleInv prefixToRange s.db
  linear : Linearizes (TxOp.Holds prefixToRange) TxOp.apply initial s.clock s.writes s.records
  writes : s.writes.map (fun action => [action]) = s.db.histories ++ s.db.inFlight
  -- A batch of one item is in the trees entirely or not at all.
  unapplied : ∀ session seqno item rest, s.db.applying = some ⟨session, seqno, item :: rest⟩ →
    ∀ keyspaceId, ∀ version ∈ s.db.trees keyspaceId, version.seqno < s.db.visible
  records : (s.records.filter CallRecord.wrote).map (fun record => [record.action]) = s.db.histories

-- The shared state, and what each thread relies on; only one commits at a time.
structure CallsInv (threads : Threads Nat (Calls K V) (CallPhase K V)) : Prop where
  shared : SharedInv prefixToRange initial threads.shared
  alone : ∀ t u, (threads.phase t).Committing → (threads.phase u).Committing → t = u
  point : ∀ t, CallPoint threads.shared t (threads.phase t)

variable {prefixToRange initial}

theorem after_all_singletons (writes : List (TxOp K V × Answer K V)) (view : View K V) :
    afterAll TxOp.apply view (writes.map fun action => [action]) = after TxOp.apply view writes := by
  rw [afterAll, List.foldl_map]
  rfl

theorem view_at_any (trees : Trees K V) (one two : Nat)
    (belowOne : ∀ keyspaceId, ∀ version ∈ trees keyspaceId, version.seqno < one)
    (belowTwo : ∀ keyspaceId, ∀ version ∈ trees keyspaceId, version.seqno < two) : viewAt trees one = viewAt trees two := by
  rcases Nat.le_total one two with ordered | ordered
  · exact (view_at_covering trees one two ordered belowOne).symm
  · exact view_at_covering trees two one ordered belowTwo

omit [LinearOrder K] in
theorem in_flight_applied (db : TxDatabase K V) (session : Session K V) (seqno : Nat)
    (applying : db.applying = some ⟨session, seqno, []⟩) : db.inFlight = [session.history] := by
  rw [TxDatabase.inFlight, applying]

theorem batch_data_of_one (instant keyspaceId : Nat) (key : K) (value : Option V) :
    ((BaseTransaction.new instant).write keyspaceId key value).batchData = [((keyspaceId, key), value)] := by
  simp [BaseTransaction.batchData, BaseTransaction.write, BaseTransaction.new, BaseTransaction.memtable, sortedKeys,
    AList.insert, lookup, newest]

theorem performed_batch [DecidableEq V] (instant : Nat) (trees : Trees K V) (op : TxOp K V)
    (written : ((BaseTransaction.new instant).perform prefixToRange trees op).1.memtables.entries ≠ []) :
    ((BaseTransaction.new instant).perform prefixToRange trees op).1.batchData.length = 1 := by
  rcases (BaseTransaction.new instant).perform_writes_once prefixToRange trees op with same | ⟨keyspaceId, key, value, once⟩
  · rw [same] at written
    exact absurd rfl written
  · rw [once, batch_data_of_one]
    rfl

omit [LinearOrder K] in
theorem Outstanding.grow {s next : Calls K V} {ticket : Ticket K V} {position later : Nat} (outstanding : Outstanding s ticket position)
    (pending : Pending s.clock s.records ticket.calledAt ticket.since → Pending next.clock next.records ticket.calledAt ticket.since)
    (reached : position ≤ later) : Outstanding next ticket later :=
  ⟨pending outstanding.1, Nat.le_trans outstanding.2 reached⟩

-- What a thread relies on while another one moves.
theorem call_point_beside (s next : Calls K V) (t : Nat) (phase : CallPhase K V) (point : CallPoint s t phase)
    (sessions : next.db.sessions t = s.db.sessions t)
    (pending : ∀ calledAt since, Pending s.clock s.records calledAt since → Pending next.clock next.records calledAt since)
    (writes : s.writes.length ≤ next.writes.length)
    (locked : phase.Committing → next.db.applying = s.db.applying ∧ next.db.commits = s.db.commits) :
    CallPoint next t phase := by
  cases phase with
  | idle => exact sessions.trans point
  | trying ticket => exact ⟨sessions.trans point.1, point.2.grow (pending _ _) writes⟩
  | begun ticket =>
    obtain ⟨session, found, new, history, outstanding⟩ := point
    exact ⟨session, sessions.trans found, new, history, outstanding.grow (pending _ _) (Nat.le_refl _)⟩
  | performed ticket answer =>
    obtain ⟨session, found, batch, history, outstanding⟩ := point
    exact ⟨session, sessions.trans found, batch, history, outstanding.grow (pending _ _) (Nat.le_refl _)⟩
  | committing ticket answer =>
    obtain ⟨free, session, seqno, items, applying, single, history, outstanding⟩ := point
    obtain ⟨sameLock, sameCommits⟩ := locked trivial
    exact ⟨sessions.trans free, session, seqno, items, sameLock.trans applying, single, history,
      outstanding.grow (pending _ _) (Nat.le_of_eq (congrArg List.length sameCommits.symm))⟩
  | panicked ticket => exact point

namespace SharedInv

variable {s : Calls K V} (inv : SharedInv prefixToRange initial s)
include inv

theorem commits_length : s.writes.length = s.db.commits.length + s.db.inFlight.length := by
  have same := congrArg List.length inv.writes
  rwa [List.length_map, List.length_append, TxDatabase.histories, List.length_map] at same

-- The state after the first so many writes is the one after as many commits.
theorem state_after_writes (count : Nat) (committed : count ≤ s.db.commits.length) :
    after TxOp.apply initial (s.writes.take count) = stateAfter initial (s.db.commits.take count) := by
  have same := congrArg (List.take count) inv.writes
  rw [← List.map_take, List.take_append_of_le_length (by rwa [TxDatabase.histories, List.length_map]), TxDatabase.histories,
    ← List.map_take] at same
  rw [stateAfter, ← same, after_all_singletons]

theorem unlocked_published (unlocked : s.db.applying = none) :
    ∀ keyspaceId, ∀ version ∈ s.db.trees keyspaceId, version.seqno < s.db.visible := by
  intro keyspaceId version member
  rcases inv.tx.published keyspaceId version member with below | ⟨other, locked, -⟩
  · exact below
  · rw [unlocked] at locked
    cases locked

-- A direct read sees the trees as they stand, and so the effect of every write
-- that has reached them.
theorem latest_view : viewAt s.db.trees seqnoMax = after TxOp.apply initial s.writes := by
  have most : ∀ keyspaceId, ∀ version ∈ s.db.trees keyspaceId, version.seqno < seqnoMax :=
    fun keyspaceId version member => Nat.lt_trans (inv.tx.bounded keyspaceId version member) (by decide)
  have settled : (∀ keyspaceId, ∀ version ∈ s.db.trees keyspaceId, version.seqno < s.db.visible) → s.db.inFlight = [] →
      viewAt s.db.trees seqnoMax = after TxOp.apply initial s.writes := by
    intro published nothing
    have same := inv.writes
    rw [nothing, List.append_nil] at same
    rw [view_at_any _ _ _ most published, ← after_all_singletons, same]
    exact inv.tx.current
  cases applying : s.db.applying with
  | none => exact settled (inv.unlocked_published applying) (by rw [TxDatabase.inFlight, applying])
  | some commit =>
    obtain ⟨session, seqno, pending⟩ := commit
    cases pending with
    | cons item rest => exact settled (inv.unapplied session seqno item rest applying) (by rw [TxDatabase.inFlight, applying])
    | nil =>
      have running := inv.tx.applying _ applying
      have flight := in_flight_applied _ session seqno applying
      have under : ∀ keyspaceId, ∀ version ∈ s.db.trees keyspaceId, version.seqno < seqno + 1 := by
        intro keyspaceId version member
        rcases inv.tx.published keyspaceId version member with below | ⟨other, locked, number⟩
        · exact Nat.lt_of_lt_of_le below (Nat.le_succ_of_le running.unpublished)
        · cases applying.symm.trans locked
          exact Nat.lt_succ_of_le (Nat.le_of_eq number)
      rw [view_at_any _ _ _ most under, ← after_all_singletons, inv.writes, flight, afterAll, List.foldl_append]
      exact running.result

theorem unlocked_writes (unlocked : s.db.applying = none) : s.writes.length = s.db.commits.length := by
  rw [inv.commits_length, TxDatabase.inFlight, unlocked]
  rfl

theorem committed_writes : s.db.commits.length ≤ s.writes.length := by
  rw [inv.commits_length]
  exact Nat.le_add_right _ _

theorem read_explained (call : KeyspaceCall K V) (answer : Answer K V) (direct : call.read s.db.trees = some answer) :
    TxOp.Holds prefixToRange (call.op, answer) (after TxOp.apply initial s.writes) ∧
      ∀ view, TxOp.apply (call.op, answer) view = view := by
  rw [← inv.latest_view]
  cases call with
  | get keyspaceId key =>
    cases direct
    exact ⟨rfl, fun _ => rfl⟩
  | containsKey keyspaceId key =>
    cases direct
    exact ⟨rfl, fun _ => rfl⟩
  | _ => cases direct

-- insert and remove have read nothing, so nobody can be in their way.
theorem blind_accepted (t : Nat) (ticket : Ticket K V) (answer : Answer K V) (session : Session K V)
    (found : s.db.sessions t = some session) (history : session.history = [(ticket.call.op, answer)])
    (blind : ticket.call.loops = false) : s.db.oracle.conflicted session.instant session.tx.cm ≠ some true := by
  intro rejected
  obtain ⟨rival, -, place, read, -⟩ := conflict_rival _ inv.oracle t session found rejected
  obtain ⟨action, member, touched⟩ := ((inv.oracle.sessions t session found).1.covers place).mp read
  rw [history, List.mem_singleton] at member
  rw [member] at touched
  cases called : ticket.call with
  | insert | remove =>
    rw [called] at touched
    exact touched
  | _ =>
    rw [called] at blind
    cases blind

theorem conflict_progress (t : Nat) (session : Session K V) (found : s.db.sessions t = some session)
    (rejected : s.db.oracle.conflicted session.instant session.tx.cm = some true) : session.begun < s.db.commits.length := by
  obtain ⟨rival, since, -⟩ := conflict_rival _ inv.oracle t session found rejected
  by_contra late
  rw [List.drop_eq_nil_of_le (Nat.not_lt.mp late)] at since
  cases since

section

variable {db : TxDatabase K V} (tx : TxInv prefixToRange initial db) (oracle : OracleInv prefixToRange db)
include tx oracle

-- A step that commits nothing.
theorem tick (applying : db.inFlight = s.db.inFlight) (commits : db.commits = s.db.commits)
    (unapplied : ∀ session seqno item rest, db.applying = some ⟨session, seqno, item :: rest⟩ →
      ∀ keyspaceId, ∀ version ∈ db.trees keyspaceId, version.seqno < db.visible) : SharedInv prefixToRange initial (s.tick db) := by
  have histories : db.histories = s.db.histories := congrArg (List.map Committed.history) commits
  have ticked := inv.linear.tick []
  rw [List.append_nil] at ticked
  exact ⟨tx, oracle, ticked, inv.writes.trans (by rw [← histories, ← applying]; rfl), unapplied, inv.records.trans histories.symm⟩

-- A commit has the lock and its seqno, and its item is still to come.
theorem started {session : Session K V} {seqno : Nat} {items : List ((Nat × K) × Option V)} (unlocked : s.db.applying = none)
    (applying : db.applying = some ⟨session, seqno, items⟩) (single : items.length = 1) (commits : db.commits = s.db.commits)
    (trees : db.trees = s.db.trees) (visible : db.visible = s.db.visible) : SharedInv prefixToRange initial (s.tick db) := by
  obtain ⟨item, rfl⟩ := List.length_eq_one_iff.mp single
  refine inv.tick tx oracle ?_ commits fun _ _ _ _ _ => ?_
  · simp only [TxDatabase.inFlight, applying, unlocked]
  · rw [trees, visible]
    exact inv.unlocked_published unlocked

-- A call returns that has written nothing.
theorem answered (ticket : Ticket K V) (answer : Answer K V) (position : Nat) (applying : db.applying = s.db.applying)
    (commits : db.commits = s.db.commits) (visible : s.db.visible ≤ db.visible) (trees : db.trees = s.db.trees)
    (outstanding : Outstanding s ticket position) (reached : position ≤ s.writes.length)
    (holds : TxOp.Holds prefixToRange (ticket.call.op, answer) (after TxOp.apply initial (s.writes.take position)))
    (idle : TxOp.apply (ticket.call.op, answer) (after TxOp.apply initial (s.writes.take position)) =
      after TxOp.apply initial (s.writes.take position)) :
    SharedInv prefixToRange initial (s.finish db ticket answer position false) := by
  have histories : db.histories = s.db.histories := congrArg (List.map Committed.history) commits
  have flight : db.inFlight = s.db.inFlight := by rw [TxDatabase.inFlight, applying, TxDatabase.inFlight]
  refine ⟨tx, oracle, ?_, ?_, ?_, ?_⟩
  · exact inv.linear.finish outstanding.1 _ rfl rfl (Nat.le_trans (Nat.le_add_right _ _) outstanding.2)
      ⟨reached, holds, fun wrote => absurd wrote Bool.false_ne_true, fun _ => idle⟩
  · exact inv.writes.trans (by rw [← histories, ← flight]; rfl)
  · intro session seqno item rest locked keyspaceId version member
    rw [show (s.finish db ticket answer position false).db.trees = s.db.trees from trees] at member
    exact Nat.lt_of_lt_of_le (inv.unapplied session seqno item rest (applying.symm.trans locked) keyspaceId version member) visible
  · rw [show (s.finish db ticket answer position false).records = s.records ++
      [⟨(ticket.call.op, answer), ticket.calledAt, s.clock, position, false⟩] from rfl, List.filter_append,
      List.filter_cons_of_neg (by simp), List.filter_nil, List.append_nil]
    exact inv.records.trans histories.symm

variable {session : Session K V} {seqno : Nat} {ticket : Ticket K V} {answer : Answer K V}
  (history : session.history = [(ticket.call.op, answer)])
include history

-- The item reaches the trees: from here on everybody who reads there sees the write.
theorem written (item : (Nat × K) × Option V) (before : s.db.applying = some ⟨session, seqno, [item]⟩)
    (applying : db.applying = some ⟨session, seqno, []⟩) (commits : db.commits = s.db.commits) :
    SharedInv prefixToRange initial { s.tick db with writes := s.writes ++ [(ticket.call.op, answer)] } := by
  have histories : db.histories = s.db.histories := congrArg (List.map Committed.history) commits
  refine ⟨tx, oracle, inv.linear.tick _, ?_, ?_, inv.records.trans histories.symm⟩
  · have earlier := inv.writes
    rw [TxDatabase.inFlight, before, List.append_nil, ← histories] at earlier
    change (s.writes ++ [(ticket.call.op, answer)]).map (fun action => [action]) = db.histories ++ db.inFlight
    rw [in_flight_applied db session seqno applying, List.map_append, earlier, history]
    rfl
  · intro _ _ _ _ locked
    cases applying.symm.trans locked

-- The call returns, and the write gets its record.
theorem committed (timestamp : Nat) (before : s.db.applying = some ⟨session, seqno, []⟩) (released : db.applying = none)
    (commits : db.commits = s.db.commits ++ [⟨session.history, timestamp, session.tx.cm⟩])
    (outstanding : Outstanding s ticket s.db.commits.length) :
    SharedInv prefixToRange initial (s.finish db ticket answer (s.writes.length - 1) true) := by
  have running := inv.tx.applying _ before
  have flight : s.db.inFlight = [[(ticket.call.op, answer)]] := by rw [in_flight_applied _ session seqno before, history]
  have histories : db.histories = s.db.histories ++ [[(ticket.call.op, answer)]] := by
    rw [TxDatabase.histories, commits, List.map_append, ← history]
    rfl
  have length : s.writes.length = s.db.commits.length + 1 := by
    rw [inv.commits_length, flight]
    rfl
  have position : s.writes.length - 1 = s.db.commits.length := by rw [length, Nat.add_sub_cancel]
  have last : s.writes[s.db.commits.length]? = some (ticket.call.op, answer) := by
    have written := congrArg (fun l => l[s.db.commits.length]?) inv.writes
    have many : s.db.histories.length = s.db.commits.length := List.length_map _
    simp only [flight, List.getElem?_map, ← many, List.getElem?_concat_length, Option.map_eq_some_iff] at written
    obtain ⟨action, found, same⟩ := written
    rw [← many, found, List.singleton_inj.mp same]
  refine ⟨tx, oracle, ?_, ?_, ?_, ?_⟩
  · refine inv.linear.finish outstanding.1 _ rfl rfl ?_ ⟨?_, ?_, ?_, fun wrote => absurd wrote.symm Bool.false_ne_true⟩
    · rw [position]
      exact Nat.le_trans (Nat.le_add_right _ _) outstanding.2
    · exact Nat.le_of_eq (by rw [CallRecord.after, position, length]; rfl)
    · have replays := running.replays
      rw [history] at replays
      rw [position, inv.state_after_writes _ (Nat.le_refl _), List.take_length]
      exact replays.1
    · intro _
      rw [position]
      exact last
  · refine inv.writes.trans ?_
    change _ = db.histories ++ db.inFlight
    rw [flight, histories, TxDatabase.inFlight, released, List.append_nil]
  · intro _ _ _ _ locked
    cases released.symm.trans locked
  · rw [show (s.finish db ticket answer (s.writes.length - 1) true).records = s.records ++
      [⟨(ticket.call.op, answer), ticket.calledAt, s.clock, s.writes.length - 1, true⟩] from rfl,
      List.filter_append, List.map_append, inv.records]
    exact histories.symm

end

end SharedInv

namespace CallsInv

variable {threads : Threads Nat (Calls K V) (CallPhase K V)} (inv : CallsInv prefixToRange initial threads)
include inv

theorem committing_locked (t : Nat) (committing : (threads.phase t).Committing) : threads.shared.db.applying ≠ none := by
  have point := inv.point t
  cases phase : threads.phase t with
  | committing ticket answer =>
    rw [phase] at point
    obtain ⟨-, session, seqno, items, applying, -⟩ := point
    rw [applying]
    exact Option.some_ne_none _
  | idle | trying _ | begun _ | performed _ _ | panicked _ =>
    rw [phase] at committing
    exact committing.elim

-- One thread moves; the others only need to find what they rely on.
theorem move {t : Nat} {next : Calls K V} {phase : CallPhase K V} (shared : SharedInv prefixToRange initial next)
    (alone : phase.Committing → ∀ u, u ≠ t → ¬ (threads.phase u).Committing) (own : CallPoint next t phase)
    (sessions : ∀ u, u ≠ t → next.db.sessions u = threads.shared.db.sessions u)
    (pending : ∀ calledAt since, Pending threads.shared.clock threads.shared.records calledAt since →
      Pending next.clock next.records calledAt since)
    (grown : threads.shared.writes.length ≤ next.writes.length)
    (locked : ∀ u, u ≠ t → (threads.phase u).Committing →
      next.db.applying = threads.shared.db.applying ∧ next.db.commits = threads.shared.db.commits) :
    CallsInv prefixToRange initial ⟨next, Function.update threads.phase t phase⟩ := by
  refine ⟨shared, ?_, ?_⟩
  · exact thread_step_one CallPhase.Committing threads.phase t phase inv.alone alone
  · refine thread_step_all (fun s u phase => CallPoint s u phase) next threads.phase t phase own ?_
    intro u other
    exact call_point_beside threads.shared next u _ (inv.point u) (sessions u other) pending grown (locked u other)

theorem returns {t : Nat} {db : TxDatabase K V} {ticket : Ticket K V} {answer : Answer K V} {position : Nat} {wrote : Bool}
    (shared : SharedInv prefixToRange initial (threads.shared.finish db ticket answer position wrote))
    (sessions : ∀ u, u ≠ t → db.sessions u = threads.shared.db.sessions u) (left : db.sessions t = none)
    (locked : ∀ u, u ≠ t → (threads.phase u).Committing →
      db.applying = threads.shared.db.applying ∧ db.commits = threads.shared.db.commits) :
    CallsInv prefixToRange initial
      ⟨threads.shared.finish db ticket answer position wrote, Function.update threads.phase t .idle⟩ :=
  inv.move shared (fun none => none.elim) left sessions (fun _ _ pending => pending.beside _ rfl) (Nat.le_refl _) locked

-- The steps that neither commit anything nor let a call return.
theorem quiet (t : Nat) (db : TxDatabase K V) (phase : CallPhase K V) (tx : TxInv prefixToRange initial db)
    (oracle : OracleInv prefixToRange db) (applying : db.applying = threads.shared.db.applying)
    (commits : db.commits = threads.shared.db.commits) (visible : threads.shared.db.visible ≤ db.visible)
    (fewer : ∀ keyspaceId, ∀ version ∈ db.trees keyspaceId, version ∈ threads.shared.db.trees keyspaceId)
    (sessions : ∀ u, u ≠ t → db.sessions u = threads.shared.db.sessions u)
    (alone : phase.Committing → (threads.phase t).Committing) (own : CallPoint (threads.shared.tick db) t phase) :
    CallsInv prefixToRange initial ⟨threads.shared.tick db, Function.update threads.phase t phase⟩ := by
  have flight : db.inFlight = threads.shared.db.inFlight := by rw [TxDatabase.inFlight, applying, TxDatabase.inFlight]
  refine inv.move (inv.shared.tick tx oracle flight commits ?_) ?_ own sessions (fun _ _ pending => pending.tick) (Nat.le_refl _)
    fun _ _ _ => ⟨applying, commits⟩
  · intro session seqno item rest locked keyspaceId version member
    have before := inv.shared.unapplied session seqno item rest (applying.symm.trans locked) keyspaceId version
    exact Nat.lt_of_lt_of_le (before (fewer keyspaceId version member)) visible
  · intro committing u other rival
    exact other (inv.alone u t rival (alone committing))

theorem others_wait {t : Nat} {ticket : Ticket K V} {answer : Answer K V} (phase : threads.phase t = .committing ticket answer)
    (u : Nat) (other : u ≠ t) : ¬ (threads.phase u).Committing := fun committing =>
  other (inv.alone u t committing (by rw [phase]; trivial))

theorem call {t : Nat} (call : KeyspaceCall K V) (point : CallPoint threads.shared t .idle) :
    CallsInv prefixToRange initial ⟨threads.shared.tick threads.shared.db,
      Function.update threads.phase t (.trying ⟨call, threads.shared.clock, threads.shared.writes.length, 0⟩)⟩ :=
  inv.quiet t _ _ inv.shared.tx inv.shared.oracle rfl rfl (Nat.le_refl _) (fun _ _ member => member) (fun _ _ => rfl)
    (fun none => none.elim) ⟨point, inv.shared.linear.call, Nat.le_refl _⟩

theorem read {t : Nat} {ticket : Ticket K V} {answer : Answer K V} (point : CallPoint threads.shared t (.trying ticket))
    (direct : ticket.call.read threads.shared.db.trees = some answer) :
    CallsInv prefixToRange initial ⟨threads.shared.finish threads.shared.db ticket answer threads.shared.writes.length false,
      Function.update threads.phase t .idle⟩ := by
  obtain ⟨holds, idle⟩ := inv.shared.read_explained ticket.call answer direct
  exact inv.returns (inv.shared.answered inv.shared.tx inv.shared.oracle ticket answer _ rfl rfl (Nat.le_refl _) rfl point.2
    (Nat.le_refl _) (by rwa [List.take_length]) (idle _)) (fun _ _ => rfl) point.1 fun _ _ _ => ⟨rfl, rfl⟩

end CallsInv

variable [DecidableEq V]

namespace CallsInv

variable {threads : Threads Nat (Calls K V) (CallPhase K V)} (inv : CallsInv prefixToRange initial threads) {t : Nat}
  {ticket : Ticket K V} {answer : Answer K V} {db : TxDatabase K V}
include inv

theorem database (label : TxLabel K V) (taken : TxStep prefixToRange threads.shared.db label db)
    (under : WatermarkBelow threads.shared.db label) : TxInv prefixToRange initial db ∧ OracleInv prefixToRange db :=
  ⟨tx_step_inv _ db label inv.shared.tx under taken,
    oracle_step_inv initial _ db label inv.shared.tx inv.shared.oracle taken⟩

theorem writeTx (point : CallPoint threads.shared t (.trying ticket)) (taken : TxStep prefixToRange threads.shared.db (.writeTx t) db) :
    CallsInv prefixToRange initial ⟨threads.shared.tick db, Function.update threads.phase t (.begun ticket)⟩ := by
  obtain ⟨tx, oracle⟩ := inv.database _ taken trivial
  cases taken with
  | writeTx _ fresh unlocked =>
    refine inv.quiet t _ _ tx oracle rfl rfl (Nat.le_refl _) (fun _ _ member => member)
      (fun _ other => Function.update_of_ne other _ _) (fun none => none.elim) ?_
    refine ⟨_, Function.update_self _ _ _, rfl, rfl, point.2.1.tick, ?_⟩
    exact Nat.le_trans point.2.2 (Nat.le_of_eq (inv.shared.unlocked_writes unlocked))

theorem perform (session : Session K V) (point : CallPoint threads.shared t (.begun ticket))
    (found : threads.shared.db.sessions t = some session)
    (taken : TxStep prefixToRange threads.shared.db (.act t ticket.call.op) db) :
    CallsInv prefixToRange initial ⟨threads.shared.tick db, Function.update threads.phase t
      (.performed ticket (session.tx.perform prefixToRange threads.shared.db.trees ticket.call.op).2)⟩ := by
  obtain ⟨tx, oracle⟩ := inv.database _ taken trivial
  obtain ⟨own, ownFound, new, history, outstanding⟩ := point
  cases taken with
  | act _ _ other otherFound ranged =>
    cases found.symm.trans ownFound
    cases found.symm.trans otherFound
    refine inv.quiet t _ _ tx oracle rfl rfl (Nat.le_refl _) (fun _ _ member => member)
      (fun _ elsewhere => Function.update_of_ne elsewhere _ _) (fun none => none.elim) ?_
    refine ⟨_, Function.update_self _ _ _, ?_, ?_, outstanding.1.tick, outstanding.2⟩
    · intro written
      simp only [new, WriteTransaction.perform_inner] at written ⊢
      exact performed_batch session.instant threads.shared.db.trees ticket.call.op written
    · rw [history]
      rfl

theorem commitReadOnly (drop : IterationOrder Nat) (session : Session K V) (point : CallPoint threads.shared t (.performed ticket answer))
    (found : threads.shared.db.sessions t = some session)
    (taken : TxStep prefixToRange threads.shared.db (.commitReadOnly t drop) db) :
    CallsInv prefixToRange initial
      ⟨threads.shared.finish db ticket answer session.begun false, Function.update threads.phase t .idle⟩ := by
  obtain ⟨tx, oracle⟩ := inv.database _ taken trivial
  obtain ⟨own, ownFound, -, history, outstanding⟩ := point
  cases found.symm.trans ownFound
  cases taken with
  | commitReadOnly _ _ other otherFound unwritten =>
    cases found.symm.trans otherFound
    have reader := read_only_inv threads.shared.db session (inv.shared.tx.sessions t session found) unwritten
    have replays := reader.replays
    have idle := reader.idle
    rw [history, ← inv.shared.state_after_writes _ reader.begun] at replays idle
    exact inv.returns (inv.shared.answered tx oracle ticket answer session.begun rfl rfl
      (Nat.le_of_eq (SnapshotTracker.close_raw_seqno _ _ _).symm) rfl outstanding
      (Nat.le_trans reader.begun inv.shared.committed_writes) replays.1 idle)
      (fun _ elsewhere => Function.update_of_ne elsewhere _ _) (Function.update_self _ _ _) fun _ _ _ => ⟨rfl, rfl⟩

section Commit

variable {order : IterationOrder Nat} (point : CallPoint threads.shared t (.performed ticket answer))
include point

-- The commit that was in the way is one more write since the call began.
theorem retry (drop : IterationOrder Nat) (below : WatermarkBelow threads.shared.db (.commit t order (.conflicted drop)))
    (taken : TxStep prefixToRange threads.shared.db (.commit t order (.conflicted drop)) db) :
    CallsInv prefixToRange initial ⟨threads.shared.tick db,
      Function.update threads.phase t (.trying { ticket with retries := ticket.retries + 1 })⟩ := by
  obtain ⟨tx, oracle⟩ := inv.database _ taken below
  obtain ⟨session, found, -, history, outstanding⟩ := point
  cases taken with
  | conflicted _ _ _ other newOracle otherFound written unlocked started =>
    cases found.symm.trans otherFound
    have visible := (SnapshotTracker.close_raw_seqno newOracle.snapshotTracker session.instant drop).trans
      (started_visible _ _ _ _ _ newOracle started)
    have rejected := (Oracle.start_commit_some _ _ _ _ _ _ started).1
    refine inv.quiet t _ _ tx oracle rfl rfl (Nat.le_of_eq visible.symm) (fun _ _ member => member)
      (fun _ elsewhere => Function.update_of_ne elsewhere _ _) (fun none => none.elim) ?_
    refine ⟨Function.update_self _ _ _, outstanding.1.tick, ?_⟩
    exact Nat.le_trans (Nat.succ_le_succ outstanding.2)
      (Nat.le_trans (inv.shared.conflict_progress t session found rejected) inv.shared.committed_writes)

theorem expect (drop : IterationOrder Nat) (blind : ticket.call.loops = false) :
    ¬ TxStep prefixToRange threads.shared.db (.commit t order (.conflicted drop)) db := by
  intro taken
  obtain ⟨session, found, -, history, outstanding⟩ := point
  cases taken with
  | conflicted _ _ _ other newOracle otherFound written unlocked started =>
    cases found.symm.trans otherFound
    exact inv.shared.blind_accepted t ticket answer session found history blind (Oracle.start_commit_some _ _ _ _ _ _ started).1

omit point in
theorem abort (drop : IterationOrder Nat) (seqnoTaken : Bool)
    (below : WatermarkBelow threads.shared.db (.commit t order (.aborted drop seqnoTaken)))
    (taken : TxStep prefixToRange threads.shared.db (.commit t order (.aborted drop seqnoTaken)) db) :
    CallsInv prefixToRange initial ⟨threads.shared.tick db, Function.update threads.phase t .idle⟩ := by
  obtain ⟨tx, oracle⟩ := inv.database _ taken below
  cases taken with
  | aborted _ _ _ _ other newOracle otherFound written unlocked started =>
    have visible := (SnapshotTracker.close_raw_seqno newOracle.snapshotTracker other.instant drop).trans
      (started_visible _ _ _ _ _ newOracle started)
    exact inv.quiet t _ _ tx oracle rfl rfl (Nat.le_of_eq visible.symm) (fun _ _ member => member)
      (fun _ elsewhere => Function.update_of_ne elsewhere _ _) (fun none => none.elim) (Function.update_self _ _ _)

theorem commit (below : WatermarkBelow threads.shared.db (.commit t order .proceeds))
    (taken : TxStep prefixToRange threads.shared.db (.commit t order .proceeds) db) :
    CallsInv prefixToRange initial ⟨threads.shared.tick db, Function.update threads.phase t (.committing ticket answer)⟩ := by
  obtain ⟨tx, oracle⟩ := inv.database _ taken below
  obtain ⟨session, found, single, history, outstanding⟩ := point
  cases taken with
  | proceeds _ _ other newOracle otherFound written unlocked started room =>
    cases found.symm.trans otherFound
    have nobody : ∀ u, ¬ (threads.phase u).Committing := fun u committing => inv.committing_locked u committing unlocked
    have visible := started_visible _ _ _ _ _ newOracle started
    refine inv.move (inv.shared.started tx oracle unlocked rfl (single written) rfl rfl visible) (fun _ u _ => nobody u) ?_
      (fun _ elsewhere => Function.update_of_ne elsewhere _ _) (fun _ _ pending => pending.tick) (Nat.le_refl _)
      fun u _ committing => absurd committing (nobody u)
    exact ⟨Function.update_self _ _ _, session, _, _, rfl, Nat.le_of_eq (single written), history,
      outstanding.grow Pending.tick (inv.shared.tx.sessions t session found).begun⟩

end Commit

section Committing

variable (here : threads.phase t = .committing ticket answer) (point : CallPoint threads.shared t (.committing ticket answer))
include here point

theorem applyItem (taken : TxStep prefixToRange threads.shared.db .applyItem db) :
    CallsInv prefixToRange initial ⟨{ threads.shared.tick db with writes := threads.shared.writes ++ [(ticket.call.op, answer)] },
      Function.update threads.phase t (.committing ticket answer)⟩ := by
  obtain ⟨tx, oracle⟩ := inv.database _ taken trivial
  obtain ⟨left, session, seqno, pending, applying, single, history, outstanding⟩ := point
  cases taken with
  | applyItem _ _ item rest locked =>
    cases applying.symm.trans locked
    cases List.eq_nil_of_length_eq_zero (Nat.le_zero.mp (Nat.le_of_succ_le_succ single))
    refine inv.move (inv.shared.written tx oracle history item applying rfl rfl) (fun _ => inv.others_wait here) ?_
      (fun _ _ => rfl) (fun _ _ pending => pending.tick) ?_ fun u other committing =>
      absurd committing (inv.others_wait here u other)
    · exact ⟨left, session, seqno, [], rfl, Nat.zero_le _, history, outstanding.grow Pending.tick (Nat.le_refl _)⟩
    · rw [List.length_append]
      exact Nat.le_add_right _ _

theorem finishCommit (drop : IterationOrder Nat) (taken : TxStep prefixToRange threads.shared.db (.finishCommit drop) db) :
    CallsInv prefixToRange initial ⟨threads.shared.finish db ticket answer (threads.shared.writes.length - 1) true,
      Function.update threads.phase t .idle⟩ := by
  obtain ⟨tx, oracle⟩ := inv.database _ taken trivial
  obtain ⟨left, session, seqno, pending, applying, single, history, outstanding⟩ := point
  cases taken with
  | finishCommit _ _ _ locked =>
    cases applying.symm.trans locked
    exact inv.returns (inv.shared.committed tx oracle history _ applying rfl rfl outstanding) (fun _ _ => rfl) left
      fun u other committing => absurd committing (inv.others_wait here u other)

end Committing

theorem background (label : TxLabel K V) (aside : label.Background) (below : WatermarkBelow threads.shared.db label)
    (taken : TxStep prefixToRange threads.shared.db label db) :
    CallsInv prefixToRange initial ⟨threads.shared.tick db, Function.update threads.phase t (threads.phase t)⟩ := by
  obtain ⟨tx, oracle⟩ := inv.database _ taken below
  have beside : ∀ db : TxDatabase K V, db.sessions = threads.shared.db.sessions → db.applying = threads.shared.db.applying →
      db.commits = threads.shared.db.commits → CallPoint (threads.shared.tick db) t (threads.phase t) :=
    fun db sessions applying commits => call_point_beside threads.shared _ t _ (inv.point t) (congrFun sessions t)
      (fun _ _ pending => pending.tick) (Nat.le_refl _) fun _ => ⟨applying, commits⟩
  cases taken with
  | nonce op =>
    exact inv.quiet t _ _ tx oracle rfl rfl (Nat.le_of_eq (nonce_op_seqno _ op).symm) (fun _ _ member => member)
      (fun _ _ => rfl) id (beside _ rfl rfl rfl)
  | maintain trees fewer kept =>
    exact inv.quiet t _ _ tx oracle rfl rfl (Nat.le_refl _) fewer (fun _ _ => rfl) id (beside _ rfl rfl rfl)
  | _ => exact aside.elim

end CallsInv

theorem call_step_inv (threads next : Threads Nat (Calls K V) (CallPhase K V)) (label : Nat × CallMove K V)
    (inv : CallsInv prefixToRange initial threads) (below : CallsBelow threads label)
    (step : ThreadStep (CallAct prefixToRange) threads label next) : CallsInv prefixToRange initial next := by
  cases step with
  | move t m s phase act =>
    have point := inv.point t
    generalize here : threads.phase t = current at act point
    cases act with
    | call call => exact inv.call call point
    | read ticket answer direct => exact inv.read point direct
    | writeTx ticket db transactional taken => exact inv.writeTx point taken
    | perform ticket session db found taken => exact inv.perform session point found taken
    | commitReadOnly ticket answer drop session db found taken => exact inv.commitReadOnly drop session point found taken
    | retry ticket answer order drop db looping taken => exact inv.retry point drop below taken
    | expect ticket answer order drop db blind taken => exact absurd taken (inv.expect point drop blind)
    | abort ticket answer order drop seqnoTaken db taken => exact inv.abort drop seqnoTaken below taken
    | commit ticket answer order db taken => exact inv.commit point below taken
    | applyItem ticket answer db taken => exact inv.applyItem here point taken
    | finishCommit ticket answer drop db taken => exact inv.finishCommit here point drop taken
    | background _ label db aside taken => exact here ▸ inv.background label aside below taken

variable (prefixToRange)

def CallPhase.ticket : CallPhase K V → Option (Ticket K V)
  | .idle => none
  | .trying ticket | .begun ticket | .performed ticket _ | .committing ticket _ | .panicked ticket => some ticket

end

def increment (value : Option Nat) : Option Nat := some (value.getD 0 + 1)

end OmryaKv.Tx
