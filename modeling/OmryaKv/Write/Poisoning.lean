import OmryaKv.Write.SingleWrite
import OmryaKv.Lib.Threads

set_option autoImplicit false

namespace OmryaKv.Write

open Journal Snapshot Lib

-- Everything that writes under the journal lock.
inductive JournalWrite where
  | single (call : SingleCall)
  | commit (batch : WriteBatch)

inductive Attempt where
  | refused
  | persistFailed
  | persisted (seqno : UInt64)

variable (deps : Dependencies)
variable (w : JournalWrite)
variable (seqno : UInt64)

namespace JournalWrite

def run : JournalWrite → DatabaseM Unit
  | single call => call.run deps
  | commit batch => batch.commit deps

-- A deleted handle and an empty batch are answered before the lock is taken.
def returnsEarly : JournalWrite → Bool
  | single call => call.meetsDeleted
  | commit batch => batch.data.isEmpty

def record (seqno : UInt64) : JournalWrite → WriterM Nat
  | single (.insert ks key value) => writeRaw deps ks.id key value .value seqno
  | single (.remove ks key) => writeRaw deps ks.id key .empty .tombstone seqno
  | single (.removeWeak ks key) => writeRaw deps ks.id key .empty .weakTombstone seqno
  | single (.clear ks _) => writeClear deps ks.id seqno
  | commit batch => writeBatch deps batch.data batch.data.length seqno

def persistMode : JournalWrite → Option PersistMode
  | single call => if call.keyspace.manualJournalPersist then none else some .buffer
  | commit batch => batch.durability

-- Single writes return the error of a failed journal write, commit drops it.
def keepsWriteError : JournalWrite → Bool
  | single _ => true
  | commit _ => false

def persistError : JournalWrite → WriteError
  | single _ => .io
  | commit _ => .poisoned

def toTree (seqno : UInt64) : JournalWrite → DatabaseM Unit
  | single (.insert ks key value) => applyOp (.insert ks.id key value seqno)
  | single (.remove ks key) => applyOp (.remove ks.id key seqno)
  | single (.removeWeak ks key) => applyOp (.remove ks.id key seqno)
  | single (.clear ks treeFails) => if treeFails then throw .storage else applyOp (.clear ks.id)
  | commit batch => applyItems seqno batch.data

def persistStep (w : JournalWrite) (seqno : UInt64) (db : Database) : Attempt × Database :=
  match w.persistMode with
  | none => (.persisted seqno, db)
  | some mode =>
    match (persist mode).run db.writer with
    | .ok _ writer => (.persisted seqno, { db with writer := writer })
    | .error _ writer => (.persistFailed, { db with writer := writer })

-- From the check of the flag to the point where the flag may have to be stored.
def journalStep (w : JournalWrite) (db : Database) : Attempt × Database :=
  match (w.record deps db.seqno).run db.writer with
  | .ok _ writer => w.persistStep db.seqno { db with seqno := db.seqno + 1, writer := writer }
  | .error _ writer =>
    if w.keepsWriteError then (.refused, { db with seqno := db.seqno + 1, writer := writer })
    else w.persistStep db.seqno { db with seqno := db.seqno + 1, writer := writer }

def applyStep (w : JournalWrite) (seqno : UInt64) : DatabaseM Unit := do
  w.toTree seqno
  publish seqno

def Attempt.finish (w : JournalWrite) : Attempt × Database → EStateM.Result WriteError Database Unit
  | (.refused, next) => .error .io next
  | (.persistFailed, next) => .error w.persistError { next with isPoisoned := true }
  | (.persisted seqno, next) => (w.applyStep seqno).run next

theorem persist_step_finish (db : Database) (persisting : DatabaseM Unit)
    (persists : persisting.run db = persistOutcome w.persistMode w.persistError db) :
    (do persisting; w.applyStep seqno : DatabaseM Unit).run db = Attempt.finish w (w.persistStep seqno db) := by
  rw [EStateM.run_bind, persists, persistStep]
  cases w.persistMode with
  | none => rfl
  | some mode =>
    dsimp only [persistOutcome]
    cases (persist mode).run db.writer with
    | ok _ writer => rfl
    | error e writer => rfl

theorem journaled_in_steps (db : Database) (rest : UInt64 → Except IoError Nat → DatabaseM Unit)
    (written : ∀ seqno count next, (rest seqno (.ok count)).run next = Attempt.finish w (w.persistStep seqno next))
    (failed : ∀ seqno e next, (rest seqno (.error e)).run next =
      if w.keepsWriteError then .error .io next else Attempt.finish w (w.persistStep seqno next)) :
    (do checkPoisoned; let seqno ← nextSeqno; let outcome ← withJournal (w.record deps seqno); rest seqno outcome :
      DatabaseM Unit).run db =
      if db.isPoisoned then .error .poisoned db else Attempt.finish w (w.journalStep deps db) := by
  rw [EStateM.run_bind]
  cases poisoned : db.isPoisoned with
  | true =>
    rw [check_poisoned_refuses db poisoned]
    rfl
  | false =>
    rw [check_poisoned_healthy db poisoned, journalStep]
    change (withJournal (w.record deps db.seqno) >>= rest db.seqno).run { db with seqno := db.seqno + 1 } = _
    rw [EStateM.run_bind]
    cases outcome : (w.record deps db.seqno).run db.writer with
    | ok count writer =>
      rw [with_journal_ok _ { db with seqno := db.seqno + 1 } _ _ outcome]
      exact written db.seqno count _
    | error e writer =>
      rw [with_journal_error _ { db with seqno := db.seqno + 1 } _ _ outcome]
      refine (failed db.seqno e _).trans ?_
      cases w.keepsWriteError <;> rfl

theorem single_in_steps (call : SingleCall) (db : Database)
    (run : call.run deps = writeJournaled call.keyspace (fun seqno => (single call).record deps seqno)
      fun seqno => (single call).toTree seqno) :
    (call.run deps).run db =
      if db.isPoisoned then .error .poisoned db else Attempt.finish (single call) ((single call).journalStep deps db) := by
  rw [run]
  refine journaled_in_steps deps (single call) db _ (fun seqno count next => ?_) fun _ _ _ => rfl
  exact persist_step_finish (single call) seqno next _ (persist_unless_manual_run call.keyspace next)

theorem commit_in_steps (batch : WriteBatch) (db : Database) (nonempty : batch.data.isEmpty = false) :
    (batch.commit deps).run db =
      if db.isPoisoned then .error .poisoned db else Attempt.finish (commit batch) ((commit batch).journalStep deps db) := by
  rw [WriteBatch.commit, if_neg (by simp [nonempty])]
  have persists := fun seqno next =>
    persist_step_finish (commit batch) seqno next _ (persist_as_run batch.durability next)
  exact journaled_in_steps deps (commit batch) db _ (fun seqno _ next => persists seqno next)
    fun seqno _ next => persists seqno next

-- Run without interruption the steps are the operations themselves.
theorem run_in_steps (db : Database) (takesLock : w.returnsEarly = false) :
    (w.run deps).run db = if db.isPoisoned then .error .poisoned db else Attempt.finish w (w.journalStep deps db) := by
  cases w with
  | commit batch => exact commit_in_steps deps batch db takesLock
  | single call =>
    apply single_in_steps
    cases call with
    | clear ks treeFails => rfl
    | insert ks key value | remove ks key | removeWeak ks key =>
      have kept : ks.isDeleted = false := takesLock
      simp only [SingleCall.run, Keyspace.insert, Keyspace.remove, Keyspace.removeWeak, kept]
      rfl

end JournalWrite

def Attempt.failed : Attempt → Bool
  | .persistFailed => true
  | _ => false

-- Where a thread is in a write or in Database::persist. late says that some flush or
-- sync had failed when the write took the lock.
inductive Phase where
  | idle
  | waiting (w : JournalWrite)
  | locked (w : JournalWrite) (late : Bool)
  | checked (w : JournalWrite) (late : Bool)
  | failing (w : JournalWrite) (late : Bool)
  | applying (w : JournalWrite) (late : Bool) (seqno : UInt64)
  | leaving (w : JournalWrite) (late : Bool) (ok : Bool)
  | persistWaiting (mode : PersistMode)
  | persistLocked (mode : PersistMode)
  | persistLeaving (ok : Bool)
  | persistPending

def Attempt.phase (w : JournalWrite) (late : Bool) : Attempt → Phase
  | .refused => .leaving w late false
  | .persistFailed => .failing w late
  | .persisted seqno => .applying w late seqno

structure Answer where
  write : JournalWrite
  late : Bool
  ok : Bool

-- failed and answers are history, no step looks at them to decide what to do.
structure Shared (T : Type) where
  db : Database
  lock : Option T
  failed : Bool
  answers : List Answer

inductive Move where
  | call (w : JournalWrite)
  | lock
  | check
  | journal
  | storeFlag
  | apply
  | unlock
  | callPersist (mode : PersistMode)
  | sync
  | dart

section Threads

variable {T : Type}

inductive Act (t : T) : Shared T → Phase → Move → Shared T → Phase → Prop where
  | returnEarly (s : Shared T) (w : JournalWrite) (early : w.returnsEarly = true) : Act t s .idle (.call w) s .idle
  | call (s : Shared T) (w : JournalWrite) (takesLock : w.returnsEarly = false) : Act t s .idle (.call w) s (.waiting w)
  | lock (s : Shared T) (w : JournalWrite) (free : s.lock = none) :
      Act t s (.waiting w) .lock { s with lock := some t } (.locked w s.failed)
  | refuse (s : Shared T) (w : JournalWrite) (late : Bool) (poisoned : s.db.isPoisoned = true) :
      Act t s (.locked w late) .check s (.leaving w late false)
  | pass (s : Shared T) (w : JournalWrite) (late : Bool) (healthy : s.db.isPoisoned = false) :
      Act t s (.locked w late) .check s (.checked w late)
  | journal (s : Shared T) (w : JournalWrite) (late : Bool) (result : Attempt) (db : Database)
      (written : w.journalStep deps s.db = (result, db)) :
      Act t s (.checked w late) .journal { s with db := db, failed := s.failed || result.failed } (result.phase w late)
  | storeFlag (s : Shared T) (w : JournalWrite) (late : Bool) :
      Act t s (.failing w late) .storeFlag { s with db := { s.db with isPoisoned := true } } (.leaving w late false)
  | apply (s : Shared T) (w : JournalWrite) (late : Bool) (seqno : UInt64) (db : Database)
      (applied : (w.applyStep seqno).run s.db = .ok () db) :
      Act t s (.applying w late seqno) .apply { s with db := db } (.leaving w late true)
  | applyFails (s : Shared T) (w : JournalWrite) (late : Bool) (seqno : UInt64) (e : WriteError) (db : Database)
      (applied : (w.applyStep seqno).run s.db = .error e db) :
      Act t s (.applying w late seqno) .apply { s with db := db } (.leaving w late false)
  | unlock (s : Shared T) (w : JournalWrite) (late ok : Bool) :
      Act t s (.leaving w late ok) .unlock { s with lock := none, answers := ⟨w, late, ok⟩ :: s.answers } .idle
  | refusePersist (s : Shared T) (mode : PersistMode) (poisoned : s.db.isPoisoned = true) :
      Act t s .idle (.callPersist mode) s .idle
  | callPersist (s : Shared T) (mode : PersistMode) (healthy : s.db.isPoisoned = false) :
      Act t s .idle (.callPersist mode) s (.persistWaiting mode)
  | lockPersist (s : Shared T) (mode : PersistMode) (free : s.lock = none) :
      Act t s (.persistWaiting mode) .lock { s with lock := some t } (.persistLocked mode)
  | sync (s : Shared T) (mode : PersistMode) (writer : Writer) (synced : (persist mode).run s.db.writer = .ok () writer) :
      Act t s (.persistLocked mode) .sync { s with db := { s.db with writer := writer } } (.persistLeaving true)
  | syncFails (s : Shared T) (mode : PersistMode) (e : IoError) (writer : Writer)
      (failed : (persist mode).run s.db.writer = .error e writer) :
      Act t s (.persistLocked mode) .sync { s with db := { s.db with writer := writer }, failed := true } (.persistLeaving false)
  -- Journal::persist gives the lock back before Database::persist sees the error.
  | unlockPersist (s : Shared T) (ok : Bool) :
      Act t s (.persistLeaving ok) .unlock { s with lock := none } (if ok then .idle else .persistPending)
  | storePersist (s : Shared T) :
      Act t s .persistPending .storeFlag { s with db := { s.db with isPoisoned := true } } .idle
  -- A background worker that fails or panics poisons the database at any time.
  | dart (s : Shared T) (phase : Phase) : Act t s phase .dart { s with db := { s.db with isPoisoned := true } } phase

def quiet (db : Database) : Threads T (Shared T) Phase := ⟨⟨db, none, false, []⟩, fun _ => .idle⟩

-- A write looks at the flag while no Database::persist has failed without having stored it yet.
def FlagCurrent (threads : Threads T (Shared T) Phase) (label : T × Move) : Prop :=
  match label.2 with
  | .check => threads.shared.db.isPoisoned = true ∨ ∀ t, threads.phase t ≠ .persistPending
  | _ => True

def KeepsFlag (d : DatabaseM Unit) : Prop :=
  ∀ db, match d.run db with
    | .ok _ next => next.isPoisoned = db.isPoisoned
    | .error _ next => next.isPoisoned = db.isPoisoned

theorem keeps_flag_then (d e : DatabaseM Unit) (first : KeepsFlag d) (second : KeepsFlag e) : KeepsFlag (do d; e) := by
  intro db
  have kept := first db
  rw [EStateM.run_bind]
  cases outcome : d.run db with
  | error _ next => simpa only [outcome] using kept
  | ok _ middle =>
    rw [outcome] at kept
    have later := second middle
    dsimp only
    cases last : e.run middle with
    | ok _ next | error _ next =>
      rw [last] at later
      exact later.trans kept

theorem apply_op_keeps_flag (op : TreeOp) : KeepsFlag (applyOp op) := fun _ => rfl

theorem publish_keeps_flag : KeepsFlag (publish seqno) := fun _ => rfl

theorem apply_item_keeps_flag (item : BatchItem) : KeepsFlag (applyItem seqno item) := by
  rw [applyItem]
  cases item.valueType <;> exact fun _ => rfl

theorem apply_items_keep_flag (items : List BatchItem) : KeepsFlag (applyItems seqno items) := by
  induction items with
  | nil => exact fun _ => rfl
  | cons item items ih => exact keeps_flag_then _ _ (apply_item_keeps_flag seqno item) ih

theorem to_tree_keeps_flag (w : JournalWrite) : KeepsFlag (w.toTree seqno) := by
  cases w with
  | commit batch => exact apply_items_keep_flag seqno batch.data
  | single call =>
    cases call with
    | insert ks key value | remove ks key | removeWeak ks key => exact apply_op_keeps_flag _
    | clear ks treeFails =>
      cases treeFails with
      | false => exact apply_op_keeps_flag _
      | true => exact fun _ => rfl

theorem apply_step_keeps_flag (w : JournalWrite) : KeepsFlag (w.applyStep seqno) :=
  keeps_flag_then _ _ (to_tree_keeps_flag seqno w) (publish_keeps_flag seqno)

theorem persist_step_keeps_flag (db : Database) : (w.persistStep seqno db).2.isPoisoned = db.isPoisoned := by
  rw [JournalWrite.persistStep]
  cases w.persistMode with
  | none => rfl
  | some mode =>
    dsimp only
    cases (persist mode).run db.writer <;> rfl

theorem journal_step_keeps_flag (db : Database) : (w.journalStep deps db).2.isPoisoned = db.isPoisoned := by
  rw [JournalWrite.journalStep]
  cases (w.record deps db.seqno).run db.writer with
  | ok count writer => exact persist_step_keeps_flag w _ _
  | error e writer =>
    dsimp only
    split
    · rfl
    · exact persist_step_keeps_flag w _ _

-- Storing the flag is still to be done.
def Phase.Owes : Phase → Prop
  | .failing _ _ | .persistLeaving false | .persistPending => True
  | _ => False

-- What the point a thread has reached says about the lock and about its own write.
def Phase.Holds (s : Shared T) (t : T) : Phase → Prop
  | .idle | .waiting _ | .persistWaiting _ | .persistPending => True
  | .locked _ late => s.lock = some t ∧ (late = true → s.failed = true)
  | .checked _ late | .failing _ late | .applying _ late _ => s.lock = some t ∧ late = false
  | .leaving _ late ok => s.lock = some t ∧ (ok = true → late = false)
  | .persistLocked _ | .persistLeaving _ => s.lock = some t

-- One thread never takes the lock from another, and failures and the flag are not undone.
structure Act.Respects (t : T) (s next : Shared T) : Prop where
  lock : ∀ u, u ≠ t → s.lock = some u → next.lock = some u
  failed : s.failed = true → next.failed = true
  flag : s.db.isPoisoned = true → next.db.isPoisoned = true

theorem act_respects (t : T) (s next : Shared T) (phase reached : Phase) (m : Move) (holds : phase.Holds s t)
    (step : Act deps t s phase m next reached) : Act.Respects t s next := by
  -- Whoever holds the lock is the only one that may release it.
  have released : s.lock = some t → ∀ u, u ≠ t → s.lock = some u → (none : Option T) = some u :=
    fun mine u other theirs => absurd (Option.some.inj (theirs.symm.trans mine)) other
  have taken : s.lock = none → ∀ u, u ≠ t → s.lock = some u → some t = some u :=
    fun free u _ theirs => nomatch free.symm.trans theirs
  cases step with
  | returnEarly | call | refuse | pass | refusePersist | callPersist => exact ⟨fun _ _ theirs => theirs, id, id⟩
  | storeFlag | storePersist | dart => exact ⟨fun _ _ theirs => theirs, id, fun _ => rfl⟩
  | lock w free | lockPersist mode free => exact ⟨taken free, id, id⟩
  | unlock w late ok => exact ⟨released holds.1, id, id⟩
  | unlockPersist ok => exact ⟨released holds, id, id⟩
  | sync mode writer synced => exact ⟨fun _ _ theirs => theirs, id, id⟩
  | syncFails mode e writer failed => exact ⟨fun _ _ theirs => theirs, fun _ => rfl, id⟩
  | journal w late result db written =>
    have kept := journal_step_keeps_flag deps w s.db
    rw [written] at kept
    exact ⟨fun _ _ theirs => theirs, fun failed => by simp [failed], fun poisoned => kept.trans poisoned⟩
  | apply w late seqno db applied =>
    have kept := apply_step_keeps_flag seqno w s.db
    rw [applied] at kept
    exact ⟨fun _ _ theirs => theirs, id, fun poisoned => kept.trans poisoned⟩
  | applyFails w late seqno e db applied =>
    have kept := apply_step_keeps_flag seqno w s.db
    rw [applied] at kept
    exact ⟨fun _ _ theirs => theirs, id, fun poisoned => kept.trans poisoned⟩

theorem holds_undisturbed (t u : T) (s next : Shared T) (phase : Phase) (other : u ≠ t) (respects : Act.Respects t s next)
    (holds : phase.Holds s u) : phase.Holds next u := by
  cases phase with
  | idle | waiting | persistWaiting | persistPending => trivial
  | locked w late => exact ⟨respects.lock u other holds.1, fun isLate => respects.failed (holds.2 isLate)⟩
  | checked w late | failing w late | applying w late seqno | leaving w late ok => exact ⟨respects.lock u other holds.1, holds.2⟩
  | persistLocked mode | persistLeaving ok => exact respects.lock u other holds

theorem act_holds (t : T) (s next : Shared T) (phase reached : Phase) (m : Move) (holds : phase.Holds s t)
    (inTime : ∀ w late, phase = .locked w late → m = .check → s.db.isPoisoned = false → late = false)
    (step : Act deps t s phase m next reached) : reached.Holds next t := by
  cases step with
  | returnEarly | call | refusePersist | callPersist | storePersist | unlock => trivial
  | lock w free => exact ⟨rfl, id⟩
  | lockPersist mode free => exact rfl
  | refuse w late poisoned => exact ⟨holds.1, fun ok => nomatch ok⟩
  | pass w late healthy => exact ⟨holds.1, inTime w late rfl rfl healthy⟩
  | journal w late result db written =>
    cases result with
    | refused => exact ⟨holds.1, fun ok => nomatch ok⟩
    | persistFailed | persisted seqno => exact holds
  | storeFlag w late | applyFails w late => exact ⟨holds.1, fun ok => nomatch ok⟩
  | apply w late => exact ⟨holds.1, fun _ => holds.2⟩
  | sync | syncFails => exact holds
  | unlockPersist ok => cases ok <;> trivial
  | dart => cases phase <;> exact holds

theorem act_owes (t : T) (s next : Shared T) (phase reached : Phase) (m : Move) (step : Act deps t s phase m next reached) :
    (next.failed = true → s.failed = true ∨ reached.Owes) ∧ (phase.Owes → next.db.isPoisoned = true ∨ reached.Owes) := by
  cases step with
  | returnEarly | call | lock | refuse | pass | apply | applyFails | unlock | refusePersist | callPersist | lockPersist | sync =>
    exact ⟨.inl, fun owes => nomatch owes⟩
  | storeFlag | storePersist | dart => exact ⟨.inl, fun _ => .inl rfl⟩
  | syncFails => exact ⟨fun _ => .inr trivial, fun owes => nomatch owes⟩
  | journal w late result db written =>
    cases result with
    | persistFailed => exact ⟨fun _ => .inr trivial, fun owes => nomatch owes⟩
    | refused | persisted seqno => exact ⟨fun failed => .inl (by simpa [Attempt.failed] using failed), fun owes => nomatch owes⟩
  | unlockPersist ok =>
    cases ok with
    | true => exact ⟨.inl, fun owes => nomatch owes⟩
    | false => exact ⟨.inl, fun _ => .inr trivial⟩

def Answer.InTime (answer : Answer) : Prop := answer.late = true → answer.ok = false

theorem act_answers (t : T) (s next : Shared T) (phase reached : Phase) (m : Move) (holds : phase.Holds s t)
    (step : Act deps t s phase m next reached) (inTime : ∀ answer ∈ s.answers, answer.InTime) :
    ∀ answer ∈ next.answers, answer.InTime := by
  cases step with
  | unlock w late ok =>
    have latest : Answer.InTime ⟨w, late, ok⟩ := by
      intro isLate
      cases ok with
      | false => rfl
      | true => exact nomatch isLate.symm.trans (holds.2 rfl)
    exact List.forall_mem_cons.mpr ⟨latest, inTime⟩
  | returnEarly | call | lock | refuse | pass | journal | storeFlag | apply | applyFails | refusePersist | callPersist
  | lockPersist | sync | syncFails | unlockPersist | storePersist | dart => exact inTime

structure PoisonInv (threads : Threads T (Shared T) Phase) : Prop where
  holds : ∀ t, (threads.phase t).Holds threads.shared t
  flagged : threads.shared.failed = true → threads.shared.db.isPoisoned = true ∨ ∃ t, (threads.phase t).Owes
  answered : ∀ answer ∈ threads.shared.answers, answer.InTime

theorem quiet_poison_inv (db : Database) : PoisonInv (quiet db : Threads T (Shared T) Phase) :=
  ⟨fun _ => trivial, (nomatch ·), fun _ => (nomatch ·)⟩

-- Of those that owe the flag only a Database::persist past its unlock leaves the lock to a writer.
theorem checked_in_time (threads : Threads T (Shared T) Phase) (inv : PoisonInv threads) (t : T) (w : JournalWrite) (late : Bool)
    (current : FlagCurrent threads (t, .check)) (reached : threads.phase t = .locked w late)
    (healthy : threads.shared.db.isPoisoned = false) : late = false := by
  have mine := inv.holds t
  rw [reached] at mine
  by_contra isLate
  have none : ∀ u, threads.phase u ≠ .persistPending := current.resolve_left (by simp [healthy])
  obtain ⟨u, owes⟩ := (inv.flagged (mine.2 (by simpa using isLate))).resolve_left (by simp [healthy])
  have theirs := inv.holds u
  have same : threads.shared.lock = some u → u = t := fun lock => Option.some.inj (lock.symm.trans mine.1)
  cases point : threads.phase u with
  | failing other otherLate =>
    rw [point] at theirs
    rw [same theirs.1, reached] at point
    cases point
  | persistLeaving ok =>
    rw [point] at theirs
    rw [same theirs, reached] at point
    cases point
  | persistPending => exact none u point
  | idle | waiting | locked | checked | applying | leaving | persistWaiting | persistLocked =>
    rw [point] at owes
    cases owes

variable [DecidableEq T]

theorem poison_step (threads next : Threads T (Shared T) Phase) (label : T × Move) (inv : PoisonInv threads)
    (step : Guarded (ThreadStep (Act deps)) FlagCurrent threads label next) : PoisonInv next := by
  obtain ⟨current, moved⟩ := step
  cases moved with
  | move t m shared phase act =>
    have respects := act_respects deps t _ _ _ _ m (inv.holds t) act
    have inTime : ∀ w late, threads.phase t = .locked w late → m = .check → threads.shared.db.isPoisoned = false →
        late = false := by
      intro w late reached check healthy
      subst check
      exact checked_in_time threads inv t w late current reached healthy
    refine ⟨?_, ?_, act_answers deps t _ _ _ _ m (inv.holds t) act inv.answered⟩
    · apply thread_step_all fun s u point => Phase.Holds s u point
      · exact act_holds deps t _ _ _ _ m (inv.holds t) inTime act
      · exact fun u other => holds_undisturbed t u _ _ _ other respects (inv.holds u)
    · intro failed
      obtain ⟨source, settled⟩ := act_owes deps t _ _ _ _ m act
      by_cases poisoned : shared.db.isPoisoned = true
      · exact .inl poisoned
      · have kept : (threads.phase t).Owes → phase.Owes := fun owes => (settled owes).resolve_left poisoned
        cases source failed with
        | inr owes => exact .inr (thread_step_moved Phase.Owes threads.phase t phase owes)
        | inl before =>
          have found := (inv.flagged before).resolve_left fun flag => poisoned (respects.flag flag)
          exact .inr (thread_step_some Phase.Owes threads.phase t phase found kept)

theorem no_ok_after_failed_persist (db : Database) (labels : List (T × Move)) (reached : Threads T (Shared T) Phase)
    (run : Run (Guarded (ThreadStep (Act deps)) FlagCurrent) (quiet db) labels reached) :
    ∀ answer ∈ reached.shared.answers, answer.late = true → answer.ok = false :=
  (run_invariant _ PoisonInv (fun state label next inv step => poison_step deps state next label inv step) run
    (quiet_poison_inv db)).answered

end Threads

def failingSync : Database := ⟨{ Writer.new [] .none 0 with faults := [true] }, 0, false, .new 0, []⟩

def insertOne : JournalWrite := .single (.insert ⟨1, false, false⟩ [97] .empty)

theorem late_insert_refused :
    ∃ labels, ∃ reached : Threads Bool (Shared Bool) Phase,
      Run (Guarded (ThreadStep (Act Dependencies.sample)) FlagCurrent) (quiet failingSync) labels reached ∧
        (∃ answer ∈ reached.shared.answers, answer.late = true) ∧
        ∀ answer ∈ reached.shared.answers, answer.late = true → answer.ok = false := by
  have run : ∃ labels, ∃ reached : Threads Bool (Shared Bool) Phase,
      Run (Guarded (ThreadStep (Act Dependencies.sample)) FlagCurrent) (quiet failingSync) labels reached ∧
        ∃ answer ∈ reached.shared.answers, answer.late = true := by
    refine ⟨_, _, .cons (false, .callPersist .syncAll) _ ⟨by trivial, .move _ _ _ _ _ (.callPersist _ _ rfl)⟩
      (.cons (false, .lock) _ ⟨by trivial, .move _ _ _ _ _ (.lockPersist _ _ rfl)⟩
      (.cons (false, .sync) _ ⟨by trivial, .move _ _ _ _ _ (.syncFails _ _ .failed _ rfl)⟩
      (.cons (false, .unlock) _ ⟨by trivial, .move _ _ _ _ _ (.unlockPersist _ false)⟩
      (.cons (false, .storeFlag) _ ⟨by trivial, .move _ _ _ _ _ (.storePersist _)⟩
      (.cons (true, .call insertOne) _ ⟨by trivial, .move _ _ _ _ _ (.call _ _ rfl)⟩
      (.cons (true, .lock) _ ⟨by trivial, .move _ _ _ _ _ (.lock _ _ rfl)⟩
      (.cons (true, .check) _ ⟨by exact .inl rfl, .move _ _ _ _ _ (.refuse _ _ _ rfl)⟩
      (.cons (true, .unlock) _ ⟨by trivial, .move _ _ _ _ _ (.unlock _ _ _ _)⟩ (.nil _))))))))), ?_⟩
    exact ⟨_, List.mem_cons_self, rfl⟩
  obtain ⟨labels, reached, run, late⟩ := run
  exact ⟨labels, reached, run, late, no_ok_after_failed_persist _ _ _ _ run⟩

-- The insert runs between the unlock of the failed persist and the store of the flag.
theorem late_insert_acknowledged :
    ∃ labels, ∃ reached : Threads Bool (Shared Bool) Phase,
      Run (ThreadStep (Act Dependencies.sample)) (quiet failingSync) labels reached ∧
        ∃ answer ∈ reached.shared.answers, answer.late = true ∧ answer.ok = true := by
  refine ⟨_, _, .cons (false, .callPersist .syncAll) _ (.move _ _ _ _ _ (.callPersist _ _ rfl))
    (.cons (false, .lock) _ (.move _ _ _ _ _ (.lockPersist _ _ rfl))
    (.cons (false, .sync) _ (.move _ _ _ _ _ (.syncFails _ _ .failed _ rfl))
    (.cons (false, .unlock) _ (.move _ _ _ _ _ (.unlockPersist _ false))
    (.cons (true, .call insertOne) _ (.move _ _ _ _ _ (.call _ _ rfl))
    (.cons (true, .lock) _ (.move _ _ _ _ _ (.lock _ _ rfl))
    (.cons (true, .check) _ (.move _ _ _ _ _ (.pass _ _ _ rfl))
    (.cons (true, .journal) _ (.move _ _ _ _ _ (.journal _ _ _ (.persisted 0) _ rfl))
    (.cons (true, .apply) _ (.move _ _ _ _ _ (.apply _ _ _ _ _ rfl))
    (.cons (true, .unlock) _ (.move _ _ _ _ _ (.unlock _ _ _ _)) (.nil _)))))))))), ?_⟩
  exact ⟨_, List.mem_cons_self, rfl, rfl⟩

end OmryaKv.Write
