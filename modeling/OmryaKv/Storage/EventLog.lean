import OmryaKv.Storage.Recover
import Mathlib.Data.List.Flatten
import Mathlib.Data.List.Induction

set_option autoImplicit false

namespace OmryaKv.Storage

open Lib

variable {K V : Type}

inductive Event (K V : Type) where
  | put (entry : Entry K V)
  | clear (seqno : Nat)
deriving DecidableEq

def Event.seqno : Event K V → Nat
  | put entry => entry.seqno
  | clear seqno => seqno

def Event.isClear : Event K V → Bool
  | put _ => false
  | clear _ => true

def Tree.replay (t : Tree K V) : Event K V → Tree K V
  | .put entry => t.put entry
  | .clear _ => t.clear

def amend (entries : List (Entry K V)) : Event K V → List (Entry K V)
  | .put entry => entry :: entries
  | .clear _ => []

-- What a log leaves of a list of entries: those since the last clear, newest first.
def contents (entries : List (Entry K V)) (events : List (Event K V)) : List (Entry K V) := events.foldl amend entries

def NoClear (events : List (Event K V)) : Prop := ∀ event ∈ events, event.isClear = false

instance (events : List (Event K V)) : Decidable (NoClear events) := List.decidableBAll _ _

def Ascending (events : List (Event K V)) : Prop := events.Pairwise fun earlier later => earlier.seqno ≤ later.seqno

variable (entries : List (Entry K V))

theorem contents_append (front back : List (Event K V)) :
    contents entries (front ++ back) = contents (contents entries front) back := List.foldl_append

theorem contents_of_no_clear (events : List (Event K V)) (kept : NoClear events) :
    contents entries events = contents [] events ++ entries := by
  induction events using List.reverseRecOn with
  | nil => rfl
  | append_singleton front last ih =>
    obtain ⟨frontKept, lastKept⟩ := List.forall_mem_append.mp kept
    rw [contents_append, contents_append, ih frontKept]
    cases last with
    | put entry => rfl
    | clear seqno => simp [Event.isClear] at lastKept

variable (front : List (Event K V))

theorem clear_before_put (entry : Entry K V) (wiped : ¬ NoClear (front ++ [.put entry])) : ¬ NoClear front := by
  intro frontKept
  exact wiped (List.forall_mem_append.mpr ⟨frontKept, by simp [Event.isClear]⟩)

theorem contents_of_clear (events : List (Event K V)) (wiped : ¬ NoClear events) :
    contents entries events = contents [] events := by
  induction events using List.reverseRecOn with
  | nil => exact absurd (by simp [NoClear]) wiped
  | append_singleton front last ih =>
    rw [contents_append, contents_append]
    cases last with
    | clear seqno => rfl
    | put entry =>
      rw [ih (clear_before_put front entry wiped)]

theorem contents_mem (events : List (Event K V)) (entry : Entry K V)
    (member : entry ∈ contents entries events) : entry ∈ entries ∨ .put entry ∈ events := by
  induction events using List.reverseRecOn with
  | nil => exact .inl member
  | append_singleton front last ih =>
    rw [contents_append] at member
    cases last with
    | clear seqno => simp [contents, amend] at member
    | put latest =>
      rcases List.mem_cons.mp member with rfl | earlier
      · exact .inr (by simp)
      · exact (ih earlier).imp id (List.mem_append_left _)

theorem contents_head (events : List (Event K V)) (entry : Entry K V) (rest : List (Entry K V))
    (shape : contents [] events = entry :: rest) : ∃ front, events = front ++ [.put entry] := by
  induction events using List.reverseRecOn with
  | nil => cases shape
  | append_singleton front last _ =>
    rw [contents_append] at shape
    cases last with
    | clear seqno => cases shape
    | put latest =>
      cases shape
      exact ⟨front, rfl⟩

variable (last : Event K V)

theorem ascending_last (ordered : Ascending (front ++ [last])) (event : Event K V)
    (member : event ∈ front ++ [last]) : event.seqno ≤ last.seqno := by
  rcases List.mem_append.mp member with early | final
  · exact (List.pairwise_append.mp ordered).2.2 event early last (by simp)
  · rw [List.mem_singleton.mp final]

theorem contents_descending (events : List (Event K V)) (ordered : Ascending events) :
    Descending Entry.seqno (contents [] events) := by
  induction events using List.reverseRecOn with
  | nil => exact List.Pairwise.nil
  | append_singleton front last ih =>
    rw [contents_append]
    cases last with
    | clear seqno => exact List.Pairwise.nil
    | put entry =>
      refine List.pairwise_cons.mpr ⟨?_, ih (List.pairwise_append.mp ordered).1⟩
      intro older member
      have logged := (contents_mem [] front older member).resolve_left (by simp)
      exact ascending_last front (.put entry) ordered (.put older) (List.mem_append_left _ logged)

theorem contents_fresh (bound : Nat) (entries : List (Entry K V)) (events : List (Event K V))
    (descending : Descending Entry.seqno entries) (bounded : ∀ entry ∈ entries, entry.seqno < bound)
    (fresh : ∀ event ∈ events, event.seqno = bound) :
    Descending Entry.seqno (contents entries events) ∧ ∀ entry ∈ contents entries events, entry.seqno < bound + 1 := by
  have below : ∀ seen, (∀ event ∈ seen, event.seqno = bound) → ∀ entry ∈ contents entries seen, entry.seqno ≤ bound := by
    intro seen seenFresh entry member
    rcases contents_mem entries seen entry member with old | new
    · exact Nat.le_of_lt (bounded entry old)
    · exact Nat.le_of_eq (seenFresh (.put entry) new)
  refine ⟨?_, fun entry member => Nat.lt_succ_of_le (below events fresh entry member)⟩
  induction events using List.reverseRecOn with
  | nil => exact descending
  | append_singleton front last ih =>
    obtain ⟨frontFresh, lastFresh⟩ := List.forall_mem_append.mp fresh
    rw [contents_append]
    cases last with
    | clear seqno => exact List.Pairwise.nil
    | put entry =>
      have top : entry.seqno = bound := lastFresh (.put entry) (by simp)
      refine List.pairwise_cons.mpr ⟨?_, ih frontFresh⟩
      intro older member
      rw [top]
      exact below front frontFresh older member

variable (t : Tree K V)

theorem replay_all (events : List (Event K V)) : (events.foldl Tree.replay t).all = contents t.all events := by
  induction events generalizing t with
  | nil => rfl
  | cons event rest ih =>
    rw [List.foldl_cons, ih]
    cases event <;> rfl

theorem replay_of_no_clear (events : List (Event K V)) (kept : NoClear events) :
    events.foldl Tree.replay t = { t with activeMemtable := contents [] events ++ t.activeMemtable } := by
  rw [← contents_of_no_clear _ _ kept]
  induction events generalizing t with
  | nil => rfl
  | cons event rest ih =>
    obtain ⟨eventKept, restKept⟩ := List.forall_mem_cons.mp kept
    rw [List.foldl_cons, ih _ restKept]
    cases event with
    | put entry => rfl
    | clear seqno => cases eventKept

theorem replay_of_clear (events : List (Event K V)) (wiped : ¬ NoClear events) :
    events.foldl Tree.replay t = ⟨contents [] events, [], []⟩ := by
  induction events using List.reverseRecOn with
  | nil => exact absurd (by simp [NoClear]) wiped
  | append_singleton front last ih =>
    rw [List.foldl_append, contents_append]
    cases last with
    | clear seqno => rfl
    | put entry =>
      rw [ih (clear_before_put front entry wiped)]
      rfl

-- What recovering a sealed journal does to one tree whose highest seqno there is lsn.
def sealTree (t : Tree K V) (lsn : Nat) : Except Failure (Tree K V) :=
  if t.flushedUpTo lsn then .ok t.clearActiveMemtable
  else
    match t.rotateMemtable with
    | none => .ok t
    | some (memtable, next) => if highest Entry.seqno memtable = some lsn then .ok next else .error .memtableLsnMismatch

def recoverLog (t : Tree K V) (events : List (Event K V)) : Except Failure (Tree K V) :=
  let replayed := events.foldl Tree.replay t
  match highest Event.seqno events with
  | none => .ok replayed
  | some lsn => sealTree replayed lsn

theorem highest_of_ascending (ordered : Ascending (front ++ [last])) :
    highest Event.seqno (front ++ [last]) = some last.seqno :=
  highest_of_bound _ _ last (by simp) (ascending_last front last ordered)

theorem seal_flushed (lsn : Nat) (flushed : t.flushedUpTo lsn = true) : sealTree t lsn = .ok t.clearActiveMemtable := by
  simp [sealTree, flushed]

theorem seal_empty (lsn : Nat) (unflushed : t.flushedUpTo lsn = false) (idle : t.activeMemtable = []) :
    sealTree t lsn = .ok t := by
  simp [sealTree, unflushed, Tree.rotateMemtable, idle]

theorem seal_rotates (lsn : Nat) (unflushed : t.flushedUpTo lsn = false)
    (top : highest Entry.seqno t.activeMemtable = some lsn) :
    sealTree t lsn = .ok ⟨[], t.activeMemtable :: t.sealedMemtables, t.tables⟩ := by
  have busy : t.activeMemtable ≠ [] := by
    intro idle
    rw [(highest_eq_none_iff Entry.seqno _).mpr idle] at top
    cases top
  simp [sealTree, unflushed, Tree.rotateMemtable, busy, top]

-- The counter either stays or moves past one entry of the given kind.
def RaisedBy (source : Entry K V → Prop) (old new : Nat) : Prop := new = old ∨ ∃ entry, source entry ∧ new = entry.seqno + 1

theorem raised_by_mono {source wider : Entry K V → Prop} {old new : Nat} (raised : RaisedBy source old new)
    (included : ∀ entry, source entry → wider entry) : RaisedBy wider old new :=
  raised.imp id fun ⟨entry, found, top⟩ => ⟨entry, included entry found, top⟩

theorem raised_by_trans {source : Entry K V → Prop} {old middle new : Nat} (first : RaisedBy source old middle)
    (later : RaisedBy source middle new) : RaisedBy source old new := by
  rcases later with rfl | moved
  · exact first
  · exact .inr moved

def Tree.raise (t : Tree K V) (seqno : Nat) : Nat := max seqno ((t.getHighestSeqno.map (· + 1)).getD 0)

theorem raised_by_tree (seqno : Nat) : RaisedBy (· ∈ t.all) seqno (t.raise seqno) := by
  unfold Tree.raise Tree.getHighestSeqno
  cases top : highest Entry.seqno t.all with
  | none => exact .inl (Nat.max_eq_left (Nat.zero_le _))
  | some lsn =>
    obtain ⟨entry, member, rfl⟩ := highest_attained _ _ _ top
    rcases Nat.le_total (entry.seqno + 1) seqno with covered | beyond
    · exact .inl (Nat.max_eq_left covered)
    · exact .inr ⟨entry, member, Nat.max_eq_right beyond⟩

theorem raise_covers (seqno : Nat) (entry : Entry K V) (member : entry ∈ t.all) : entry.seqno < t.raise seqno := by
  unfold Tree.raise Tree.getHighestSeqno
  cases top : highest Entry.seqno t.all with
  | none =>
    rw [(highest_eq_none_iff _ _).mp top] at member
    cases member
  | some lsn =>
    have below := rank_le_highest _ _ _ top entry member
    exact Nat.lt_of_lt_of_le (Nat.lt_succ_of_le below) (Nat.le_max_right _ _)

-- A memtable that gets sealed reaches beyond the tables, so the counter follows
-- an entry of a memtable.
theorem raised_by_memtables (t next : Tree K V) (memtable : List (Entry K V)) (lsn seqno : Nat)
    (unflushed : t.flushedUpTo lsn = false) (rotated : t.rotateMemtable = some (memtable, next))
    (top : highest Entry.seqno memtable = some lsn) : RaisedBy (· ∈ next.memtables) seqno (next.raise seqno) := by
  obtain ⟨newest, inMemtable, reached⟩ := highest_attained _ _ _ top
  have tables : next.tables = t.tables := by rw [Tree.rotate_memtable_shape t next memtable rotated]
  have inside : newest ∈ next.all := by
    rw [Tree.rotate_memtable_all t next memtable rotated]
    exact List.mem_append_left _ (List.mem_append_left _ (Tree.rotate_memtable_active t next memtable rotated ▸ inMemtable))
  rcases raised_by_tree next seqno with same | ⟨entry, member, moved⟩
  · exact .inl same
  · have atLeast : lsn ≤ entry.seqno := by
      have covered := raise_covers next seqno newest inside
      omega
    rcases List.mem_append.mp member with inMemtables | inTables
    · exact .inr ⟨entry, inMemtables, moved⟩
    · have flushed := (Tree.flushed_up_to_iff t lsn).mpr ⟨entry, tables ▸ inTables, atLeast⟩
      rw [unflushed] at flushed
      cases flushed

-- The memtable that replaying a log fills ends with the last event of the log,
-- so its highest seqno is the watermark that recovery found.
theorem contents_highest (ordered : Ascending (front ++ [last]))
    (busy : contents [] (front ++ [last]) ≠ []) : highest Entry.seqno (contents [] (front ++ [last])) = some last.seqno := by
  obtain ⟨entry, rest, shape⟩ := List.exists_cons_of_ne_nil busy
  obtain ⟨before, same⟩ := contents_head _ entry rest shape
  obtain ⟨-, singleton⟩ := List.append_inj' same rfl
  cases singleton
  apply highest_of_bound Entry.seqno _ entry (by simp [shape])
  intro other member
  have logged := (contents_mem [] _ other member).resolve_left (by simp)
  exact ascending_last front (.put entry) ordered (.put other) logged

-- The tree after the sealed journals up to some point, whose events are given.
-- Until a clear turns up the tables stay as they were found, the journals that
-- they cover are skipped and the rest sits in sealed memtables; the first clear
-- wipes the tables, and from there on the tree is exactly what the log says.
inductive Replayed (tables : List (Entry K V)) : List (Event K V) → Tree K V → Prop where
  | kept (skipped replayed : List (Event K V)) (memtables : List (List (Entry K V)))
      (noClear : NoClear (skipped ++ replayed))
      (covered : ∀ event ∈ skipped, (Tree.recovered tables).flushedUpTo event.seqno = true)
      (beyond : replayed ≠ [] → ∃ event ∈ replayed, (Tree.recovered tables).flushedUpTo event.seqno = false)
      (filled : memtables.flatten = contents [] replayed) : Replayed tables (skipped ++ replayed) ⟨[], memtables, tables⟩
  | wiped (events : List (Event K V)) (memtables : List (List (Entry K V))) (cleared : ¬ NoClear events)
      (filled : memtables.flatten = contents [] events) : Replayed tables events ⟨[], memtables, []⟩

variable (tables : List (Entry K V))

theorem replayed_idle (events : List (Event K V)) (t : Tree K V) (replayed : Replayed tables events t) :
    t.activeMemtable = [] := by
  cases replayed <;> rfl

theorem replayed_wiped (events : List (Event K V)) (t : Tree K V) (replayed : Replayed tables events t)
    (cleared : ¬ NoClear events) : ∃ memtables, t = ⟨[], memtables, []⟩ ∧ memtables.flatten = contents [] events := by
  cases replayed with
  | kept skipped replayed memtables noClear covered beyond filled => exact absurd noClear cleared
  | wiped events memtables _ filled => exact ⟨memtables, rfl, filled⟩

theorem flushed_up_to_mono (low high : Nat) (below : low ≤ high) (flushed : t.flushedUpTo high = true) :
    t.flushedUpTo low = true := by
  rw [Tree.flushed_up_to_iff] at flushed ⊢
  obtain ⟨entry, member, reached⟩ := flushed
  exact ⟨entry, member, Nat.le_trans below reached⟩

theorem no_clear_append (front back : List (Event K V)) : NoClear (front ++ back) ↔ NoClear front ∧ NoClear back :=
  List.forall_mem_append

theorem recover_log_cleared (events front : List (Event K V)) (last : Event K V) (t : Tree K V)
    (ordered : Ascending (front ++ [last])) (cleared : ¬ NoClear (front ++ [last])) :
    ∃ next, recoverLog t (front ++ [last]) = .ok next ∧ Replayed tables (events ++ (front ++ [last])) next := by
  have allCleared : ¬ NoClear (events ++ (front ++ [last])) := fun kept => cleared ((no_clear_append _ _).mp kept).2
  have total : contents [] (events ++ (front ++ [last])) = contents [] (front ++ [last]) := by
    rw [contents_append, contents_of_clear _ _ cleared]
  have start : recoverLog t (front ++ [last]) = sealTree ⟨contents [] (front ++ [last]), [], []⟩ last.seqno := by
    simp only [recoverLog, highest_of_ascending front last ordered, replay_of_clear t _ cleared]
  by_cases idle : contents [] (front ++ [last]) = []
  · refine ⟨⟨[], [], []⟩, ?_, .wiped _ [] allCleared ?_⟩
    · rw [start, idle]
      exact seal_empty _ _ rfl rfl
    · rw [total, idle]
      rfl
  · refine ⟨⟨[], [contents [] (front ++ [last])], []⟩, ?_, .wiped _ _ allCleared ?_⟩
    · rw [start]
      exact seal_rotates _ _ rfl (contents_highest front last ordered idle)
    · rw [total, List.flatten_singleton]

theorem recover_log_kept_start (memtables : List (List (Entry K V))) (tables : List (Entry K V)) (front : List (Event K V))
    (last : Event K V) (ordered : Ascending (front ++ [last])) (kept : NoClear (front ++ [last])) :
    recoverLog ⟨[], memtables, tables⟩ (front ++ [last]) =
      sealTree ⟨contents [] (front ++ [last]), memtables, tables⟩ last.seqno := by
  simp only [recoverLog, highest_of_ascending front last ordered, replay_of_no_clear _ _ kept, List.append_nil]

theorem contents_busy (kept : NoClear (front ++ [last])) : contents [] (front ++ [last]) ≠ [] := by
  rw [contents_append]
  cases last with
  | put entry => exact List.cons_ne_nil _ _
  | clear seqno => exact absurd (kept (.clear seqno) (by simp)) (by simp [Event.isClear])

theorem contents_append_no_clear (events later : List (Event K V)) (kept : NoClear later) :
    contents [] (events ++ later) = contents [] later ++ contents [] events := by
  rw [contents_append, contents_of_no_clear _ _ kept]

theorem recover_log_wiped (events front : List (Event K V)) (last : Event K V)
    (memtables : List (List (Entry K V))) (ordered : Ascending (front ++ [last])) (kept : NoClear (front ++ [last]))
    (cleared : ¬ NoClear events) (filled : memtables.flatten = contents [] events) :
    ∃ next, recoverLog ⟨[], memtables, []⟩ (front ++ [last]) = .ok next ∧
      Replayed tables (events ++ (front ++ [last])) next := by
  have top := contents_highest front last ordered (contents_busy front last kept)
  refine ⟨⟨[], contents [] (front ++ [last]) :: memtables, []⟩, ?_, .wiped _ _ ?_ ?_⟩
  · rw [recover_log_kept_start memtables [] front last ordered kept]
    exact seal_rotates _ _ rfl top
  · exact fun allKept => cleared ((no_clear_append _ _).mp allKept).1
  · rw [List.flatten_cons, filled, contents_append_no_clear _ _ kept]

theorem recover_log_skipped (skipped replayed front : List (Event K V)) (last : Event K V)
    (memtables : List (List (Entry K V))) (ordered : Ascending (skipped ++ replayed ++ (front ++ [last])))
    (kept : NoClear (front ++ [last])) (noClear : NoClear (skipped ++ replayed))
    (covered : ∀ event ∈ skipped, (Tree.recovered tables).flushedUpTo event.seqno = true)
    (beyond : replayed ≠ [] → ∃ event ∈ replayed, (Tree.recovered tables).flushedUpTo event.seqno = false)
    (filled : memtables.flatten = contents [] replayed)
    (flushed : (Tree.recovered tables).flushedUpTo last.seqno = true) :
    ∃ next, recoverLog ⟨[], memtables, tables⟩ (front ++ [last]) = .ok next ∧
      Replayed tables (skipped ++ replayed ++ (front ++ [last])) next := by
  obtain ⟨_, logOrdered, order⟩ := List.pairwise_append.mp ordered
  have reached : ∀ event ∈ front ++ [last], (Tree.recovered tables).flushedUpTo event.seqno = true := fun event member =>
    flushed_up_to_mono _ _ _ (ascending_last front last logOrdered event member) flushed
  -- A journal replayed before this one would hold an event beyond the tables,
  -- and this journal only has later ones.
  have nothing : replayed = [] := by
    by_contra some
    obtain ⟨event, member, unflushed⟩ := beyond some
    have earlier := order event (List.mem_append_right _ member) last (by simp)
    rw [flushed_up_to_mono _ _ _ earlier flushed] at unflushed
    cases unflushed
  subst nothing
  have shape : skipped ++ [] ++ (front ++ [last]) = (skipped ++ (front ++ [last])) ++ [] := by simp
  refine ⟨⟨[], memtables, tables⟩, ?_, ?_⟩
  · rw [recover_log_kept_start memtables tables front last logOrdered kept]
    exact seal_flushed _ _ flushed
  · rw [shape]
    refine .kept _ [] memtables ?_ ?_ (fun absurdity => absurd rfl absurdity) filled
    · rw [← shape]
      exact (no_clear_append _ _).mpr ⟨noClear, kept⟩
    · exact List.forall_mem_append.mpr ⟨covered, reached⟩

theorem recover_log_sealed (skipped replayed front : List (Event K V)) (last : Event K V)
    (memtables : List (List (Entry K V))) (ordered : Ascending (front ++ [last]))
    (kept : NoClear (front ++ [last])) (noClear : NoClear (skipped ++ replayed))
    (covered : ∀ event ∈ skipped, (Tree.recovered tables).flushedUpTo event.seqno = true)
    (filled : memtables.flatten = contents [] replayed)
    (unflushed : (Tree.recovered tables).flushedUpTo last.seqno = false) :
    ∃ next, recoverLog ⟨[], memtables, tables⟩ (front ++ [last]) = .ok next ∧
      Replayed tables (skipped ++ replayed ++ (front ++ [last])) next := by
  have top := contents_highest front last ordered (contents_busy front last kept)
  refine ⟨⟨[], contents [] (front ++ [last]) :: memtables, tables⟩, ?_, ?_⟩
  · rw [recover_log_kept_start memtables tables front last ordered kept]
    exact seal_rotates _ _ unflushed top
  · rw [List.append_assoc]
    refine .kept skipped (replayed ++ (front ++ [last])) _ ?_ covered ?_ ?_
    · rw [← List.append_assoc]
      exact (no_clear_append _ _).mpr ⟨noClear, kept⟩
    · intro _
      exact ⟨last, by simp, unflushed⟩
    · rw [List.flatten_cons, filled, contents_append_no_clear _ _ kept]

theorem recover_log_step (events log : List (Event K V)) (t : Tree K V) (replayed : Replayed tables events t)
    (ordered : Ascending (events ++ log)) :
    ∃ next, recoverLog t log = .ok next ∧ Replayed tables (events ++ log) next := by
  rcases List.eq_nil_or_concat' log with rfl | ⟨front, last, rfl⟩
  · exact ⟨t, rfl, by rwa [List.append_nil]⟩
  · have logOrdered := (List.pairwise_append.mp ordered).2.1
    by_cases kept : NoClear (front ++ [last])
    · cases replayed with
      | wiped events memtables cleared filled =>
        exact recover_log_wiped tables events front last memtables logOrdered kept cleared filled
      | kept skipped replayed memtables noClear covered beyond filled =>
        cases flushed : (Tree.recovered tables).flushedUpTo last.seqno with
        | true =>
          exact recover_log_skipped tables skipped replayed front last memtables ordered kept noClear covered beyond
            filled flushed
        | false =>
          exact recover_log_sealed tables skipped replayed front last memtables logOrdered kept noClear covered filled
            flushed
    · exact recover_log_cleared tables events front last t logOrdered kept

theorem recover_logs (events : List (Event K V)) (logs : List (List (Event K V))) (t : Tree K V)
    (replayed : Replayed tables events t) (ordered : Ascending (events ++ logs.flatten)) :
    ∃ next, logs.foldlM recoverLog t = .ok next ∧ Replayed tables (events ++ logs.flatten) next := by
  induction logs generalizing events t with
  | nil => exact ⟨t, rfl, by simpa using replayed⟩
  | cons log rest ih =>
    rw [List.flatten_cons, ← List.append_assoc] at ordered ⊢
    obtain ⟨middle, first, middleReplayed⟩ :=
      recover_log_step tables events log t replayed (List.pairwise_append.mp ordered).1
    obtain ⟨next, later, nextReplayed⟩ := ih (events ++ log) middle middleReplayed ordered
    refine ⟨next, ?_, nextReplayed⟩
    rw [List.foldlM_cons, first]
    exact later

-- The logs with a record beyond the tables.
def uncovered (tables : List (Entry K V)) (logs : List (List (Event K V))) : List (List (Event K V)) :=
  logs.filter fun log => log.any fun event => !(Tree.recovered tables).flushedUpTo event.seqno

theorem uncovered_sublist (logs : List (List (Event K V))) :
    List.Sublist (uncovered tables logs).flatten logs.flatten := List.filter_sublist.flatten

-- Without a clear a sealed journal is either skipped or replayed as a whole.
theorem recover_log_kept (log : List (Event K V)) (memtables : List (List (Entry K V))) (ordered : Ascending log)
    (kept : NoClear log) :
    ∃ filled, recoverLog ⟨[], memtables, tables⟩ log = .ok ⟨[], filled, tables⟩ ∧
      filled.flatten = contents memtables.flatten (uncovered tables [log]).flatten := by
  rcases List.eq_nil_or_concat' log with rfl | ⟨front, last, rfl⟩
  · exact ⟨memtables, rfl, rfl⟩
  rw [recover_log_kept_start memtables tables front last ordered kept]
  cases flushed : (Tree.recovered tables).flushedUpTo last.seqno with
  | true =>
    have reached : ∀ event ∈ front ++ [last], (Tree.recovered tables).flushedUpTo event.seqno = true := fun event member =>
      flushed_up_to_mono _ _ _ (ascending_last front last ordered event member) flushed
    have none : uncovered tables [front ++ [last]] = [] := by
      rw [uncovered, List.filter_eq_nil_iff]
      simpa using reached
    exact ⟨memtables, seal_flushed _ _ flushed, by rw [none]; rfl⟩
  | false =>
    have whole : uncovered tables [front ++ [last]] = [front ++ [last]] := by
      simp [uncovered, flushed]
    refine ⟨contents [] (front ++ [last]) :: memtables,
      seal_rotates _ _ flushed (contents_highest front last ordered (contents_busy front last kept)), ?_⟩
    rw [whole, List.flatten_singleton, List.flatten_cons, contents_of_no_clear memtables.flatten _ kept]

theorem recover_logs_kept (logs : List (List (Event K V))) (memtables : List (List (Entry K V)))
    (ordered : Ascending logs.flatten) (kept : NoClear logs.flatten) :
    ∃ filled, logs.foldlM recoverLog ⟨[], memtables, tables⟩ = .ok ⟨[], filled, tables⟩ ∧
      filled.flatten = contents memtables.flatten (uncovered tables logs).flatten := by
  induction logs generalizing memtables with
  | nil => exact ⟨memtables, rfl, rfl⟩
  | cons log rest ih =>
    obtain ⟨logKept, restKept⟩ := (no_clear_append _ _).mp kept
    obtain ⟨logOrdered, restOrdered, -⟩ := List.pairwise_append.mp ordered
    obtain ⟨middle, first, middleFilled⟩ := recover_log_kept tables log memtables logOrdered logKept
    obtain ⟨filled, later, finallyFilled⟩ := ih middle restOrdered restKept
    refine ⟨filled, ?_, ?_⟩
    · rw [List.foldlM_cons, first]
      exact later
    · rw [finallyFilled, middleFilled, ← contents_append, ← List.flatten_append, uncovered, uncovered, uncovered,
        ← List.filter_append]
      rfl

theorem replayed_initially : Replayed tables [] (Tree.recovered tables) :=
  .kept [] [] [] (by simp [NoClear]) (by simp) (fun absurdity => absurd rfl absurdity) rfl

end OmryaKv.Storage
