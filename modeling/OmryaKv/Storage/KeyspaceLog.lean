import OmryaKv.Storage.EventLog

set_option autoImplicit false

namespace OmryaKv.Storage

open Lib

variable {K V : Type}

-- A keyspace together with what each journal says about it: the sealed journals
-- oldest first, each with the watermark it keeps for the keyspace, and the active one.
structure KeyspaceLog (K V : Type) where
  tree : Tree K V
  sealedLogs : List (Option Nat × List (Event K V))
  log : List (Event K V)

namespace KeyspaceLog

def history (p : KeyspaceLog K V) : List (Event K V) := (p.sealedLogs.map Prod.snd).flatten ++ p.log

def record (p : KeyspaceLog K V) (events : List (Event K V)) : KeyspaceLog K V :=
  { p with tree := events.foldl Tree.replay p.tree, log := p.log ++ events }

def rotateJournal (p : KeyspaceLog K V) : KeyspaceLog K V :=
  ⟨p.tree, p.sealedLogs ++ [(p.tree.getHighestMemtableSeqno, p.log)], []⟩

end KeyspaceLog

-- A watermark covers events once it is at or above all of them. A journal
-- without one held nothing that was still in the memtables.
def Covers (memtables : List (Entry K V)) (watermark : Option Nat) (events : List (Event K V)) : Prop :=
  ∀ event ∈ events, ∀ entry ∈ memtables, event.seqno < entry.seqno ∨ ∃ lsn, watermark = some lsn ∧ event.seqno ≤ lsn

def Watermarked (memtables : List (Entry K V)) :
    List (Event K V) → List (Option Nat × List (Event K V)) → Prop
  | _, [] => True
  | before, (watermark, log) :: rest =>
    Covers memtables watermark (before ++ log) ∧ Watermarked memtables (before ++ log) rest

-- Every record of the keyspace is accounted for: evicted ones have reached the
-- tables or were cleared, the others are in the journals in the order they were made.
structure Accounted (bound : Nat) (evicted : List (Event K V)) (p : KeyspaceLog K V) : Prop where
  holds : p.tree.all = contents [] (evicted ++ p.history)
  ascending : Ascending (evicted ++ p.history)
  bounded : ∀ event ∈ evicted ++ p.history, event.seqno < bound
  activeNewer : ∀ entry ∈ p.tree.activeMemtable, ∀ older ∈ p.tree.sealedMemtables.flatten ++ p.tree.tables,
    older.seqno < entry.seqno
  sealedNewer : ∀ entry ∈ p.tree.sealedMemtables.flatten, ∀ older ∈ p.tree.tables, older.seqno < entry.seqno
  flushed : ∀ entry ∈ p.tree.memtables, ∀ event ∈ evicted, event.seqno < entry.seqno
  watermarked : Watermarked p.tree.memtables evicted p.sealedLogs

variable (bound : Nat)
variable (evicted : List (Event K V))

theorem memtables_newer (p : KeyspaceLog K V) (accounted : Accounted bound evicted p) (entry : Entry K V)
    (member : entry ∈ p.tree.memtables) (older : Entry K V) (stored : older ∈ p.tree.tables) :
    older.seqno < entry.seqno := by
  rcases List.mem_append.mp member with active | sealed
  · exact accounted.activeNewer entry active older (List.mem_append_right _ stored)
  · exact accounted.sealedNewer entry sealed older stored

theorem tree_bounded (p : KeyspaceLog K V) (accounted : Accounted bound evicted p) (entry : Entry K V)
    (member : entry ∈ p.tree.all) : entry.seqno < bound := by
  rw [accounted.holds] at member
  have logged := (contents_mem [] _ entry member).resolve_left (by simp)
  exact accounted.bounded (.put entry) logged

theorem tree_descending (p : KeyspaceLog K V) (accounted : Accounted bound evicted p) : Descending Entry.seqno p.tree.all := by
  rw [accounted.holds]
  exact contents_descending _ accounted.ascending

theorem get_of_all [DecidableEq K] (t other : Tree K V) (layered : t.Layered) (otherLayered : other.Layered) (key : K)
    (same : t.all.find? (fun entry => decide (entry.key = key)) = other.all.find? fun entry => decide (entry.key = key)) :
    t.get key = other.get key := by
  rw [Tree.get, Tree.get, Tree.search_eq_find t layered, Tree.search_eq_find other otherLayered, same]

theorem recovered_get_cleared [DecidableEq K] (bound : Nat) (evicted : List (Event K V)) (p : KeyspaceLog K V)
    (accounted : Accounted bound evicted p) (cleared : ¬ NoClear p.history) (t : Tree K V) (layered : t.Layered)
    (rebuilt : t.all = contents [] p.history) (key : K) : t.get key = p.tree.get key := by
  have held : p.tree.all = contents [] p.history := by
    rw [accounted.holds, contents_append, contents_of_clear _ _ cleared]
  apply get_of_all t p.tree layered (Tree.layered_of_descending _ (tree_descending bound evicted p accounted)) key
  rw [rebuilt, held]

theorem recovered_get_kept [DecidableEq K] (bound : Nat) (evicted skipped replayed : List (Event K V)) (p : KeyspaceLog K V)
    (accounted : Accounted bound evicted p) (split : p.history = skipped ++ replayed) (kept : NoClear replayed)
    (covered : ∀ event ∈ skipped, (Tree.recovered p.tree.tables).flushedUpTo event.seqno = true)
    (t : Tree K V) (layered : t.Layered) (rebuilt : t.all = contents [] replayed ++ p.tree.tables) (key : K) :
    t.get key = p.tree.get key := by
  have held : p.tree.memtables ++ p.tree.tables = contents [] replayed ++ contents (contents [] evicted) skipped := by
    rw [← contents_of_no_clear _ _ kept, ← contents_append, ← contents_append, ← split, ← accounted.holds]
    rfl
  have outranked : ∀ entry ∈ p.tree.memtables, ∀ older ∈ contents (contents [] evicted) skipped, older.seqno < entry.seqno := by
    intro entry member older olderMember
    rcases contents_mem _ _ older olderMember with evictedEntry | skippedEntry
    · have logged := (contents_mem [] _ older evictedEntry).resolve_left (by simp)
      exact accounted.flushed entry member (.put older) logged
    · obtain ⟨stored, storedMember, reached⟩ := (Tree.flushed_up_to_iff _ _).mp (covered _ skippedEntry)
      exact Nat.lt_of_le_of_lt reached (memtables_newer bound evicted p accounted entry member stored storedMember)
  obtain ⟨shared, front, tables⟩ := cut_above Entry.seqno _ _ _ _ held outranked
  apply get_of_all t p.tree layered (Tree.layered_of_descending _ (tree_descending bound evicted p accounted)) key
  rw [rebuilt, Tree.all, front, tables]
  exact find_overlap _ _ _ _

theorem recovered_get [DecidableEq K] (bound : Nat) (evicted : List (Event K V)) (p : KeyspaceLog K V)
    (accounted : Accounted bound evicted p) (t : Tree K V)
    (replayed : Replayed p.tree.tables (p.sealedLogs.map Prod.snd).flatten t) (key : K) :
    (p.log.foldl Tree.replay t).get key = p.tree.get key := by
  obtain ⟨-, historyOrdered, -⟩ := List.pairwise_append.mp accounted.ascending
  obtain ⟨sealedOrdered, logOrdered, -⟩ := List.pairwise_append.mp historyOrdered
  have active := contents_descending p.log logOrdered
  by_cases kept : NoClear p.log
  · have onto : ∀ memtables tables, p.log.foldl Tree.replay ⟨[], memtables, tables⟩ = ⟨contents [] p.log, memtables, tables⟩ := by
      intro memtables tables
      rw [replay_of_no_clear _ _ kept, List.append_nil]
    generalize sealedEq : (p.sealedLogs.map Prod.snd).flatten = sealedEvents at replayed sealedOrdered
    cases replayed with
    | wiped events memtables cleared filled =>
      have sealed := contents_descending sealedEvents sealedOrdered
      rw [← filled] at sealed
      have layered : Tree.Layered ⟨contents [] p.log, memtables, []⟩ :=
        ⟨active, (List.pairwise_flatten.mp sealed).1, List.Pairwise.nil⟩
      rw [onto]
      apply recovered_get_cleared bound evicted p accounted _ _ layered
      · rw [KeyspaceLog.history, sealedEq, contents_append_no_clear _ _ kept, ← filled]
        simp [Tree.all, Tree.memtables]
      · rw [KeyspaceLog.history, sealedEq]
        exact fun all => cleared ((no_clear_append _ _).mp all).1
    | kept skipped replayed memtables noClear covered beyond filled =>
      have sealed := contents_descending replayed (List.pairwise_append.mp sealedOrdered).2.1
      rw [← filled] at sealed
      have tables := (List.pairwise_append.mp (tree_descending bound evicted p accounted)).2.1
      have layered : Tree.Layered ⟨contents [] p.log, memtables, p.tree.tables⟩ :=
        ⟨active, (List.pairwise_flatten.mp sealed).1, tables⟩
      have replayedKept : NoClear (replayed ++ p.log) :=
        (no_clear_append _ _).mpr ⟨((no_clear_append _ _).mp noClear).2, kept⟩
      rw [onto]
      apply recovered_get_kept bound evicted skipped (replayed ++ p.log) p accounted _ replayedKept covered _ layered
      · rw [contents_append_no_clear _ _ kept, ← filled]
        simp [Tree.all, Tree.memtables]
      · rw [KeyspaceLog.history, sealedEq, List.append_assoc]
  · have layered : Tree.Layered ⟨contents [] p.log, [], []⟩ := ⟨active, by simp, List.Pairwise.nil⟩
    rw [replay_of_clear t _ kept]
    apply recovered_get_cleared bound evicted p accounted _ _ layered
    · rw [KeyspaceLog.history, contents_append, contents_of_clear (contents [] _) _ kept]
      simp [Tree.all, Tree.memtables]
    · exact fun all => kept ((no_clear_append _ _).mp all).2

theorem watermarked_mono (memtables later : List (Entry K V)) (grown : ∀ entry ∈ later, entry ∈ memtables ∨ bound ≤ entry.seqno)
    (before : List (Event K V))
    (logs : List (Option Nat × List (Event K V)))
    (bounded : ∀ event ∈ before ++ (logs.map Prod.snd).flatten, event.seqno < bound)
    (watermarked : Watermarked memtables before logs) : Watermarked later before logs := by
  induction logs generalizing before with
  | nil => trivial
  | cons first rest ih =>
    obtain ⟨watermark, log⟩ := first
    rw [List.map_cons, List.flatten_cons, ← List.append_assoc] at bounded
    refine ⟨?_, ih (before ++ log) bounded watermarked.2⟩
    intro event member entry entryMember
    rcases grown entry entryMember with old | fresh
    · exact watermarked.1 event member entry old
    · exact .inl (Nat.lt_of_lt_of_le (bounded event (List.mem_append_left _ member)) fresh)

theorem watermarked_append (memtables : List (Entry K V)) (before : List (Event K V))
    (logs : List (Option Nat × List (Event K V))) (watermark : Option Nat) (log : List (Event K V))
    (watermarked : Watermarked memtables before logs)
    (covers : Covers memtables watermark (before ++ ((logs.map Prod.snd).flatten ++ log))) :
    Watermarked memtables before (logs ++ [(watermark, log)]) := by
  induction logs generalizing before with
  | nil => exact ⟨by simpa using covers, trivial⟩
  | cons first rest ih =>
    refine ⟨watermarked.1, ih _ watermarked.2 ?_⟩
    simpa only [List.map_cons, List.flatten_cons, List.append_assoc] using covers

theorem accounted_bound (bound higher : Nat) (evicted : List (Event K V)) (p : KeyspaceLog K V)
    (accounted : Accounted bound evicted p) (raised : bound ≤ higher) : Accounted higher evicted p :=
  { accounted with bounded := fun event member => Nat.lt_of_lt_of_le (accounted.bounded event member) raised }

theorem replay_memtables (t : Tree K V) (events : List (Event K V)) (entry : Entry K V)
    (member : entry ∈ (events.foldl Tree.replay t).memtables) : entry ∈ t.memtables ∨ .put entry ∈ events := by
  by_cases kept : NoClear events
  · rw [replay_of_no_clear t events kept, Tree.memtables, List.append_assoc, List.mem_append] at member
    rcases member with new | old
    · exact .inr ((contents_mem [] events entry new).resolve_left (by simp))
    · exact .inl old
  · rw [replay_of_clear t events kept] at member
    simp only [Tree.memtables, List.flatten_nil, List.append_nil] at member
    exact .inr ((contents_mem [] events entry member).resolve_left (by simp))

theorem record_newer (evicted events : List (Event K V)) (p : KeyspaceLog K V) (accounted : Accounted bound evicted p)
    (fresh : ∀ event ∈ events, event.seqno = bound) :
    (∀ entry ∈ (p.record events).tree.activeMemtable,
        ∀ older ∈ (p.record events).tree.sealedMemtables.flatten ++ (p.record events).tree.tables, older.seqno < entry.seqno) ∧
      ∀ entry ∈ (p.record events).tree.sealedMemtables.flatten, ∀ older ∈ (p.record events).tree.tables,
        older.seqno < entry.seqno := by
  by_cases kept : NoClear events
  · simp only [KeyspaceLog.record, replay_of_no_clear p.tree events kept]
    refine ⟨?_, accounted.sealedNewer⟩
    intro entry member older olderMember
    rcases List.mem_append.mp member with new | old
    · have logged := (contents_mem [] events entry new).resolve_left (by simp)
      have stored : older ∈ p.tree.all := by
        rw [Tree.all, Tree.memtables, List.append_assoc]
        exact List.mem_append_right _ olderMember
      have same : entry.seqno = bound := fresh (.put entry) logged
      rw [same]
      exact tree_bounded bound evicted p accounted older stored
    · exact accounted.activeNewer entry old older olderMember
  · simp [KeyspaceLog.record, replay_of_clear p.tree events kept]

theorem accounted_record (evicted events : List (Event K V)) (p : KeyspaceLog K V) (accounted : Accounted bound evicted p)
    (fresh : ∀ event ∈ events, event.seqno = bound) :
    Accounted (bound + 1) evicted (p.record events) := by
  have history : evicted ++ (p.record events).history = (evicted ++ p.history) ++ events := by
    simp [KeyspaceLog.record, KeyspaceLog.history]
  have grown : ∀ entry ∈ (p.record events).tree.memtables, entry ∈ p.tree.memtables ∨ bound ≤ entry.seqno := by
    intro entry member
    exact (replay_memtables p.tree events entry member).imp_right fun new => Nat.le_of_eq (fresh (.put entry) new).symm
  constructor
  · rw [history, contents_append, ← accounted.holds]
    exact replay_all p.tree events
  · rw [history]
    refine List.pairwise_append.mpr ⟨accounted.ascending, ?_, ?_⟩
    · exact List.pairwise_of_forall_mem_list fun a first b second => by rw [fresh a first, fresh b second]
    · intro old oldMember new newMember
      rw [fresh new newMember]
      exact Nat.le_of_lt (accounted.bounded old oldMember)
  · rw [history]
    intro event member
    rcases List.mem_append.mp member with old | new
    · exact Nat.lt_succ_of_lt (accounted.bounded event old)
    · rw [fresh event new]
      exact Nat.lt_succ_self bound
  · exact (record_newer bound evicted events p accounted fresh).1
  · exact (record_newer bound evicted events p accounted fresh).2
  · intro entry member event evictedMember
    rcases grown entry member with old | new
    · exact accounted.flushed entry old event evictedMember
    · exact Nat.lt_of_lt_of_le (accounted.bounded event (List.mem_append_left _ evictedMember)) new
  · apply watermarked_mono bound _ _ grown _ _ _ accounted.watermarked
    intro event member
    apply accounted.bounded event
    rw [KeyspaceLog.history, ← List.append_assoc]
    exact List.mem_append_left _ member

theorem accounted_rotate_memtable (p : KeyspaceLog K V) (accounted : Accounted bound evicted p) (memtable : List (Entry K V))
    (next : Tree K V)
    (rotated : p.tree.rotateMemtable = some (memtable, next)) : Accounted bound evicted { p with tree := next } := by
  have memtables := Tree.rotate_memtable_memtables _ _ _ rotated
  have shape := Tree.rotate_memtable_shape _ _ _ rotated
  constructor
  · rw [Tree.rotate_memtable_all _ _ _ rotated]
    exact accounted.holds
  · exact accounted.ascending
  · exact accounted.bounded
  · simp [shape]
  · intro entry member older stored
    have inside : entry ∈ p.tree.memtables := by
      rw [← memtables]
      exact List.mem_append_right _ member
    exact memtables_newer bound evicted p accounted entry inside older (by simpa [shape] using stored)
  · rw [memtables]
    exact accounted.flushed
  · rw [memtables]
    exact accounted.watermarked

theorem accounted_flush (p : KeyspaceLog K V)
    (accounted : Accounted bound evicted p) : Accounted bound evicted { p with tree := p.tree.flush } := by
  constructor
  · rw [Tree.flush_all]
    exact accounted.holds
  · exact accounted.ascending
  · exact accounted.bounded
  · exact accounted.activeNewer
  · simp [Tree.flush]
  · exact fun entry member => accounted.flushed entry (Tree.flush_memtables _ entry member)
  · apply watermarked_mono bound _ _ (fun entry member => .inl (Tree.flush_memtables _ entry member)) _ _ _ accounted.watermarked
    intro event member
    apply accounted.bounded event
    rw [KeyspaceLog.history, ← List.append_assoc]
    exact List.mem_append_left _ member

-- The watermark of a journal is the seqno of the last record before it was
-- sealed, unless nothing was left in the memtables.
theorem memtable_watermark_covers (p : KeyspaceLog K V) (accounted : Accounted bound evicted p) :
    Covers p.tree.memtables p.tree.getHighestMemtableSeqno (evicted ++ p.history) := by
  intro event member entry entryMember
  obtain ⟨front, rest, shape⟩ := List.exists_cons_of_ne_nil (List.ne_nil_of_mem entryMember)
  have held := accounted.holds
  rw [Tree.all, shape, List.cons_append] at held
  obtain ⟨before, last⟩ := contents_head _ front _ held.symm
  have latest := ascending_last before (.put front) (last ▸ accounted.ascending) event (last ▸ member)
  cases top : p.tree.getHighestMemtableSeqno with
  | none =>
    rw [(highest_eq_none_iff Entry.seqno _).mp top] at shape
    cases shape
  | some lsn =>
    have reached := rank_le_highest Entry.seqno _ lsn top front (by simp [shape])
    exact .inr ⟨lsn, rfl, Nat.le_trans latest reached⟩

theorem accounted_rotate_journal (p : KeyspaceLog K V)
    (accounted : Accounted bound evicted p) : Accounted bound evicted p.rotateJournal := by
  have history : p.rotateJournal.history = p.history := by
    simp [KeyspaceLog.rotateJournal, KeyspaceLog.history]
  constructor
  · rw [history]
    exact accounted.holds
  · rw [history]
    exact accounted.ascending
  · rw [history]
    exact accounted.bounded
  · exact accounted.activeNewer
  · exact accounted.sealedNewer
  · exact accounted.flushed
  · exact watermarked_append _ _ _ _ _ accounted.watermarked (memtable_watermark_covers bound evicted p accounted)

theorem accounted_evict (evicted log : List (Event K V)) (watermark : Option Nat) (t : Tree K V)
    (rest : List (Option Nat × List (Event K V))) (active : List (Event K V))
    (accounted : Accounted bound evicted ⟨t, (watermark, log) :: rest, active⟩)
    (reached : ∀ lsn, watermark = some lsn → t.flushedUpTo lsn = true) :
    Accounted bound (evicted ++ log) ⟨t, rest, active⟩ := by
  have history : evicted ++ KeyspaceLog.history ⟨t, (watermark, log) :: rest, active⟩ =
      (evicted ++ log) ++ KeyspaceLog.history ⟨t, rest, active⟩ := by
    simp [KeyspaceLog.history]
  constructor
  · rw [← history]
    exact accounted.holds
  · rw [← history]
    exact accounted.ascending
  · rw [← history]
    exact accounted.bounded
  · exact accounted.activeNewer
  · exact accounted.sealedNewer
  · intro entry member event eventMember
    rcases accounted.watermarked.1 event eventMember entry member with newer | ⟨lsn, marked, below⟩
    · exact newer
    · obtain ⟨stored, storedMember, above⟩ := (Tree.flushed_up_to_iff _ _).mp (reached lsn marked)
      have newer := memtables_newer bound evicted _ accounted entry member stored storedMember
      exact Nat.lt_of_le_of_lt (Nat.le_trans below above) newer
  · exact accounted.watermarked.2

theorem accounted_fresh (logs : List (Option Nat × List (Event K V)))
    (silent : ∀ log ∈ logs, log.2 = []) : Accounted bound [] ⟨.empty, logs, []⟩ := by
  have flat : (logs.map Prod.snd).flatten = [] := by
    rw [List.flatten_eq_nil_iff]
    intro log member
    obtain ⟨source, sourceMember, rfl⟩ := List.mem_map.mp member
    exact silent source sourceMember
  have marked : Watermarked ([] : List (Entry K V)) [] logs := by
    clear flat
    induction logs with
    | nil => trivial
    | cons first rest ih =>
      have empty := silent first (by simp)
      refine ⟨fun _ _ _ absurdity => by simp at absurdity, ?_⟩
      rw [empty]
      exact ih fun log member => silent log (List.mem_cons_of_mem _ member)
  constructor
  · simp only [KeyspaceLog.history, flat]
    rfl
  · simp [KeyspaceLog.history, flat, Ascending]
  · simp [KeyspaceLog.history, flat]
  · simp [Tree.empty]
  · simp [Tree.empty]
  · simp
  · exact marked

end OmryaKv.Storage
