import OmryaKv.Background.FlushSchedule
import OmryaKv.Background.BufferAccounting

set_option autoImplicit false

namespace OmryaKv.Background

open Lib

variable {Keyspace E : Type}

-- A message that is offered leaves everything but the channel alone.
structure Offered (s next : Schedule Keyspace E) : Prop where
  tasks : next.tasks = s.tasks
  trees : next.trees = s.trees
  isPoisoned : next.isPoisoned = s.isPoisoned
  posted : ∃ items, next.channel = s.channel ++ items ∧ .flush ∉ items ∧ .close ∉ items

variable (s : Schedule Keyspace E)

theorem offered_refl : Offered s s := ⟨rfl, rfl, rfl, [], by simp, by simp, by simp⟩

theorem offered_trans {s middle next : Schedule Keyspace E} (first : Offered s middle) (rest : Offered middle next) : Offered s next := by
  obtain ⟨early, earlyPosted, noFlush, noClose⟩ := first.posted
  obtain ⟨late, latePosted, lateNoFlush, lateNoClose⟩ := rest.posted
  refine ⟨rest.tasks.trans first.tasks, rest.trees.trans first.trees, rest.isPoisoned.trans first.isPoisoned, early ++ late, ?_, ?_, ?_⟩
  · rw [latePosted, earlyPosted, List.append_assoc]
  · simp [noFlush, lateNoFlush]
  · simp [noClose, lateNoClose]

theorem offered_try_send (item : WorkerMessage Keyspace) (noFlush : item ≠ .flush) (noClose : item ≠ .close) :
    Offered s (s.trySend item) := by
  refine ⟨rfl, rfl, rfl, ?_⟩
  unfold Schedule.trySend
  split
  · exact ⟨[item], rfl, by simpa using noFlush.symm, by simpa using noClose.symm⟩
  · exact ⟨[], by simp, by simp, by simp⟩

theorem offered_request (ks : Keyspace) : Offered s (s.requestRotation ks) :=
  offered_try_send s _ (fun same => by cases same) (fun same => by cases same)

theorem offered_check (ks : Keyspace) (large : Bool) : Offered s (s.checkMemtableRotate ks large) := by
  unfold Schedule.checkMemtableRotate
  split
  · exact offered_request s ks
  · exact offered_refl s

theorem offered_fold {α : Type} (f : Schedule Keyspace E → α → Schedule Keyspace E) (l : List α)
    (offers : ∀ s, ∀ a ∈ l, Offered s (f s a)) (s : Schedule Keyspace E) : Offered s (l.foldl f s) := by
  induction l generalizing s with
  | nil => exact offered_refl s
  | cons a rest ih =>
    exact offered_trans (offers s a (by simp)) (ih (fun s b member => offers s b (List.mem_cons_of_mem _ member)) (f s a))

theorem offered_stragglers (stragglers : List Keyspace) : Offered s (stragglers.foldl Schedule.requestRotation s) :=
  offered_fold _ stragglers (fun s ks _ => offered_request s ks) s

theorem offered_compactions (count : Nat) (ks : Keyspace) :
    Offered s ((List.replicate count (.compact ks)).foldl Schedule.trySend s) := by
  apply offered_fold
  intro s item member
  rw [List.eq_of_mem_replicate member]
  exact offered_try_send s _ (fun same => by cases same) (fun same => by cases same)

section Writes

variable [DecidableEq Keyspace]

-- Writes only reach the active memtables of the keyspaces they are about.
structure Filled (touched : List Keyspace) (s next : Schedule Keyspace E) : Prop where
  channel : next.channel = s.channel
  tasks : next.tasks = s.tasks
  isPoisoned : next.isPoisoned = s.isPoisoned
  sealed : ∀ ks, (next.trees ks).sealedMemtables = (s.trees ks).sealedMemtables
  flush : ∀ ks, (next.trees ks).flush = (s.trees ks).flush
  others : ∀ ks, ks ∉ touched → next.trees ks = s.trees ks

theorem filled_writes (items : List (Keyspace × E)) : Filled (items.map Prod.fst) s (items.foldl Schedule.put s) := by
  induction items generalizing s with
  | nil => exact ⟨rfl, rfl, rfl, fun _ => rfl, fun _ => rfl, fun _ _ => rfl⟩
  | cons item rest ih =>
    obtain ⟨channel, tasks, isPoisoned, sealed, flush, others⟩ := ih (s.put item)
    refine ⟨channel, tasks, isPoisoned, ?_, ?_, ?_⟩
    · intro ks
      rw [List.foldl_cons, sealed, Schedule.put, Schedule.setTree]
      by_cases here : ks = item.1
      · subst here
        simp [MemTree.put]
      · simp [Function.update_of_ne here]
    · intro ks
      rw [List.foldl_cons, flush, Schedule.put, Schedule.setTree]
      by_cases here : ks = item.1
      · subst here
        simp [MemTree.put]
      · simp [Function.update_of_ne here]
    · intro ks absent
      obtain ⟨elsewhere, later⟩ := List.ne_and_not_mem_of_not_mem_cons absent
      rw [List.foldl_cons, others ks later, Schedule.put, Schedule.setTree]
      exact Function.update_of_ne elsewhere _ _

end Writes

-- The memtables of a keyspace, an empty active one not counted.
def MemTree.load (t : MemTree E) : Nat := t.sealedMemtables.length + if t.activeMemtable.entries.isEmpty then 0 else 1

theorem load_le (t : MemTree E) : t.load ≤ t.sealedMemtables.length + 1 := by
  unfold MemTree.load
  split <;> omega

theorem sealed_le_load (t : MemTree E) : t.sealedMemtables.length ≤ t.load := Nat.le_add_right _ _

theorem load_rotated (t : MemTree E) (memtableId : Nat) (rotates : t.Rotates memtableId) :
    t.rotateMemtable = ⟨⟨t.activeMemtable.id + 1, []⟩, t.activeMemtable :: t.sealedMemtables, t.flush⟩ ∧
      t.rotateMemtable.load = t.load := by
  have busy : ¬ t.activeMemtable.entries.isEmpty = true := by simpa using rotates.2
  have shape : t.rotateMemtable = ⟨⟨t.activeMemtable.id + 1, []⟩, t.activeMemtable :: t.sealedMemtables, t.flush⟩ := by
    rw [MemTree.rotateMemtable, if_neg busy]
  refine ⟨shape, ?_⟩
  rw [shape, MemTree.load, MemTree.load, if_neg busy]
  simp

variable [DecidableEq Keyspace]

theorem load_set (current : Keyspace) (t : MemTree E) (ks : Keyspace) (fewer : t.load ≤ (s.trees current).load) :
    ((s.setTree current t).trees ks).load ≤ (s.trees ks).load := by
  by_cases here : ks = current
  · subst here
    simpa only [Schedule.setTree, Function.update_self] using fewer
  · simp only [Schedule.setTree, Function.update_of_ne here]
    exact Nat.le_refl _

-- A thread that has written to the keyspace and has yet to pass local_backpressure for it.
def Phase.owes (ks : Keyspace) : Phase Keyspace → Bool
  | .checking todo => decide (ks ∈ todo)
  | .halted current todo | .throttled current todo => decide (ks = current ∨ ks ∈ todo)
  | _ => false

def Phase.writes : Phase Keyspace → Bool
  | .checking _ | .halted _ _ | .throttled _ _ => true
  | _ => false

theorem owes_writes (ks : Keyspace) (phase : Phase Keyspace) (owes : phase.owes ks = true) : phase.writes = true := by
  cases phase with
  | checking todo => rfl
  | halted current todo => rfl
  | throttled current todo => rfl
  | _ => cases owes

variable {size : E → Nat} {poolSize : Nat}

omit [DecidableEq Keyspace] in
theorem receiving_compact (poolSize worker : Nat) (ks : Keyspace) :
    Phase.receiving poolSize worker (.compact ks) = .resending ks ∨ Phase.receiving poolSize worker (.compact ks) = .compacting ks := by
  by_cases spared : 1 < poolSize ∧ worker = 0
  · exact .inl (if_pos spared)
  · exact .inr (if_neg spared)

theorem act_writes {i : Nat} {s next : Schedule Keyspace E} {old phase : Phase Keyspace} {m : Move Keyspace E}
    (act : Act size poolSize i s old m next phase) (worker : i < poolSize) (never : old.writes = false) : phase.writes = false := by
  cases act with
  | write items todo client healthy distinct touched => omega
  | check ks todo large => cases never
  | unhalt ks todo below => cases never
  | resume ks todo below => cases never
  | receive item rest worker first =>
    cases item with
    | compact ks =>
      rcases receiving_compact poolSize i ks with same | same <;> rw [same] <;> rfl
    | _ => rfl
  | _ => rfl

-- A step adds to the memtables of a keyspace only where it leaves a thread that owes
-- for it, and lets a thread go only where the keyspace has come down.
theorem act_load {i : Nat} {s next : Schedule Keyspace E} {old phase : Phase Keyspace} {m : Move Keyspace E}
    (act : Act size poolSize i s old m next phase) (ks : Keyspace) :
    (next.trees ks).load ≤ 4 ∨
      (next.trees ks).load + (if old.owes ks then 1 else 0) ≤ (s.trees ks).load + if phase.owes ks then 1 else 0 := by
  cases act with
  | write items todo client healthy distinct touched =>
    have filled := filled_writes s items
    by_cases here : ks ∈ items.map Prod.fst
    · have after := load_le ((items.foldl Schedule.put s).trees ks)
      rw [filled.sealed ks] at after
      have before := sealed_le_load (s.trees ks)
      have owes : (Phase.checking todo).owes ks = true := decide_eq_true ((touched ks).mpr here)
      rw [owes, if_pos rfl]
      exact .inr (Nat.le_trans after (Nat.add_le_add_right before 1))
    · rw [filled.others ks here]
      exact .inr (Nat.le_add_right _ _)
  | clear current client healthy =>
    exact .inr (Nat.add_le_add_right (load_set s current _ ks (Nat.zero_le _)) _)
  | rotate current client rotates =>
    exact .inr (Nat.add_le_add_right (load_set s current _ ks (Nat.le_of_eq (load_rotated _ _ rotates).2)) _)
  | check current todo large =>
    rw [(offered_check s current large).trees]
    simp [Phase.owes]
  | unhalt current todo below => exact .inr (Nat.le_refl _)
  | resume current todo below =>
    by_cases here : ks = current
    · subst here
      have few := load_le (s.trees ks)
      unfold Schedule.sealedMemtableCount at below
      exact .inl (by omega)
    · simp [Phase.owes, here]
  | rotateMemtable current memtableId rotates =>
    exact .inr (Nat.add_le_add_right (load_set s current _ ks (Nat.le_of_eq (load_rotated _ _ rotates).2)) _)
  | receive item rest worker first =>
    have never : (Phase.receiving poolSize i item).owes ks = false := by
      cases item with
      | compact current => rcases receiving_compact poolSize i current with same | same <;> rw [same] <;> rfl
      | _ => rfl
    rw [never]
    exact .inr (Nat.le_refl _)
  | rotateJournal current stragglers =>
    rw [(offered_stragglers s stragglers).trees]
    exact .inr (Nat.le_refl _)
  | flush current unlocked some =>
    refine .inr (Nat.add_le_add_right (load_set s current _ ks (Nat.le_of_eq ?_)) _)
    unfold MemTree.startFlush
    split <;> rfl
  | registerTables current sealedIds flushedSize writing =>
    refine .inr (Nat.add_le_add_right (load_set s current _ ks ?_) _)
    exact Nat.add_le_add_right (List.length_filter_le _ _) _
  | announce current =>
    rw [(offered_compactions s poolSize current).trees]
    exact .inr (Nat.le_refl _)
  | tickFails phase worker fallible =>
    rcases fallible with rfl | ⟨current, rfl⟩ | ⟨current, rfl⟩ <;> exact .inr (Nat.le_refl _)
  | flushFails current worker =>
    exact .inr (Nat.add_le_add_right (load_set s current { s.trees current with flush := .idle } ks (Nat.le_refl _)) _)
  | _ => exact .inr (Nat.le_refl _)

structure Bounded (poolSize : Nat) (limit : Keyspace → Nat) (crew : Crew (Schedule Keyspace E) (Phase Keyspace)) : Prop where
  workers : ∀ i phase, i < poolSize → crew.phases[i]? = some phase → phase.writes = false
  load : ∀ ks, (crew.shared.trees ks).load ≤ max (limit ks) 4 + crew.phases.countP (Phase.owes ks)

theorem bounded_step {limit : Keyspace → Nat} {crew next : Crew (Schedule Keyspace E) (Phase Keyspace)} {label : Nat × Move Keyspace E}
    (bounded : Bounded poolSize limit crew) (step : CrewStep (Act size poolSize) crew label next) : Bounded poolSize limit next := by
  cases step with
  | move i m old shared phase here act =>
    constructor
    · intro j point worker place
      refine crew_all (fun j point => j < poolSize → point.writes = false) crew.phases i phase ?_ ?_ j point place worker
      · exact fun ours => act_writes act ours (bounded.workers i old ours here)
      · exact fun j point _ place ours => bounded.workers j point ours place
    · intro ks
      have before := bounded.load ks
      have counted := crew_count (Phase.owes ks) crew.phases i old phase here
      have few : 4 ≤ max (limit ks) 4 := Nat.le_max_right _ _
      rcases act_load act ks with down | change
      · exact Nat.le_trans down (Nat.le_trans few (Nat.le_add_right _ _))
      · dsimp only
        omega

-- Before any call: the trees as recovery left them, its tasks queued, and every thread
-- free. The pool runs next to the given number of threads that use the database.
def Crew.opened (poolSize clients : Nat) (trees : Keyspace → MemTree E) (l0RunCount : Keyspace → Nat) (recovered : List Keyspace) :
    Crew (Schedule Keyspace E) (Phase Keyspace) :=
  ⟨.opened trees l0RunCount recovered, List.replicate (poolSize + clients) .idle⟩

theorem bounded_opened (clients : Nat) (trees : Keyspace → MemTree E) (l0RunCount : Keyspace → Nat) (recovered : List Keyspace) :
    Bounded poolSize (fun ks => (trees ks).load) (Crew.opened poolSize clients trees l0RunCount recovered) := by
  constructor
  · intro i phase worker place
    obtain ⟨_, rfl⟩ := List.getElem?_eq_some_iff.mp place
    simp [Crew.opened, Phase.writes]
  · intro ks
    exact Nat.le_trans (Nat.le_max_left _ _) (Nat.le_add_right _ _)

theorem crew_length {crew next : Crew (Schedule Keyspace E) (Phase Keyspace)} {label : Nat × Move Keyspace E}
    (step : CrewStep (Act size poolSize) crew label next) : next.phases.length = crew.phases.length := by
  cases step with
  | move i m old shared phase here act => exact List.length_set

-- A write is checked against the sealed memtables only after it has gone in, so each
-- thread that writes can add one to them, and no more: a keyspace never has more than
-- four of them beyond the number of such threads, unless recovery found more for it.
theorem sealed_memtables_bounded (clients : Nat) (trees : Keyspace → MemTree E) (l0RunCount : Keyspace → Nat)
    (recovered : List Keyspace) (moves : List (Nat × Move Keyspace E))
    (crew : Crew (Schedule Keyspace E) (Phase Keyspace))
    (run : Run (CrewStep (Act size poolSize)) (Crew.opened poolSize clients trees l0RunCount recovered) moves crew) (ks : Keyspace) :
    crew.shared.sealedMemtableCount ks ≤ max (trees ks).load 4 + clients := by
  have bounded := run_invariant _ (Bounded poolSize fun ks => (trees ks).load) (fun _ _ _ holds step => bounded_step holds step) run
    (bounded_opened clients trees l0RunCount recovered)
  have length : crew.phases.length = poolSize + clients := by
    refine run_invariant _ (fun crew => crew.phases.length = poolSize + clients) ?_ run ?_
    · exact fun _ _ _ before step => (crew_length step).trans before
    · simp [Crew.opened]
  have owing : crew.phases.countP (Phase.owes ks) ≤ crew.phases.length - poolSize := by
    apply crew_count_le
    intro i phase worker place
    by_contra owes
    have writes := owes_writes ks phase (by simpa using owes)
    rw [bounded.workers i phase worker place] at writes
    cases writes
  have load := bounded.load ks
  have sealed := sealed_le_load (crew.shared.trees ks)
  unfold Schedule.sealedMemtableCount
  omega

-- Keyspace 9 was recovered with five sealed memtables; that is no matter to keyspace 7.
theorem first_sealed_memtable_bounded :
    ∃ (trees : Nat → MemTree Nat) (crew : Crew (Schedule Nat Nat) (Phase Nat)), (trees 9).load = 5 ∧
      crew.shared.sealedMemtableCount 7 = 1 ∧ crew.shared.sealedMemtableCount 7 ≤ 4 + 1 := by
  let trees : Nat → MemTree Nat := Function.update (fun _ => .empty) 9 ⟨⟨5, []⟩, List.replicate 5 ⟨0, [90]⟩, .idle⟩
  have run : ∃ crew : Crew (Schedule Nat Nat) (Phase Nat),
      Run (CrewStep (Act id 1)) (Crew.opened 1 1 trees (fun _ => 0) [])
        [(1, .write [(7, 70)]), (1, .check true), (0, .receive), (0, .rotateMemtable)] crew ∧ crew.shared.sealedMemtableCount 7 = 1 :=
    ⟨_, .cons _ _ (.move _ _ _ _ _ _ rfl (.write 1 _ _ [7] (by decide) rfl (by decide) (by simp)))
      (.cons _ _ (.move _ _ _ _ _ _ rfl (.check 1 _ 7 [] true))
      (.cons _ _ (.move _ _ _ _ _ _ rfl (.receive 0 _ (.rotateMemtable 7 0) [] (by decide) rfl))
      (.cons _ _ (.move _ _ _ _ _ _ rfl (.rotateMemtable 0 _ 7 0 ⟨rfl, by decide⟩)) (.nil _)))), rfl⟩
  obtain ⟨crew, run, sealed⟩ := run
  exact ⟨trees, crew, by decide, sealed, sealed_memtables_bounded 1 trees _ _ _ crew run 7⟩

end OmryaKv.Background
