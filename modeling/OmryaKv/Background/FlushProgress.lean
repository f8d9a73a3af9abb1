import OmryaKv.Background.SealedMemtables

set_option autoImplicit false

namespace OmryaKv.Background

open Lib

variable {Keyspace E : Type} [DecidableEq Keyspace] {size : E → Nat} {poolSize : Nat}

-- A thread that is going to queue a flush of the keyspace, or to run one that starts
-- over with all its sealed memtables.
def Phase.serves (ks : Keyspace) : Phase Keyspace → Bool
  | .enqueueing current | .journaling current | .flushing current => decide (current = ks)
  | _ => false

-- A thread that has yet to post the message for a task, or has taken one and no task.
def Phase.tells : Phase Keyspace → Bool
  | .notifying | .dequeuing => true
  | _ => false

def Phase.ended : Phase Keyspace → Bool
  | .closed | .crashed => true
  | _ => false

-- Somebody is going to flush the memtable, or is at it.
def Claimed (crew : Crew (Schedule Keyspace E) (Phase Keyspace)) (ks : Keyspace) (memtableId : Nat) : Prop :=
  ks ∈ crew.shared.tasks ∨ (∃ phase ∈ crew.phases, phase.serves ks = true) ∨ memtableId ∈ (crew.shared.trees ks).takenIds

-- The flush lock is held by the one thread that writes tables of the keyspace.
def Locked (crew : Crew (Schedule Keyspace E) (Phase Keyspace)) (ks : Keyspace) : Prop :=
  ((crew.shared.trees ks).flush = .idle ∧ crew.phases.countP (· = .writing ks) = 0) ∨
    ∃ sealedIds flushedSize, (crew.shared.trees ks).flush = .writing sealedIds flushedSize ∧ crew.phases.countP (· = .writing ks) = 1

structure Scheduled (poolSize : Nat) (crew : Crew (Schedule Keyspace E) (Phase Keyspace)) : Prop where
  manned : poolSize ≤ crew.phases.length
  workers : ∀ i phase, i < poolSize → crew.phases[i]? = some phase → phase.writes = false
  running : ∀ phase ∈ crew.phases, phase.ended = false
  unclosed : .close ∉ crew.shared.channel
  claimed : ∀ ks, ∀ memtable ∈ (crew.shared.trees ks).sealedMemtables, Claimed crew ks memtable.id
  told : crew.shared.tasks.length ≤ crew.shared.channel.count .flush + crew.phases.countP Phase.tells
  locked : ∀ ks, Locked crew ks

omit [DecidableEq Keyspace] in
theorem start_flush_taken (size : E → Nat) (t : MemTree E) (some : t.sealedMemtables ≠ []) :
    (t.startFlush size).sealedMemtables = t.sealedMemtables ∧ (t.startFlush size).takenIds = t.sealedMemtables.map Memtable.id ∧
      ∃ flushedSize, (t.startFlush size).flush = .writing (t.sealedMemtables.map Memtable.id) flushedSize := by
  have busy : ¬ t.sealedMemtables.isEmpty = true := by simpa using some
  unfold MemTree.startFlush
  rw [if_neg busy]
  exact ⟨rfl, rfl, _, rfl⟩

section

variable {crew : Crew (Schedule Keyspace E) (Phase Keyspace)} {i : Nat} {s next : Schedule Keyspace E} {old phase : Phase Keyspace}
  {m : Move Keyspace E}

-- What a step that goes well does about a sealed memtable: it leaves a claim, or it
-- leaves those there were.
def Keeps (s next : Schedule Keyspace E) (old phase : Phase Keyspace) (ks : Keyspace) (memtable : Memtable E) : Prop :=
  (ks ∈ next.tasks ∨ phase.serves ks = true ∨ memtable.id ∈ (next.trees ks).takenIds) ∨
    memtable ∈ (s.trees ks).sealedMemtables ∧ (ks ∈ s.tasks → ks ∈ next.tasks) ∧ old.serves ks = false ∧
      (memtable.id ∈ (s.trees ks).takenIds → memtable.id ∈ (next.trees ks).takenIds)

section Claims

variable {ks : Keyspace} {memtable : Memtable E} (member : memtable ∈ (next.trees ks).sealedMemtables)
include member

theorem keeps_same (tree : next.trees ks = s.trees ks) (tasks : next.tasks = s.tasks) (free : old.serves ks = false) :
    Keeps s next old phase ks memtable := by
  rw [tree] at member
  exact .inr ⟨member, fun queued => tasks ▸ queued, free, fun taken => tree ▸ taken⟩

theorem keeps_offered (offered : Offered s next) (free : old.serves ks = false) : Keeps s next old phase ks memtable :=
  keeps_same member (congrFun offered.trees ks) offered.tasks free

omit member

variable {current : Keyspace}

theorem keeps_written (items : List (Keyspace × E)) (member : memtable ∈ ((items.foldl Schedule.put s).trees ks).sealedMemtables)
    (free : old.serves ks = false) : Keeps s (items.foldl Schedule.put s) old phase ks memtable := by
  have filled := filled_writes s items
  rw [filled.sealed ks] at member
  refine .inr ⟨member, fun queued => filled.tasks ▸ queued, free, ?_⟩
  unfold MemTree.takenIds
  rw [filled.flush ks]
  exact id

-- The thread that has sealed a memtable is going to queue its flush.
theorem keeps_rotated (member : memtable ∈ ((s.setTree current (s.trees current).rotateMemtable).trees ks).sealedMemtables)
    (free : old.serves ks = false) :
    Keeps s (s.setTree current (s.trees current).rotateMemtable) old (.enqueueing current) ks memtable := by
  by_cases here : current = ks
  · exact .inl (.inr (.inl (decide_eq_true here)))
  · exact keeps_same member (Function.update_of_ne (Ne.symm here) _ _) rfl free

theorem keeps_dequeued (rest : List Keyspace) (first : s.tasks = current :: rest)
    (member : memtable ∈ (s.trees ks).sealedMemtables) :
    Keeps s { s with tasks := rest } .dequeuing (.journaling current) ks memtable := by
  by_cases here : current = ks
  · exact .inl (.inr (.inl (decide_eq_true here)))
  · refine .inr ⟨member, fun queued => ?_, rfl, id⟩
    rw [first] at queued
    exact (List.mem_cons.mp queued).resolve_left (Ne.symm here)

-- A flush takes all the sealed memtables of its keyspace.
theorem keeps_flushed (some : (s.trees current).sealedMemtables ≠ [])
    (member : memtable ∈ ((s.setTree current ((s.trees current).startFlush size)).trees ks).sealedMemtables) :
    Keeps s (s.setTree current ((s.trees current).startFlush size)) (.flushing current) (.writing current) ks memtable := by
  by_cases here : current = ks
  · subst here
    obtain ⟨sealed, taken, -⟩ := start_flush_taken size _ some
    simp only [Keeps, Schedule.setTree, Function.update_self] at member ⊢
    rw [taken]
    exact .inl (.inr (.inr (List.mem_map_of_mem (sealed ▸ member))))
  · exact keeps_same member (Function.update_of_ne (Ne.symm here) _ _) rfl (decide_eq_false here)

-- What is left of them once its tables are registered, it had not taken.
theorem keeps_registered {next : Schedule Keyspace E} (sealedIds : List Nat) (flushedSize : Nat) (tasks : next.tasks = s.tasks)
    (writing : (s.trees current).flush = .writing sealedIds flushedSize)
    (trees : next.trees = Function.update s.trees current
      { (s.trees current).registerTables sealedIds flushedSize with flush := .idle })
    (member : memtable ∈ (next.trees ks).sealedMemtables) : Keeps s next (.writing current) phase ks memtable := by
  by_cases here : ks = current
  · subst here
    rw [trees, Function.update_self] at member
    simp only [MemTree.registerTables, MemTree.without, List.mem_filter] at member
    refine .inr ⟨member.1, fun queued => tasks ▸ queued, rfl, fun taken => ?_⟩
    rw [MemTree.takenIds, writing] at taken
    exact absurd taken (by simpa using member.2)
  · exact keeps_same member (by rw [trees, Function.update_of_ne here]) tasks rfl

end Claims

theorem act_claims (act : Act size poolSize i s old m next phase) (well : m ≠ .fail) (ks : Keyspace) (memtable : Memtable E)
    (member : memtable ∈ (next.trees ks).sealedMemtables) : Keeps s next old phase ks memtable := by
  cases act with
  | write items todo client healthy distinct touched => exact keeps_written items member rfl
  | clear current client healthy =>
    by_cases here : ks = current
    · subst here
      simp [Schedule.setTree, MemTree.clear] at member
    · exact keeps_same member (Function.update_of_ne here _ _) rfl rfl
  | rotate current client rotates => exact keeps_rotated member rfl
  | check current todo large => exact keeps_offered member (offered_check s current large) rfl
  | rotateMemtable current memtableId rotates => exact keeps_rotated member rfl
  | enqueue current room =>
    by_cases here : current = ks
    · exact .inl (.inl (by simp [here]))
    · exact .inr ⟨member, fun queued => List.mem_append_left _ queued, decide_eq_false here, id⟩
  | dequeue current rest first => exact keeps_dequeued rest first member
  | rotateJournal current stragglers =>
    by_cases here : current = ks
    · exact .inl (.inr (.inl (decide_eq_true here)))
    · exact keeps_offered member (offered_stragglers s stragglers) (decide_eq_false here)
  | flush current unlocked some => exact keeps_flushed some member
  | nothing current unlocked none =>
    refine keeps_same member rfl rfl (decide_eq_false ?_)
    rintro rfl
    rw [none] at member
    cases member
  | registerTables current sealedIds flushedSize writing => exact keeps_registered sealedIds flushedSize rfl writing rfl member
  | announce current => exact keeps_offered member (offered_compactions s poolSize current) rfl
  | tickFails phase worker fallible => exact absurd rfl well
  | flushFails current worker => exact absurd rfl well
  | callFails client => exact absurd rfl well
  | _ => exact keeps_same member rfl rfl rfl

theorem offered_count (offered : Offered s next) : next.channel.count .flush = s.channel.count .flush := by
  obtain ⟨items, posted, noFlush, -⟩ := offered.posted
  rw [posted, List.count_append, List.count_eq_zero.mpr noFlush, Nat.add_zero]

theorem act_told (act : Act size poolSize i s old m next phase) :
    next.tasks = [] ∨
      next.tasks.length + s.channel.count .flush + (if old.tells then 1 else 0) ≤
        s.tasks.length + next.channel.count .flush + if phase.tells then 1 else 0 := by
  cases act with
  | write items todo client healthy distinct touched =>
    have filled := filled_writes s items
    rw [filled.tasks, filled.channel]
    exact .inr (Nat.le_refl _)
  | check current todo large =>
    have offered := offered_check s current large
    rw [offered.tasks, offered_count offered]
    exact .inr (Nat.le_refl _)
  | receive item rest worker first =>
    right
    rw [first]
    cases item with
    | flush =>
      simp only [Phase.receiving, Phase.tells, List.count_cons_self, Bool.false_eq_true, if_true, if_false]
      omega
    | close => simp [Phase.receiving, Phase.tells]
    | rotateMemtable ks memtableId => simp [Phase.receiving, Phase.tells]
    | compact ks => rcases receiving_compact poolSize i ks with same | same <;> simp [same, Phase.tells]
  | enqueue current room =>
    right
    simp only [Phase.tells, List.length_append, List.length_singleton, Bool.false_eq_true, if_true, if_false]
    omega
  | notify room =>
    right
    simp only [Phase.tells, List.count_append, List.count_singleton_self, Bool.false_eq_true, if_true, if_false]
    omega
  | resend current room => simp [Phase.tells]
  | dequeue current rest first =>
    right
    simp only [first, Phase.tells, List.length_cons, Bool.false_eq_true, if_true, if_false]
    omega
  | empty none => exact .inl none
  | rotateJournal current stragglers =>
    have offered := offered_stragglers s stragglers
    rw [offered.tasks, offered_count offered]
    exact .inr (Nat.le_refl _)
  | announce current =>
    have offered := offered_compactions s poolSize current
    rw [offered.tasks, offered_count offered]
    exact .inr (Nat.le_refl _)
  | tickFails phase worker fallible =>
    rcases fallible with rfl | ⟨current, rfl⟩ | ⟨current, rfl⟩ <;> exact .inr (Nat.le_refl _)
  | _ => exact .inr (Nat.le_refl _)

-- A step that goes well takes the flush lock of a keyspace where it is free, gives it
-- back, or leaves it to the thread that has it.
theorem act_lock (act : Act size poolSize i s old m next phase) (well : m ≠ .fail) (ks : Keyspace) :
    ((next.trees ks).flush = (s.trees ks).flush ∧ (old = .writing ks ↔ phase = .writing ks)) ∨
      (old ≠ .writing ks ∧ phase = .writing ks ∧ (s.trees ks).flush = .idle ∧
        ∃ sealedIds flushedSize, (next.trees ks).flush = .writing sealedIds flushedSize) ∨
      (old = .writing ks ∧ phase ≠ .writing ks ∧ (next.trees ks).flush = .idle) := by
  have same : ∀ (current : Keyspace) (t : MemTree E), t.flush = (s.trees current).flush →
      ((s.setTree current t).trees ks).flush = (s.trees ks).flush := by
    intro current t kept
    by_cases here : ks = current
    · subst here
      simpa only [Schedule.setTree, Function.update_self] using kept
    · simp only [Schedule.setTree, Function.update_of_ne here]
  cases act with
  | write items todo client healthy distinct touched => exact .inl ⟨(filled_writes s items).flush ks, by simp⟩
  | clear current client healthy => exact .inl ⟨same current _ rfl, by simp⟩
  | rotate current client rotates => exact .inl ⟨same current _ (by rw [(load_rotated _ _ rotates).1]), by simp⟩
  | check current todo large => exact .inl ⟨by rw [(offered_check s current large).trees], by simp⟩
  | receive item rest worker first =>
    refine .inl ⟨rfl, by simp, fun impossible => ?_⟩
    cases item with
    | compact current => rcases receiving_compact poolSize i current with shape | shape <;> rw [shape] at impossible <;> cases impossible
    | _ => cases impossible
  | rotateMemtable current memtableId rotates => exact .inl ⟨same current _ (by rw [(load_rotated _ _ rotates).1]), by simp⟩
  | rotateJournal current stragglers => exact .inl ⟨by rw [(offered_stragglers s stragglers).trees], by simp⟩
  | flush current unlocked some =>
    obtain ⟨-, -, flushedSize, taken⟩ := start_flush_taken size _ some
    by_cases here : current = ks
    · subst here
      refine .inr (.inl ⟨by simp, rfl, unlocked, (s.trees current).sealedMemtables.map Memtable.id, flushedSize, ?_⟩)
      simpa only [Schedule.setTree, Function.update_self] using taken
    · refine .inl ⟨?_, by simp [here]⟩
      simp only [Schedule.setTree, Function.update_of_ne (Ne.symm here)]
  | registerTables current sealedIds flushedSize writing =>
    by_cases here : current = ks
    · subst here
      refine .inr (.inr ⟨rfl, by simp, ?_⟩)
      simp [Schedule.setTree]
    · refine .inl ⟨?_, by simp [here]⟩
      simp only [Schedule.setTree, Function.update_of_ne (Ne.symm here)]
  | announce current => exact .inl ⟨by rw [(offered_compactions s poolSize current).trees], by simp⟩
  | tickFails phase worker fallible => exact absurd rfl well
  | flushFails current worker => exact absurd rfl well
  | callFails client => exact absurd rfl well
  | _ => exact .inl ⟨rfl, by simp⟩

theorem locked_step (here : crew.phases[i]? = some old)
    (act : Act size poolSize i crew.shared old m next phase) (well : m ≠ .fail) (ks : Keyspace) (locked : Locked crew ks) :
    Locked ⟨next, crew.phases.set i phase⟩ ks := by
  have counted := crew_count (fun phase => decide (phase = .writing ks)) crew.phases i old phase here
  unfold Locked
  dsimp only
  rcases act_lock act well ks with ⟨same, alike⟩ | ⟨before, after, unlocked, taken⟩ | ⟨before, after, released⟩
  · have count : (crew.phases.set i phase).countP (fun phase => decide (phase = .writing ks)) =
        crew.phases.countP (fun phase => decide (phase = .writing ks)) := by
      by_cases writing : old = .writing ks
      · rw [if_pos (decide_eq_true writing), if_pos (decide_eq_true (alike.mp writing))] at counted
        exact Nat.add_right_cancel counted
      · rw [if_neg (by simpa using writing), if_neg (by simpa using mt alike.mpr writing)] at counted
        exact counted
    rw [same, count]
    exact locked
  · rw [if_neg (by simpa using before), if_pos (decide_eq_true after)] at counted
    rcases locked with ⟨-, none⟩ | ⟨ids, bytes, writing, -⟩
    · obtain ⟨sealedIds, flushedSize, written⟩ := taken
      exact .inr ⟨sealedIds, flushedSize, written, by omega⟩
    · rw [unlocked] at writing
      cases writing
  · rw [if_pos (decide_eq_true before), if_neg (by simpa using after)] at counted
    rcases locked with ⟨-, none⟩ | ⟨ids, bytes, writing, one⟩
    · omega
    · exact .inl ⟨released, by omega⟩

theorem act_running (act : Act size poolSize i s old m next phase) (well : m ≠ .fail) (unclosed : .close ∉ s.channel) :
    phase.ended = false ∧ .close ∉ next.channel := by
  have offered : ∀ {next : Schedule Keyspace E}, Offered s next → .close ∉ next.channel := by
    intro next offered
    obtain ⟨items, posted, -, noClose⟩ := offered.posted
    rw [posted]
    exact fun member => (List.mem_append.mp member).elim unclosed noClose
  cases act with
  | write items todo client healthy distinct touched => exact ⟨rfl, (filled_writes s items).channel ▸ unclosed⟩
  | check current todo large => exact ⟨rfl, offered (offered_check s current large)⟩
  | receive item rest worker first =>
    rw [first] at unclosed
    obtain ⟨notClose, rest⟩ := List.ne_and_not_mem_of_not_mem_cons unclosed
    refine ⟨?_, rest⟩
    cases item with
    | close => exact absurd rfl notClose
    | compact current => rcases receiving_compact poolSize i current with same | same <;> rw [same] <;> rfl
    | _ => rfl
  | notify room => exact ⟨rfl, by simpa using unclosed⟩
  | rotateJournal current stragglers => exact ⟨rfl, offered (offered_stragglers s stragglers)⟩
  | announce current => exact ⟨rfl, offered (offered_compactions s poolSize current)⟩
  | resend current room => exact ⟨rfl, by simpa using unclosed⟩
  | tickFails phase worker fallible => exact absurd rfl well
  | flushFails current worker => exact absurd rfl well
  | callFails client => exact absurd rfl well
  | _ => exact ⟨rfl, unclosed⟩

theorem claimed_step (here : crew.phases[i]? = some old)
    (act : Act size poolSize i crew.shared old m next phase) (well : m ≠ .fail) (ks : Keyspace)
    (claimed : ∀ memtable ∈ (crew.shared.trees ks).sealedMemtables, Claimed crew ks memtable.id) (memtable : Memtable E)
    (member : memtable ∈ (next.trees ks).sealedMemtables) : Claimed ⟨next, crew.phases.set i phase⟩ ks memtable.id := by
  rcases act_claims act well ks memtable member with (queued | serving | taken) | ⟨before, tasks, idle, taken⟩
  · exact .inl queued
  · exact .inr (.inl ⟨phase, crew_moved crew.phases i old phase here, serving⟩)
  · exact .inr (.inr taken)
  · rcases claimed memtable before with queued | served | flushed
    · exact .inl (tasks queued)
    · refine .inr (.inl (crew_some (fun phase => phase.serves ks = true) crew.phases i old phase here served fun serving => ?_))
      rw [idle] at serving
      cases serving
    · exact .inr (.inr (taken flushed))

end

theorem scheduled_step {crew next : Crew (Schedule Keyspace E) (Phase Keyspace)} {label : Nat × Move Keyspace E}
    (scheduled : Scheduled poolSize crew) (well : label.2 ≠ .fail) (step : CrewStep (Act size poolSize) crew label next) :
    Scheduled poolSize next := by
  have length := crew_length step
  cases step with
  | move i m old shared phase here act =>
    obtain ⟨running, unclosed⟩ := act_running act well scheduled.unclosed
    constructor
    · exact length ▸ scheduled.manned
    · intro j point worker place
      refine crew_all (fun j point => j < poolSize → point.writes = false) crew.phases i phase ?_ ?_ j point place worker
      · exact fun ours => act_writes act ours (scheduled.workers i old ours here)
      · exact fun j point _ place ours => scheduled.workers j point ours place
    · intro point member
      obtain ⟨j, place⟩ := List.mem_iff_getElem?.mp member
      exact crew_all (fun _ point => point.ended = false) crew.phases i phase running
        (fun j point _ place => scheduled.running point (List.mem_iff_getElem?.mpr ⟨j, place⟩)) j point place
    · exact unclosed
    · exact fun ks => claimed_step here act well ks (scheduled.claimed ks)
    · have counted := crew_count Phase.tells crew.phases i old phase here
      have before := scheduled.told
      rcases act_told act with none | change
      · simp [none]
      · dsimp only
        omega
    · exact fun ks => locked_step here act well ks (scheduled.locked ks)

-- What recovery leaves behind: no flush is running, and every keyspace that has sealed
-- memtables is queued.
structure Recovered (trees : Keyspace → MemTree E) (recovered : List Keyspace) : Prop where
  idle : ∀ ks, (trees ks).flush = .idle
  queued : ∀ ks, (trees ks).sealedMemtables ≠ [] → ks ∈ recovered

theorem scheduled_opened (clients : Nat) (trees : Keyspace → MemTree E) (l0RunCount : Keyspace → Nat) (recovered : List Keyspace)
    (initial : Recovered trees recovered) : Scheduled poolSize (Crew.opened poolSize clients trees l0RunCount recovered) := by
  have idle : ∀ phase ∈ (Crew.opened poolSize clients trees l0RunCount recovered).phases, phase = .idle := fun phase member =>
    List.eq_of_mem_replicate member
  constructor
  · simp [Crew.opened]
  · intro i phase _ place
    rw [idle phase (List.mem_iff_getElem?.mpr ⟨i, place⟩)]
    rfl
  · intro phase member
    rw [idle phase member]
    rfl
  · simp [Crew.opened, Schedule.opened]
  · exact fun ks memtable member => .inl (initial.queued ks (List.ne_nil_of_mem member))
  · have posted : (recovered.map fun _ => (.flush : WorkerMessage Keyspace)) = List.replicate recovered.length .flush :=
      List.map_const'
    simp only [Crew.opened, Schedule.opened, posted, List.count_replicate_self]
    exact Nat.le_add_right _ _
  · refine fun ks => .inl ⟨initial.idle ks, ?_⟩
    simp [Crew.opened, List.countP_replicate]

-- What a thread is waiting for, if it cannot go on by itself.
def Waits (poolSize : Nat) (s : Schedule Keyspace E) (i : Nat) : Phase Keyspace → Prop
  | .idle => i < poolSize → s.channel = []
  | .halted ks _ => 30 ≤ s.l0RunCount ks
  | .throttled ks _ => 4 ≤ s.sealedMemtableCount ks
  | .enqueueing _ => taskCapacity ≤ s.tasks.length
  | .notifying | .resending _ => channelCapacity ≤ s.channel.length
  | .flushing ks => (s.trees ks).flush ≠ .idle
  | .closed | .crashed => True
  | _ => False

def GoesOn (size : E → Nat) (poolSize : Nat) (crew : Crew (Schedule Keyspace E) (Phase Keyspace)) : Prop :=
  ∃ i m next, m.carriesOn = true ∧ CrewStep (Act size poolSize) crew (i, m) next

theorem goes_on_or_waits (crew : Crew (Schedule Keyspace E) (Phase Keyspace)) (scheduled : Scheduled poolSize crew) (i : Nat)
    (phase : Phase Keyspace) (here : crew.phases[i]? = some phase) : GoesOn size poolSize crew ∨ Waits poolSize crew.shared i phase := by
  have moves : ∀ (m : Move Keyspace E) (next : Schedule Keyspace E) (after : Phase Keyspace), m.carriesOn = true →
      Act size poolSize i crew.shared phase m next after → GoesOn size poolSize crew := fun m next after on act =>
    ⟨i, m, _, on, .move crew i m phase next after here act⟩
  cases phase with
  | idle =>
    by_cases worker : i < poolSize
    · cases first : crew.shared.channel with
      | nil => exact .inr fun _ => first
      | cons item rest => exact .inl (moves .receive _ _ rfl (.receive i _ item rest worker first))
    · exact .inr fun impossible => absurd impossible worker
  | checking todo =>
    cases todo with
    | nil => exact .inl (moves .finish _ _ rfl (.finish i _))
    | cons ks todo => exact .inl (moves (.check false) _ _ rfl (.check i _ ks todo false))
  | halted ks todo =>
    rcases Nat.lt_or_ge (crew.shared.l0RunCount ks) 30 with below | above
    · exact .inl (moves .unhalt _ _ rfl (.unhalt i _ ks todo below))
    · exact .inr above
  | throttled ks todo =>
    rcases Nat.lt_or_ge (crew.shared.sealedMemtableCount ks) 4 with below | above
    · exact .inl (moves .resume _ _ rfl (.resume i _ ks todo below))
    · exact .inr above
  | rotating ks memtableId =>
    by_cases rotates : (crew.shared.trees ks).Rotates memtableId
    · exact .inl (moves .rotateMemtable _ _ rfl (.rotateMemtable i _ ks memtableId rotates))
    · exact .inl (moves .rotateMemtable _ _ rfl (.beaten i _ ks memtableId rotates))
  | enqueueing ks =>
    rcases Nat.lt_or_ge crew.shared.tasks.length taskCapacity with room | full
    · exact .inl (moves .enqueue _ _ rfl (.enqueue i _ ks room))
    · exact .inr full
  | notifying =>
    rcases Nat.lt_or_ge crew.shared.channel.length channelCapacity with room | full
    · exact .inl (moves .notify _ _ rfl (.notify i _ room))
    · exact .inr full
  | maintaining => exact .inl (moves .maintain _ _ rfl (.maintain i _))
  | dequeuing =>
    cases first : crew.shared.tasks with
    | nil => exact .inl (moves .dequeue _ _ rfl (.empty i _ first))
    | cons ks rest => exact .inl (moves .dequeue _ _ rfl (.dequeue i _ ks rest first))
  | journaling ks => exact .inl (moves (.rotateJournal []) _ _ rfl (.rotateJournal i _ ks []))
  | flushing ks =>
    by_cases unlocked : (crew.shared.trees ks).flush = .idle
    · by_cases none : (crew.shared.trees ks).sealedMemtables = []
      · exact .inl (moves .flush _ _ rfl (.nothing i _ ks unlocked none))
      · exact .inl (moves .flush _ _ rfl (.flush i _ ks unlocked none))
    · exact .inr unlocked
  | writing ks =>
    rcases scheduled.locked ks with ⟨-, none⟩ | ⟨sealedIds, flushedSize, writing, -⟩
    · exact absurd (List.countP_eq_zero.mp none (.writing ks) (List.mem_iff_getElem?.mpr ⟨i, here⟩)) (by simp)
    · exact .inl (moves .registerTables _ _ rfl (.registerTables i _ ks sealedIds flushedSize writing))
  | announcing ks => exact .inl (moves .announce _ _ rfl (.announce i _ ks))
  | compacting ks => exact .inl (moves (.compact _) _ _ rfl (.compact i _ ks _ (Nat.le_refl _)))
  | resending ks =>
    rcases Nat.lt_or_ge crew.shared.channel.length channelCapacity with room | full
    · exact .inl (moves .resend _ _ rfl (.resend i _ ks room))
    · exact .inr full
  | closed => exact .inr trivial
  | crashed => exact .inr trivial

-- A thread that waits for room in a full queue.
def Blocked (s : Schedule Keyspace E) : Phase Keyspace → Prop
  | .enqueueing _ => taskCapacity ≤ s.tasks.length
  | .notifying | .resending _ => channelCapacity ≤ s.channel.length
  | _ => False

section

variable (crew : Crew (Schedule Keyspace E) (Phase Keyspace)) (scheduled : Scheduled poolSize crew)
  (stuck : ∀ i phase, crew.phases[i]? = some phase → Waits poolSize crew.shared i phase)
include scheduled stuck

-- Where nobody goes on, the tasks that are queued still have their messages.
theorem stuck_channel (queued : crew.shared.tasks ≠ []) : crew.shared.channel ≠ [] := by
  intro empty
  have told := scheduled.told
  rw [empty, List.count_nil, Nat.zero_add] at told
  have some : 0 < crew.phases.countP Phase.tells := Nat.lt_of_lt_of_le (List.length_pos_of_ne_nil queued) told
  obtain ⟨phase, member, tells⟩ := List.countP_pos_iff.mp some
  obtain ⟨i, here⟩ := List.mem_iff_getElem?.mp member
  have waits := stuck i phase here
  cases phase with
  | notifying =>
    have full : channelCapacity ≤ crew.shared.channel.length := waits
    rw [empty, List.length_nil] at full
    exact absurd full (by decide)
  | dequeuing => exact waits
  | _ => cases tells

theorem stuck_unlocked (ks : Keyspace) : (crew.shared.trees ks).flush = .idle := by
  rcases scheduled.locked ks with ⟨idle, -⟩ | ⟨_, _, -, one⟩
  · exact idle
  · obtain ⟨phase, member, writing⟩ := List.countP_pos_iff.mp (Nat.lt_of_lt_of_eq Nat.zero_lt_one one.symm)
    obtain ⟨i, here⟩ := List.mem_iff_getElem?.mp member
    rw [of_decide_eq_true writing] at here
    exact absurd (stuck i _ here) id

theorem stuck_tasks (ks : Keyspace) (sealed : (crew.shared.trees ks).sealedMemtables ≠ []) : crew.shared.tasks ≠ [] := by
  have unlocked := stuck_unlocked crew scheduled stuck
  obtain ⟨memtable, member⟩ := List.exists_mem_of_ne_nil _ sealed
  rcases scheduled.claimed ks memtable member with queued | ⟨phase, serving, serves⟩ | taken
  · exact List.ne_nil_of_mem queued
  · obtain ⟨i, here⟩ := List.mem_iff_getElem?.mp serving
    have waits := stuck i phase here
    cases phase with
    | enqueueing current =>
      rintro empty
      have full : taskCapacity ≤ crew.shared.tasks.length := waits
      rw [empty, List.length_nil] at full
      exact absurd full (by decide)
    | journaling current => exact absurd waits id
    | flushing current => exact absurd (unlocked current) waits
    | _ => cases serves
  · rw [MemTree.takenIds, unlocked ks] at taken
    cases taken

end

-- As long as no call of a worker fails, a sealed memtable is never forgotten: some
-- thread can go on with what it is at, or else every worker waits for room in a queue
-- that only the workers empty.
theorem sealed_memtable_waits_on_full_queues (clients : Nat) (trees : Keyspace → MemTree E) (l0RunCount : Keyspace → Nat)
    (recovered : List Keyspace) (initial : Recovered trees recovered) (moves : List (Nat × Move Keyspace E))
    (crew : Crew (Schedule Keyspace E) (Phase Keyspace))
    (run : Run (Guarded (CrewStep (Act size poolSize)) fun _ label => label.2 ≠ .fail)
      (Crew.opened poolSize clients trees l0RunCount recovered) moves crew)
    (ks : Keyspace) (sealed : (crew.shared.trees ks).sealedMemtables ≠ []) :
    GoesOn size poolSize crew ∨ ∀ i, i < poolSize → ∃ phase, crew.phases[i]? = some phase ∧ Blocked crew.shared phase := by
  have scheduled := run_invariant _ (Scheduled poolSize) (fun _ _ _ holds guarded => scheduled_step holds guarded.1 guarded.2) run
    (scheduled_opened clients trees l0RunCount recovered initial)
  by_cases on : GoesOn size poolSize crew
  · exact .inl on
  have stuck : ∀ i phase, crew.phases[i]? = some phase → Waits poolSize crew.shared i phase := fun i phase here =>
    (goes_on_or_waits crew scheduled i phase here).resolve_left on
  have busy := stuck_channel crew scheduled stuck (stuck_tasks crew scheduled stuck ks sealed)
  refine .inr fun i worker => ?_
  have bound : i < crew.phases.length := Nat.lt_of_lt_of_le worker scheduled.manned
  have here : crew.phases[i]? = some crew.phases[i] := List.getElem?_eq_getElem bound
  refine ⟨_, here, ?_⟩
  have waits := stuck i _ here
  have writes := scheduled.workers i _ worker here
  have running := scheduled.running _ (List.getElem_mem bound)
  cases phase : crew.phases[i] with
  | idle =>
    rw [phase] at waits
    exact absurd (waits worker) busy
  | enqueueing current | notifying | resending current =>
    rw [phase] at waits
    exact waits
  | flushing current =>
    rw [phase] at waits
    exact absurd (stuck_unlocked crew scheduled stuck current) waits
  | halted current todo | throttled current todo =>
    rw [phase] at writes
    cases writes
  | closed | crashed =>
    rw [phase] at running
    cases running
  | _ =>
    rw [phase] at waits
    exact waits

theorem sealed_memtable_goes_on :
    ∃ crew : Crew (Schedule Nat Nat) (Phase Nat), crew.shared.sealedMemtableCount 7 = 1 ∧ crew.shared.tasks = [] ∧ GoesOn id 1 crew := by
  have run : ∃ crew : Crew (Schedule Nat Nat) (Phase Nat),
      Run (Guarded (CrewStep (Act id 1)) fun _ label => label.2 ≠ .fail) (Crew.opened 1 1 (fun _ => .empty) (fun _ => 0) [])
        [(1, .write [(7, 70)]), (1, .check true), (0, .receive), (0, .rotateMemtable)] crew ∧
        crew.shared.sealedMemtableCount 7 = 1 ∧ crew.shared.tasks = [] ∧ crew.phases[0]? = some (.enqueueing 7) :=
    ⟨_, .cons _ _ ⟨by simp, .move _ _ _ _ _ _ rfl (.write 1 _ _ [7] (by decide) rfl (by decide) (by simp))⟩
      (.cons _ _ ⟨by simp, .move _ _ _ _ _ _ rfl (.check 1 _ 7 [] true)⟩
      (.cons _ _ ⟨by simp, .move _ _ _ _ _ _ rfl (.receive 0 _ (.rotateMemtable 7 0) [] (by decide) rfl)⟩
      (.cons _ _ ⟨by simp, .move _ _ _ _ _ _ rfl (.rotateMemtable 0 _ 7 0 ⟨rfl, by decide⟩)⟩ (.nil _)))), rfl, rfl, rfl⟩
  obtain ⟨crew, run, sealed, tasks, worker⟩ := run
  have initial : Recovered (fun _ : Nat => (.empty : MemTree Nat)) [] := ⟨fun _ => rfl, fun _ some => absurd rfl some⟩
  refine ⟨crew, sealed, tasks, ?_⟩
  have busy : (crew.shared.trees 7).sealedMemtables ≠ [] := by
    intro none
    rw [Schedule.sealedMemtableCount, none] at sealed
    cases sealed
  rcases sealed_memtable_waits_on_full_queues 1 _ _ _ initial _ crew run 7 busy with on | blocked
  · exact on
  · obtain ⟨phase, here, full⟩ := blocked 0 (by decide)
    rw [worker] at here
    cases here
    rw [Blocked, tasks] at full
    exact absurd full (by decide)

end OmryaKv.Background
