import OmryaKv.Background.FlushProgress

set_option autoImplicit false

namespace OmryaKv.Background

open Lib

section Stuck

variable {Keyspace E : Type} [DecidableEq Keyspace] {size : E → Nat} {poolSize : Nat}

-- Only workers take messages out of the channel.
theorem act_channel {i : Nat} {s next : Schedule Keyspace E} {old phase : Phase Keyspace} {m : Move Keyspace E}
    (act : Act size poolSize i s old m next phase) (client : poolSize ≤ i) : s.channel.length ≤ next.channel.length := by
  have offered : ∀ {next : Schedule Keyspace E}, Offered s next → s.channel.length ≤ next.channel.length := by
    intro next offered
    obtain ⟨items, posted, -⟩ := offered.posted
    rw [posted, List.length_append]
    exact Nat.le_add_right _ _
  cases act with
  | write items todo client healthy distinct touched => rw [(filled_writes s items).channel]
  | check current todo large => exact offered (offered_check s current large)
  | receive item rest worker first => omega
  | notify room => simp
  | rotateJournal current stragglers => exact offered (offered_stragglers s stragglers)
  | announce current => exact offered (offered_compactions s poolSize current)
  | resend current room => simp
  | _ => exact Nat.le_refl _

-- Every worker has rotated a memtable and wants to post the message about it.
structure Wedged (poolSize : Nat) (crew : Crew (Schedule Keyspace E) (Phase Keyspace)) : Prop where
  workers : ∀ i, i < poolSize → crew.phases[i]? = some .notifying
  full : channelCapacity ≤ crew.shared.channel.length

theorem wedged_step {crew next : Crew (Schedule Keyspace E) (Phase Keyspace)} {label : Nat × Move Keyspace E}
    (wedged : Wedged poolSize crew) (step : CrewStep (Act size poolSize) crew label next) :
    Wedged poolSize next ∧ poolSize ≤ label.1 := by
  cases step with
  | move i m old shared phase here act =>
    have client : poolSize ≤ i := by
      by_contra worker
      rw [wedged.workers i (Nat.lt_of_not_le worker)] at here
      cases here
      cases act with
      | notify room => exact absurd wedged.full (Nat.not_le.mpr room)
      | tickFails _ worker fallible => rcases fallible with impossible | ⟨_, impossible⟩ | ⟨_, impossible⟩ <;> cases impossible
    refine ⟨⟨?_, Nat.le_trans wedged.full (act_channel act client)⟩, client⟩
    intro j worker
    rw [List.getElem?_set_ne (by omega)]
    exact wedged.workers j worker

theorem wedged_run {crew last : Crew (Schedule Keyspace E) (Phase Keyspace)} {moves : List (Nat × Move Keyspace E)}
    (wedged : Wedged poolSize crew) (run : Run (CrewStep (Act size poolSize)) crew moves last) :
    Wedged poolSize last ∧ ∀ label ∈ moves, poolSize ≤ label.1 := by
  induction run with
  | nil crew => exact ⟨wedged, by simp⟩
  | cons label labels first _ ih =>
    obtain ⟨still, client⟩ := wedged_step wedged first
    obtain ⟨final, later⟩ := ih still
    exact ⟨final, List.forall_mem_cons.mpr ⟨client, later⟩⟩

-- The moves of a caller that writes: the write itself and what it does before it returns.
def Move.ofWrite : Move Keyspace E → Bool
  | .write _ | .check _ | .unhalt | .resume | .finish => true
  | _ => false

-- The steps of a run in which no call fails and the callers do nothing but write.
def WritingStep (size : E → Nat) (poolSize : Nat) :
    Crew (Schedule Keyspace E) (Phase Keyspace) → Nat × Move Keyspace E → Crew (Schedule Keyspace E) (Phase Keyspace) → Prop :=
  Guarded (CrewStep (Act size poolSize)) fun _ label => label.2 ≠ .fail ∧ (poolSize ≤ label.1 → label.2.ofWrite = true)

omit [DecidableEq Keyspace] in
theorem set_back (phases : List (Phase Keyspace)) (i : Nat) (here : phases[i]? = some .idle) : phases.set i .idle = phases := by
  obtain ⟨bound, same⟩ := List.getElem?_eq_some_iff.mp here
  rw [← same, List.set_getElem_self]

theorem writing_move {crew : Crew (Schedule Keyspace E) (Phase Keyspace)} {i : Nat} {m : Move Keyspace E} {old : Phase Keyspace}
    {next : Schedule Keyspace E} {phase : Phase Keyspace} (here : crew.phases[i]? = some old)
    (well : m ≠ .fail ∧ (poolSize ≤ i → m.ofWrite = true))
    (act : Act size poolSize i crew.shared old m next phase) :
    WritingStep size poolSize crew (i, m) ⟨next, crew.phases.set i phase⟩ :=
  ⟨well, .move crew i m old next phase here act⟩

-- A write to a memtable that is too large asks for its rotation and returns.
theorem large_write (size : E → Nat) (crew : Crew (Schedule Keyspace E) (Phase Keyspace)) (i : Nat) (ks : Keyspace) (entry : E)
    (client : poolSize ≤ i) (here : crew.phases[i]? = some .idle) (healthy : crew.shared.isPoisoned = false)
    (runs : crew.shared.l0RunCount ks < 30) (sealed : crew.shared.sealedMemtableCount ks < 4) :
    ∃ moves, Run (WritingStep size poolSize) crew moves ⟨(crew.shared.put (ks, entry)).requestRotation ks, crew.phases⟩ := by
  obtain ⟨bound, -⟩ := List.getElem?_eq_some_iff.mp here
  have sealedAfter : ((crew.shared.put (ks, entry)).requestRotation ks).sealedMemtableCount ks < 4 := by
    simpa [Schedule.sealedMemtableCount, Schedule.requestRotation, Schedule.trySend, Schedule.put, Schedule.setTree, MemTree.put]
      using sealed
  have placed : ∀ phases : List (Phase Keyspace), phases.length = crew.phases.length → ∀ phase, (phases.set i phase)[i]? = some phase :=
    fun phases same phase => List.getElem?_set_self (by omega)
  have run : Run (WritingStep size poolSize) crew
      [(i, .write [(ks, entry)]), (i, .check true), (i, .unhalt), (i, .resume), (i, .finish)]
      ⟨(crew.shared.put (ks, entry)).requestRotation ks,
        ((((crew.phases.set i (.checking [ks])).set i (.halted ks [])).set i (.throttled ks [])).set i (.checking [])).set i .idle⟩ :=
    .cons _ _ (writing_move here (by simp [Move.ofWrite]) (.write i _ _ [ks] client healthy (by simp) (by simp)))
      (.cons _ _ (writing_move (placed _ (by simp) _) (by simp [Move.ofWrite]) (.check i _ ks [] true))
      (.cons _ _ (writing_move (placed _ (by simp) _) (by simp [Move.ofWrite]) (.unhalt i _ ks [] runs))
      (.cons _ _ (writing_move (placed _ (by simp) _) (by simp [Move.ofWrite]) (.resume i _ ks [] sealedAfter))
      (.cons _ _ (writing_move (placed _ (by simp) _) (by simp [Move.ofWrite]) (.finish i _)) (.nil _)))))
  simp only [List.set_set, set_back _ _ here] at run
  exact ⟨_, run⟩

-- A worker seals the memtable it is asked for, queues the flush, and now wants to post
-- the message about it.
theorem worker_seals (size : E → Nat) (crew : Crew (Schedule Keyspace E) (Phase Keyspace)) (i : Nat) (ks : Keyspace) (memtableId : Nat)
    (worker : i < poolSize) (here : crew.phases[i]? = some .idle) (posted : crew.shared.channel = [.rotateMemtable ks memtableId])
    (rotates : (crew.shared.trees ks).Rotates memtableId) (room : crew.shared.tasks.length < taskCapacity) :
    ∃ moves, Run (WritingStep size poolSize) crew moves
      ⟨{ crew.shared.setTree ks (crew.shared.trees ks).rotateMemtable with channel := [], tasks := crew.shared.tasks ++ [ks] },
        crew.phases.set i .notifying⟩ := by
  obtain ⟨bound, -⟩ := List.getElem?_eq_some_iff.mp here
  have placed : ∀ phases : List (Phase Keyspace), phases.length = crew.phases.length → ∀ phase, (phases.set i phase)[i]? = some phase :=
    fun phases same phase => List.getElem?_set_self (by omega)
  have run : Run (WritingStep size poolSize) crew [(i, .receive), (i, .rotateMemtable), (i, .enqueue)]
      ⟨{ crew.shared.setTree ks (crew.shared.trees ks).rotateMemtable with channel := [], tasks := crew.shared.tasks ++ [ks] },
        ((crew.phases.set i (.rotating ks memtableId)).set i (.enqueueing ks)).set i .notifying⟩ :=
    .cons _ _ (writing_move here ⟨by simp, by omega⟩ (.receive i _ _ [] worker posted))
      (.cons _ _ (writing_move (placed _ (by simp) _) ⟨by simp, by omega⟩ (.rotateMemtable i _ ks memtableId rotates))
      (.cons _ _ (writing_move (placed _ (by simp) _) ⟨by simp, by omega⟩ (.enqueue i _ ks room)) (.nil _)))
  simp only [List.set_set] at run
  exact ⟨_, run⟩

end Stuck

section Wedge

variable (size : Nat → Nat) {poolSize : Nat}

-- The first workers have sealed a memtable each, of keyspaces of their own; the other
-- keyspaces are untouched and the channel is empty.
structure Sealing (poolSize done : Nat) (crew : Crew (Schedule Nat Nat) (Phase Nat)) : Prop where
  length : crew.phases.length = poolSize + 1
  blocked : ∀ i, i < done → crew.phases[i]? = some .notifying
  idle : ∀ i, done ≤ i → i ≤ poolSize → crew.phases[i]? = some .idle
  channel : crew.shared.channel = []
  tasks : crew.shared.tasks.length = done
  sealed : ∀ ks, ks < done → (crew.shared.trees ks).sealedMemtables ≠ []
  untouched : ∀ ks, done ≤ ks → crew.shared.trees ks = .empty
  runs : ∀ ks, crew.shared.l0RunCount ks = 0
  healthy : crew.shared.isPoisoned = false

theorem sealing_opened : Sealing poolSize 0 (Crew.opened poolSize 1 (fun _ => .empty) (fun _ => 0) []) := by
  refine ⟨by simp [Crew.opened], by simp, ?_, rfl, rfl, by simp, fun _ _ => rfl, fun _ => rfl, rfl⟩
  intro i _ bound
  exact List.getElem?_replicate_of_lt (Nat.lt_succ_of_le bound)

theorem sealing_round (done : Nat) (crew : Crew (Schedule Nat Nat) (Phase Nat)) (sealing : Sealing poolSize done crew)
    (more : done < poolSize) (room : done < taskCapacity) :
    ∃ moves next, Run (WritingStep size poolSize) crew moves next ∧ Sealing poolSize (done + 1) next := by
  have fresh := sealing.untouched done (Nat.le_refl _)
  let asked : Schedule Nat Nat := (crew.shared.put (done, 0)).requestRotation done
  have tree : asked.trees = Function.update crew.shared.trees done ⟨⟨0, [0]⟩, [], .idle⟩ := by
    change Function.update crew.shared.trees done ((crew.shared.trees done).put 0) = _
    rw [fresh]
    rfl
  have posted : asked.channel = [.rotateMemtable done 0] := by
    have channel : (crew.shared.put (done, 0)).channel = [] := sealing.channel
    have id : ((crew.shared.put (done, 0)).trees done).activeMemtable.id = 0 := by
      change (Function.update crew.shared.trees done ((crew.shared.trees done).put 0) done).activeMemtable.id = 0
      rw [Function.update_self, fresh]
      rfl
    change (if (crew.shared.put (done, 0)).channel.length < channelCapacity then _ else _) = _
    rw [channel, id]
    rfl
  obtain ⟨moves, first⟩ : ∃ moves, Run (WritingStep size poolSize) crew moves ⟨asked, crew.phases⟩ :=
    large_write size crew poolSize done 0 (Nat.le_refl _) (sealing.idle poolSize (Nat.le_of_lt more) (Nat.le_refl _)) sealing.healthy
      (by simp [sealing.runs]) (by simp [Schedule.sealedMemtableCount, fresh, MemTree.empty])
  have rotates : (asked.trees done).Rotates 0 := by
    rw [tree, Function.update_self]
    exact ⟨rfl, by simp⟩
  obtain ⟨others, second⟩ := worker_seals size ⟨asked, crew.phases⟩ done done 0 more
    (sealing.idle done (Nat.le_refl _) (Nat.le_of_lt more)) posted rotates (by rw [← sealing.tasks] at room; exact room)
  refine ⟨_, _, run_append first second, ?_⟩
  constructor
  · simpa using sealing.length
  · intro i early
    by_cases here : i = done
    · subst here
      exact List.getElem?_set_self (by have length := sealing.length; simp only; omega)
    · rw [List.getElem?_set_ne (Ne.symm here)]
      exact sealing.blocked i (by omega)
  · intro i late bound
    rw [List.getElem?_set_ne (by omega)]
    exact sealing.idle i (by omega) bound
  · rfl
  · change (crew.shared.tasks ++ [done]).length = _
    simp [sealing.tasks]
  · intro ks early
    change (Function.update asked.trees done (asked.trees done).rotateMemtable ks).sealedMemtables ≠ []
    by_cases here : ks = done
    · subst here
      rw [Function.update_self, (load_rotated _ _ rotates).1]
      exact List.cons_ne_nil _ _
    · rw [Function.update_of_ne here, tree, Function.update_of_ne here]
      exact sealing.sealed ks (by omega)
  · intro ks late
    change Function.update asked.trees done (asked.trees done).rotateMemtable ks = _
    rw [Function.update_of_ne (by omega), tree, Function.update_of_ne (by omega)]
    exact sealing.untouched ks (by omega)
  · exact sealing.runs
  · exact sealing.healthy

theorem sealing_run (done : Nat) (reached : done ≤ poolSize) (few : poolSize ≤ taskCapacity) :
    ∃ moves crew, Run (WritingStep size poolSize) (Crew.opened poolSize 1 (fun _ => .empty) (fun _ => 0) []) moves crew ∧
      Sealing poolSize done crew := by
  induction done with
  | zero => exact ⟨[], _, .nil _, sealing_opened⟩
  | succ done ih =>
    obtain ⟨moves, crew, run, sealing⟩ := ih (Nat.le_of_succ_le reached)
    obtain ⟨others, next, round, sealed⟩ := sealing_round size done crew sealing reached (by omega)
    exact ⟨_, next, run_append run round, sealed⟩

-- While no worker receives, a caller that keeps writing fills the channel with its requests.
structure Filling (poolSize : Nat) (crew : Crew (Schedule Nat Nat) (Phase Nat)) : Prop where
  blocked : ∀ i, i < poolSize → crew.phases[i]? = some .notifying
  idle : crew.phases[poolSize]? = some .idle
  unsealed : (crew.shared.trees poolSize).sealedMemtables = []
  sealed : ∀ ks, ks < poolSize → (crew.shared.trees ks).sealedMemtables ≠ []
  runs : crew.shared.l0RunCount poolSize = 0
  healthy : crew.shared.isPoisoned = false

theorem filling_run (short : Nat) (crew : Crew (Schedule Nat Nat) (Phase Nat)) (filling : Filling poolSize crew)
    (left : crew.shared.channel.length + short = channelCapacity) :
    ∃ moves next, Run (WritingStep size poolSize) crew moves next ∧ Wedged poolSize next ∧
      ∀ ks, ks < poolSize → (next.shared.trees ks).sealedMemtables ≠ [] := by
  induction short generalizing crew with
  | zero => exact ⟨[], crew, .nil _, ⟨filling.blocked, Nat.le_of_eq left.symm⟩, filling.sealed⟩
  | succ short ih =>
    obtain ⟨moves, first⟩ := large_write size crew poolSize poolSize 0 (Nat.le_refl _) filling.idle filling.healthy
      (by simp [filling.runs]) (by simp [Schedule.sealedMemtableCount, filling.unsealed])
    have room : crew.shared.channel.length < channelCapacity := by omega
    have sealed : ∀ ks, (((crew.shared.put (poolSize, 0)).requestRotation poolSize).trees ks).sealedMemtables =
        (crew.shared.trees ks).sealedMemtables := (filled_writes crew.shared [(poolSize, 0)]).sealed
    have next : Filling poolSize ⟨(crew.shared.put (poolSize, 0)).requestRotation poolSize, crew.phases⟩ :=
      ⟨filling.blocked, filling.idle, (sealed poolSize).trans filling.unsealed,
        fun ks early => (sealed ks).symm ▸ filling.sealed ks early, filling.runs, filling.healthy⟩
    obtain ⟨others, last, rest, done⟩ := ih _ next (by
      change (if crew.shared.channel.length < channelCapacity then crew.shared.channel ++ [_] else _).length + short = _
      rw [if_pos room, List.length_append, List.length_singleton]
      omega)
    exact ⟨_, last, run_append first rest, done⟩

-- With any number of workers, writes alone can bring the pool to a halt for good: each
-- worker has sealed a memtable and waits to post its message into a channel that is
-- full, and that only the workers empty.
theorem writes_can_wedge_pool (poolSize : Nat) (few : poolSize ≤ taskCapacity) :
    ∃ moves crew, Run (WritingStep size poolSize) (Crew.opened poolSize 1 (fun _ => .empty) (fun _ => 0) []) moves crew ∧
      (∀ ks, ks < poolSize → (crew.shared.trees ks).sealedMemtables ≠ []) ∧
      ∀ later last, Run (CrewStep (Act size poolSize)) crew later last →
        (∀ label ∈ later, poolSize ≤ label.1) ∧ ∀ i, i < poolSize → last.phases[i]? = some .notifying := by
  obtain ⟨moves, crew, run, sealing⟩ := sealing_run size poolSize (Nat.le_refl _) few
  have filling : Filling poolSize crew :=
    ⟨sealing.blocked, sealing.idle poolSize (Nat.le_refl _) (Nat.le_refl _),
      by rw [sealing.untouched poolSize (Nat.le_refl _)]; rfl, sealing.sealed, sealing.runs poolSize, sealing.healthy⟩
  obtain ⟨others, next, rest, wedged, sealed⟩ := filling_run size channelCapacity crew filling (by simp [sealing.channel])
  refine ⟨_, next, run_append run rest, sealed, ?_⟩
  intro later last after
  obtain ⟨still, clients⟩ := wedged_run wedged after
  exact ⟨clients, still.workers⟩

theorem single_worker_wedged :
    ∃ moves crew, Run (WritingStep id 1) (Crew.opened 1 1 (fun _ => .empty) (fun _ => 0) []) moves crew ∧
      (∀ ks, ks < 1 → (crew.shared.trees ks).sealedMemtables ≠ []) ∧
      ∀ later last, Run (CrewStep (Act id 1)) crew later last →
        (∀ label ∈ later, 1 ≤ label.1) ∧ ∀ i, i < 1 → last.phases[i]? = some .notifying :=
  writes_can_wedge_pool id 1 (by decide)

end Wedge

end OmryaKv.Background
