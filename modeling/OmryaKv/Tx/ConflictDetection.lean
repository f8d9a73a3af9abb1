import OmryaKv.Lib.ByteOrder
import OmryaKv.Tx.ConflictManager
import OmryaKv.Types

set_option autoImplicit false

namespace OmryaKv.Tx

-- What a transaction records while it runs. WriteTransaction::range passes its
-- bounds on as they are.
inductive Mark (K : Type) where
  | read (keyspaceId : Nat) (key : K)
  | range (keyspaceId : Nat) (start stop : Bound K)
  | conflict (keyspaceId : Nat) (key : K)

section

variable {K : Type} [LinearOrder K]

namespace Mark

def Reads : Mark K → Nat × K → Prop
  | .read keyspaceId key, place => place = (keyspaceId, key)
  | .range keyspaceId start stop, place => place.1 = keyspaceId ∧ inRange start stop place.2 = true
  | .conflict _ _, _ => False

def Writes : Mark K → Nat × K → Prop
  | .conflict keyspaceId key, place => place = (keyspaceId, key)
  | _, _ => False

end Mark

-- The first outcome other than some false decides.
theorem any_hit_none {α : Type} (outcome : α → Option Bool) (tests : List α)
    (panicked : anyHit (tests.map outcome) = none) :
    ∃ before test after, tests = before ++ test :: after ∧ (∀ earlier ∈ before, outcome earlier = some false) ∧
      outcome test = none := by
  induction tests with
  | nil => cases panicked
  | cons test tests ih =>
    rw [List.map_cons] at panicked
    cases tested : outcome test with
    | none => exact ⟨[], test, tests, rfl, nofun, tested⟩
    | some hit =>
      rw [tested] at panicked
      cases hit with
      | true => cases panicked
      | false =>
        obtain ⟨before, next, after, split, missed, stopped⟩ := ih panicked
        refine ⟨test :: before, next, after, congrArg (List.cons test) split, ?_, stopped⟩
        intro earlier member
        rcases List.mem_cons.mp member with rfl | later
        · exact tested
        · exact missed earlier later

theorem any_hit_reaches {α : Type} (outcome : α → Option Bool) (before after : List α) (test : α)
    (noHit : ∀ earlier ∈ before, outcome earlier ≠ some true) (panics : outcome test = none) :
    anyHit ((before ++ test :: after).map outcome) = none := by
  induction before with
  | nil =>
    rw [List.nil_append, List.map_cons, panics]
    rfl
  | cons first before ih =>
    rw [List.cons_append, List.map_cons]
    have rest := ih fun earlier member => noHit earlier (List.mem_cons_of_mem first member)
    cases tested : outcome first with
    | none => rfl
    | some hit =>
      cases hit with
      | true => exact absurd tested (noHit first List.mem_cons_self)
      | false => exact rest

theorem any_hit_true (outcomes : List (Option Bool)) (found : anyHit outcomes = some true) : some true ∈ outcomes := by
  fun_induction anyHit outcomes with
  | case1 => cases found
  | case2 => cases found
  | case3 rest => exact List.mem_cons_self
  | case4 rest ih => exact List.mem_cons_of_mem _ (ih found)

theorem any_hit_append (earlier later : List (Option Bool)) :
    anyHit (earlier ++ later) = anyHit (anyHit earlier :: later) := by
  fun_induction anyHit earlier with
  | case1 => rfl
  | case2 rest => rfl
  | case3 rest => rfl
  | case4 rest ih => exact ih

theorem any_hit_flat_map {α : Type} (outcomes : α → List (Option Bool)) (groups : List α) :
    anyHit (groups.flatMap outcomes) = anyHit (groups.map fun group => anyHit (outcomes group)) := by
  induction groups with
  | nil => rfl
  | cons group groups ih =>
    rw [List.flatMap_cons, List.map_cons, any_hit_append]
    cases anyHit (outcomes group) with
    | none => rfl
    | some hit =>
      cases hit with
      | true => rfl
      | false => exact ih

-- mark_range never records the range without bounds, so that the unreachable!
-- is not reached.
theorem hits_none (keys : List K) (read : Read K) (recorded : read ≠ .range .unbounded .unbounded)
    (panicked : read.hits keys = none) : ∃ start stop, read = .range start stop ∧ inverted start stop = true := by
  fun_cases Read.hits keys read with
  | case1 key => cases panicked
  | case2 start stop =>
    refine ⟨.included start, stop, rfl, ?_⟩
    by_contra upright
    simp [Read.hits, rangeOccupied, upright] at panicked
  | case3 start stop =>
    refine ⟨.excluded start, stop, rfl, ?_⟩
    by_contra upright
    simp [Read.hits, rangeOccupied, upright] at panicked
  | case4 stop => cases panicked
  | case5 stop => cases panicked
  | case6 => exact absurd rfl recorded
  | case7 => cases panicked

theorem inverted_hits (keys : List K) (start stop : Bound K) (crossed : inverted start stop = true) :
    (Read.range start stop).hits keys = none := by
  fun_cases inverted start stop <;> simp_all [inverted, Read.hits, rangeOccupied]

theorem hit_iff (keys : List K) (read : Read K) (hit : Bool) (returned : read.hits keys = some hit) :
    hit = true ↔ ∃ key ∈ keys, read.covers key = true := by
  rw [hits_some keys read hit returned, List.any_eq_true]

namespace ConflictManager

def mark (cm : ConflictManager K) : Mark K → ConflictManager K
  | .read keyspaceId key => cm.markRead keyspaceId key
  | .range keyspaceId start stop => cm.markRange keyspaceId start stop
  | .conflict keyspaceId key => cm.markConflict keyspaceId key

def marked (marks : List (Mark K)) : ConflictManager K := marks.foldl mark new

-- What has_conflict makes of one keyspace's reads.
def keyspaceOutcome (other : ConflictManager K) (entry : Sigma fun _ : Nat => List (Read K)) : Option Bool :=
  anyHit (match other.conflictKeys.lookup entry.1 with
    | some otherConflictKeys => entry.2.map (Read.hits otherConflictKeys)
    | none => [])

variable (cm other : ConflictManager K)

theorem has_conflict_by_keyspace : cm.hasConflict other = anyHit (cm.inOrder.map (keyspaceOutcome other)) :=
  any_hit_flat_map _ cm.inOrder

theorem outcome_hit (keyspaceId : Nat) (reads : List (Read K)) (hit : keyspaceOutcome other ⟨keyspaceId, reads⟩ = some true) :
    ∃ key, other.Writes (keyspaceId, key) ∧ ∃ read ∈ reads, read.covers key = true := by
  have reached := any_hit_true _ hit
  dsimp only at reached
  split at reached
  · rename_i keys written
    obtain ⟨read, member, returned⟩ := List.mem_map.mp reached
    obtain ⟨key, keyMember, covers⟩ := (hit_iff keys read true returned).mp rfl
    exact ⟨key, ⟨keys, written, keyMember⟩, read, member, covers⟩
  · cases reached

theorem outcome_missed (keyspaceId : Nat) (reads : List (Read K))
    (missed : keyspaceOutcome other ⟨keyspaceId, reads⟩ = some false) (key : K) (written : other.Writes (keyspaceId, key))
    (read : Read K) (member : read ∈ reads) : read.covers key ≠ true := by
  intro covers
  obtain ⟨keys, stored, keyMember⟩ := written
  simp only [keyspaceOutcome, stored] at missed
  have returned := any_hit_false _ missed (read.hits keys) (List.mem_map_of_mem member)
  exact Bool.false_ne_true ((hit_iff keys read false returned).mpr ⟨key, keyMember, covers⟩)

theorem outcome_panics (keyspaceId : Nat) (reads : List (Read K))
    (recorded : ∀ read ∈ reads, read ≠ .range .unbounded .unbounded) :
    keyspaceOutcome other ⟨keyspaceId, reads⟩ = none ↔
      ∃ keys before start stop after, other.conflictKeys.lookup keyspaceId = some keys ∧
        reads = before ++ .range start stop :: after ∧ inverted start stop = true ∧
          ∀ read ∈ before, ∀ key ∈ keys, read.covers key ≠ true := by
  constructor
  · intro panicked
    cases written : other.conflictKeys.lookup keyspaceId with
    | none => simp [keyspaceOutcome, written, anyHit] at panicked
    | some keys =>
      simp only [keyspaceOutcome, written] at panicked
      obtain ⟨before, read, after, rfl, missed, stopped⟩ := any_hit_none (Read.hits keys) reads panicked
      obtain ⟨start, stop, rfl, crossed⟩ := hits_none keys read (recorded read (by simp)) stopped
      refine ⟨keys, before, start, stop, after, rfl, rfl, crossed, ?_⟩
      intro earlier member key keyMember covers
      exact Bool.false_ne_true ((hit_iff keys earlier false (missed earlier member)).mpr ⟨key, keyMember, covers⟩)
  · rintro ⟨keys, before, start, stop, after, written, rfl, crossed, missed⟩
    simp only [keyspaceOutcome, written]
    refine any_hit_reaches (Read.hits keys) before after _ ?_ (inverted_hits keys start stop crossed)
    intro earlier member returned
    obtain ⟨key, keyMember, covers⟩ := (hit_iff keys earlier true returned).mp rfl
    exact missed earlier member key keyMember covers

omit [LinearOrder K] in
theorem in_order_ascends : cm.inOrder.Pairwise fun one two => one.1 < two.1 := by
  have total : Std.Total fun one two : Sigma fun _ : Nat => List (Read K) => one.1 ≤ two.1 :=
    ⟨fun one two => Nat.le_total one.1 two.1⟩
  have trans : IsTrans _ fun one two : Sigma fun _ : Nat => List (Read K) => one.1 ≤ two.1 :=
    ⟨fun _ _ _ first second => Nat.le_trans first second⟩
  have sorted := List.pairwise_insertionSort (fun one two : Sigma fun _ : Nat => List (Read K) => one.1 ≤ two.1)
    cm.reads.entries
  have distinct := (List.perm_nodupKeys (List.perm_insertionSort
    (fun one two : Sigma fun _ : Nat => List (Read K) => one.1 ≤ two.1) cm.reads.entries)).mpr cm.reads.nodupKeys
  exact sorted.imp₂ (fun _ _ below apart => Nat.lt_of_le_of_ne below apart) distinct.pairwise_ne

omit [LinearOrder K] in
theorem before_iff_smaller (before after : List (Sigma fun _ : Nat => List (Read K)))
    (entry other : Sigma fun _ : Nat => List (Read K)) (split : cm.inOrder = before ++ entry :: after) :
    other ∈ before ↔ other ∈ cm.inOrder ∧ other.1 < entry.1 := by
  have ascends := cm.in_order_ascends
  rw [split] at ascends ⊢
  obtain ⟨_, later, across⟩ := List.pairwise_append.mp ascends
  constructor
  · intro member
    exact ⟨List.mem_append_left _ member, across other member entry List.mem_cons_self⟩
  · rintro ⟨member, smaller⟩
    rcases List.mem_append.mp member with earlier | rest
    · exact earlier
    · rcases List.mem_cons.mp rest with rfl | following
      · exact absurd smaller (Nat.lt_irrefl _)
      · exact absurd smaller (Nat.lt_asymm ((List.pairwise_cons.mp later).1 other following))

-- has_conflict tests the keyspaces in the order of their ids, and the reads of one
-- in the order they were recorded: a hit keeps it from an inverted range after it.
def Guarded (cm other : ConflictManager K) : Prop :=
  ∀ keyspaceId before start stop after, cm.reads.lookup keyspaceId = some (before ++ .range start stop :: after) →
    inverted start stop = true → (∃ key, other.Writes (keyspaceId, key)) →
      (∃ place, place.1 < keyspaceId ∧ cm.Covers place ∧ other.Writes place) ∨
        ∃ read ∈ before, ∃ key, other.Writes (keyspaceId, key) ∧ read.covers key = true

-- What mark_read, mark_range and mark_conflict leave in a manager.
structure Recorded (cm : ConflictManager K) : Prop where
  bounded : ∀ keyspaceId reads, cm.reads.lookup keyspaceId = some reads →
    ∀ read ∈ reads, read ≠ .range .unbounded .unbounded
  occupied : ∀ keyspaceId keys, cm.conflictKeys.lookup keyspaceId = some keys → ∃ key, key ∈ keys

theorem guarded_returns (recorded : cm.Recorded) (otherRecorded : other.Recorded)
    (guarded : cm.Guarded other) : cm.hasConflict other ≠ none := by
  intro panicked
  rw [has_conflict_by_keyspace] at panicked
  obtain ⟨earlier, ⟨keyspaceId, reads⟩, later, split, missed, stopped⟩ := any_hit_none _ _ panicked
  have found : cm.reads.lookup keyspaceId = some reads := (cm.mem_in_order keyspaceId reads).mp (by simp [split])
  obtain ⟨keys, before, start, stop, after, written, rfl, crossed, noHit⟩ :=
    (outcome_panics other keyspaceId reads (recorded.bounded keyspaceId reads found)).mp stopped
  obtain ⟨key, keyMember⟩ := otherRecorded.occupied keyspaceId keys written
  rcases guarded keyspaceId before start stop after found crossed ⟨key, keys, written, keyMember⟩ with smaller | sooner
  · obtain ⟨place, below, ⟨smallerReads, smallerFound, read, member, covers⟩, smallerWritten⟩ := smaller
    have first := (cm.before_iff_smaller earlier later _ ⟨place.1, smallerReads⟩ split).mpr
      ⟨(cm.mem_in_order place.1 smallerReads).mpr smallerFound, below⟩
    exact outcome_missed other place.1 smallerReads (missed _ first) place.2 smallerWritten read member covers
  · obtain ⟨read, member, hit, ⟨stored, storedWritten, hitMember⟩, covers⟩ := sooner
    cases written.symm.trans storedWritten
    exact noHit read member hit hitMember covers

theorem returns_guarded (recorded : cm.Recorded) (returned : cm.hasConflict other ≠ none) : cm.Guarded other := by
  intro keyspaceId before start stop after found crossed written
  by_contra exposed
  obtain ⟨noSmaller, noSooner⟩ := not_or.mp exposed
  obtain ⟨key, keys, stored, keyMember⟩ := written
  apply returned
  have panics : keyspaceOutcome other ⟨keyspaceId, before ++ .range start stop :: after⟩ = none := by
    refine (outcome_panics other keyspaceId _ (recorded.bounded keyspaceId _ found)).mpr
      ⟨keys, before, start, stop, after, stored, rfl, crossed, ?_⟩
    intro read member hit hitMember covers
    exact noSooner ⟨read, member, hit, ⟨keys, stored, hitMember⟩, covers⟩
  obtain ⟨earlier, later, split⟩ := List.append_of_mem ((cm.mem_in_order keyspaceId _).mpr found)
  rw [has_conflict_by_keyspace, split]
  refine any_hit_reaches (keyspaceOutcome other) earlier later _ ?_ panics
  rintro ⟨smallerId, smallerReads⟩ member hit
  obtain ⟨listed, below⟩ := (cm.before_iff_smaller earlier later _ _ split).mp member
  obtain ⟨hitKey, hitWritten, read, readMember, covers⟩ := outcome_hit other smallerId smallerReads hit
  exact noSmaller ⟨(smallerId, hitKey), below,
    ⟨smallerReads, (cm.mem_in_order smallerId smallerReads).mp listed, read, readMember, covers⟩, hitWritten⟩

theorem has_conflict_true (found : cm.hasConflict other = some true) : ∃ place, cm.Covers place ∧ other.Writes place := by
  rw [has_conflict_by_keyspace] at found
  obtain ⟨⟨keyspaceId, reads⟩, member, hit⟩ := List.mem_map.mp (any_hit_true _ found)
  obtain ⟨key, written, read, readMember, covers⟩ := outcome_hit other keyspaceId reads hit
  exact ⟨(keyspaceId, key), ⟨reads, (cm.mem_in_order keyspaceId reads).mp member, read, readMember, covers⟩, written⟩

theorem covers_mark (mark : Mark K) (place : Nat × K) : (cm.mark mark).Covers place ↔ cm.Covers place ∨ mark.Reads place := by
  cases mark with
  | read keyspaceId key =>
    refine (covers_push_read cm keyspaceId (.single key) place).trans (or_congr Iff.rfl ?_)
    simp [Read.covers, Mark.Reads, Prod.ext_iff, eq_comm]
  | range keyspaceId start stop =>
    refine (covers_push_read cm keyspaceId _ place).trans (or_congr Iff.rfl (and_congr Iff.rfl ?_))
    split
    · next unbounded => simp [unbounded.1, unbounded.2, Read.covers, inRange, Bound.afterStart, Bound.beforeStop]
    · rfl
  | conflict keyspaceId key => exact (or_false _).to_iff.symm

theorem writes_mark (mark : Mark K) (place : Nat × K) : (cm.mark mark).Writes place ↔ cm.Writes place ∨ mark.Writes place := by
  cases mark with
  | read keyspaceId key => exact (or_false _).to_iff.symm
  | range keyspaceId start stop => exact (or_false _).to_iff.symm
  | conflict keyspaceId key => exact writes_mark_conflict cm keyspaceId key place

theorem recorded_mark (mark : Mark K) (recorded : cm.Recorded) : (cm.mark mark).Recorded := by
  cases mark with
  | read keyspaceId key => exact ⟨all_push_read _ cm keyspaceId _ recorded.bounded nofun, recorded.occupied⟩
  | range keyspaceId start stop =>
    refine ⟨all_push_read _ cm keyspaceId _ recorded.bounded ?_, recorded.occupied⟩
    split
    · exact nofun
    · next bounded =>
        rintro ⟨rfl, rfl⟩
        exact bounded ⟨rfl, rfl⟩
  | conflict keyspaceId key =>
    refine ⟨recorded.bounded, ?_⟩
    intro other keys found
    by_cases same : other = keyspaceId
    · subst same
      simp only [mark, markConflict, AList.lookup_insert, Option.some.injEq] at found
      subst found
      exact ⟨key, List.mem_insert_self⟩
    · exact recorded.occupied other keys (by simpa [mark, markConflict, AList.lookup_insert_ne same] using found)

variable (marks : List (Mark K))

-- A run of marks, from any manager.
theorem mark_run (cm : ConflictManager K) (place : Nat × K) :
    ((marks.foldl mark cm).Covers place ↔ cm.Covers place ∨ ∃ mark ∈ marks, mark.Reads place) ∧
      ((marks.foldl mark cm).Writes place ↔ cm.Writes place ∨ ∃ mark ∈ marks, mark.Writes place) := by
  induction marks generalizing cm with
  | nil => simp
  | cons first marks ih =>
    obtain ⟨covers, writes⟩ := ih (cm.mark first)
    rw [List.foldl_cons, covers, writes, covers_mark, writes_mark]
    simp [or_assoc]

theorem marked_covers (place : Nat × K) : (marked marks).Covers place ↔ ∃ mark ∈ marks, mark.Reads place := by
  rw [marked, (mark_run marks new place).1]
  simp [Covers, new]

theorem marked_writes (place : Nat × K) : (marked marks).Writes place ↔ ∃ mark ∈ marks, mark.Writes place := by
  rw [marked, (mark_run marks new place).2]
  simp [Writes, new]

theorem marked_recorded : (marked marks).Recorded := by
  have start : (new : ConflictManager K).Recorded := ⟨by simp [new], by simp [new]⟩
  exact List.foldlRecOn marks mark start fun cm recorded first _ => recorded_mark cm first recorded

theorem valid_guarded (valid : cm.Valid) : cm.Guarded other := by
  intro keyspaceId before start stop after found crossed _
  have upright := (valid keyspaceId _ found (.range start stop) (by simp)).1
  exact absurd crossed (by simp [upright])

end ConflictManager

-- has_conflict returns, and its answer is whether a key that the others wrote is
-- one that was read.
def FoundExactly (marks others : List (Mark K)) : Prop :=
  ∃ answer, (ConflictManager.marked marks).hasConflict (ConflictManager.marked others) = some answer ∧
    (answer = true ↔ ∃ place, (∃ mark ∈ marks, mark.Reads place) ∧ ∃ mark ∈ others, mark.Writes place)

theorem conflicts_found_exactly_iff (marks others : List (Mark K)) :
    FoundExactly marks others ↔ (ConflictManager.marked marks).Guarded (ConflictManager.marked others) := by
  constructor
  · rintro ⟨answer, returned, _⟩
    apply ConflictManager.returns_guarded _ _ (ConflictManager.marked_recorded marks)
    rw [returned]
    exact Option.some_ne_none answer
  · intro guarded
    have returns := ConflictManager.guarded_returns _ _ (ConflictManager.marked_recorded marks)
      (ConflictManager.marked_recorded others) guarded
    obtain ⟨answer, returned⟩ := Option.ne_none_iff_exists'.mp returns
    refine ⟨answer, returned, ?_⟩
    simp only [← ConflictManager.marked_covers, ← ConflictManager.marked_writes]
    cases answer with
    | true => exact iff_of_true rfl (ConflictManager.has_conflict_true _ _ returned)
    | false =>
      refine iff_of_false Bool.false_ne_true ?_
      rintro ⟨place, covered, written⟩
      exact ConflictManager.has_conflict_false _ _ returned place covered written

end

theorem reversed_range_panics :
    ¬ FoundExactly [Mark.range 0 (.included ([98] : UserKey)) (.included [97])] [Mark.conflict 0 [97]] := by
  rintro ⟨answer, returned, _⟩
  have panicked : (ConflictManager.marked [Mark.range 0 (.included ([98] : UserKey)) (.included [97])]).hasConflict
      (ConflictManager.marked [Mark.conflict 0 [97]]) = none := by decide +kernel
  rw [panicked] at returned
  cases returned

theorem upright_range_found :
    FoundExactly [Mark.range 0 (.included ([97] : UserKey)) (.excluded [99])] [Mark.conflict 0 [98]] := by
  refine (conflicts_found_exactly_iff _ _).mpr (ConflictManager.valid_guarded _ _ ?_)
  have start : (ConflictManager.new : ConflictManager UserKey).Valid := by simp [ConflictManager.Valid, ConflictManager.new]
  exact ConflictManager.valid_push_read _ 0 _ start ⟨by decide +kernel, by simp⟩

end OmryaKv.Tx
