import Mathlib.Data.List.AList
import Mathlib.Data.List.Sort
import Mathlib.Order.Lattice

set_option autoImplicit false

namespace OmryaKv.Tx

inductive Bound (K : Type) where
  | included (key : K)
  | excluded (key : K)
  | unbounded
deriving DecidableEq

inductive Read (K : Type) where
  | single (key : K)
  | range (start stop : Bound K)
  | all
deriving DecidableEq

-- Both maps go from a keyspace's id. No set in conflictKeys is empty.
structure ConflictManager (K : Type) where
  reads : AList fun _ : Nat => List (Read K)
  conflictKeys : AList fun _ : Nat => List K

section

variable {K : Type} [LinearOrder K]

def Bound.afterStart : Bound K → K → Bool
  | .included start, key => decide (start ≤ key)
  | .excluded start, key => decide (start < key)
  | .unbounded, _ => true

def Bound.beforeStop : Bound K → K → Bool
  | .included stop, key => decide (key ≤ stop)
  | .excluded stop, key => decide (key < stop)
  | .unbounded, _ => true

def inRange (start stop : Bound K) (key : K) : Bool := start.afterStart key && stop.beforeStop key

-- The ranges that BTreeSet::range panics on.
def inverted : Bound K → Bound K → Bool
  | .excluded start, .excluded stop => decide (stop ≤ start)
  | .included start, .included stop => decide (stop < start)
  | .included start, .excluded stop => decide (stop < start)
  | .excluded start, .included stop => decide (stop < start)
  | _, _ => false

-- BTreeSet::range(..).next().is_some(), none standing for the panic.
def rangeOccupied (keys : List K) (start stop : Bound K) : Option Bool :=
  if inverted start stop then none else some (keys.any (inRange start stop))

-- One read against the keys another transaction wrote in the same keyspace. The
-- last none is the source's unreachable!.
def Read.hits (keys : List K) : Read K → Option Bool
  | .single key => some (decide (key ∈ keys))
  | .range (.included start) stop => rangeOccupied keys (.included start) stop
  | .range (.excluded start) stop => rangeOccupied keys (.excluded start) stop
  | .range .unbounded (.included stop) => some (keys.any fun write => decide (write ≤ stop))
  | .range .unbounded (.excluded stop) => some (keys.any fun write => decide (write < stop))
  | .range .unbounded .unbounded => none
  | .all => some (!keys.isEmpty)

def anyHit : List (Option Bool) → Option Bool
  | [] => some false
  | none :: _ => none
  | some true :: _ => some true
  | some false :: rest => anyHit rest

namespace ConflictManager

def new : ConflictManager K := ⟨∅, ∅⟩

def pushRead (cm : ConflictManager K) (keyspaceId : Nat) (read : Read K) : ConflictManager K :=
  { cm with reads := cm.reads.insert keyspaceId ((cm.reads.lookup keyspaceId).getD [] ++ [read]) }

def markRead (cm : ConflictManager K) (keyspaceId : Nat) (key : K) : ConflictManager K :=
  cm.pushRead keyspaceId (.single key)

def markConflict (cm : ConflictManager K) (keyspaceId : Nat) (key : K) : ConflictManager K :=
  { cm with conflictKeys := cm.conflictKeys.insert keyspaceId (((cm.conflictKeys.lookup keyspaceId).getD []).insert key) }

def markRange (cm : ConflictManager K) (keyspaceId : Nat) (start stop : Bound K) : ConflictManager K :=
  cm.pushRead keyspaceId (if start = .unbounded ∧ stop = .unbounded then .all else .range start stop)

-- The keyspaces in the order of their ids, as a BTreeMap is walked.
def inOrder (cm : ConflictManager K) : List (Sigma fun _ : Nat => List (Read K)) :=
  cm.reads.entries.insertionSort fun one two => one.1 ≤ two.1

def hasConflict (cm other : ConflictManager K) : Option Bool :=
  anyHit (cm.inOrder.flatMap fun entry =>
    match other.conflictKeys.lookup entry.1 with
    | some otherConflictKeys => entry.2.map (Read.hits otherConflictKeys)
    | none => [])

end ConflictManager

theorem any_hit_false (outcomes : List (Option Bool)) (clear : anyHit outcomes = some false) (outcome : Option Bool)
    (member : outcome ∈ outcomes) : outcome = some false := by
  fun_induction anyHit outcomes with
  | case1 => cases member
  | case2 => cases clear
  | case3 => cases clear
  | case4 rest ih =>
    rcases List.mem_cons.mp member with rfl | later
    · rfl
    · exact ih clear later

theorem any_hit_defined (outcomes : List (Option Bool)) (defined : none ∉ outcomes) : anyHit outcomes ≠ none := by
  fun_induction anyHit outcomes <;> simp_all

def Read.covers : Read K → K → Bool
  | .single key, place => decide (key = place)
  | .range start stop, place => inRange start stop place
  | .all, _ => true

-- The reads that mark_read and mark_range record for ranges that are not inverted.
def Read.Valid : Read K → Prop
  | .range start stop => inverted start stop = false ∧ ¬ (start = .unbounded ∧ stop = .unbounded)
  | _ => True

theorem range_occupied_some (keys : List K) (start stop : Bound K) (hit : Bool)
    (returned : rangeOccupied keys start stop = some hit) : hit = keys.any (inRange start stop) := by
  unfold rangeOccupied at returned
  split at returned
  · cases returned
  · exact (Option.some.inj returned).symm

-- All eight ways to bound a range come to the same test.
theorem hits_some (keys : List K) (read : Read K) (hit : Bool) (returned : read.hits keys = some hit) :
    hit = keys.any read.covers := by
  fun_cases Read.hits keys read with
  | case1 key =>
    cases returned
    rw [Bool.eq_iff_iff]
    simp [Read.covers]
  | case2 start stop => exact range_occupied_some keys _ _ hit returned
  | case3 start stop => exact range_occupied_some keys _ _ hit returned
  | case4 stop => exact (Option.some.inj returned).symm
  | case5 stop => exact (Option.some.inj returned).symm
  | case6 => cases returned
  | case7 =>
    cases returned
    cases keys <;> rfl

theorem hits_defined (keys : List K) (read : Read K) (valid : read.Valid) : read.hits keys ≠ none := by
  fun_cases Read.hits keys read
  all_goals simp_all [Read.Valid, rangeOccupied]

namespace ConflictManager

def Covers (cm : ConflictManager K) (place : Nat × K) : Prop :=
  ∃ reads, cm.reads.lookup place.1 = some reads ∧ ∃ read ∈ reads, read.covers place.2 = true

def Writes (cm : ConflictManager K) (place : Nat × K) : Prop :=
  ∃ keys, cm.conflictKeys.lookup place.1 = some keys ∧ place.2 ∈ keys

def Valid (cm : ConflictManager K) : Prop :=
  ∀ keyspaceId reads, cm.reads.lookup keyspaceId = some reads → ∀ read ∈ reads, read.Valid

variable (cm : ConflictManager K)
variable (keyspaceId : Nat)

theorem covers_push_read (read : Read K) (place : Nat × K) : (cm.pushRead keyspaceId read).Covers place ↔
      cm.Covers place ∨ place.1 = keyspaceId ∧ read.covers place.2 = true := by
  unfold Covers pushRead
  by_cases same : place.1 = keyspaceId
  · rw [← same]
    cases cm.reads.lookup place.1 <;> simp [or_and_right, exists_or]
  · simp [AList.lookup_insert_ne same, same]

theorem writes_mark_conflict (key : K) (place : Nat × K) :
    (cm.markConflict keyspaceId key).Writes place ↔ cm.Writes place ∨ place = (keyspaceId, key) := by
  obtain ⟨placeId, placeKey⟩ := place
  unfold Writes markConflict
  by_cases same : placeId = keyspaceId
  · subst same
    cases cm.conflictKeys.lookup placeId <;> simp [or_comm]
  · simp [AList.lookup_insert_ne same, same]

omit [LinearOrder K] in
theorem all_push_read (holds : Read K → Prop) (cm : ConflictManager K) (keyspaceId : Nat) (read : Read K)
    (earlierHold : ∀ other reads, cm.reads.lookup other = some reads → ∀ entry ∈ reads, holds entry) (readHolds : holds read)
    (other : Nat) (reads : List (Read K)) (found : (cm.pushRead keyspaceId read).reads.lookup other = some reads)
    (entry : Read K) (member : entry ∈ reads) : holds entry := by
  by_cases same : other = keyspaceId
  · subst same
    simp only [pushRead, AList.lookup_insert, Option.some.injEq] at found
    subst found
    rcases List.mem_append.mp member with earlier | added
    · cases stored : cm.reads.lookup other with
      | none => simp [stored] at earlier
      | some before => exact earlierHold other before stored entry (by simpa [stored] using earlier)
    · rw [List.mem_singleton.mp added]
      exact readHolds
  · exact earlierHold other reads (by simpa [pushRead, AList.lookup_insert_ne same] using found) entry member

theorem valid_push_read (read : Read K) (valid : cm.Valid) (readValid : read.Valid) : (cm.pushRead keyspaceId read).Valid :=
  all_push_read Read.Valid cm keyspaceId read valid readValid

omit [LinearOrder K] in
theorem mem_in_order (reads : List (Read K)) : ⟨keyspaceId, reads⟩ ∈ cm.inOrder ↔ cm.reads.lookup keyspaceId = some reads := by
  rw [inOrder, (List.perm_insertionSort _ _).mem_iff, ← Option.mem_def, AList.mem_lookup_iff]

theorem has_conflict_false (cm other : ConflictManager K) (clear : cm.hasConflict other = some false) (place : Nat × K)
    (covered : cm.Covers place) : ¬ other.Writes place := by
  rintro ⟨keys, written, keyMember⟩
  obtain ⟨reads, found, read, readMember, covers⟩ := covered
  have entryMember := (cm.mem_in_order place.1 reads).mpr found
  have missed : read.hits keys = some false := by
    apply any_hit_false _ clear
    refine List.mem_flatMap.mpr ⟨_, entryMember, ?_⟩
    simp only [written]
    exact List.mem_map_of_mem readMember
  have none := hits_some keys read false missed
  exact List.any_eq_false.mp none.symm place.2 keyMember covers

theorem has_conflict_defined (cm other : ConflictManager K) (valid : cm.Valid) : cm.hasConflict other ≠ none := by
  apply any_hit_defined
  intro panicked
  obtain ⟨⟨keyspaceId, reads⟩, entryMember, outcome⟩ := List.mem_flatMap.mp panicked
  have found := (cm.mem_in_order keyspaceId reads).mp entryMember
  dsimp only at outcome
  split at outcome
  · obtain ⟨read, readMember, hit⟩ := List.mem_map.mp outcome
    exact hits_defined _ read (valid keyspaceId reads found read readMember) hit
  · cases outcome

end ConflictManager

end

end OmryaKv.Tx
