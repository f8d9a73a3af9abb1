import Mathlib.Data.Finset.Card
import OmryaKv.Lib.Versions
import OmryaKv.Secure.Verdicts

set_option autoImplicit false

namespace OmryaKv.Secure

open Lib

-- value is none for a tombstone.
structure RunEntry where
  version : CompositeKey
  seqno : Nat
  value : Option Bytes
deriving DecidableEq

def RunEntry.key (entry : RunEntry) : UserKey := entry.version.bytes

-- The tree below a secure keyspace. live is a ghost: the versions that were
-- inserted and not deleted since.
structure RunTree where
  memtable : List RunEntry
  runs : List (List RunEntry)
  seqno : Nat
  live : Finset CompositeKey

namespace RunTree

def empty : RunTree := ⟨[], [], 0, ∅⟩

def all (t : RunTree) : List RunEntry := t.memtable ++ t.runs.flatten

def search (t : RunTree) (version : CompositeKey) : Option RunEntry := newest RunEntry.key RunEntry.seqno version.bytes t.all

def get (t : RunTree) (version : CompositeKey) : Option Bytes := (t.search version).bind RunEntry.value

def put (t : RunTree) (version : CompositeKey) (value : Option Bytes) (live : Finset CompositeKey) : RunTree :=
  ⟨⟨version, t.seqno, value⟩ :: t.memtable, t.runs, t.seqno + 1, live⟩

def insertVersion (t : RunTree) (cell : VersionedCell) (stored : Bytes) : RunTree :=
  t.put cell.toKey (some stored) (insert cell.toKey t.live)

def deleteVersion (t : RunTree) (cell : VersionedCell) : RunTree := t.put cell.toKey none (t.live.erase cell.toKey)

def flush (t : RunTree) : RunTree := ⟨[], t.memtable :: t.runs, t.seqno, t.live⟩

end RunTree

-- The runs of a compaction merged: ascending keys, of each one the newest entry.
def merged (picked : List (List RunEntry)) : List RunEntry :=
  firstOfEach RunEntry.key none (iterated RunEntry.key RunEntry.seqno picked.flatten)

-- What the filter is asked about.
def judged (entries : List RunEntry) : List RunEntry := entries.filter fun entry => entry.value.isSome

-- A removed key leaves a tombstone, so that no older entry of it comes back.
def settle : List RunEntry → List Verdict → List RunEntry
  | [], _ => []
  | entry :: entries, verdicts =>
    if entry.value.isNone then entry :: settle entries verdicts
    else
      match verdicts with
      | [] => entry :: settle entries []
      | .keep :: rest => entry :: settle entries rest
      | .remove :: rest => { entry with value := none } :: settle entries rest
      | .replaceValue value :: rest => { entry with value := some value } :: settle entries rest

inductive RunLabel where
  | insertVersion (cell : VersionedCell)
  | deleteVersion (cell : VersionedCell)
  | flush
  | compact (picked : List (List RunEntry))

variable {I : Type}

-- What the calls of the secure keyspace and the work in the background do to the
-- tree. An aborted compaction does nothing.
inductive RetentionStep (policy : SecureCompactionPolicy I) : RunTree → RunLabel → RunTree → Prop where
  | insertVersion (t : RunTree) (cell : VersionedCell) (key : UserKey) (stored : Bytes)
      (canonical : canonicalizeCell cell = .ok cell) (encoded : cell.encode = .ok key) :
      RetentionStep policy t (.insertVersion cell) (t.insertVersion cell stored)
  | deleteVersion (t : RunTree) (cell : VersionedCell) (key : UserKey) (canonical : canonicalizeCell cell = .ok cell)
      (encoded : cell.encode = .ok key) : RetentionStep policy t (.deleteVersion cell) (t.deleteVersion cell)
  | flush (t : RunTree) : RetentionStep policy t .flush t.flush
  | compact (t : RunTree) (picked rest : List (List RunEntry)) (parts : t.runs.Perm (picked ++ rest)) (now : Int64)
      (w last : World I Unit) (verdicts : List Verdict)
      (filtered : (compact (some policy.factory) now ((judged (merged picked)).map RunEntry.key)).run w = .ok verdicts last) :
      RetentionStep policy t (.compact picked) ⟨t.memtable, settle (merged picked) verdicts :: rest, t.seqno, t.live⟩

def newerVersion (version other : CompositeKey) : Bool :=
  decide (other.group = version.group ∧ version.timestamp.toInt < other.timestamp.toInt)

def liveAbove (t : RunTree) (version : CompositeKey) : Nat := (t.live.filter fun other => newerVersion version other).card

-- A live version goes only if enough live ones are newer.
def NoLoss (max : Nat) (t next : RunTree) : Prop :=
  ∀ version ∈ next.live, t.get version ≠ none → next.get version = none → max ≤ liveAbove next version

-- The filter counts the versions of the runs it is given, deleted in other runs or not.
def CountsLive (max : Nat) (t : RunTree) : RunLabel → Prop
  | .compact picked => ∀ version ∈ t.live, ∀ entry ∈ picked.flatten, t.search version = some entry → entry.value ≠ none →
      max ≤ ((judged (merged picked)).filter fun other => newerVersion version other.version).length → max ≤ liveAbove t version
  | .insertVersion _ | .deleteVersion _ | .flush => True

-- Every entry has a seqno of its own, given out by the counter.
structure RunTree.Numbered (t : RunTree) : Prop where
  below : ∀ entry ∈ t.all, entry.seqno < t.seqno
  distinct : (t.all.map RunEntry.seqno).Nodup

theorem ranked_of_distinct (entries : List RunEntry) (distinct : (entries.map RunEntry.seqno).Nodup) :
    Ranked RunEntry.key RunEntry.seqno entries :=
  fun _ oneMember _ twoMember _ same => List.inj_on_of_nodup_map distinct oneMember twoMember same

-- The decisions of the filter, entry by entry.
def settled (filter : RetentionFilter I) (earlier : List CompositeKey) : List RunEntry → List RunEntry
  | [] => []
  | entry :: entries =>
    if entry.value.isNone then entry :: settled filter earlier entries
    else (if filter.decided earlier entry.version = .remove then { entry with value := none } else entry) ::
      settled filter (earlier ++ [entry.version]) entries

def judgedVersions (entries : List RunEntry) : List CompositeKey := (judged entries).map RunEntry.version

theorem judged_versions_cons (entry : RunEntry) (entries : List RunEntry) :
    judgedVersions (entry :: entries) =
      if entry.value.isNone then judgedVersions entries else entry.version :: judgedVersions entries := by
  rw [judgedVersions, judged, List.filter_cons]
  cases entry.value <;> rfl

variable (filter : RetentionFilter I)

theorem settle_decisions (earlier : List CompositeKey) (entries : List RunEntry) :
    settle entries (filter.decisions earlier (judgedVersions entries)) = settled filter earlier entries := by
  induction entries generalizing earlier with
  | nil => rfl
  | cons entry entries ih =>
    rw [judged_versions_cons, settled]
    split
    · next tombstone =>
        rw [settle.eq_def, ← ih]
        exact if_pos tombstone
    · next value =>
        rw [RetentionFilter.decisions, settle.eq_def, ← ih]
        rcases filter.decided_cases earlier entry.version with keep | remove
        · rw [keep]
          exact if_neg value
        · rw [remove]
          exact if_neg value

theorem settled_append (earlier : List CompositeKey) (front back : List RunEntry) : settled filter earlier (front ++ back) =
      settled filter earlier front ++ settled filter (earlier ++ judgedVersions front) back := by
  induction front generalizing earlier with
  | nil =>
    rw [List.nil_append, judgedVersions, judged]
    simp [settled]
  | cons entry front ih =>
    rw [List.cons_append, settled, settled, judged_versions_cons]
    split
    · rw [ih, List.cons_append]
    · rw [ih, List.cons_append, List.append_assoc, List.singleton_append]

theorem settled_places (earlier : List CompositeKey) (entries : List RunEntry) :
    (settled filter earlier entries).map (fun entry => (entry.version, entry.seqno)) =
      entries.map fun entry => (entry.version, entry.seqno) := by
  induction entries generalizing earlier with
  | nil => rfl
  | cons entry entries ih =>
    rw [settled]
    split
    · rw [List.map_cons, ih, List.map_cons]
    · rw [List.map_cons, ih, List.map_cons]
      split <;> rfl

variable (picked : List (List RunEntry))

theorem merged_ascends : (merged picked).Pairwise fun first second => first.key < second.key :=
  first_of_each_ascending RunEntry.key RunEntry.seqno _ none (iterated_ordered RunEntry.key RunEntry.seqno picked.flatten)

theorem judged_ascends : Ascends (judgedVersions (merged picked)) :=
  List.pairwise_map.mpr ((merged_ascends picked).sublist List.filter_sublist)

theorem merged_sublist : ∃ order, order.Perm picked.flatten ∧ (merged picked).Sublist order :=
  ⟨_, List.perm_insertionSort _ _, first_of_each_sublist RunEntry.key _ none⟩

variable (policy : SecureCompactionPolicy I)

theorem compaction_settles (now : Int64) (picked : List (List RunEntry)) (w last : World I Unit) (verdicts : List Verdict)
    (filtered : (compact (some policy.factory) now ((judged (merged picked)).map RunEntry.key)).run w = .ok verdicts last) :
    settle (merged picked) verdicts = settled ⟨policy, none, 0, now⟩ [] (merged picked) := by
  have keys : (judged (merged picked)).map RunEntry.key = (judgedVersions (merged picked)).map CompositeKey.bytes := by
    rw [judgedVersions, List.map_map]
    rfl
  rw [keys] at filtered
  rw [RetentionFilter.filter_items_decide ⟨policy, none, 0, now⟩ [] (judgedVersions (merged picked))
    (RetentionFilter.fresh_tracks policy now) (judged_ascends picked) w last verdicts filtered, settle_decisions]

namespace RunTree

theorem search_iff (t : RunTree) (numbered : t.Numbered) (version : CompositeKey) (entry : RunEntry) :
    t.search version = some entry ↔
      entry ∈ t.all ∧ entry.version = version ∧ ∀ other ∈ t.all, other.version = version → other.seqno ≤ entry.seqno := by
  have same (other : RunEntry) : other.key = version.bytes ↔ other.version = version :=
    ⟨CompositeKey.bytes_injective _ _, congrArg CompositeKey.bytes⟩
  rw [search, newest_iff _ _ _ (ranked_of_distinct t.all numbered.distinct)]
  simp only [same]

theorem empty_numbered : empty.Numbered := ⟨by simp [empty, all], by simp [empty, all]⟩

theorem put_numbered (t : RunTree) (version : CompositeKey) (value : Option Bytes) (live : Finset CompositeKey)
    (numbered : t.Numbered) : (t.put version value live).Numbered := by
  constructor
  · intro entry member
    rcases List.mem_cons.mp member with rfl | old
    · exact Nat.lt_succ_self _
    · exact Nat.lt_succ_of_lt (numbered.below entry old)
  · refine List.nodup_cons.mpr ⟨?_, numbered.distinct⟩
    intro taken
    obtain ⟨entry, member, same⟩ := List.mem_map.mp taken
    exact absurd same (Nat.ne_of_lt (numbered.below entry member))

theorem put_search (t : RunTree) (version : CompositeKey) (value : Option Bytes) (live : Finset CompositeKey)
    (numbered : t.Numbered) (other : CompositeKey) :
    (t.put version value live).search other = if other = version then some ⟨version, t.seqno, value⟩ else t.search other := by
  have grown : (t.put version value live).all = ⟨version, t.seqno, value⟩ :: t.all := rfl
  rw [search, grown, newest_cons _ _ _ _ _ fun entry member => Nat.le_of_lt (numbered.below entry member), search]
  have same : RunEntry.key ⟨version, t.seqno, value⟩ = other.bytes ↔ other = version :=
    ⟨fun equal => (CompositeKey.bytes_injective _ _ equal).symm, fun equal => by rw [equal]; rfl⟩
  simp only [same]

end RunTree

section Compaction

variable (policy : SecureCompactionPolicy I) (now : Int64) (t : RunTree) (picked rest : List (List RunEntry))
  (parts : t.runs.Perm (picked ++ rest)) (numbered : t.Numbered)

def compacted : RunTree := ⟨t.memtable, settled ⟨policy, none, 0, now⟩ [] (merged picked) :: rest, t.seqno, t.live⟩

include parts in
theorem parts_all : t.all.Perm (t.memtable ++ (picked.flatten ++ rest.flatten)) := by
  rw [RunTree.all, ← List.flatten_append]
  exact parts.flatten.append_left t.memtable

theorem settled_member (entry : RunEntry) (member : entry ∈ settled (⟨policy, none, 0, now⟩ : RetentionFilter I) [] (merged picked)) :
    ∃ origin ∈ picked.flatten, origin.version = entry.version ∧ origin.seqno = entry.seqno := by
  have place := List.mem_map_of_mem (f := fun entry : RunEntry => (entry.version, entry.seqno)) member
  rw [settled_places] at place
  obtain ⟨origin, found, same⟩ := List.mem_map.mp place
  obtain ⟨order, perm, sublist⟩ := merged_sublist picked
  exact ⟨origin, perm.mem_iff.mp (sublist.subset found), congrArg Prod.fst same, congrArg Prod.snd same⟩

-- Whatever the tree holds after a compaction stood in its place before.
include parts in
theorem compacted_member (entry : RunEntry) (member : entry ∈ (compacted policy now t picked rest).all) :
    ∃ origin ∈ t.all, origin.version = entry.version ∧ origin.seqno = entry.seqno := by
  have all := parts_all t picked rest parts
  rcases List.mem_append.mp member with memtable | stored
  · exact ⟨entry, all.mem_iff.mpr (List.mem_append_left _ memtable), rfl, rfl⟩
  · rw [compacted, List.flatten_cons] at stored
    rcases List.mem_append.mp stored with new | kept
    · obtain ⟨origin, found, version, seqno⟩ := settled_member policy now picked entry new
      exact ⟨origin, all.mem_iff.mpr (List.mem_append_right _ (List.mem_append_left _ found)), version, seqno⟩
    · exact ⟨entry, all.mem_iff.mpr (List.mem_append_right _ (List.mem_append_right _ kept)), rfl, rfl⟩

include parts numbered in
theorem compacted_numbered : (compacted policy now t picked rest).Numbered := by
  constructor
  · intro entry member
    obtain ⟨origin, found, _, seqno⟩ := compacted_member policy now t picked rest parts entry member
    exact seqno ▸ numbered.below origin found
  · have seqnos : (settled (⟨policy, none, 0, now⟩ : RetentionFilter I) [] (merged picked)).map RunEntry.seqno =
        (merged picked).map RunEntry.seqno := by
      have places := congrArg (List.map Prod.snd) (settled_places (⟨policy, none, 0, now⟩ : RetentionFilter I) [] (merged picked))
      rw [List.map_map, List.map_map] at places
      exact places
    obtain ⟨order, perm, sublist⟩ := merged_sublist picked
    have whole : ((t.memtable ++ (order ++ rest.flatten)).map RunEntry.seqno).Nodup :=
      (((parts_all t picked rest parts).trans ((perm.symm.append_right _).append_left _)).map _).nodup_iff.mp numbered.distinct
    rw [RunTree.all, compacted, List.flatten_cons, List.map_append, List.map_append, seqnos, ← List.map_append, ← List.map_append]
    exact whole.sublist (((sublist.append_right _).append_left _).map _)

include parts numbered in
theorem compacted_search (version : CompositeKey) (entry result : RunEntry) (found : t.search version = some entry)
    (member : result ∈ (compacted policy now t picked rest).all) (same : result.version = entry.version)
    (seqno : result.seqno = entry.seqno) : (compacted policy now t picked rest).search version = some result := by
  obtain ⟨_, matched, highest⟩ := (t.search_iff numbered version entry).mp found
  refine (RunTree.search_iff _ (compacted_numbered policy now t picked rest parts numbered) version result).mpr
    ⟨member, same.trans matched, ?_⟩
  intro other otherMember otherMatched
  obtain ⟨origin, originMember, originVersion, originSeqno⟩ := compacted_member policy now t picked rest parts other otherMember
  rw [seqno, ← originSeqno]
  exact highest origin originMember (originVersion.trans otherMatched)

end Compaction

theorem newer_version_eq (key other : CompositeKey) :
    newerVersion key other = (sameGroup key other && decide (other.bytes < key.bytes)) := by
  rw [newerVersion, sameGroup, Bool.decide_and]
  by_cases group : other.group = key.group
  · have order : key.timestamp.toInt < other.timestamp.toInt ↔ other.bytes < key.bytes := by
      constructor
      · intro newer
        rcases lt_trichotomy other.bytes key.bytes with less | same | more
        · exact less
        · cases CompositeKey.bytes_injective _ _ same
          exact absurd newer (Int.lt_irrefl _)
        · have older := newer_first key other group.symm ((bytes_lt_iff key other).mp more)
          omega
      · intro less
        exact newer_first other key group ((bytes_lt_iff other key).mp less)
    simp only [group, decide_true, Bool.true_and, order]
  · simp only [group, decide_false, Bool.false_and]

theorem newer_count (keys before after : List CompositeKey) (key : CompositeKey) (ascends : Ascends keys)
    (split : keys = before ++ key :: after) : (keys.filter (newerVersion key)).length = ahead before key := by
  rw [ahead, ← below_eq_before keys before after key ascends split, List.filter_filter]
  exact congrArg List.length (List.filter_congr fun other _ => newer_version_eq key other)

theorem judged_split (front back : List RunEntry) (entry : RunEntry) (value : entry.value ≠ none) :
    judgedVersions (front ++ entry :: back) = judgedVersions front ++ entry.version :: judgedVersions back := by
  have held : ¬ entry.value.isNone = true := fun none => value (Option.isNone_iff_eq_none.mp none)
  have cons := judged_versions_cons entry back
  rw [if_neg held] at cons
  rw [← cons, judgedVersions, judged, List.filter_append, List.map_append]
  rfl

section Compaction

variable (policy : SecureCompactionPolicy I) (now : Int64) (t : RunTree) (picked rest : List (List RunEntry))
  (parts : t.runs.Perm (picked ++ rest)) (numbered : t.Numbered) (version : CompositeKey) (entry : RunEntry)
  (found : t.search version = some entry)

include parts numbered found

theorem compacted_outside (outside : entry ∉ picked.flatten) : (compacted policy now t picked rest).search version = some entry := by
  refine compacted_search policy now t picked rest parts numbered version entry entry found ?_ rfl rfl
  have stored := (parts_all t picked rest parts).mem_iff.mp ((t.search_iff numbered version entry).mp found).1
  rw [RunTree.all, compacted, List.flatten_cons]
  rcases List.mem_append.mp stored with memtable | later
  · exact List.mem_append_left _ memtable
  · exact List.mem_append_right _ (List.mem_append_right _ ((List.mem_append.mp later).resolve_left outside))

-- The newest entry of all is the newest of the runs it is in, so the filter judges it.
theorem compacted_inside (max : Nat) (retention : policy.retention = ⟨some max, none⟩) (inside : entry ∈ picked.flatten)
    (value : entry.value ≠ none) :
    (compacted policy now t picked rest).get version = none ↔
      max ≤ ((judged (merged picked)).filter fun other => newerVersion version other.version).length := by
  obtain ⟨_, matched, highest⟩ := (t.search_iff numbered version entry).mp found
  have all := parts_all t picked rest parts
  have distinct : (picked.flatten.map RunEntry.seqno).Nodup := by
    have whole := (all.map RunEntry.seqno).nodup_iff.mp numbered.distinct
    rw [List.map_append, List.map_append] at whole
    exact (whole.of_append_right).of_append_left
  have ranked := ranked_of_distinct picked.flatten distinct
  have listed : entry ∈ merged picked := by
    refine (first_iterated_iff _ _ _ ranked entry).mpr ⟨inside, ?_⟩
    intro other member same
    exact highest other (all.mem_iff.mpr (List.mem_append_right _ (List.mem_append_left _ member)))
      ((CompositeKey.bytes_injective _ _ same).trans matched)
  obtain ⟨front, back, split⟩ := List.append_of_mem listed
  have held : entry.value.isNone = false := Option.isNone_eq_false_iff.mpr (Option.isSome_iff_ne_none.mpr value)
  have count : ((judged (merged picked)).filter fun other => newerVersion version other.version).length =
      ahead (judgedVersions front) version := by
    have versions := newer_count (judgedVersions (merged picked)) (judgedVersions front) (judgedVersions back) version
      (judged_ascends picked) (by rw [split, judged_split front back entry value, matched])
    rw [judgedVersions, List.filter_map, List.length_map] at versions
    exact versions
  have result := compacted_search policy now t picked rest parts numbered version entry
    (if RetentionFilter.decided ⟨policy, none, 0, now⟩ (judgedVersions front) entry.version = .remove
      then { entry with value := none } else entry) found
    (by
      rw [RunTree.all, compacted, List.flatten_cons, split, settled_append, settled, if_neg (by simp [held])]
      simp)
    (by split <;> rfl) (by split <;> rfl)
  have fresh : RetentionFilter.isExpired ⟨policy, none, 0, now⟩ entry.version.timestamp = false := by
    rw [RetentionFilter.isExpired, retention]
  have crowds : policy.retention.Crowds (judgedVersions front) version ↔ max ≤ ahead (judgedVersions front) version := by
    rw [retention]
    constructor
    · rintro ⟨limit, same, crowd⟩
      cases same
      exact crowd
    · intro crowd
      exact ⟨max, rfl, crowd⟩
  have removed : RetentionFilter.decided ⟨policy, none, 0, now⟩ (judgedVersions front) entry.version = .remove ↔
      max ≤ ahead (judgedVersions front) version := by
    rw [RetentionFilter.decided_remove_iff, fresh, matched, crowds]
    exact or_iff_left Bool.false_ne_true
  rw [RunTree.get, result, Option.bind_some, count, ← removed]
  split
  · next gone => exact iff_of_true rfl gone
  · next kept => exact iff_of_false value kept

end Compaction

theorem step_numbered (t next : RunTree) (label : RunLabel) (numbered : t.Numbered)
    (step : RetentionStep policy t label next) : next.Numbered := by
  cases step with
  | insertVersion cell key stored _ _ => exact t.put_numbered _ _ _ numbered
  | deleteVersion cell key _ _ => exact t.put_numbered _ _ _ numbered
  | flush => exact ⟨numbered.below, numbered.distinct⟩
  | compact picked rest parts now w last verdicts filtered =>
    rw [compaction_settles policy now picked w last verdicts filtered]
    exact compacted_numbered policy now t picked rest parts numbered

theorem put_keeps (t : RunTree) (cell version : CompositeKey) (value : Option Bytes) (live : Finset CompositeKey)
    (numbered : t.Numbered) (other : version ≠ cell) : (t.put cell value live).get version = t.get version := by
  rw [RunTree.get, t.put_search cell value live numbered version, if_neg other, RunTree.get]

theorem compact_no_loss_iff (max : Nat) (retention : policy.retention = ⟨some max, none⟩) (now : Int64) (t : RunTree)
    (picked rest : List (List RunEntry)) (parts : t.runs.Perm (picked ++ rest)) (numbered : t.Numbered) :
    NoLoss max t (compacted policy now t picked rest) ↔ CountsLive max t (.compact picked) := by
  constructor
  · intro noLoss version live entry inside found value crowd
    have stored : t.get version ≠ none := by
      rw [RunTree.get, found]
      exact value
    exact noLoss version live stored
      ((compacted_inside policy now t picked rest parts numbered version entry found max retention inside value).mpr crowd)
  · intro counts version live stored lost
    cases found : t.search version with
    | none => exact absurd (by rw [RunTree.get, found]; rfl) stored
    | some entry =>
      have value : entry.value ≠ none := by
        rw [RunTree.get, found] at stored
        exact stored
      by_cases inside : entry ∈ picked.flatten
      · exact counts version live entry inside found value
          ((compacted_inside policy now t picked rest parts numbered version entry found max retention inside value).mp lost)
      · rw [RunTree.get, compacted_outside policy now t picked rest parts numbered version entry found inside] at lost
        exact absurd lost value

theorem retention_no_loss_iff (policy : SecureCompactionPolicy I) (max : Nat) (retention : policy.retention = ⟨some max, none⟩)
    (labels : List RunLabel) (t next : RunTree) (label : RunLabel) (run : Run (RetentionStep policy) .empty labels t)
    (step : RetentionStep policy t label next) : NoLoss max t next ↔ CountsLive max t label := by
  have numbered : t.Numbered :=
    run_invariant (RetentionStep policy) RunTree.Numbered (fun t label next => step_numbered policy t next label) run
      RunTree.empty_numbered
  cases step with
  | insertVersion cell key stored _ _ =>
    refine iff_of_true ?_ trivial
    intro version live held lost
    by_cases same : version = cell.toKey
    · rw [RunTree.insertVersion, RunTree.get, t.put_search _ _ _ numbered version, if_pos same] at lost
      cases lost
    · exact absurd ((put_keeps t _ version _ _ numbered same).symm.trans lost) held
  | deleteVersion cell key _ _ =>
    refine iff_of_true ?_ trivial
    intro version live held lost
    have same : version ≠ cell.toKey := Finset.ne_of_mem_erase live
    exact absurd ((put_keeps t _ version _ _ numbered same).symm.trans lost) held
  | flush =>
    refine iff_of_true ?_ trivial
    intro version live held lost
    exact absurd lost held
  | compact picked rest parts now w last verdicts filtered =>
    rw [compaction_settles policy now picked w last verdicts filtered]
    exact compact_no_loss_iff policy max retention now t picked rest parts numbered

def keepOne : SecureCompactionPolicy Unit := ⟨"cells", ⟨some 1, none⟩, none⟩

def versionAt (timestamp : Int64) : VersionedCell := ⟨⟨[1], [], [], []⟩, timestamp⟩

def bothFlushed : RunTree := ((RunTree.empty.insertVersion (versionAt 5) [7]).insertVersion (versionAt 10) [8]).flush

def newerDeleted : RunTree := (bothFlushed.deleteVersion (versionAt 10)).flush

-- The run that both versions were flushed to, without the later one with the tombstone.
def olderRun : List RunEntry := [⟨(versionAt 10).toKey, 1, some [8]⟩, ⟨(versionAt 5).toKey, 0, some [7]⟩]

theorem both_then_deleted :
    Run (RetentionStep keepOne) .empty
      [.insertVersion (versionAt 5), .insertVersion (versionAt 10), .flush, .deleteVersion (versionAt 10), .flush] newerDeleted := by
  have canonical (timestamp : Int64) : canonicalizeCell (versionAt timestamp) = .ok (versionAt timestamp) := rfl
  refine .cons _ _ (.insertVersion _ _ _ [7] (canonical 5) rfl) ?_
  refine .cons _ _ (.insertVersion _ _ _ [8] (canonical 10) rfl) ?_
  refine .cons _ _ (.flush _) ?_
  refine .cons _ _ (.deleteVersion _ _ _ (canonical 10) rfl) ?_
  exact .cons _ _ (.flush _) (.nil _)

theorem deleted_version_costs_live_one :
    ∃ labels t next, Run (RetentionStep keepOne) .empty labels t ∧ RetentionStep keepOne t (.compact [olderRun]) next ∧
      (versionAt 5).toKey ∈ next.live ∧ t.get (versionAt 5).toKey = some [7] ∧ next.get (versionAt 5).toKey = none ∧
      liveAbove next (versionAt 5).toKey = 0 := by
  refine ⟨_, newerDeleted, _, both_then_deleted, .compact newerDeleted [olderRun] [[⟨(versionAt 10).toKey, 2, none⟩]]
    (List.Perm.swap _ _ _) 0 ⟨0, [], ()⟩ ⟨0, [], ()⟩ [.keep, .remove] rfl, ?_, rfl, rfl, ?_⟩
  · decide
  · decide

-- Compacted together with the tombstone, the deleted version does not count.
theorem whole_compaction_keeps_live_one :
    ∃ next, RetentionStep keepOne newerDeleted (.compact newerDeleted.runs) next ∧ NoLoss 1 newerDeleted next := by
  have step : RetentionStep keepOne newerDeleted (.compact newerDeleted.runs) _ :=
    .compact newerDeleted newerDeleted.runs [] (by rw [List.append_nil]) 0 ⟨0, [], ()⟩ ⟨0, [], ()⟩ [.keep] rfl
  refine ⟨_, step, (retention_no_loss_iff keepOne 1 rfl _ newerDeleted _ _ both_then_deleted step).mpr ?_⟩
  intro version live entry _ _ _ crowd
  have only : newerDeleted.live = {(versionAt 5).toKey} := by decide
  rw [only, Finset.mem_singleton] at live
  rw [live] at crowd
  exact absurd crowd (by decide)

end OmryaKv.Secure
