import OmryaKv.Secure.Cell

set_option autoImplicit false

namespace OmryaKv.Secure

open Lib

structure Duration where
  secs : UInt64
  nanos : Fin 1000000000
deriving DecidableEq

def Duration.isZero (duration : Duration) : Bool := duration.secs == 0 && duration.nanos == 0

structure RetentionPolicy where
  maxVersions : Option Nat
  ttl : Option Duration
deriving DecidableEq

def RetentionPolicy.validate (policy : RetentionPolicy) : Except Error Unit :=
  if policy.maxVersions = some 0 then .error (.invalidPolicy "max_versions must be greater than zero")
  else if policy.ttl.any Duration.isZero then .error (.invalidPolicy "ttl must be greater than zero")
  else .ok ()

structure SecureCompactionPolicy (I : Type) where
  logicalKeyspace : String
  retention : RetentionPolicy
  audit : Option (AuditConfig I)

abbrev VersionGroup := Cell

structure RetentionFilter (I : Type) where
  policy : SecureCompactionPolicy I
  currentGroup : Option VersionGroup
  versionsSeen : Nat
  nowUnixSeconds : Int64

-- replaceValue is there for the factories of others.
inductive Verdict where
  | keep
  | remove
  | replaceValue (value : Bytes)
deriving DecidableEq

variable {I D α : Type}

def SecureCompactionPolicy.new (name : String) (retention : RetentionPolicy) (audit : Option (AuditConfig I)) :
    Except Error (SecureCompactionPolicy I) := do
  retention.validate
  return ⟨name, retention, audit⟩

def i64Max : Nat := 2 ^ 63 - 1

-- Whatever goes wrong, the tree is told that it cannot go on.
def toLsmError (m : SecureM I D α) : SecureM I D α := fun w =>
  match m w with
  | .ok a next => .ok a next
  | .error _ next => .error .storage next

namespace RetentionFilter

def isExpired (filter : RetentionFilter I) (timestamp : Int64) : Bool :=
  match filter.policy.retention.ttl with
  | none => false
  | some ttl =>
    if ttl.secs.toNat ≤ i64Max then
      -- saturating_sub; the difference cannot be too large.
      decide (timestamp.toInt ≤ max (-2 ^ 63) (filter.nowUnixSeconds.toInt - ttl.secs.toNat))
    else false

def auditDelete (filter : RetentionFilter I) (reason : CompactionDeleteReason) : SecureM I D Unit :=
  match filter.policy.audit with
  | some audit => audit.record (.compactionDeleted filter.policy.logicalKeyspace reason)
  | none => return ()

-- The filter after it has counted the item in.
def counted (filter : RetentionFilter I) (group : VersionGroup) : RetentionFilter I :=
  let filter := if filter.currentGroup ≠ some group then { filter with currentGroup := some group, versionsSeen := 0 } else filter
  { filter with versionsSeen := filter.versionsSeen + 1 }

def tooMany (filter : RetentionFilter I) : Bool :=
  filter.policy.retention.maxVersions.any fun max => decide (filter.versionsSeen > max)

def filterItem (filter : RetentionFilter I) (item : UserKey) : SecureM I D (RetentionFilter I × Verdict) := do
  let key ← toLsmError (lift (CompositeKey.decode item))
  let filter := filter.counted (VersionedCell.ofKey key).cell
  if filter.tooMany then do
    toLsmError (filter.auditDelete .maxVersions)
    return (filter, .remove)
  else if filter.isExpired key.timestamp then do
    toLsmError (filter.auditDelete .ttl)
    return (filter, .remove)
  else return (filter, .keep)

def filterItems (filter : RetentionFilter I) : List UserKey → SecureM I D (List Verdict)
  | [] => return []
  | item :: rest => do
      let (filter, verdict) ← filter.filterItem item
      let verdicts ← filter.filterItems rest
      return verdict :: verdicts

end RetentionFilter

-- A factory is what the filters it makes do with the items of a compaction.
abbrev FilterFactory (I : Type) := Int64 → List UserKey → SecureM I Unit (List Verdict)

def SecureCompactionPolicy.factory (policy : SecureCompactionPolicy I) : FilterFactory I := fun now items =>
  RetentionFilter.filterItems ⟨policy, none, 0, now⟩ items

-- What a compaction of a tree with this factory does with the items it meets.
def compact (factory : Option (FilterFactory I)) (now : Int64) (items : List UserKey) : SecureM I Unit (List Verdict) :=
  match factory with
  | some factory => factory now items
  | none => return items.map fun _ => .keep

def FilteredBy (policy : SecureCompactionPolicy I) (factory : Option (FilterFactory I)) : Prop :=
  ∀ now (cells : List CompositeKey),
    compact factory now (cells.map CompositeKey.bytes) = compact (some policy.factory) now (cells.map CompositeKey.bytes)

-- A policy that asks for nothing: a ttl out of range is no ttl.
def RetentionPolicy.Idle (policy : RetentionPolicy) : Prop :=
  policy.maxVersions = none ∧ ∀ ttl, policy.ttl = some ttl → i64Max < ttl.secs.toNat

namespace RetentionFilter

variable (filter : RetentionFilter I)

theorem counted_policy (group : VersionGroup) : (filter.counted group).policy = filter.policy := by
  unfold counted
  split <;> rfl

theorem filter_item_cell (cell : CompositeKey) : (filter.filterItem cell.bytes : SecureM I D (RetentionFilter I × Verdict)) =
      if (filter.counted (VersionedCell.ofKey cell).cell).tooMany then do
        toLsmError ((filter.counted (VersionedCell.ofKey cell).cell).auditDelete .maxVersions)
        return (filter.counted (VersionedCell.ofKey cell).cell, .remove)
      else if (filter.counted (VersionedCell.ofKey cell).cell).isExpired cell.timestamp then do
        toLsmError ((filter.counted (VersionedCell.ofKey cell).cell).auditDelete .ttl)
        return (filter.counted (VersionedCell.ofKey cell).cell, .remove)
      else return (filter.counted (VersionedCell.ofKey cell).cell, .keep) := by
  rw [filterItem, (CompositeKey.decode_iff cell.bytes cell).mpr rfl]
  rfl

-- An item that is kept is neither one too many nor expired.
theorem filter_item_kept (filter next : RetentionFilter I) (cell : CompositeKey) (w last : World I D)
    (kept : (filter.filterItem cell.bytes).run w = .ok (next, .keep) last) :
    next = filter.counted (VersionedCell.ofKey cell).cell ∧ next.tooMany = false ∧ next.isExpired cell.timestamp = false := by
  rw [filter_item_cell] at kept
  split at kept
  · obtain ⟨_, _, _, removed⟩ := bind_ok _ _ _ _ _ kept
    cases removed
  · next few =>
      split at kept
      · obtain ⟨_, _, _, removed⟩ := bind_ok _ _ _ _ _ kept
        cases removed
      · next fresh =>
          cases kept
          exact ⟨rfl, by simpa using few, by simpa using fresh⟩

theorem filter_items_kept (cell : CompositeKey) (rest : List UserKey) (verdicts : List Verdict) (w last : World I D)
    (kept : (filter.filterItems (cell.bytes :: rest)).run w = .ok (.keep :: verdicts) last) :
    ∃ middle, ((filter.counted (VersionedCell.ofKey cell).cell).filterItems rest).run middle = .ok verdicts last ∧
      (filter.counted (VersionedCell.ofKey cell).cell).tooMany = false ∧
      (filter.counted (VersionedCell.ofKey cell).cell).isExpired cell.timestamp = false := by
  obtain ⟨⟨next, verdict⟩, middle, first, later⟩ := bind_ok _ _ _ _ _ kept
  obtain ⟨others, _, ran, returned⟩ := bind_ok _ _ _ _ _ later
  cases returned
  obtain ⟨rfl, few, fresh⟩ := filter.filter_item_kept next cell w middle first
  exact ⟨middle, ran, few, fresh⟩

def seenOf (filter : RetentionFilter I) (group : VersionGroup) : Nat :=
  if filter.currentGroup = some group then filter.versionsSeen else 0

theorem counted_seen (group : VersionGroup) : (filter.counted group).versionsSeen = filter.seenOf group + 1 ∧
      (filter.counted group).seenOf group = filter.seenOf group + 1 := by
  unfold counted seenOf
  by_cases same : filter.currentGroup = some group
  · simp [same]
  · simp [same]

theorem kept_versions_bounded (max count : Nat) (filter : RetentionFilter I)
    (limited : filter.policy.retention.maxVersions = some max) (cell : CompositeKey) (w last : World I D)
    (kept : (filter.filterItems (List.replicate count cell.bytes)).run w = .ok (List.replicate count .keep) last) :
    count = 0 ∨ filter.seenOf (VersionedCell.ofKey cell).cell + count ≤ max := by
  induction count generalizing filter w with
  | zero => exact .inl rfl
  | succ count ih =>
    obtain ⟨middle, ran, few, _⟩ := filter.filter_items_kept cell _ _ w last kept
    obtain ⟨versions, seen⟩ := filter.counted_seen (VersionedCell.ofKey cell).cell
    have policy := filter.counted_policy (VersionedCell.ofKey cell).cell
    rw [tooMany, policy, limited, versions] at few
    have room : filter.seenOf (VersionedCell.ofKey cell).cell + 1 ≤ max := by simpa using few
    rcases ih _ (policy ▸ limited) middle ran with rfl | rest
    · exact .inr room
    · rw [seen] at rest
      exact .inr (by omega)

theorem idle_keeps (idle : filter.policy.retention.Idle) (cells : List CompositeKey) :
    (filter.filterItems (cells.map CompositeKey.bytes) : SecureM I D (List Verdict)) =
      return (cells.map CompositeKey.bytes).map fun _ => .keep := by
  induction cells generalizing filter with
  | nil => rfl
  | cons cell cells ih =>
    have policy := filter.counted_policy (VersionedCell.ofKey cell).cell
    have few : (filter.counted (VersionedCell.ofKey cell).cell).tooMany = false := by
      rw [tooMany, policy, idle.1]
      rfl
    have fresh : (filter.counted (VersionedCell.ofKey cell).cell).isExpired cell.timestamp = false := by
      rw [isExpired, policy]
      cases limit : filter.policy.retention.ttl with
      | none => rfl
      | some ttl => exact if_neg (Nat.not_le.mpr (idle.2 ttl limit))
    rw [List.map_cons, filterItems, filter_item_cell, if_neg (by simp [few]), if_neg (by simp [fresh]), pure_bind]
    dsimp only
    rw [ih _ (policy ▸ idle), pure_bind]
    rfl

end RetentionFilter

-- Without a filter a policy is obeyed only if it asks for nothing.
theorem unfiltered_iff (policy : SecureCompactionPolicy I) : FilteredBy policy none ↔ policy.retention.Idle := by
  constructor
  · intro filtered
    have kept : ∀ now (cells : List CompositeKey) (w : World I Unit),
        (RetentionFilter.filterItems ⟨policy, none, 0, now⟩ (cells.map CompositeKey.bytes)).run w =
          .ok ((cells.map CompositeKey.bytes).map fun _ => .keep) w := fun now cells w =>
      (congrArg (fun m => EStateM.run m w) (filtered now cells)).symm
    have start : World I Unit := ⟨0, [], ()⟩
    constructor
    · cases limited : policy.retention.maxVersions with
      | none => rfl
      | some max =>
        have all := kept 0 (List.replicate (max + 1) ⟨[], [], [], [], 0⟩) start
        rw [List.map_replicate, List.map_replicate] at all
        rcases RetentionFilter.kept_versions_bounded max (max + 1) _ limited _ start start all with none | bounded
        · cases none
        · omega
    · intro ttl limited
      by_contra short
      obtain ⟨_, _, _, fresh⟩ := RetentionFilter.filter_items_kept _ ⟨[], [], [], [], Int64.minValue⟩ [] [] start start
        (kept 0 [⟨[], [], [], [], Int64.minValue⟩] start)
      rw [RetentionFilter.isExpired, RetentionFilter.counted_policy, limited] at fresh
      simp [Nat.not_lt.mp short] at fresh
  · intro idle now cells
    exact (RetentionFilter.idle_keeps ⟨policy, none, 0, now⟩ idle cells).symm

end OmryaKv.Secure
