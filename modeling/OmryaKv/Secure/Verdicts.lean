import OmryaKv.Secure.Retention

set_option autoImplicit false

namespace OmryaKv.Secure

open Lib

abbrev CompositeKey.group (key : CompositeKey) : VersionGroup := (VersionedCell.ofKey key).cell

def sameGroup (key other : CompositeKey) : Bool := decide (other.group = key.group)

-- How many of the keys that went before belong to the group of this one.
def ahead (earlier : List CompositeKey) (key : CompositeKey) : Nat := (earlier.filter (sameGroup key)).length

def RetentionPolicy.crowds (policy : RetentionPolicy) (earlier : List CompositeKey) (key : CompositeKey) : Bool :=
  policy.maxVersions.any fun max => decide (max ≤ ahead earlier key)

-- The sink is asked for every removal; only one that fails closed can stop it.
def SecureCompactionPolicy.Audits {I : Type} (policy : SecureCompactionPolicy I) : Prop :=
  ∀ audit, policy.audit = some audit → audit.failureMode = .failClosed → ∀ now event, audit.sink now event = .ok ()

variable {I D : Type}

theorem ahead_append (earlier : List CompositeKey) (last key : CompositeKey) :
    ahead (earlier ++ [last]) key = ahead earlier key + if last.group = key.group then 1 else 0 := by
  rw [ahead, ahead, List.filter_append, List.length_append]
  by_cases same : last.group = key.group
  · simp [sameGroup, same]
  · simp [sameGroup, same]

theorem ahead_congr (earlier : List CompositeKey) (one two : CompositeKey) (same : one.group = two.group) :
    ahead earlier one = ahead earlier two := by
  rw [ahead, ahead]
  unfold sameGroup
  rw [same]

def Ascends (keys : List CompositeKey) : Prop := keys.Pairwise fun first second => first.bytes < second.bytes

theorem ascends_above (earlier keys : List CompositeKey) (key : CompositeKey) (ascends : Ascends (earlier ++ key :: keys)) :
    (∀ other ∈ earlier, other.bytes < key.bytes) ∧ Ascends (earlier ++ [key] ++ keys) := by
  refine ⟨?_, by rwa [List.append_assoc]⟩
  intro other member
  exact (List.pairwise_append.mp ascends).2.2 other member key List.mem_cons_self

variable (filter : RetentionFilter I)

namespace RetentionFilter

-- A filter that has seen these keys. What it has counted is right for every key
-- that can still come.
def Tracks (filter : RetentionFilter I) (earlier : List CompositeKey) : Prop :=
  ∀ key : CompositeKey, (∀ other ∈ earlier, other.bytes < key.bytes) → filter.seenOf key.group = ahead earlier key

variable (group : VersionGroup)

theorem counted_group : (filter.counted group).currentGroup = some group := by
  unfold counted
  by_cases same : filter.currentGroup = some group
  · simp [same]
  · simp [same]

variable (earlier : List CompositeKey)

theorem counted_tracks (key : CompositeKey) (tracks : filter.Tracks earlier)
    (above : ∀ other ∈ earlier, other.bytes < key.bytes) :
    (filter.counted key.group).Tracks (earlier ++ [key]) := by
  intro next later
  have less : key.bytes < next.bytes := later key (List.mem_append_right _ List.mem_cons_self)
  obtain ⟨_, seen⟩ := filter.counted_seen key.group
  rw [ahead_append]
  by_cases same : key.group = next.group
  · rw [if_pos same, ← same, seen, tracks key above, ahead_congr earlier key next same]
  · have none : ahead earlier next = 0 := by
      rw [ahead, List.length_eq_zero_iff, List.filter_eq_nil_iff]
      intro other member group
      have otherGroup : other.group = next.group := by simpa [sameGroup] using group
      have between := group_between other key next (above other member) less otherGroup
      exact same (between.trans otherGroup)
    have fresh : (filter.counted key.group).seenOf next.group = 0 := by
      rw [seenOf, counted_group]
      exact if_neg fun equal => same (Option.some.inj equal)
    rw [fresh, none, if_neg same]

theorem counted_expired (timestamp : Int64) : (filter.counted group).isExpired timestamp = filter.isExpired timestamp := by
  have now : (filter.counted group).nowUnixSeconds = filter.nowUnixSeconds := by
    unfold counted
    split <;> rfl
  rw [isExpired, isExpired, counted_policy, now]

theorem counted_crowds (key : CompositeKey) (tracks : filter.Tracks earlier)
    (above : ∀ other ∈ earlier, other.bytes < key.bytes) :
    (filter.counted key.group).tooMany = filter.policy.retention.crowds earlier key := by
  obtain ⟨versions, _⟩ := filter.counted_seen key.group
  rw [tooMany, counted_policy, versions, tracks key above, RetentionPolicy.crowds]
  simp only [gt_iff_lt, Nat.lt_succ_iff]

def decided (filter : RetentionFilter I) (earlier : List CompositeKey) (key : CompositeKey) : Verdict :=
  if filter.policy.retention.crowds earlier key || filter.isExpired key.timestamp then .remove else .keep

theorem decided_cases (key : CompositeKey) : filter.decided earlier key = .keep ∨ filter.decided earlier key = .remove := by
  rw [decided]
  split
  · exact .inr rfl
  · exact .inl rfl

def decisions (filter : RetentionFilter I) (earlier : List CompositeKey) : List CompositeKey → List Verdict
  | [] => []
  | key :: keys => filter.decided earlier key :: filter.decisions (earlier ++ [key]) keys

-- A removal goes through the audit before it is a verdict.
theorem filter_item_decides (key : CompositeKey) (tracks : filter.Tracks earlier)
    (above : ∀ other ∈ earlier, other.bytes < key.bytes) :
    ∃ audit : SecureM I D Unit, (audit = pure () ∨ ∃ reason, audit = toLsmError (filter.auditDelete reason)) ∧
      filter.filterItem key.bytes = audit >>= fun _ => pure (filter.counted key.group, filter.decided earlier key) := by
  have audited (reason : CompactionDeleteReason) :
      (filter.counted key.group).auditDelete reason = (filter.auditDelete reason : SecureM I D Unit) := by
    rw [auditDelete, auditDelete, counted_policy]
  rw [filter_item_cell]
  change ∃ audit : SecureM I D Unit, _ ∧ (if (filter.counted key.group).tooMany then _ else
    if (filter.counted key.group).isExpired key.timestamp then _ else _) = _
  rw [counted_crowds filter earlier key tracks above, counted_expired, decided]
  cases filter.policy.retention.crowds earlier key with
  | true => exact ⟨_, .inr ⟨.maxVersions, rfl⟩, by rw [← audited]; rfl⟩
  | false =>
    cases filter.isExpired key.timestamp with
    | true => exact ⟨_, .inr ⟨.ttl, rfl⟩, by rw [← audited]; rfl⟩
    | false => exact ⟨pure (), .inl rfl, rfl⟩

theorem counted_decided (earlier : List CompositeKey) (key : CompositeKey) :
    (filter.counted group).decided earlier key = filter.decided earlier key := by
  rw [decided, decided, counted_policy, counted_expired]

theorem counted_decisions (earlier keys : List CompositeKey) :
    (filter.counted group).decisions earlier keys = filter.decisions earlier keys := by
  induction keys generalizing earlier with
  | nil => rfl
  | cons key keys ih => rw [decisions, decisions, counted_decided, ih]

theorem filter_items_decide (earlier keys : List CompositeKey) (tracks : filter.Tracks earlier)
    (ascends : Ascends (earlier ++ keys)) (w last : World I D) (verdicts : List Verdict)
    (completed : (filter.filterItems (keys.map CompositeKey.bytes)).run w = .ok verdicts last) :
    verdicts = filter.decisions earlier keys := by
  induction keys generalizing filter earlier w verdicts with
  | nil =>
    cases completed
    rfl
  | cons key keys ih =>
    obtain ⟨above, rest⟩ := ascends_above earlier keys key ascends
    obtain ⟨audit, _, item⟩ := filter.filter_item_decides earlier key tracks above (D := D)
    obtain ⟨⟨next, verdict⟩, middle, first, later⟩ := bind_ok _ _ _ _ _ completed
    obtain ⟨others, _, ran, returned⟩ := bind_ok _ _ _ _ _ later
    cases returned
    rw [item] at first
    obtain ⟨_, _, _, decision⟩ := bind_ok _ _ _ _ _ first
    cases decision
    rw [ih _ (earlier ++ [key]) (filter.counted_tracks earlier key tracks above) rest middle others ran, counted_decisions, decisions]

theorem to_lsm_error_ok {α : Type} (m : SecureM I D α) (w next : World I D) (a : α) :
    (toLsmError m).run w = .ok a next ↔ m.run w = .ok a next := by
  change toLsmError m w = _ ↔ m w = _
  rw [toLsmError]
  cases m w with
  | ok b s => exact Iff.rfl
  | error e s => exact iff_of_false nofun nofun

theorem audit_delete_ok (audits : filter.policy.Audits) (reason : CompactionDeleteReason)
    (w : World I D) : ∃ next, (toLsmError (filter.auditDelete reason)).run w = .ok () next := by
  have recorded : ∃ next, (filter.auditDelete reason : SecureM I D Unit).run w = .ok () next := by
    unfold auditDelete
    cases configured : filter.policy.audit with
    | none => exact ⟨w, rfl⟩
    | some audit => exact record_ok audit _ w fun closed => audits audit configured closed w.clock _
  exact recorded.imp fun next => (to_lsm_error_ok _ w next ()).mpr

theorem filter_items_total (audits : filter.policy.Audits) (earlier keys : List CompositeKey) (tracks : filter.Tracks earlier)
    (ascends : Ascends (earlier ++ keys)) (w : World I D) :
    ∃ last, (filter.filterItems (keys.map CompositeKey.bytes)).run w = .ok (filter.decisions earlier keys) last := by
  induction keys generalizing filter earlier w with
  | nil => exact ⟨w, rfl⟩
  | cons key keys ih =>
    obtain ⟨above, rest⟩ := ascends_above earlier keys key ascends
    obtain ⟨audit, kind, item⟩ := filter.filter_item_decides earlier key tracks above (D := D)
    have audited : ∃ next, audit.run w = .ok () next := by
      rcases kind with rfl | ⟨reason, rfl⟩
      · exact ⟨w, rfl⟩
      · exact filter.audit_delete_ok audits reason w
    obtain ⟨next, passed⟩ := audited
    obtain ⟨last, later⟩ := ih (filter.counted key.group) (filter.counted_policy key.group ▸ audits) (earlier ++ [key])
      (filter.counted_tracks earlier key tracks above) rest next
    refine ⟨last, ?_⟩
    rw [List.map_cons, filterItems, item, bind_assoc, EStateM.run_bind, passed]
    change ((filter.counted key.group).filterItems (keys.map CompositeKey.bytes) >>= fun verdicts =>
      pure (filter.decided earlier key :: verdicts)).run next = _
    rw [EStateM.run_bind, later, counted_decisions]
    rfl

theorem decisions_at (earlier before after : List CompositeKey) (key : CompositeKey) :
    (filter.decisions earlier (before ++ key :: after))[before.length]? = some (filter.decided (earlier ++ before) key) := by
  induction before generalizing earlier with
  | nil => rw [List.nil_append, List.append_nil, decisions, List.length_nil, List.getElem?_cons_zero]
  | cons first before ih =>
    rw [List.cons_append, decisions, List.length_cons, List.getElem?_cons_succ, ih, List.append_assoc, List.singleton_append]

theorem decisions_length (earlier keys : List CompositeKey) : (filter.decisions earlier keys).length = keys.length := by
  induction keys generalizing earlier with
  | nil => rfl
  | cons key keys ih => rw [decisions, List.length_cons, List.length_cons, ih]

theorem fresh_tracks (policy : SecureCompactionPolicy I) (now : Int64) : Tracks ⟨policy, none, 0, now⟩ [] := fun _ _ => rfl

end RetentionFilter

namespace RetentionPolicy

def Crowds (policy : RetentionPolicy) (earlier : List CompositeKey) (key : CompositeKey) : Prop :=
  ∃ max, policy.maxVersions = some max ∧ max ≤ (earlier.filter fun other => decide (other.group = key.group)).length

def Expires (policy : RetentionPolicy) (now timestamp : Int64) : Prop :=
  ∃ ttl, policy.ttl = some ttl ∧ timestamp.toInt ≤ now.toInt - ttl.secs.toNat

def WholeSeconds (policy : RetentionPolicy) : Prop :=
  ∀ ttl, policy.ttl = some ttl → ttl.nanos.val = 0 ∧ ttl.secs.toNat ≤ i64Max

theorem crowds_iff (policy : RetentionPolicy) (earlier : List CompositeKey) (key : CompositeKey) :
    policy.crowds earlier key = true ↔ policy.Crowds earlier key := by
  rw [crowds, Option.any_eq_true]
  exact exists_congr fun max => and_congr_right fun _ => decide_eq_true_iff

end RetentionPolicy

-- A time that is not negative and a ttl that fits have a difference that fits.
theorem ttl_difference_fits (now : Int64) (nonneg : 0 ≤ now.toInt) (ttl : Duration) (fits : ttl.secs.toNat ≤ i64Max) :
    -2 ^ 63 ≤ now.toInt - ttl.secs.toNat ∧ now.toInt - ttl.secs.toNat ≤ 2 ^ 63 - 1 := by
  have top : now.toInt < 2 ^ 63 := now.toInt_lt
  rw [i64Max] at fits
  omega

namespace RetentionFilter

theorem expired_iff (nonneg : 0 ≤ filter.nowUnixSeconds.toInt) (timestamp : Int64) :
    filter.isExpired timestamp = true ↔ ∃ ttl, filter.policy.retention.ttl = some ttl ∧ ttl.secs.toNat ≤ i64Max ∧
      timestamp.toInt ≤ filter.nowUnixSeconds.toInt - ttl.secs.toNat := by
  rw [isExpired]
  cases filter.policy.retention.ttl with
  | none => simp
  | some ttl =>
    by_cases fits : ttl.secs.toNat ≤ i64Max
    · have low := (ttl_difference_fits filter.nowUnixSeconds nonneg ttl fits).1
      simp only [fits, if_true, max_eq_right low, decide_eq_true_eq, Option.some.injEq, exists_eq_left', true_and]
    · simp [fits]

theorem decided_keep_iff (earlier : List CompositeKey) (key : CompositeKey) : filter.decided earlier key = .keep ↔
      ¬ filter.policy.retention.Crowds earlier key ∧ filter.isExpired key.timestamp = false := by
  rw [← RetentionPolicy.crowds_iff, decided]
  cases filter.policy.retention.crowds earlier key <;> cases filter.isExpired key.timestamp <;> simp

theorem decided_remove_iff (earlier : List CompositeKey) (key : CompositeKey) : filter.decided earlier key = .remove ↔
      filter.policy.retention.Crowds earlier key ∨ filter.isExpired key.timestamp = true := by
  rw [← RetentionPolicy.crowds_iff, decided]
  cases filter.policy.retention.crowds earlier key <;> cases filter.isExpired key.timestamp <;> simp

end RetentionFilter

instance expiresDecidable (policy : RetentionPolicy) (now timestamp : Int64) : Decidable (policy.Expires now timestamp) :=
  decidable_of_iff (policy.ttl.any fun ttl => decide (timestamp.toInt ≤ now.toInt - ttl.secs.toNat)) (by
    simp only [RetentionPolicy.Expires, Option.any_eq_true, decide_eq_true_eq])

-- Versions of the group that are newer and not expired.
abbrev newerUnexpired (policy : RetentionPolicy) (now : Int64) (key other : CompositeKey) : Prop :=
  other.group = key.group ∧ key.timestamp.toInt < other.timestamp.toInt ∧ ¬ policy.Expires now other.timestamp

theorem below_eq_before (keys before after : List CompositeKey) (key : CompositeKey) (ascends : Ascends keys)
    (split : keys = before ++ key :: after) : keys.filter (fun other => decide (other.bytes < key.bytes)) = before := by
  have above := (ascends_above before after key (split ▸ ascends)).1
  have later : ∀ other ∈ key :: after, key.bytes ≤ other.bytes := by
    intro other member
    rcases List.mem_cons.mp member with rfl | behind
    · exact le_refl _
    · have rest := (List.pairwise_append.mp (split ▸ ascends)).2.1
      exact le_of_lt ((List.pairwise_cons.mp rest).1 other behind)
  rw [split, List.filter_append, List.filter_eq_self.mpr fun other member => decide_eq_true (above other member),
    List.filter_eq_nil_iff.mpr fun other member => by simpa using later other member, List.append_nil]

section Parts

variable (keys part : List CompositeKey) (ascends : Ascends keys) (taken : part.Sublist keys)

include ascends taken

-- What went before a key in a part of the keys went before it in all of them.
theorem before_in_part (before after fullBefore fullAfter : List CompositeKey) (key : CompositeKey)
    (split : part = before ++ key :: after) (fullSplit : keys = fullBefore ++ key :: fullAfter) :
    ahead before key ≤ ahead fullBefore key := by
  have below : before.Sublist (keys.filter fun other => decide (other.bytes < key.bytes)) := by
    have partAbove := (ascends_above before after key (split ▸ ascends.sublist taken)).1
    have all : before.filter (fun other => decide (other.bytes < key.bytes)) = before :=
      List.filter_eq_self.mpr fun other member => decide_eq_true (partAbove other member)
    rw [← all]
    exact ((List.sublist_append_left before (key :: after)).trans (split ▸ taken)).filter _
  rw [below_eq_before keys fullBefore fullAfter key ascends fullSplit] at below
  exact (below.filter _).length_le

theorem newer_in_part (policy : RetentionPolicy) (now : Int64) (before after : List CompositeKey) (key : CompositeKey)
    (split : part = before ++ key :: after) (fresh : ¬ policy.Expires now key.timestamp) :
    ahead before key ≤ (keys.filter fun other => decide (newerUnexpired policy now key other)).length := by
  have above := (ascends_above before after key (split ▸ ascends.sublist taken)).1
  have same : before.filter (sameGroup key) =
      (before.filter (sameGroup key)).filter fun other => decide (newerUnexpired policy now key other) := by
    refine (List.filter_eq_self.mpr ?_).symm
    intro other member
    obtain ⟨earlier, group⟩ := List.mem_filter.mp member
    have group : other.group = key.group := by simpa [sameGroup] using group
    have later := newer_first other key group ((bytes_lt_iff other key).mp (above other earlier))
    refine decide_eq_true ⟨group, later, ?_⟩
    rintro ⟨ttl, limited, old⟩
    exact fresh ⟨ttl, limited, by omega⟩
  have inside : before.Sublist keys := (List.sublist_append_left before (key :: after)).trans (split ▸ taken)
  rw [ahead, same]
  exact ((List.filter_sublist.trans inside).filter _).length_le

end Parts

theorem compaction_verdicts (policy : SecureCompactionPolicy I) (now : Int64) (keys : List CompositeKey) (ascends : Ascends keys)
    (w last : World I Unit) (verdicts : List Verdict)
    (completed : (compact (some policy.factory) now (keys.map CompositeKey.bytes)).run w = .ok verdicts last)
    (before after : List CompositeKey) (key : CompositeKey) (split : keys = before ++ key :: after) :
    verdicts[before.length]? = some (RetentionFilter.decided ⟨policy, none, 0, now⟩ before key) := by
  rw [RetentionFilter.filter_items_decide ⟨policy, none, 0, now⟩ [] keys (RetentionFilter.fresh_tracks policy now) ascends w last
    verdicts completed, split, RetentionFilter.decisions_at, List.nil_append]

theorem retention_filter_exact (policy : SecureCompactionPolicy I) (audits : policy.Audits)
    (whole : policy.retention.WholeSeconds) (now : Int64) (nonneg : 0 ≤ now.toInt) (keys : List CompositeKey)
    (ascends : Ascends keys) :
    (∀ w : World I Unit, ∃ verdicts last,
      (compact (some policy.factory) now (keys.map CompositeKey.bytes)).run w = .ok verdicts last ∧
      verdicts.length = keys.length ∧ ∀ before key after, keys = before ++ key :: after →
        (verdicts[before.length]? = some .remove ↔
          policy.retention.Crowds before key ∨ policy.retention.Expires now key.timestamp) ∧
        (verdicts[before.length]? = some .keep ↔
          ¬ (policy.retention.Crowds before key ∨ policy.retention.Expires now key.timestamp))) ∧
    ∀ (part : List CompositeKey) (w last : World I Unit) (verdicts : List Verdict), part.Sublist keys →
      (compact (some policy.factory) now (part.map CompositeKey.bytes)).run w = .ok verdicts last →
      ∀ before key after, part = before ++ key :: after →
        (∀ (v fullLast : World I Unit) (full : List Verdict) (fullBefore fullAfter : List CompositeKey),
          (compact (some policy.factory) now (keys.map CompositeKey.bytes)).run v = .ok full fullLast →
          keys = fullBefore ++ key :: fullAfter → full[fullBefore.length]? = some .keep →
          verdicts[before.length]? = some .keep) ∧
        (¬ policy.retention.Expires now key.timestamp →
          (∀ max, policy.retention.maxVersions = some max →
            (keys.filter fun other => decide (newerUnexpired policy.retention now key other)).length < max) →
          verdicts[before.length]? = some .keep) := by
  have expired (timestamp : Int64) : RetentionFilter.isExpired ⟨policy, none, 0, now⟩ timestamp = true ↔
      policy.retention.Expires now timestamp := by
    rw [RetentionFilter.expired_iff ⟨policy, none, 0, now⟩ nonneg timestamp]
    exact exists_congr fun ttl => and_congr_right fun given => and_iff_right (whole ttl given).2
  constructor
  · intro w
    obtain ⟨last, completed⟩ := RetentionFilter.filter_items_total ⟨policy, none, 0, now⟩ audits [] keys
      (RetentionFilter.fresh_tracks policy now) ascends w
    refine ⟨_, last, completed, RetentionFilter.decisions_length _ _ _, ?_⟩
    intro before key after split
    have verdict := compaction_verdicts policy now keys ascends w last _ completed before after key split
    rw [verdict, Option.some.injEq, Option.some.injEq, RetentionFilter.decided_remove_iff, RetentionFilter.decided_keep_iff,
      ← Bool.not_eq_true, expired, not_or]
    exact ⟨Iff.rfl, Iff.rfl⟩
  · intro part w last verdicts taken completed before key after split
    have verdict := compaction_verdicts policy now part (ascends.sublist taken) w last verdicts completed before after key split
    have kept : verdicts[before.length]? = some .keep ↔
        ¬ policy.retention.Crowds before key ∧ ¬ policy.retention.Expires now key.timestamp := by
      rw [verdict, Option.some.injEq, RetentionFilter.decided_keep_iff, ← Bool.not_eq_true, expired]
    constructor
    · intro v fullLast full fullBefore fullAfter fullCompleted fullSplit fullKept
      rw [compaction_verdicts policy now keys ascends v fullLast full fullCompleted fullBefore fullAfter key fullSplit,
        Option.some.injEq, RetentionFilter.decided_keep_iff, ← Bool.not_eq_true, expired] at fullKept
      refine kept.mpr ⟨?_, fullKept.2⟩
      rintro ⟨max, limited, crowd⟩
      have fewer := before_in_part keys part ascends taken before after fullBefore fullAfter key split fullSplit
      exact fullKept.1 ⟨max, limited, Nat.le_trans crowd fewer⟩
    · intro fresh room
      refine kept.mpr ⟨?_, fresh⟩
      rintro ⟨max, limited, crowd⟩
      have fewer := newer_in_part keys part ascends taken policy.retention now before after key split fresh
      exact absurd (Nat.le_trans crowd fewer) (Nat.not_le.mpr (room max limited))

-- One version is to stay, and the newer one is it.
theorem second_version_removed :
    ∃ verdicts last, (compact (some (SecureCompactionPolicy.factory (⟨"cells", ⟨some 1, none⟩, none⟩ : SecureCompactionPolicy Unit)))
        100 ([⟨[1], [], [], [], 9⟩, ⟨[1], [], [], [], 8⟩].map CompositeKey.bytes)).run ⟨0, [], ()⟩ = .ok verdicts last ∧
      verdicts[1]? = some .remove := by
  obtain ⟨verdicts, last, completed, _, decides⟩ := (retention_filter_exact
    (⟨"cells", ⟨some 1, none⟩, none⟩ : SecureCompactionPolicy Unit) nofun nofun 100 (by decide)
    [⟨[1], [], [], [], 9⟩, ⟨[1], [], [], [], 8⟩] (List.pairwise_pair.mpr (by decide))).1 ⟨0, [], ()⟩
  refine ⟨verdicts, last, completed, (decides [⟨[1], [], [], [], 9⟩] ⟨[1], [], [], [], 8⟩ [] rfl).1.mpr ?_⟩
  exact .inl ⟨1, rfl, by decide⟩

end OmryaKv.Secure
