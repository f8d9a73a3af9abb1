import OmryaKv.Secure.Verdicts

set_option autoImplicit false

namespace OmryaKv.Secure

open Lib

def Duration.atMost (duration : Duration) (seconds : Int) : Prop :=
  (duration.secs.toNat * 1000000000 + duration.nanos.val : Int) ≤ seconds * 1000000000

variable {I D : Type}

namespace RetentionFilter

def age (filter : RetentionFilter I) (key : CompositeKey) : Int := filter.nowUnixSeconds.toInt - key.timestamp.toInt

-- A removal that the count of versions does not ask for is one by age.
def NeverEarly (filter : RetentionFilter I) (key : CompositeKey) : Prop :=
  ∀ (w last : World I Unit) (after : RetentionFilter I), (filter.filterItem key.bytes).run w = .ok (after, .remove) last →
    after.tooMany = false → ∃ ttl, filter.policy.retention.ttl = some ttl ∧ ttl.atMost (filter.age key)

-- The fraction of a second that as_secs drops decides.
def CutShort (filter : RetentionFilter I) (key : CompositeKey) : Prop :=
  ∃ ttl, filter.policy.retention.ttl = some ttl ∧ ttl.nanos.val ≠ 0 ∧ ttl.secs.toNat ≤ i64Max ∧ filter.age key = ttl.secs.toNat

theorem filter_item_removed (filter after : RetentionFilter I) (key : CompositeKey) (w last : World I D)
    (removed : (filter.filterItem key.bytes).run w = .ok (after, .remove) last) :
    after = filter.counted key.group ∧ (after.tooMany = true ∨
      filter.isExpired key.timestamp = true ∧ ∃ next, (filter.auditDelete .ttl : SecureM I D Unit).run w = .ok () next) := by
  rw [filter_item_cell] at removed
  split at removed
  · next many =>
      obtain ⟨_, _, _, returned⟩ := bind_ok _ _ _ _ _ removed
      cases returned
      exact ⟨rfl, .inl many⟩
  · split at removed
    · next old =>
        obtain ⟨_, _, audited, returned⟩ := bind_ok _ _ _ _ _ removed
        cases returned
        rw [counted_expired] at old
        rw [to_lsm_error_ok, auditDelete, counted_policy] at audited
        exact ⟨rfl, .inr ⟨old, last, audited⟩⟩
    · cases removed

theorem filter_item_expired (filter : RetentionFilter I) (key : CompositeKey) (few : (filter.counted key.group).tooMany = false)
    (old : filter.isExpired key.timestamp = true) (w last : World I D)
    (audited : (filter.auditDelete .ttl : SecureM I D Unit).run w = .ok () last) :
    (filter.filterItem key.bytes).run w = .ok (filter.counted key.group, .remove) last := by
  have passed : (toLsmError ((filter.counted key.group).auditDelete .ttl) : SecureM I D Unit).run w = .ok () last := by
    rw [to_lsm_error_ok, auditDelete, counted_policy]
    exact audited
  rw [← counted_expired filter key.group] at old
  rw [filter_item_cell, if_neg (by simp [few]), if_pos old, EStateM.run_bind, passed]
  rfl

-- Of a whole number of seconds that is at least the seconds of the ttl, only the
-- least is below the ttl.
theorem early_iff (filter : RetentionFilter I) (nonneg : 0 ≤ filter.nowUnixSeconds.toInt) (key : CompositeKey) :
    filter.CutShort key ↔ filter.isExpired key.timestamp = true ∧
      ¬ ∃ ttl, filter.policy.retention.ttl = some ttl ∧ ttl.atMost (filter.age key) := by
  rw [expired_iff filter nonneg]
  constructor
  · rintro ⟨ttl, given, fraction, fits, same⟩
    have positive := Nat.pos_of_ne_zero fraction
    refine ⟨⟨ttl, given, fits, ?_⟩, ?_⟩
    · rw [age] at same
      omega
    · rintro ⟨other, otherGiven, reached⟩
      cases given.symm.trans otherGiven
      rw [Duration.atMost, same] at reached
      omega
  · rintro ⟨⟨ttl, given, fits, old⟩, early⟩
    have below : ¬ ttl.atMost (filter.age key) := fun reached => early ⟨ttl, given, reached⟩
    have small := ttl.nanos.isLt
    rw [Duration.atMost, age] at below
    refine ⟨ttl, given, ?_, fits, ?_⟩
    · intro whole
      rw [whole] at below
      omega
    · rw [age]
      omega

end RetentionFilter

theorem ttl_never_early_iff (filter : RetentionFilter I) (nonneg : 0 ≤ filter.nowUnixSeconds.toInt) (key : CompositeKey) :
    (filter.NeverEarly key ↔ ¬ (filter.CutShort key ∧ (filter.counted key.group).tooMany = false ∧
      ∃ w last : World I Unit, (filter.auditDelete .ttl).run w = .ok () last)) ∧
    ∀ ttl, filter.policy.retention.ttl = some ttl → ttl.secs.toNat ≤ i64Max →
      -2 ^ 63 ≤ filter.nowUnixSeconds.toInt - ttl.secs.toNat ∧ filter.nowUnixSeconds.toInt - ttl.secs.toNat ≤ 2 ^ 63 - 1 := by
  refine ⟨⟨?_, ?_⟩, fun ttl _ fits => ttl_difference_fits filter.nowUnixSeconds nonneg ttl fits⟩
  · rintro never ⟨short, few, w, last, audited⟩
    obtain ⟨old, early⟩ := (filter.early_iff nonneg key).mp short
    exact early (never w last _ (filter.filter_item_expired key few old w last audited) few)
  · intro fine w last after removed few
    by_contra early
    obtain ⟨rfl, many | ⟨old, next, audited⟩⟩ := filter.filter_item_removed after key w last removed
    · exact Bool.noConfusion (few.symm.trans many)
    · exact fine ⟨(filter.early_iff nonneg key).mpr ⟨old, early⟩, few, w, next, audited⟩

def lastingFilter (ttl : Duration) : RetentionFilter Unit := ⟨⟨"cells", ⟨none, some ttl⟩, none⟩, none, 0, 100⟩

-- One second old, and kept for one and a half.
theorem removed_half_a_second_early :
    RetentionPolicy.validate ⟨none, some ⟨1, 500000000⟩⟩ = .ok () ∧
      ((lastingFilter ⟨1, 500000000⟩).filterItem (CompositeKey.bytes ⟨[1], [], [], [], 99⟩)).run (⟨0, [], ()⟩ : World Unit Unit) =
        .ok ((lastingFilter ⟨1, 500000000⟩).counted ⟨[1], [], [], []⟩, .remove) ⟨0, [], ()⟩ ∧
      ¬ Duration.atMost ⟨1, 500000000⟩ (100 - 99) :=
  ⟨by decide, rfl, by rw [Duration.atMost]; decide⟩

theorem whole_seconds_not_early : (lastingFilter ⟨1, 0⟩).NeverEarly ⟨[1], [], [], [], 99⟩ := by
  apply ((ttl_never_early_iff (lastingFilter ⟨1, 0⟩) (by decide) ⟨[1], [], [], [], 99⟩).1).mpr
  rintro ⟨⟨ttl, given, fraction, _⟩, _⟩
  cases given
  exact fraction rfl

end OmryaKv.Secure
