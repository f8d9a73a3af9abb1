import OmryaKv.Secure.Scan

set_option autoImplicit false

namespace OmryaKv.Secure

open Lib

-- The store lost these versions and nothing else, whatever its other keys are.
def LostExactly (gone : CompositeKey → Prop) (before after : UserKey → Option Bytes) : Prop :=
  ∀ encoded, ((∃ version, CompositeKey.decode encoded = .ok version ∧ gone version) → after encoded = none) ∧
    ((¬ ∃ version, CompositeKey.decode encoded = .ok version ∧ gone version) → after encoded = before encoded)

variable {I : Type}

namespace RawKeyspace

theorem matching_keys_ok (predicate : Int64 → Bool) (records : List (UserKey × Bytes)) (found keys : List UserKey)
    (collected : matchingKeys predicate found records = .ok keys) (key : UserKey) :
    key ∈ keys ↔ key ∈ found ∨ ∃ value version, (key, value) ∈ records ∧ CompositeKey.decode key = .ok version ∧
      predicate version.timestamp = true := by
  induction records generalizing found with
  | nil =>
    cases collected
    simp
  | cons record records ih =>
    obtain ⟨version, read, collected⟩ := except_bind_ok _ _ _ collected
    have head : (∃ value other, (key, value) = record ∧ CompositeKey.decode key = .ok other ∧
        predicate other.timestamp = true) ↔ key = record.1 ∧ predicate version.timestamp = true := by
      constructor
      · rintro ⟨value, other, rfl, otherRead, chosen⟩
        cases read.symm.trans otherRead
        exact ⟨rfl, chosen⟩
      · rintro ⟨rfl, chosen⟩
        exact ⟨record.2, version, rfl, read, chosen⟩
    rw [ih _ collected]
    simp only [List.mem_cons, or_and_right, exists_or, head, ← or_assoc]
    refine or_congr_left ?_
    split
    · next chosen => simp [chosen]
    · next skipped => simp [skipped]

theorem matching_keys_fails (predicate : Int64 → Bool) (records : List (UserKey × Bytes)) (found : List UserKey)
    (undecodable : ∃ record ∈ records, ∀ version, CompositeKey.decode record.1 ≠ .ok version) :
    ∃ e, matchingKeys predicate found records = .error e := by
  induction records generalizing found with
  | nil => simp at undecodable
  | cons record records ih =>
    cases read : CompositeKey.decode record.1 with
    | error e =>
      refine ⟨e, ?_⟩
      rw [matchingKeys, read]
      rfl
    | ok version =>
      obtain ⟨other, member, foreign⟩ := undecodable
      rcases List.mem_cons.mp member with rfl | later
      · exact absurd read (foreign version)
      · obtain ⟨e, failed⟩ := ih (if predicate version.timestamp then found ++ [record.1] else found) ⟨other, later, foreign⟩
        refine ⟨e, ?_⟩
        rw [matchingKeys, read]
        exact failed

theorem remove_all_ok (raw : RawKeyspace) (keys : List UserKey) (w last : World I Store)
    (removed : (raw.removeAll keys).run w = .ok () last) (key : UserKey) :
    last.data.get key = if key ∈ keys then none else w.data.get key := by
  induction keys generalizing w with
  | nil =>
    cases removed
    simp
  | cons first keys ih =>
    obtain ⟨_, next, step, removed⟩ := bind_ok _ _ _ _ _ removed
    rw [ih next removed, raw.write_ok _ w next step, OrderedMap.get_erase]
    by_cases later : key ∈ keys
    · rw [if_pos later, if_pos (List.mem_cons_of_mem _ later)]
    · by_cases same : key = first
      · rw [if_neg later, if_pos same, if_pos (same ▸ List.mem_cons_self)]
      · rw [if_neg later, if_neg same, if_neg (List.not_mem_cons_of_ne_of_not_mem same later)]

section

variable (prefixToRange : UserKey → KeyBounds)
  (exactly : ∀ pfx key, Tx.inRange (prefixToRange pfx).1 (prefixToRange pfx).2 key = true ↔ pfx <+: key)

include exactly in
theorem delete_versions_matching_ok (raw : RawKeyspace) (cell : Cell) (predicate : Int64 → Bool) (w last : World I Store)
    (deleted : (raw.deleteVersionsMatching prefixToRange cell predicate).run w = .ok () last) :
    LostExactly (fun version => (VersionedCell.ofKey version).cell = cell ∧ predicate version.timestamp = true)
      w.data.get last.data.get := by
  obtain ⟨bounds, ranged, deleted⟩ := lift_bind_ok _ _ _ _ _ deleted
  rw [range_bind] at deleted
  obtain ⟨keys, collected, removed⟩ := lift_bind_ok _ _ _ _ _ deleted
  have range := SecureKeyspace.range_is_range w.data bounds
  intro encoded
  have chosen : encoded ∈ keys ↔ w.data.get encoded ≠ none ∧
      ∃ version, CompositeKey.decode encoded = .ok version ∧ (VersionedCell.ofKey version).cell = cell ∧
        predicate version.timestamp = true := by
    rw [matching_keys_ok predicate _ [] keys collected]
    constructor
    · rintro (none | ⟨value, version, member, read, matched⟩)
      · cases none
      · obtain ⟨inside, stored⟩ := (range.member encoded value).mp member
        refine ⟨by simp [stored], version, read, ?_, matched⟩
        rw [(CompositeKey.decode_iff encoded version).mp read,
          CompositePrefix.range_selects prefixToRange exactly _ bounds ranged] at inside
        exact (group_prefix_matches cell version).mp inside
    · rintro ⟨found, version, read, group, matched⟩
      obtain ⟨value, stored⟩ := Option.ne_none_iff_exists'.mp found
      refine .inr ⟨value, version, (range.member encoded value).mpr ⟨?_, stored⟩, read, matched⟩
      rw [(CompositeKey.decode_iff encoded version).mp read,
        CompositePrefix.range_selects prefixToRange exactly _ bounds ranged]
      exact (group_prefix_matches cell version).mpr group
  rw [raw.remove_all_ok keys _ last removed encoded]
  constructor
  · intro gone
    by_cases member : encoded ∈ keys
    · rw [if_pos member]
    · rw [if_neg member]
      exact not_not.mp fun found => member (chosen.mpr ⟨found, gone⟩)
  · intro kept
    rw [if_neg fun member => kept (chosen.mp member).2]

theorem delete_versions_matching_fails (raw : RawKeyspace) (cell : Cell) (predicate : Int64 → Bool) (w : World I Store)
    (bounds : KeyBounds) (ranged : cell.compositePrefix.range prefixToRange = .ok bounds)
    (encoded : UserKey) (inside : Tx.inRange bounds.1 bounds.2 encoded = true) (found : w.data.get encoded ≠ none)
    (foreign : ∀ version, CompositeKey.decode encoded ≠ .ok version) :
    ∃ e last, (raw.deleteVersionsMatching prefixToRange cell predicate).run w = .error e last ∧ last.data = w.data := by
  obtain ⟨value, stored⟩ := Option.ne_none_iff_exists'.mp found
  have member := ((SecureKeyspace.range_is_range w.data bounds).member encoded value).mpr ⟨inside, stored⟩
  obtain ⟨e, failed⟩ := matching_keys_fails predicate _ [] ⟨(encoded, value), member, foreign⟩
  refine ⟨e, ⟨w.clock, w.trace ++ [.dataRead], w.data⟩, ?_, rfl⟩
  rw [deleteVersionsMatching, ranged, lift_ok_bind, range_bind, failed]
  rfl

end

end RawKeyspace

theorem group_deletes_remove_exactly (prefixToRange : UserKey → KeyBounds)
    (exactly : ∀ pfx key, Tx.inRange (prefixToRange pfx).1 (prefixToRange pfx).2 key = true ↔ pfx <+: key)
    (raw : RawKeyspace) (cell : Cell) (cutoff : Int64) (w : World I Store) :
    (∀ last, (raw.deleteVersions prefixToRange cell).run w = .ok () last →
      LostExactly (fun version => (VersionedCell.ofKey version).cell = cell) w.data.get last.data.get) ∧
    (∀ last, (raw.deleteVersionsOlderThan prefixToRange cell cutoff).run w = .ok () last →
      LostExactly (fun version => (VersionedCell.ofKey version).cell = cell ∧ version.timestamp.toInt < cutoff.toInt)
        w.data.get last.data.get) ∧
    ∀ bounds encoded, cell.compositePrefix.range prefixToRange = .ok bounds → Tx.inRange bounds.1 bounds.2 encoded = true →
      w.data.get encoded ≠ none → (∀ version, CompositeKey.decode encoded ≠ .ok version) →
      (∃ e last, (raw.deleteVersions prefixToRange cell).run w = .error e last ∧ last.data = w.data) ∧
        ∃ e last, (raw.deleteVersionsOlderThan prefixToRange cell cutoff).run w = .error e last ∧ last.data = w.data := by
  refine ⟨?_, ?_, ?_⟩
  · intro last deleted
    have lost := raw.delete_versions_matching_ok prefixToRange exactly cell _ w last deleted
    simpa only [and_true] using lost
  · intro last deleted
    have lost := raw.delete_versions_matching_ok prefixToRange exactly cell _ w last deleted
    simpa only [decide_eq_true_eq, Int64.lt_iff_toInt_lt] using lost
  · intro bounds encoded ranged inside found foreign
    have fails := fun predicate => raw.delete_versions_matching_fails prefixToRange cell predicate w bounds ranged encoded inside
      found foreign
    exact ⟨fails _, fails _⟩

-- The newer version of the cell stays, and so do another cell's and a key that is none.
theorem only_group_deleted :
    ∃ last, (RawKeyspace.deleteVersionsOlderThan CompositePrefix.lsmPrefixToRange ⟨fun _ => none⟩ hiddenCell.cell 5).run
      (⟨0, [], versionStore.insert [200] [1]⟩ : World Unit Store) = .ok () last ∧
        last.data.get (VersionedCell.toKey ⟨hiddenCell.cell, 3⟩).bytes = none ∧ last.data.get hiddenCell.toKey.bytes = some [7] ∧
        last.data.get otherCell.toKey.bytes = some [9] ∧ last.data.get [200] = some [1] ∧
        LostExactly (fun version => (VersionedCell.ofKey version).cell = hiddenCell.cell ∧ version.timestamp.toInt < 5)
          (versionStore.insert [200] [1]).get last.data.get :=
  ⟨_, rfl, rfl, rfl, rfl, rfl, (group_deletes_remove_exactly CompositePrefix.lsmPrefixToRange
    CompositePrefix.lsm_prefix_to_range_exact ⟨fun _ => none⟩ hiddenCell.cell 5
    (⟨0, [], versionStore.insert [200] [1]⟩ : World Unit Store)).2.1 _ rfl⟩

end OmryaKv.Secure
