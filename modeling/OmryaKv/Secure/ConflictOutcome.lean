import OmryaKv.Secure.Tx
import OmryaKv.Tx.Oracle

set_option autoImplicit false

namespace OmryaKv.Secure

open Lib

variable {I D : Type}

theorem lift_still {α : Type} (x : Except Error α) : Respects Eq (lift x : SecureM I D α) := by
  intro w
  cases x <;> rfl

theorem still_bind {α β : Type} (m : SecureM I D α) (f : α → SecureM I D β) (first : Respects Eq m)
    (second : ∀ a, Respects Eq (f a)) : Respects Eq (m >>= f) :=
  respects_bind Eq (fun _ _ _ => Eq.trans) m f first second

theorem open_found_still (key : Bytes) (found : Option Bytes) :
    Respects Eq (openFound none key found : SecureM I D (Option Bytes)) := by
  cases found <;> exact fun _ => rfl

-- Without encryption the loop calls on nobody.
theorem scan_entries_still (auths : Authorizations) (scan : VersionScan) (entries : List VersionedEntry)
    (records : List (UserKey × Bytes)) :
    Respects Eq (scanEntries none auths scan entries records : SecureM I D (List VersionedEntry)) := by
  induction records generalizing entries with
  | nil => exact fun _ => rfl
  | cons record records ih =>
    apply still_bind _ _ (lift_still _)
    intro decoded
    apply still_bind _ _ (lift_still _)
    intro shown
    apply still_bind
    · cases shown <;> exact fun _ => rfl
    · intro found
      split
      · exact fun _ => rfl
      · exact ih found

namespace SecureTransaction

def withAuths (tx : SecureTransaction I) (auths : Authorizations) : SecureTransaction I :=
  ⟨⟨tx.session.identity, auths⟩, tx.security⟩

variable (tx : SecureTransaction I) (one two : Authorizations) (keyspace : SecureTxKeyspace)

-- The read is on record before the visibility is looked at.
theorem get_version_same_move (backend : Backend D) (plain : keyspace.encryption = none) (cell : VersionedCell) :
    SameMove ((tx.withAuths one).getVersion backend keyspace cell) ((tx.withAuths two).getVersion backend keyspace cell) := by
  apply same_move_bind
  intro _
  apply same_move_bind
  intro encodedKey
  apply same_move_bind
  intro value
  have still : ∀ auths : Authorizations, Respects Eq (lift (isVisible cell.cell.visibility auths) >>= fun visible =>
      if visible then openFound keyspace.encryption encodedKey value else return none : SecureM I D (Option Bytes)) := by
    intro auths
    apply still_bind _ _ (lift_still _)
    intro visible
    rw [plain]
    split
    · exact open_found_still encodedKey value
    · exact fun _ => rfl
  exact same_move_of_still _ _ (still one) (still two)

-- The whole range is on record before its first record is looked at.
theorem scan_versioned_prefix_same_move (prefixToRange : UserKey → KeyBounds) (backend : Backend D)
    (plain : keyspace.encryption = none) (pfx : CompositePrefix) (scan : VersionScan) :
    SameMove ((tx.withAuths one).scanVersionedPrefix prefixToRange backend keyspace pfx scan)
      ((tx.withAuths two).scanVersionedPrefix prefixToRange backend keyspace pfx scan) := by
  apply same_move_bind
  intro _
  apply same_move_bind
  intro bounds
  apply same_move_bind
  intro records
  rw [plain]
  exact same_move_of_still _ _ (scan_entries_still one scan [] records) (scan_entries_still two scan [] records)

theorem perform_same_move (prefixToRange : UserKey → KeyBounds) (backend : Backend D) (plain : keyspace.encryption = none)
    (operation : Operation) :
    SameMove ((tx.withAuths one).perform prefixToRange backend keyspace operation)
      ((tx.withAuths two).perform prefixToRange backend keyspace operation) := by
  cases operation with
  | insertVersion cell value => exact fun _ => rfl
  | getVersion cell => exact same_move_map _ _ _ (tx.get_version_same_move one two keyspace backend plain cell)
  | scanVersionedPrefix pfx scan =>
    exact same_move_map _ _ _ (tx.scan_versioned_prefix_same_move one two keyspace prefixToRange backend plain pfx scan)
  | deleteVersion cell => exact fun _ => rfl

end SecureTransaction

-- A call on an optimistic secure transaction, with the trees it finds below.
structure SecureCall where
  trees : TxTrees
  keyspace : SecureTxKeyspace
  operation : Operation

-- A failed call does not end the transaction.
def performAll (prefixToRange : UserKey → KeyBounds) (tx : SecureTransaction I)
    (w : World I OptimisticTx) (calls : List SecureCall) : World I OptimisticTx :=
  calls.foldl (fun w call => finalState ((optimisticPerform prefixToRange call.trees tx call.keyspace call.operation).run w)) w

theorem perform_all_same (prefixToRange : UserKey → KeyBounds) (tx : SecureTransaction I) (one two : Authorizations)
    (calls : List SecureCall) (plain : ∀ call ∈ calls, call.keyspace.encryption = none)
    (w : World I OptimisticTx) :
    performAll prefixToRange (tx.withAuths one) w calls = performAll prefixToRange (tx.withAuths two) w calls := by
  induction calls generalizing w with
  | nil => rfl
  | cons call calls ih =>
    have step := tx.perform_same_move one two call.keyspace prefixToRange (optimistic call.trees) (plain call (by simp))
      call.operation w
    have rest := ih (fun call member => plain call (List.mem_cons_of_mem _ member))
    exact (congrArg (fun w => performAll prefixToRange (tx.withAuths one) w calls) step).trans (rest _)

theorem conflicts_ignore_authorizations (prefixToRange : UserKey → KeyBounds) (tx : SecureTransaction I)
    (one two : Authorizations) (calls : List SecureCall)
    (plain : ∀ call ∈ calls, call.keyspace.encryption = none) (w : World I OptimisticTx) :
    (performAll prefixToRange (tx.withAuths one) w calls).data.cm =
        (performAll prefixToRange (tx.withAuths two) w calls).data.cm ∧
      ∀ oracle : Tx.Oracle UserKey,
        oracle.conflicted (performAll prefixToRange (tx.withAuths one) w calls).data.inner.instant
            (performAll prefixToRange (tx.withAuths one) w calls).data.cm =
          oracle.conflicted (performAll prefixToRange (tx.withAuths two) w calls).data.inner.instant
            (performAll prefixToRange (tx.withAuths two) w calls).data.cm := by
  have same := perform_all_same prefixToRange tx one two calls plain w
  exact ⟨by rw [same], fun oracle => by rw [same]⟩

def labeledCell : VersionedCell := ⟨⟨[1], [], [], [97]⟩, 5⟩

def labeledRead : SecureCall := ⟨fun _ => [⟨labeledCell.toKey.bytes, 0, some [7]⟩], ⟨0, "cells", none⟩, .getVersion labeledCell⟩

def sessionOf (auths : Authorizations) : SecureTransaction Unit := ⟨⟨(), auths⟩, ⟨fun _ _ _ _ => true, none⟩⟩

-- One session finds the value and the other does not, and both have read the key.
theorem hidden_get_marks_the_key :
    let read := fun auths => optimisticPerform CompositePrefix.lsmPrefixToRange labeledRead.trees (sessionOf auths)
      labeledRead.keyspace labeledRead.operation
    let after := fun auths => performAll CompositePrefix.lsmPrefixToRange (sessionOf auths) ⟨0, [], ⟨.new 1, .new⟩⟩ [labeledRead]
    answer ((read .empty).run ⟨0, [], ⟨.new 1, .new⟩⟩) = .ok (.value none) ∧
      answer ((read ⟨[['a']], by decide⟩).run ⟨0, [], ⟨.new 1, .new⟩⟩) = .ok (.value (some [7])) ∧
      (after .empty).data.cm.Covers (0, labeledCell.toKey.bytes) ∧ (after .empty).data.cm = (after ⟨[['a']], by decide⟩).data.cm :=
  ⟨rfl, rfl, ⟨[.single labeledCell.toKey.bytes], rfl, _, List.mem_singleton_self _, rfl⟩,
    (conflicts_ignore_authorizations CompositePrefix.lsmPrefixToRange (sessionOf .empty) .empty ⟨[['a']], by decide⟩ [labeledRead]
      (by simp [labeledRead]) ⟨0, [], ⟨.new 1, .new⟩⟩).1⟩

end OmryaKv.Secure
