import OmryaKv.Secure.Keyspace
import OmryaKv.Secure.Tx
import OmryaKv.Tx.Readable

set_option autoImplicit false

namespace OmryaKv.Secure

open Lib

def sees (auths : Authorizations) (key : UserKey) : Bool :=
  match CompositeKey.decode key with
  | .ok decoded => (isVisible decoded.visibility auths).toOption.getD false
  | .error _ => false

def WellKeyed (key : UserKey) : Prop :=
  ∃ decoded visibility, CompositeKey.decode key = .ok decoded ∧ parseVisibility decoded.visibility = .ok visibility

-- Two stores that are the same to whoever holds the authorizations.
structure SameSeen (auths : Authorizations) (one two : UserKey → Option Bytes) : Prop where
  oneKeyed : ∀ key, one key ≠ none → WellKeyed key
  twoKeyed : ∀ key, two key ≠ none → WellKeyed key
  same : ∀ key, sees auths key = true → one key = two key

-- The records a range of the store gives, in order.
structure IsRange (store : UserKey → Option Bytes) (bounds : KeyBounds)
    (records : List (UserKey × Bytes)) : Prop where
  sorted : Ascending records
  member : ∀ key value, (key, value) ∈ records ↔ Tx.inRange bounds.1 bounds.2 key = true ∧ store key = some value

variable {I D : Type}

theorem is_visible_seen (auths : Authorizations) (key : UserKey) (decoded : CompositeKey) (visibility : VisibilityExpr)
    (read : CompositeKey.decode key = .ok decoded) (valid : parseVisibility decoded.visibility = .ok visibility) :
    isVisible decoded.visibility auths = .ok (sees auths key) := by
  have evaluated : isVisible decoded.visibility auths = .ok (visibility.evaluate auths) := by
    rw [isVisible, valid]
    rfl
  rw [sees, read]
  dsimp only
  rw [evaluated]
  rfl

-- While the limit is not reached a hidden record changes nothing: it is not
-- decrypted and not counted.
theorem scan_skips_hidden (encryption : Option ValueEncryption) (auths : Authorizations) (scan : VersionScan)
    (records : List (UserKey × Bytes)) (keyed : ∀ record ∈ records, WellKeyed record.1) (entries : List VersionedEntry)
    (more : scan.isSatisfiedBy entries.length = false) :
    (scanEntries encryption auths scan entries records : SecureM I D (List VersionedEntry)) =
      scanEntries encryption auths scan entries (records.filter fun record => sees auths record.1) := by
  induction records generalizing entries with
  | nil => rfl
  | cons record records ih =>
    obtain ⟨key, stored⟩ := record
    obtain ⟨decoded, visibility, read, valid⟩ := keyed (key, stored) (by simp)
    have visible := is_visible_seen auths key decoded visibility read valid
    have restKeyed : ∀ record ∈ records, WellKeyed record.1 := fun record member => keyed record (List.mem_cons_of_mem _ member)
    have later : ∀ found : List VersionedEntry,
        (if scan.isSatisfiedBy found.length then return found else scanEntries encryption auths scan found records :
          SecureM I D (List VersionedEntry)) =
        if scan.isSatisfiedBy found.length then return found
          else scanEntries encryption auths scan found (records.filter fun record => sees auths record.1) := by
      intro found
      cases satisfied : scan.isSatisfiedBy found.length with
      | true => rfl
      | false => exact ih restKeyed found satisfied
    cases seen : sees auths key with
    | true => rw [List.filter_cons, if_pos seen, scanEntries, scanEntries, funext later]
    | false =>
      have hidden : scan.shows auths (.ofKey decoded) = .ok false := by
        rw [VersionScan.shows]
        split
        · exact visible.trans (by rw [seen])
        · rfl
      rw [List.filter_cons, if_neg (by simp [seen]), scanEntries, read, lift_ok_bind, hidden, lift_ok_bind, collectEntry,
        if_neg (by decide), pure_bind, if_neg (by simp [more])]
      exact ih restKeyed entries more

theorem same_records_seen (auths : Authorizations) (one two : UserKey → Option Bytes) (alike : SameSeen auths one two)
    (bounds : KeyBounds) (oneRecords twoRecords : List (UserKey × Bytes))
    (oneRange : IsRange one bounds oneRecords) (twoRange : IsRange two bounds twoRecords) :
    (oneRecords.filter fun record => sees auths record.1) = twoRecords.filter fun record => sees auths record.1 := by
  apply ascending_ext _ _ (ascending_filter _ _ oneRange.sorted) (ascending_filter _ _ twoRange.sorted)
  intro record
  rw [List.mem_filter, List.mem_filter, oneRange.member record.1 record.2, twoRange.member record.1 record.2]
  refine and_congr_left fun seen => ?_
  rw [alike.same record.1 seen]

theorem sees_encoded (auths : Authorizations) (cell : VersionedCell) (key : UserKey) (encoded : cell.encode = .ok key)
    (visible : isVisible cell.cell.visibility auths = .ok true) : sees auths key = true := by
  have read : CompositeKey.decode key = .ok cell.toKey :=
    (CompositeKey.decode_iff key cell.toKey).mpr ((CompositeKey.encode_iff cell.toKey key).mp encoded).1
  have same : isVisible cell.toKey.visibility auths = .ok true := visible
  rw [sees, read]
  dsimp only
  rw [same]
  rfl

section

variable {E : Type} (agree : D → E → Prop)

theorem scan_records_same (encryption : Option ValueEncryption) (auths : Authorizations) (scan : VersionScan)
    (limited : scan.maxVersions ≠ some 0) (one two : UserKey → Option Bytes) (alike : SameSeen auths one two)
    (bounds : KeyBounds) (oneRecords twoRecords : List (UserKey × Bytes))
    (oneRange : IsRange one bounds oneRecords) (twoRange : IsRange two bounds twoRecords) :
    Coupled (InStep agree) (scanEntries encryption auths scan [] oneRecords : SecureM I D (List VersionedEntry))
      (scanEntries encryption auths scan [] twoRecords) := by
  have keyed : ∀ (store : UserKey → Option Bytes) (records : List (UserKey × Bytes)), IsRange store bounds records →
      (∀ key, store key ≠ none → WellKeyed key) → ∀ record ∈ records, WellKeyed record.1 := by
    intro store records range stored record member
    have found := ((range.member record.1 record.2).mp member).2
    exact stored record.1 (by simp [found])
  have more : scan.isSatisfiedBy ([] : List VersionedEntry).length = false := scan.unsatisfied_at_first limited
  rw [scan_skips_hidden encryption auths scan oneRecords (keyed one oneRecords oneRange alike.oneKeyed) [] more,
    scan_skips_hidden encryption auths scan twoRecords (keyed two twoRecords twoRange alike.twoKeyed) [] more,
    same_records_seen auths one two alike bounds oneRecords twoRecords oneRange twoRange]
  exact scan_entries_coupled agree encryption auths scan [] _

end

theorem same_clock_answer {E α : Type} (m : SecureM I D α) (n : SecureM I E α) (coupled : Coupled (InStep fun _ _ => True) m n)
    (w : World I D) (v : World I E) (clock : w.clock = v.clock) : answer (m.run w) = answer (n.run v) :=
  (coupled w v ⟨clock, trivial⟩).1

def Operation.limited : Operation → Prop
  | .scanVersionedPrefix _ scan => scan.maxVersions ≠ some 0
  | _ => True

-- A backend that shows a store: what it finds depends on the store alone.
structure Shows (backend : Backend D) (id : Nat) (valid : D → Prop) (store : D → UserKey → Option Bytes) : Prop where
  get : ∀ tx key, valid tx → (backend.get tx id key).2 = store tx key
  range : ∀ tx bounds, valid tx → IsRange (store tx) bounds (backend.range tx id bounds).2

namespace SecureTransaction

variable {oneBackend twoBackend : Backend D} (keyspace : SecureTxKeyspace) {valid : D → Prop}
  {oneStore twoStore : D → UserKey → Option Bytes} (oneShows : Shows oneBackend keyspace.id valid oneStore)
  (twoShows : Shows twoBackend keyspace.id valid twoStore) (security : SecurityProviders I) (identity : I) (auths : Authorizations)

include oneShows twoShows

-- The key is read before the visibility is known, so the two reads may differ;
-- what they found is used only if the cell is visible.
theorem get_version_same (cell : VersionedCell) :
    SameAnswer (InStep fun one two => valid one ∧ valid two ∧ SameSeen auths (oneStore one) (twoStore two))
      (secureGetVersion oneBackend security identity auths keyspace cell)
      (secureGetVersion twoBackend security identity auths keyspace cell) := by
  apply same_answer_bind _ _ _ _ _ (check_coupled _ security identity keyspace.name .read)
  intro _
  cases encoded : cell.encode with
  | error e => exact fun _ _ _ => rfl
  | ok key =>
    intro w v start
    obtain ⟨clock, oneValid, twoValid, alike⟩ := start
    cases visible : isVisible cell.cell.visibility auths with
    | error e => rfl
    | ok shown =>
      cases shown with
      | false => rfl
      | true =>
        have found : (oneBackend.get w.data keyspace.id key).2 = (twoBackend.get v.data keyspace.id key).2 := by
          rw [oneShows.get _ _ oneValid, twoShows.get _ _ twoValid]
          exact alike.same key (sees_encoded auths cell key encoded visible)
        rw [lift_ok_bind, lift_ok_bind, Backend.read_bind, Backend.read_bind, lift_ok_bind, lift_ok_bind, if_pos rfl,
          if_pos rfl, found]
        exact same_clock_answer _ _ (open_found_coupled _ keyspace.encryption key _) _ _ clock

theorem scan_versioned_prefix_same (prefixToRange : UserKey → KeyBounds) (pfx : CompositePrefix) (scan : VersionScan)
    (limited : scan.maxVersions ≠ some 0) :
    SameAnswer (InStep fun one two => valid one ∧ valid two ∧ SameSeen auths (oneStore one) (twoStore two))
      (secureScanVersionedPrefix prefixToRange oneBackend security identity auths keyspace pfx scan)
      (secureScanVersionedPrefix prefixToRange twoBackend security identity auths keyspace pfx scan) := by
  apply same_answer_bind _ _ _ _ _ (check_coupled _ security identity keyspace.name .read)
  intro _
  apply same_answer_bind _ _ _ _ _ (lift_coupled _ _)
  intro bounds w v start
  obtain ⟨clock, oneValid, twoValid, alike⟩ := start
  rw [Backend.read_bind, Backend.read_bind]
  exact same_clock_answer _ _ (scan_records_same _ keyspace.encryption auths scan limited _ _ alike bounds _ _
    (oneShows.range w.data bounds oneValid) (twoShows.range v.data bounds twoValid)) _ _ clock

end SecureTransaction

namespace SecureTransaction

theorem read_same {oneBackend twoBackend : Backend D} (keyspace : SecureTxKeyspace) {valid : D → Prop}
    {oneStore twoStore : D → UserKey → Option Bytes} (oneShows : Shows oneBackend keyspace.id valid oneStore)
    (twoShows : Shows twoBackend keyspace.id valid twoStore) (tx : SecureTransaction I)
    (prefixToRange : UserKey → KeyBounds) (operation : Operation) (reads : operation.isRead = true)
    (limited : operation.limited) :
    SameAnswer (InStep fun one two => valid one ∧ valid two ∧ SameSeen tx.session.auths (oneStore one) (twoStore two))
      (tx.perform prefixToRange oneBackend keyspace operation) (tx.perform prefixToRange twoBackend keyspace operation) := by
  cases operation with
  | insertVersion cell value => cases reads
  | getVersion cell =>
    exact same_answer_map _ _ _ _ (get_version_same keyspace oneShows twoShows tx.security tx.session.identity _ cell)
  | scanVersionedPrefix pfx scan =>
    exact same_answer_map _ _ _ _
      (scan_versioned_prefix_same keyspace oneShows twoShows tx.security tx.session.identity _ prefixToRange pfx scan limited)
  | deleteVersion cell => cases reads

end SecureTransaction

namespace SecureKeyspace

variable (keyspace : SecureKeyspace I) (session : Session I)

def alike (one two : Store) : Prop := SameSeen session.auths one.get two.get

theorem get_version_same (cell : VersionedCell) :
    SameAnswer (InStep (alike session)) (keyspace.getVersion session cell) (keyspace.getVersion session cell) := by
  apply same_answer_bind _ _ _ _ _ (check_coupled _ keyspace.security session.identity keyspace.name .read)
  intro _
  cases visible : isVisible cell.cell.visibility session.auths with
  | error e => exact fun _ _ _ => rfl
  | ok shown =>
    cases shown with
    | false => exact fun _ _ _ => rfl
    | true =>
      rw [lift_ok_bind, if_pos rfl]
      cases encoded : cell.encode with
      | error e => exact fun _ _ _ => rfl
      | ok key =>
        intro w v start
        obtain ⟨clock, alike⟩ := start
        have found : w.data.get key = v.data.get key := alike.same key (sees_encoded _ cell key encoded visible)
        rw [lift_ok_bind, RawKeyspace.get_bind, RawKeyspace.get_bind, found]
        exact same_clock_answer _ _ (open_found_coupled _ keyspace.encryption key _) _ _ clock

theorem range_is_range (store : Store) (bounds : KeyBounds) :
    IsRange store.get bounds (store.entries.filter fun entry => Tx.inRange bounds.1 bounds.2 entry.1) := by
  refine ⟨ascending_filter _ _ store.sorted, ?_⟩
  intro key value
  rw [List.mem_filter, OrderedMap.get_eq_some_iff]
  exact And.comm

theorem scan_versioned_prefix_same (prefixToRange : UserKey → KeyBounds) (pfx : CompositePrefix) (scan : VersionScan)
    (limited : scan.maxVersions ≠ some 0) :
    SameAnswer (InStep (alike session)) (keyspace.scanVersionedPrefix prefixToRange session pfx scan)
      (keyspace.scanVersionedPrefix prefixToRange session pfx scan) := by
  apply same_answer_bind _ _ _ _ _ (check_coupled _ keyspace.security session.identity keyspace.name .read)
  intro _
  apply same_answer_bind _ _ _ _ _ (lift_coupled _ _)
  intro bounds w v start
  obtain ⟨clock, alike⟩ := start
  rw [RawKeyspace.range_bind, RawKeyspace.range_bind]
  exact same_clock_answer _ _ (scan_records_same _ keyspace.encryption session.auths scan limited _ _ alike bounds _ _
    (range_is_range w.data bounds) (range_is_range v.data bounds)) _ _ clock

theorem read_same (prefixToRange : UserKey → KeyBounds) (operation : Operation) (reads : operation.isRead = true)
    (limited : operation.limited) :
    SameAnswer (InStep (alike session)) (keyspace.perform prefixToRange session operation)
      (keyspace.perform prefixToRange session operation) := by
  cases operation with
  | insertVersion cell value => cases reads
  | getVersion cell => exact same_answer_map _ _ _ _ (keyspace.get_version_same session cell)
  | scanVersionedPrefix pfx scan =>
    exact same_answer_map _ _ _ _ (keyspace.scan_versioned_prefix_same session prefixToRange pfx scan limited)
  | deleteVersion cell => cases reads

end SecureKeyspace

abbrev SnapshotState := Tx.DatabaseState UserKey Bytes

-- What a transaction reads: its own writes over its snapshot.
def txStore (state : SnapshotState) (id : Nat) (tx : SingleWriterTx) (key : UserKey) : Option Bytes :=
  tx.overlay (Tx.viewAt state.trees tx.instant) (id, key)

theorem tx_range (state : SnapshotState) (id : Nat) (tx : SingleWriterTx) (bounds : KeyBounds)
    (reached : tx.Reached) : IsRange (txStore state id tx) bounds (tx.range state.trees id bounds.1 bounds.2) := by
  obtain ⟨sorted, member⟩ := tx.range_is_scan state.trees id bounds.1 bounds.2 (tx.reached_numbered reached) (state.bounded id)
  exact ⟨sorted, member⟩

theorem single_writer_shows (state : SnapshotState) (id : Nat) :
    Shows (singleWriter state.trees) id Tx.BaseTransaction.Reached (txStore state id) :=
  ⟨fun _ _ _ => rfl, fun tx bounds reached => tx_range state id tx bounds reached⟩

theorem optimistic_shows (state : SnapshotState) (id : Nat) :
    Shows (optimistic state.trees) id (fun tx => tx.inner.Reached) fun tx => txStore state id tx.inner :=
  ⟨fun _ _ _ => rfl, fun tx bounds reached => tx_range state id tx.inner bounds reached⟩

theorem hidden_records_do_not_interfere (prefixToRange : UserKey → KeyBounds) (operation : Operation)
    (reads : operation.isRead = true) (limited : operation.limited) :
    (∀ (keyspace : SecureKeyspace I) (session : Session I) (one two : World I Store), one.clock = two.clock →
      SameSeen session.auths one.data.get two.data.get →
      answer ((keyspace.perform prefixToRange session operation).run one) =
        answer ((keyspace.perform prefixToRange session operation).run two)) ∧
    (∀ (tx : SecureTransaction I) (keyspace : SecureTxKeyspace) (oneState twoState : SnapshotState)
      (one two : World I SingleWriterTx), one.clock = two.clock → one.data.Reached → two.data.Reached →
      SameSeen tx.session.auths (txStore oneState keyspace.id one.data) (txStore twoState keyspace.id two.data) →
      answer ((singleWriterPerform prefixToRange oneState.trees tx keyspace operation).run one) =
        answer ((singleWriterPerform prefixToRange twoState.trees tx keyspace operation).run two)) ∧
    ∀ (tx : SecureTransaction I) (keyspace : SecureTxKeyspace) (oneState twoState : SnapshotState)
      (one two : World I OptimisticTx), one.clock = two.clock → one.data.inner.Reached → two.data.inner.Reached →
      SameSeen tx.session.auths (txStore oneState keyspace.id one.data.inner) (txStore twoState keyspace.id two.data.inner) →
      answer ((optimisticPerform prefixToRange oneState.trees tx keyspace operation).run one) =
        answer ((optimisticPerform prefixToRange twoState.trees tx keyspace operation).run two) := by
  refine ⟨?_, ?_, ?_⟩
  · intro keyspace session one two clock alike
    exact keyspace.read_same session prefixToRange operation reads limited one two ⟨clock, alike⟩
  · intro tx keyspace oneState twoState one two clock oneReached twoReached alike
    exact SecureTransaction.read_same keyspace (single_writer_shows oneState keyspace.id) (single_writer_shows twoState keyspace.id)
      tx prefixToRange operation reads limited one two ⟨clock, oneReached, twoReached, alike⟩
  · intro tx keyspace oneState twoState one two clock oneReached twoReached alike
    exact SecureTransaction.read_same keyspace (optimistic_shows oneState keyspace.id) (optimistic_shows twoState keyspace.id)
      tx prefixToRange operation reads limited one two ⟨clock, oneReached, twoReached, alike⟩

-- A keyspace open to all, and a session that holds no label.
def openKeyspace : SecureKeyspace Unit := ⟨⟨fun _ => none⟩, "cells", ⟨fun _ _ _ _ => true, none⟩, none⟩

def guestSession : Session Unit := ⟨(), .empty⟩

def hiddenCell : VersionedCell := ⟨⟨[1], [], [], [97]⟩, 5⟩

def hiddenStore : Store := OrderedMap.empty.insert hiddenCell.toKey.bytes [7]

theorem hidden_store_only (key : UserKey) (other : key ≠ hiddenCell.toKey.bytes) : hiddenStore.get key = none := by
  rw [hiddenStore, OrderedMap.get_insert, if_neg other]
  rfl

theorem hidden_cell_keyed : WellKeyed hiddenCell.toKey.bytes := by
  have valid : (parseVisibility hiddenCell.toKey.visibility).toBool = true := by decide +kernel
  cases parsed : parseVisibility hiddenCell.toKey.visibility with
  | error e =>
    rw [parsed] at valid
    cases valid
  | ok visibility => exact ⟨hiddenCell.toKey, visibility, (CompositeKey.decode_iff _ _).mpr rfl, parsed⟩

theorem hidden_store_looks_empty : SameSeen guestSession.auths OrderedMap.empty.get hiddenStore.get where
  oneKeyed key stored := absurd rfl stored
  twoKeyed key stored := by
    rcases eq_or_ne key hiddenCell.toKey.bytes with same | other
    · exact same ▸ hidden_cell_keyed
    · exact absurd (hidden_store_only key other) stored
  same key seen := by
    rcases eq_or_ne key hiddenCell.toKey.bytes with same | other
    · rw [same] at seen
      exact absurd seen (by decide +kernel)
    · exact (hidden_store_only key other).symm

theorem hidden_record_leaves_scan_unchanged :
    hiddenStore.get hiddenCell.toKey.bytes = some [7] ∧
      answer ((openKeyspace.perform CompositePrefix.lsmPrefixToRange guestSession
          (.scanVersionedPrefix ⟨none, none, none, none⟩ ⟨none, none, some 1⟩)).run ⟨0, [], .empty⟩) =
        answer ((openKeyspace.perform CompositePrefix.lsmPrefixToRange guestSession
          (.scanVersionedPrefix ⟨none, none, none, none⟩ ⟨none, none, some 1⟩)).run ⟨0, [], hiddenStore⟩) :=
  ⟨(OrderedMap.get_insert _ _ _ _).trans (if_pos rfl),
    (hidden_records_do_not_interfere CompositePrefix.lsmPrefixToRange
      (.scanVersionedPrefix ⟨none, none, none, none⟩ ⟨none, none, some 1⟩) rfl nofun).1 openKeyspace guestSession ⟨0, [], .empty⟩
      ⟨0, [], hiddenStore⟩ rfl hidden_store_looks_empty⟩

end OmryaKv.Secure
