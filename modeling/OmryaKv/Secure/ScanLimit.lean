import OmryaKv.Secure.Scan

set_option autoImplicit false

namespace OmryaKv.Secure

open Lib

def AtMost (limit : Nat) (outcome : Except Error (List VersionedEntry)) : Prop :=
  ∀ found, outcome = .ok found → found.length ≤ limit

structure IsFirst (store : UserKey → Option Bytes) (bounds : KeyBounds) (key : UserKey)
    (value : Bytes) : Prop where
  inside : Tx.inRange bounds.1 bounds.2 key = true
  stored : store key = some value
  least : ∀ other, Tx.inRange bounds.1 bounds.2 other = true → store other ≠ none → key ≤ other

def DecryptsAt (now : Nat) (encryption : Option ValueEncryption) (key stored : Bytes) : Prop :=
  match encryption with
  | none => True
  | some encryption => ∃ ciphertext value, parseStoredCiphertext stored = .ok ciphertext ∧
      encryption.config.provider.decrypt now (encryption.context key) ciphertext = .ok value

-- The first record of the range is one that the scan returns.
def StartsWithMatch (store : UserKey → Option Bytes) (range : Except Error KeyBounds)
    (scan : VersionScan) (taken : CompositeKey → Bytes → Prop) : Prop :=
  ∃ bounds key value version, range = .ok bounds ∧ IsFirst store bounds key value ∧ CompositeKey.decode key = .ok version ∧
    scan.includes version.timestamp = true ∧ taken version value

variable {I D : Type}
variable (store : UserKey → Option Bytes)

theorem range_head (bounds : KeyBounds) (records : List (UserKey × Bytes)) (range : IsRange store bounds records)
    (key : UserKey) (value : Bytes) :
    records.head? = some (key, value) ↔ IsFirst store bounds key value := by
  cases records with
  | nil =>
    refine ⟨nofun, ?_⟩
    intro first
    exact absurd ((range.member key value).mpr ⟨first.inside, first.stored⟩) List.not_mem_nil
  | cons record records =>
    obtain ⟨leads, _⟩ := (ascending_cons record records).mp range.sorted
    rw [List.head?_cons, Option.some.injEq]
    constructor
    · rintro rfl
      obtain ⟨inside, stored⟩ := (range.member key value).mp List.mem_cons_self
      refine ⟨inside, stored, ?_⟩
      intro other otherInside otherStored
      obtain ⟨otherValue, found⟩ := Option.ne_none_iff_exists'.mp otherStored
      rcases List.mem_cons.mp ((range.member other otherValue).mpr ⟨otherInside, found⟩) with same | later
      · exact le_of_eq (congrArg Prod.fst same).symm
      · exact le_of_lt (leads _ later)
    · intro first
      rcases List.mem_cons.mp ((range.member key value).mpr ⟨first.inside, first.stored⟩) with same | later
      · exact same.symm
      · obtain ⟨inside, stored⟩ := (range.member record.1 record.2).mp List.mem_cons_self
        exact absurd (first.least record.1 inside (by simp [stored])) (not_le.mpr (leads _ later))

theorem limit_reached (scan : VersionScan) (limit count : Nat) (limited : scan.maxVersions = some limit) :
    scan.isSatisfiedBy count = true ↔ limit ≤ count := by
  rw [VersionScan.isSatisfiedBy, limited]
  simp

-- Below the limit the loop adds one entry at most before it asks again.
theorem scan_records_bounded (scan : VersionScan) (limit : Nat) (limited : scan.maxVersions = some limit)
    (records : List (UserKey × Bytes)) (entries found : List VersionedEntry) (room : entries.length < limit)
    (returned : scanRecords scan entries records = .ok found) : found.length ≤ limit := by
  induction records generalizing entries with
  | nil =>
    cases returned
    exact Nat.le_of_lt room
  | cons record records ih =>
    obtain ⟨decoded, _, returned⟩ := except_bind_ok _ _ _ returned
    dsimp only at returned
    generalize collected : (if scan.includes (VersionedCell.ofKey decoded).timestamp then
      entries ++ [⟨.ofKey decoded, record.2⟩] else entries) = entries' at returned
    have grown : entries'.length ≤ limit := by
      rw [← collected]
      split
      · rw [List.length_append]
        exact room
      · exact Nat.le_of_lt room
    split at returned
    · cases returned
      exact grown
    · next unsatisfied =>
        refine ih _ ?_ returned
        rw [limit_reached scan limit _ limited] at unsatisfied
        omega

variable (encryption : Option ValueEncryption)

theorem collect_entry_ok (entries found : List VersionedEntry) (cell : VersionedCell) (key stored : Bytes) (shown : Bool)
    (w next : World I D)
    (collected : (collectEntry encryption entries cell key stored shown).run w = .ok found next) :
    found = entries ∧ shown = false ∨ ∃ value, found = entries ++ [⟨cell, value⟩] ∧ shown = true := by
  cases shown with
  | false =>
    cases collected
    exact .inl ⟨rfl, rfl⟩
  | true =>
    obtain ⟨value, _, _, returned⟩ := bind_ok _ _ _ _ _ collected
    cases returned
    exact .inr ⟨value, rfl, rfl⟩

theorem scan_entries_bounded (auths : Authorizations) (scan : VersionScan) (limit : Nat)
    (limited : scan.maxVersions = some limit) (records : List (UserKey × Bytes)) (entries found : List VersionedEntry)
    (room : entries.length < limit) (w last : World I D)
    (returned : (scanEntries encryption auths scan entries records).run w = .ok found last) : found.length ≤ limit := by
  induction records generalizing entries w with
  | nil =>
    cases returned
    exact Nat.le_of_lt room
  | cons record records ih =>
    obtain ⟨decoded, _, returned⟩ := lift_bind_ok _ _ _ _ _ returned
    obtain ⟨shown, _, returned⟩ := lift_bind_ok _ _ _ _ _ returned
    obtain ⟨collected, next, step, returned⟩ := bind_ok _ _ _ _ _ returned
    have grown : collected.length ≤ limit := by
      rcases collect_entry_ok _ _ _ _ _ _ _ _ _ step with ⟨rfl, _⟩ | ⟨value, rfl, _⟩
      · exact Nat.le_of_lt room
      · rw [List.length_append]
        exact room
    split at returned
    · cases returned
      exact grown
    · next unsatisfied =>
        refine ih collected ?_ next returned
        rw [limit_reached scan limit _ limited] at unsatisfied
        omega

theorem scan_records_none (scan : VersionScan) (limited : scan.maxVersions = some 0) (records : List (UserKey × Bytes)) :
    AtMost 0 (scanRecords scan [] records) ↔ ¬ ∃ key value version, records.head? = some (key, value) ∧
      CompositeKey.decode key = .ok version ∧ scan.includes version.timestamp = true := by
  have satisfied (count : Nat) : scan.isSatisfiedBy count = true := (limit_reached scan 0 count limited).mpr (Nat.zero_le _)
  cases records with
  | nil =>
    refine iff_of_true ?_ nofun
    intro found returned
    cases returned
    exact Nat.le_refl 0
  | cons record records =>
    obtain ⟨key, value⟩ := record
    cases read : CompositeKey.decode key with
    | error e =>
      refine iff_of_true ?_ ?_
      · intro found returned
        rw [scanRecords, read] at returned
        cases returned
      · rintro ⟨_, _, version, first, decoded, _⟩
        cases first
        cases read.symm.trans decoded
    | ok version =>
      have outcome : scanRecords scan [] ((key, value) :: records) =
          .ok (if scan.includes version.timestamp then [⟨.ofKey version, value⟩] else []) := by
        rw [scanRecords, read]
        exact if_pos (satisfied _)
      rw [outcome]
      cases included : scan.includes version.timestamp with
      | false =>
        refine iff_of_true ?_ ?_
        · intro found returned
          cases returned
          exact Nat.le_refl 0
        · rintro ⟨_, _, other, first, decoded, otherIncluded⟩
          cases first
          cases read.symm.trans decoded
          exact Bool.noConfusion (included.symm.trans otherIncluded)
      | true =>
        refine iff_of_false ?_ (not_not.mpr ⟨key, value, version, rfl, read, included⟩)
        intro none
        exact absurd (none _ rfl) (Nat.not_succ_le_zero 0)

theorem decrypts_at_iff (key stored : Bytes) (w : World I D) :
    DecryptsAt w.clock encryption key stored ↔ ∃ value next, (maybeDecryptEntry encryption key stored).run w = .ok value next := by
  cases encryption with
  | none => exact iff_of_true trivial ⟨stored, w, rfl⟩
  | some encryption =>
    constructor
    · rintro ⟨ciphertext, value, parsed, decrypted⟩
      exact ⟨value, _, maybe_decrypt_ok encryption key stored ciphertext value parsed w decrypted⟩
    · rintro ⟨value, next, completed⟩
      obtain ⟨ciphertext, parsed, completed⟩ := lift_bind_ok _ _ _ _ _ completed
      obtain ⟨now, _, ticked, completed⟩ := bind_ok _ _ _ _ _ completed
      cases ticked
      obtain ⟨_, _, emitted, completed⟩ := bind_ok _ _ _ _ _ completed
      exact ⟨ciphertext, value, parsed, (lift_ok _ _ _ _ completed).1⟩

-- With a limit of zero the first record decides: the loop ends behind it.
theorem scan_entries_none (auths : Authorizations) (scan : VersionScan) (limited : scan.maxVersions = some 0)
    (records : List (UserKey × Bytes)) (w : World I D) :
    AtMost 0 (answer ((scanEntries encryption auths scan [] records).run w)) ↔ ¬ ∃ key value version,
      records.head? = some (key, value) ∧ CompositeKey.decode key = .ok version ∧ scan.includes version.timestamp = true ∧
      isVisible version.visibility auths = .ok true ∧ DecryptsAt w.clock encryption key value := by
  have satisfied (count : Nat) : scan.isSatisfiedBy count = true := (limit_reached scan 0 count limited).mpr (Nat.zero_le _)
  constructor
  · rintro none ⟨key, value, version, first, read, included, visible, decrypts⟩
    obtain ⟨plain, next, decrypted⟩ := (decrypts_at_iff encryption key value w).mp decrypts
    cases records with
    | nil => cases first
    | cons record records =>
      cases first
      have shown : scan.shows auths (.ofKey version) = .ok true := (if_pos included).trans visible
      have outcome : answer ((scanEntries encryption auths scan [] ((key, value) :: records)).run w) =
          .ok [⟨.ofKey version, plain⟩] := by
        rw [scanEntries, read, lift_ok_bind, shown, lift_ok_bind, collectEntry, if_pos rfl, bind_assoc, EStateM.run_bind, decrypted]
        change answer (EStateM.run (if scan.isSatisfiedBy _ then _ else _) _) = _
        rw [if_pos (satisfied _)]
        rfl
      exact absurd (none _ outcome) (Nat.not_succ_le_zero 0)
  · intro skipped found returned
    obtain ⟨last, completed⟩ := answer_ok _ found returned
    cases records with
    | nil =>
      cases completed
      exact Nat.le_refl 0
    | cons record records =>
      obtain ⟨version, read, completed⟩ := lift_bind_ok _ _ _ _ _ completed
      obtain ⟨shown, showsTrue, completed⟩ := lift_bind_ok _ _ _ _ _ completed
      obtain ⟨collected, next, step, completed⟩ := bind_ok _ _ _ _ _ completed
      rw [if_pos (satisfied _)] at completed
      cases completed
      rcases collect_entry_ok _ _ _ _ _ _ _ _ _ step with ⟨rfl, _⟩ | ⟨value, _, rfl⟩
      · exact Nat.le_refl 0
      · obtain ⟨plain, later, decrypted, _⟩ := bind_ok _ _ _ _ _ step
        rw [VersionScan.shows] at showsTrue
        split at showsTrue
        · next included =>
            exact absurd ⟨record.1, record.2, version, rfl, read, included, showsTrue,
              (decrypts_at_iff encryption record.1 record.2 w).mpr ⟨plain, later, decrypted⟩⟩ skipped
        · cases showsTrue

theorem starts_with_match_iff (bounds : KeyBounds) (records : List (UserKey × Bytes)) (range : IsRange store bounds records)
    (scan : VersionScan)
    (taken : CompositeKey → Bytes → Prop) :
    StartsWithMatch store (.ok bounds) scan taken ↔ ∃ key value version, records.head? = some (key, value) ∧
      CompositeKey.decode key = .ok version ∧ scan.includes version.timestamp = true ∧ taken version value := by
  constructor
  · rintro ⟨_, key, value, version, same, first, read, included, isTaken⟩
    cases same
    exact ⟨key, value, version, (range_head store bounds records range key value).mpr first, read, included, isTaken⟩
  · rintro ⟨key, value, version, first, read, included, isTaken⟩
    exact ⟨bounds, key, value, version, rfl, (range_head store bounds records range key value).mp first, read, included, isTaken⟩

section Loops

variable (scan : VersionScan) (limit : Nat) (limited : scan.maxVersions = some limit) (store : UserKey → Option Bytes)
  (bounds : KeyBounds) (records : List (UserKey × Bytes)) (range : IsRange store bounds records)

include limited range

theorem scan_records_at_most :
    AtMost limit (scanRecords scan [] records) ↔
      ¬ (limit = 0 ∧ StartsWithMatch store (.ok bounds) scan fun _ _ => True) := by
  rw [starts_with_match_iff store bounds records range]
  cases limit with
  | zero =>
    rw [scan_records_none scan limited records]
    simp only [true_and, and_true]
  | succ limit =>
    refine iff_of_true ?_ nofun
    intro found returned
    exact scan_records_bounded scan _ limited records [] found (Nat.succ_pos limit) returned

theorem scan_entries_at_most (encryption : Option ValueEncryption) (auths : Authorizations) (w : World I D) :
    AtMost limit (answer ((scanEntries encryption auths scan [] records).run w)) ↔
      ¬ (limit = 0 ∧ StartsWithMatch store (.ok bounds) scan fun version value =>
        isVisible version.visibility auths = .ok true ∧ DecryptsAt w.clock encryption version.bytes value) := by
  rw [starts_with_match_iff store bounds records range]
  cases limit with
  | zero =>
    rw [scan_entries_none encryption auths scan limited records w, and_iff_right rfl]
    refine not_congr (exists_congr fun key => exists_congr fun value => exists_congr fun version => and_congr_right fun _ =>
      and_congr_right fun read => ?_)
    rw [(CompositeKey.decode_iff key version).mp read]
  | succ limit =>
    refine iff_of_true ?_ nofun
    intro found returned
    obtain ⟨last, completed⟩ := answer_ok _ found returned
    exact scan_entries_bounded encryption auths scan _ limited records [] found (Nat.succ_pos limit) w last completed

end Loops

theorem at_most_of_error (limit : Nat) (e : Error) : AtMost limit (.error e) := nofun

theorem no_match_without_range (e : Error) (scan : VersionScan)
    (taken : CompositeKey → Bytes → Prop) : ¬ StartsWithMatch store (.error e) scan taken := by
  rintro ⟨_, _, _, _, ranged, _⟩
  cases ranged

section Scans

variable (prefixToRange : UserKey → KeyBounds) (pfx : CompositePrefix) (scan : VersionScan)
  (limit : Nat) (limited : scan.maxVersions = some limit)

include limited

theorem RawKeyspace.scan_at_most (w : World I Store) :
    AtMost limit (answer ((RawKeyspace.scanVersionedPrefix prefixToRange pfx scan).run w)) ↔
      ¬ (limit = 0 ∧ StartsWithMatch w.data.get (pfx.range prefixToRange) scan fun _ _ => True) := by
  rw [RawKeyspace.scanVersionedPrefix]
  cases pfx.range prefixToRange with
  | error e => exact iff_of_true (at_most_of_error limit e) fun exceeded => no_match_without_range _ _ _ _ exceeded.2
  | ok bounds =>
    rw [lift_ok_bind, RawKeyspace.range_bind, answer_lift]
    exact scan_records_at_most scan limit limited w.data.get bounds _ (SecureKeyspace.range_is_range w.data bounds)

theorem Readable.scan_at_most (reader : Readable D) (id : Nat) (store : UserKey → Option Bytes) (w : World I D)
    (showing : Showing reader id w.data store) :
    AtMost limit (answer ((reader.scanVersionedPrefix prefixToRange id pfx scan).run w)) ↔
      ¬ (limit = 0 ∧ StartsWithMatch store (pfx.range prefixToRange) scan fun _ _ => True) := by
  rw [Readable.scanVersionedPrefix]
  cases pfx.range prefixToRange with
  | error e => exact iff_of_true (at_most_of_error limit e) fun exceeded => no_match_without_range _ _ _ _ exceeded.2
  | ok bounds =>
    rw [lift_ok_bind, Backend.read_bind, answer_lift]
    exact scan_records_at_most scan limit limited store bounds _ (showing_range reader id w.data store showing bounds)

end Scans

-- What a secure scan runs into: the check, and then a first record to return.
def SecureMatch (security : SecurityProviders I) (identity : I) (name : String) (auths : Authorizations)
    (encryption : Option ValueEncryption) (store : UserKey → Option Bytes)
    (range : Except Error KeyBounds) (scan : VersionScan) (w : World I D) : Prop :=
  ∃ next, (security.checkKeyspacePermission identity name .read).run w = .ok () next ∧
    StartsWithMatch store range scan fun version value =>
      isVisible version.visibility auths = .ok true ∧ DecryptsAt next.clock encryption version.bytes value

section

variable (security : SecurityProviders I) (identity : I) (name : String) (auths : Authorizations)
  (encryption : Option ValueEncryption) (store : UserKey → Option Bytes) (range : Except Error KeyBounds)
  (scan : VersionScan) (limit : Nat)

-- Both secure scans: the check, the range, and the loop over what was read.
theorem checked_scan_at_most (limited : scan.maxVersions = some limit)
    (read : KeyBounds → SecureM I D (List VersionedEntry)) (w : World I D)
    (loops : ∀ bounds (next : World I D), next.data = w.data → ∃ records later, IsRange store bounds records ∧
      later.clock = next.clock ∧ (read bounds).run next = (scanEntries encryption auths scan [] records).run later) :
    AtMost limit (answer ((security.checkKeyspacePermission identity name .read >>= fun _ => lift range >>= read).run w)) ↔
      ¬ (limit = 0 ∧ SecureMatch security identity name auths encryption store range scan w) := by
  cases checked : (security.checkKeyspacePermission identity name .read : SecureM I D Unit).run w with
  | error e next =>
    rw [EStateM.run_bind, checked]
    refine iff_of_true (at_most_of_error limit e) ?_
    rintro ⟨_, other, passed, _⟩
    cases checked.symm.trans passed
  | ok _ next =>
    have same : next.data = w.data := (respects_ok Passive _ (security.check_passive identity name .read) w next () checked).data
    have met : SecureMatch security identity name auths encryption store range scan w ↔
        StartsWithMatch store range scan fun version value =>
          isVisible version.visibility auths = .ok true ∧ DecryptsAt next.clock encryption version.bytes value := by
      constructor
      · rintro ⟨other, passed, starts⟩
        cases checked.symm.trans passed
        exact starts
      · intro starts
        exact ⟨next, checked, starts⟩
    rw [answer_checked _ _ w next checked, met]
    cases range with
    | error e => exact iff_of_true (at_most_of_error limit e) fun exceeded => no_match_without_range _ _ _ _ exceeded.2
    | ok bounds =>
      obtain ⟨records, later, isRange, clock, loop⟩ := loops bounds next same
      rw [lift_ok_bind, loop, ← clock]
      exact scan_entries_at_most scan limit limited store bounds records isRange encryption auths later

end

theorem scan_at_most_limit (prefixToRange : UserKey → KeyBounds) (pfx : CompositePrefix) (scan : VersionScan) (limit : Nat)
    (limited : scan.maxVersions = some limit) :
    (∀ w : World I Store,
      AtMost limit (answer ((RawKeyspace.scanVersionedPrefix prefixToRange pfx scan).run w)) ↔
        ¬ (limit = 0 ∧ StartsWithMatch w.data.get (pfx.range prefixToRange) scan fun _ _ => True)) ∧
    (∀ (reader : Readable D) (id : Nat) (store : UserKey → Option Bytes) (w : World I D), Showing reader id w.data store →
      (AtMost limit (answer ((reader.scanVersionedPrefix prefixToRange id pfx scan).run w)) ↔
        ¬ (limit = 0 ∧ StartsWithMatch store (pfx.range prefixToRange) scan fun _ _ => True))) ∧
    (∀ (keyspace : SecureKeyspace I) (session : Session I) (w : World I Store),
      AtMost limit (answer ((keyspace.scanVersionedPrefix prefixToRange session pfx scan).run w)) ↔
        ¬ (limit = 0 ∧ SecureMatch keyspace.security session.identity keyspace.name session.auths keyspace.encryption
          w.data.get (pfx.range prefixToRange) scan w)) ∧
    (∀ (backend : Backend D) (tx : SecureTransaction I) (keyspace : SecureTxKeyspace) (store : UserKey → Option Bytes)
      (w : World I D), Showing backend.readable keyspace.id w.data store →
      (AtMost limit (answer ((tx.scanVersionedPrefix prefixToRange backend keyspace pfx scan).run w)) ↔
        ¬ (limit = 0 ∧ SecureMatch tx.security tx.session.identity keyspace.name tx.session.auths keyspace.encryption
          store (pfx.range prefixToRange) scan w))) := by
  refine ⟨?_, ?_, ?_, ?_⟩
  · intro w
    exact RawKeyspace.scan_at_most prefixToRange pfx scan limit limited w
  · intro reader id store w showing
    exact reader.scan_at_most prefixToRange pfx scan limit limited id store w showing
  · intro keyspace session w
    refine checked_scan_at_most keyspace.security session.identity keyspace.name session.auths keyspace.encryption w.data.get
      (pfx.range prefixToRange) scan limit limited _ w ?_
    intro bounds next same
    refine ⟨_, ⟨next.clock, next.trace ++ [.dataRead], next.data⟩, SecureKeyspace.range_is_range w.data bounds, rfl, ?_⟩
    rw [RawKeyspace.range_bind, same]
  · intro backend tx keyspace store w showing
    refine checked_scan_at_most tx.security tx.session.identity keyspace.name tx.session.auths keyspace.encryption store
      (pfx.range prefixToRange) scan limit limited _ w ?_
    intro bounds next same
    refine ⟨_, ⟨next.clock, next.trace ++ [.dataRead], (backend.range next.data keyspace.id bounds).1⟩,
      showing_range backend.readable keyspace.id w.data store showing bounds, rfl, ?_⟩
    rw [Backend.read_bind, same]
    rfl

def publicCell : VersionedCell := ⟨⟨[1], [], [], []⟩, 5⟩

def publicStore : Store := OrderedMap.empty.insert publicCell.toKey.bytes [7]

def publicTrees : TxTrees := fun _ => [⟨publicCell.toKey.bytes, 0, some [7]⟩]

-- Each of the four loops, asked for no version at all.
theorem zero_limit_returns_one :
    answer ((RawKeyspace.scanVersionedPrefix CompositePrefix.lsmPrefixToRange ⟨none, none, none, none⟩ ⟨none, none, some 0⟩).run
      (⟨0, [], publicStore⟩ : World Unit Store)) = .ok [⟨publicCell, [7]⟩] ∧
    answer (((snapshot publicTrees).scanVersionedPrefix CompositePrefix.lsmPrefixToRange 0 ⟨none, none, none, none⟩
      ⟨none, none, some 0⟩).run (⟨0, [], 1⟩ : World Unit Nat)) = .ok [⟨publicCell, [7]⟩] ∧
    answer ((openKeyspace.scanVersionedPrefix CompositePrefix.lsmPrefixToRange guestSession ⟨none, none, none, none⟩
      ⟨none, none, some 0⟩).run ⟨0, [], publicStore⟩) = .ok [⟨publicCell, [7]⟩] ∧
    answer (((⟨guestSession, ⟨fun _ _ _ _ => true, none⟩⟩ : SecureTransaction Unit).scanVersionedPrefix
      CompositePrefix.lsmPrefixToRange (singleWriter publicTrees) ⟨0, "cells", none⟩ ⟨none, none, none, none⟩
      ⟨none, none, some 0⟩).run ⟨0, [], .new 1⟩) = .ok [⟨publicCell, [7]⟩] :=
  ⟨rfl, rfl, rfl, rfl⟩

theorem limit_of_one_holds :
    answer ((RawKeyspace.scanVersionedPrefix CompositePrefix.lsmPrefixToRange ⟨none, none, none, none⟩ ⟨none, none, some 1⟩).run
      (⟨0, [], versionStore⟩ : World Unit Store)) = .ok [⟨hiddenCell, [7]⟩] ∧
    AtMost 1 (answer ((RawKeyspace.scanVersionedPrefix CompositePrefix.lsmPrefixToRange ⟨none, none, none, none⟩
      ⟨none, none, some 1⟩).run (⟨0, [], versionStore⟩ : World Unit Store))) :=
  ⟨rfl, ((scan_at_most_limit (I := Unit) (D := Nat) CompositePrefix.lsmPrefixToRange ⟨none, none, none, none⟩ ⟨none, none, some 1⟩ 1
    rfl).1 ⟨0, [], versionStore⟩).mpr fun exceeded => absurd exceeded.1 Nat.one_ne_zero⟩

end OmryaKv.Secure
