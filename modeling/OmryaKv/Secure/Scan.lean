import OmryaKv.Secure.CellExt
import OmryaKv.Secure.Noninterference

set_option autoImplicit false

namespace OmryaKv.Secure

open Lib

def Stored (store : UserKey → Option Bytes) (key : CompositeKey) (value : Bytes) : Prop :=
  ∃ encoded, CompositeKey.decode encoded = .ok key ∧ store encoded = some value

def AllDecode (store : UserKey → Option Bytes) : Prop :=
  ∀ encoded, store encoded ≠ none → ∃ key, CompositeKey.decode encoded = .ok key

-- The stored versions that are asked for: by row, family, qualifier and
-- visibility, and then the newest first.
structure Requested (store : UserKey → Option Bytes) (wanted : CompositeKey → Prop) (versions : List (CompositeKey × Bytes)) :
    Prop where
  ordered : versions.Pairwise fun earlier later => CompositeKey.cmpLogical earlier.1 later.1 = .lt
  member : ∀ key value, (key, value) ∈ versions ↔ Stored store key value ∧ wanted key

namespace VersionScan

def Within (scan : VersionScan) (timestamp : Int64) : Prop :=
  (∀ min, scan.minTimestamp = some min → min.toInt ≤ timestamp.toInt) ∧
    ∀ max, scan.maxTimestamp = some max → timestamp.toInt ≤ max.toInt

def first {α : Type} (scan : VersionScan) (items : List α) : List α :=
  match scan.maxVersions with
  | none => items
  | some max => items.take max

theorem includes_iff (scan : VersionScan) (timestamp : Int64) : scan.includes timestamp = true ↔ scan.Within timestamp := by
  simp only [includes, Within, Bool.and_eq_true, Option.all_eq_true, decide_eq_true_eq, ge_iff_le, Int64.le_iff_toInt_le]

theorem first_all {α : Type} (scan : VersionScan) (items : List α) (more : scan.isSatisfiedBy items.length = false) :
    scan.first items = items := by
  rw [first]
  cases max : scan.maxVersions with
  | none => rfl
  | some limit =>
    simp only [isSatisfiedBy, max, Option.any_some, decide_eq_false_iff_not, not_le, ge_iff_le] at more
    exact List.take_of_length_le (Nat.le_of_lt more)

theorem first_cut {α : Type} (scan : VersionScan) (items rest : List α) (last : α)
    (more : scan.isSatisfiedBy items.length = false) (full : scan.isSatisfiedBy (items ++ [last]).length = true) :
    scan.first (items ++ last :: rest) = items ++ [last] := by
  rw [first]
  cases max : scan.maxVersions with
  | none => simp [isSatisfiedBy, max] at full
  | some limit =>
    simp only [isSatisfiedBy, max, Option.any_some, decide_eq_false_iff_not, decide_eq_true_eq, not_le, ge_iff_le,
      List.length_append, List.length_singleton] at more full
    have exact' : limit = (items ++ [last]).length := by
      rw [List.length_append, List.length_singleton]
      omega
    rw [List.append_cons]
    exact exact' ▸ List.take_left

end VersionScan

variable (store : UserKey → Option Bytes)

theorem stored_iff (key : CompositeKey) (value : Bytes) : Stored store key value ↔ store key.bytes = some value := by
  constructor
  · rintro ⟨encoded, read, found⟩
    rwa [(CompositeKey.decode_iff encoded key).mp read] at found
  · intro found
    exact ⟨key.bytes, (CompositeKey.decode_iff _ key).mpr rfl, found⟩

def encodedVersion (version : CompositeKey × Bytes) : UserKey × Bytes := (version.1.bytes, version.2)

theorem records_decoded (records : List (UserKey × Bytes)) (decodes : ∀ record ∈ records, ∃ key, CompositeKey.decode record.1 = .ok key) :
    ∃ versions : List (CompositeKey × Bytes), records = versions.map encodedVersion := by
  induction records with
  | nil => exact ⟨[], rfl⟩
  | cons record records ih =>
    obtain ⟨key, read⟩ := decodes record List.mem_cons_self
    obtain ⟨versions, rest⟩ := ih fun record member => decodes record (List.mem_cons_of_mem _ member)
    refine ⟨(key, record.2) :: versions, ?_⟩
    rw [List.map_cons, ← rest, encodedVersion, ← (CompositeKey.decode_iff record.1 key).mp read]

-- What a range holds of a store whose keys all decode.
theorem range_versions (decodes : AllDecode store) (prefixToRange : UserKey → KeyBounds)
    (exactly : ∀ pfx key, Tx.inRange (prefixToRange pfx).1 (prefixToRange pfx).2 key = true ↔ pfx <+: key)
    (pfx : CompositePrefix) (bounds : KeyBounds) (ranged : pfx.range prefixToRange = .ok bounds)
    (records : List (UserKey × Bytes)) (range : IsRange store bounds records) :
    ∃ versions : List (CompositeKey × Bytes), records = versions.map encodedVersion ∧ Requested store pfx.Matches versions := by
  obtain ⟨versions, rfl⟩ := records_decoded records fun record member =>
    decodes record.1 (by simp [((range.member record.1 record.2).mp member).2])
  refine ⟨versions, rfl, ?_, ?_⟩
  · have sorted := range.sorted
    rw [Ascending, List.map_map, List.pairwise_map] at sorted
    exact sorted.imp fun less => (bytes_lt_iff _ _).mp less
  · intro key value
    have member : (key, value) ∈ versions ↔ encodedVersion (key, value) ∈ versions.map encodedVersion := by
      refine ⟨List.mem_map_of_mem, ?_⟩
      intro found
      obtain ⟨⟨other, otherValue⟩, stored, same⟩ := List.mem_map.mp found
      cases CompositeKey.bytes_injective _ _ (congrArg Prod.fst same)
      cases congrArg Prod.snd same
      exact stored
    rw [member, encodedVersion, range.member, stored_iff, CompositePrefix.range_selects prefixToRange exactly pfx bounds ranged]
    exact And.comm

theorem requested_filter (wanted : CompositeKey → Prop) (versions : List (CompositeKey × Bytes))
    (requested : Requested store wanted versions) (keep : CompositeKey → Bool) (kept : CompositeKey → Prop)
    (exactly : ∀ key value, Stored store key value → (keep key = true ↔ kept key)) :
    Requested store (fun key => wanted key ∧ kept key) (versions.filter fun version => keep version.1) := by
  refine ⟨requested.ordered.sublist List.filter_sublist, ?_⟩
  intro key value
  rw [List.mem_filter, requested.member, and_assoc]
  exact and_congr_right fun stored => and_congr_right fun _ => exactly key value stored

def entryOf (version : CompositeKey × Bytes) : VersionedEntry := ⟨.ofKey version.1, version.2⟩

theorem scan_records_eq (scan : VersionScan) (done versions : List (CompositeKey × Bytes))
    (more : scan.isSatisfiedBy done.length = false) :
    scanRecords scan (done.map entryOf) (versions.map encodedVersion) =
      .ok ((scan.first (done ++ versions.filter fun version => scan.includes version.1.timestamp)).map entryOf) := by
  induction versions generalizing done with
  | nil => rw [List.filter_nil, List.append_nil, scan.first_all done more, List.map_nil, scanRecords]
  | cons version versions ih =>
    have read : CompositeKey.decode version.1.bytes = .ok version.1 := (CompositeKey.decode_iff _ _).mpr rfl
    have step : scanRecords scan (done.map entryOf) ((version :: versions).map encodedVersion) =
        let entries := if scan.includes version.1.timestamp then done.map entryOf ++ [entryOf version] else done.map entryOf
        if scan.isSatisfiedBy entries.length then .ok entries else scanRecords scan entries (versions.map encodedVersion) := by
      rw [List.map_cons, encodedVersion, scanRecords, read]
      rfl
    rw [step]
    dsimp only
    cases included : scan.includes version.1.timestamp with
    | false =>
      rw [List.filter_cons_of_neg (by simp [included]), ← ih done more]
      simp only [Bool.false_eq_true, if_false, List.length_map, more]
    | true =>
      have grown : done.map entryOf ++ [entryOf version] = (done ++ [version]).map entryOf := by simp
      rw [if_pos rfl, List.filter_cons_of_pos (by simp [included]), grown, List.length_map]
      cases full : scan.isSatisfiedBy (done ++ [version]).length with
      | true =>
        rw [scan.first_cut done _ version more full]
        rfl
      | false => exact (ih (done ++ [version]) full).trans (by rw [List.append_assoc, List.singleton_append])

def OpensTo (encryption : Option ValueEncryption) (key stored value : Bytes) : Prop :=
  match encryption with
  | none => value = stored
  | some encryption => ∃ ciphertext now, parseStoredCiphertext stored = .ok ciphertext ∧
      encryption.config.provider.decrypt now (encryption.context key) ciphertext = .ok value

def Decryptable (encryption : Option ValueEncryption) (key stored : Bytes) : Prop :=
  match encryption with
  | none => True
  | some encryption => ∃ ciphertext, parseStoredCiphertext stored = .ok ciphertext ∧
      ∀ now, ∃ value, encryption.config.provider.decrypt now (encryption.context key) ciphertext = .ok value

def Opened (encryption : Option ValueEncryption) (version : CompositeKey × Bytes) (entry : VersionedEntry) : Prop :=
  entry.cell = .ofKey version.1 ∧ OpensTo encryption version.1.bytes version.2 entry.value

def Visible (auths : Authorizations) (key : CompositeKey) : Prop :=
  ∃ visibility, parseVisibility key.visibility = .ok visibility ∧ visibility.evaluate auths = true

-- A store that a secure scan can read to its end.
structure Secured (encryption : Option ValueEncryption) (store : UserKey → Option Bytes) : Prop where
  keyed : ∀ key, store key ≠ none → WellKeyed key
  opens : ∀ key stored, store key = some stored → Decryptable encryption key stored

variable {I D : Type}

theorem decryptable_opens (encryption : Option ValueEncryption) (key stored : Bytes) (opens : Decryptable encryption key stored)
    (w : World I D) : ∃ value next, (maybeDecryptEntry encryption key stored).run w = .ok value next ∧
      OpensTo encryption key stored value := by
  cases encryption with
  | none => exact ⟨stored, w, rfl, rfl⟩
  | some encryption =>
    obtain ⟨ciphertext, parsed, decrypts⟩ := opens
    obtain ⟨value, decrypted⟩ := decrypts w.clock
    exact ⟨value, _, maybe_decrypt_ok encryption key stored ciphertext value parsed w decrypted, ciphertext, w.clock, parsed,
      decrypted⟩

theorem visible_iff (auths : Authorizations) (key : CompositeKey) (visibility : VisibilityExpr)
    (valid : parseVisibility key.visibility = .ok visibility) : sees auths key.bytes = true ↔ Visible auths key := by
  have read : CompositeKey.decode key.bytes = .ok key := (CompositeKey.decode_iff _ key).mpr rfl
  have visible := is_visible_seen auths key.bytes key visibility read valid
  have evaluated : isVisible key.visibility auths = .ok (visibility.evaluate auths) := by
    rw [isVisible, valid]
    rfl
  rw [evaluated] at visible
  rw [← Except.ok.inj visible]
  constructor
  · intro shown
    exact ⟨visibility, valid, shown⟩
  · rintro ⟨other, otherValid, shown⟩
    cases valid.symm.trans otherValid
    exact shown

def shownTo (auths : Authorizations) (scan : VersionScan) (key : CompositeKey) : Bool :=
  scan.includes key.timestamp && sees auths key.bytes

theorem shows_eq (auths : Authorizations) (scan : VersionScan) (key : CompositeKey) (visibility : VisibilityExpr)
    (valid : parseVisibility key.visibility = .ok visibility) : scan.shows auths (.ofKey key) = .ok (shownTo auths scan key) := by
  have read : CompositeKey.decode key.bytes = .ok key := (CompositeKey.decode_iff _ key).mpr rfl
  have visible := is_visible_seen auths key.bytes key visibility read valid
  change (if scan.includes key.timestamp then isVisible key.visibility auths else .ok false) = _
  rw [visible, shownTo]
  cases scan.includes key.timestamp <;> rfl

-- The invariant of the loop: the entries so far are the opened versions so far,
-- and there is room for more.
theorem scan_entries_open (encryption : Option ValueEncryption) (auths : Authorizations) (scan : VersionScan)
    (versions : List (CompositeKey × Bytes))
    (valid : ∀ version ∈ versions, ∃ visibility, parseVisibility version.1.visibility = .ok visibility)
    (opens : ∀ version ∈ versions, Decryptable encryption version.1.bytes version.2) (done : List (CompositeKey × Bytes))
    (entries : List VersionedEntry) (opened : List.Forall₂ (Opened encryption) done entries)
    (more : scan.isSatisfiedBy done.length = false) (w : World I D) :
    ∃ found, answer ((scanEntries encryption auths scan entries (versions.map encodedVersion)).run w) = .ok found ∧
      List.Forall₂ (Opened encryption) (scan.first (done ++ versions.filter fun version => shownTo auths scan version.1)) found := by
  induction versions generalizing done entries w with
  | nil =>
    refine ⟨entries, rfl, ?_⟩
    rw [List.filter_nil, List.append_nil, scan.first_all done more]
    exact opened
  | cons version versions ih =>
    obtain ⟨visibility, parsed⟩ := valid version List.mem_cons_self
    have rest := ih (fun version member => valid version (List.mem_cons_of_mem _ member))
      (fun version member => opens version (List.mem_cons_of_mem _ member))
    have read : CompositeKey.decode version.1.bytes = .ok version.1 := (CompositeKey.decode_iff _ _).mpr rfl
    rw [List.map_cons, encodedVersion, scanEntries, read, lift_ok_bind, shows_eq auths scan version.1 visibility parsed,
      lift_ok_bind]
    cases shown : shownTo auths scan version.1 with
    | false =>
      rw [List.filter_cons_of_neg (by simp [shown]), collectEntry, if_neg (by decide), pure_bind,
        ← opened.length_eq, more, if_neg (by decide)]
      exact rest done entries opened more w
    | true =>
      obtain ⟨value, next, decrypted, plain⟩ := decryptable_opens encryption version.1.bytes version.2
        (opens version List.mem_cons_self) w
      have grown : List.Forall₂ (Opened encryption) (done ++ [version]) (entries ++ [⟨.ofKey version.1, value⟩]) :=
        List.rel_append opened (.cons ⟨rfl, plain⟩ .nil)
      rw [List.filter_cons_of_pos (by simp [shown]), collectEntry, if_pos rfl, bind_assoc, EStateM.run_bind, decrypted]
      change ∃ found, answer (EStateM.run
        (if scan.isSatisfiedBy (entries ++ [(⟨.ofKey version.1, value⟩ : VersionedEntry)]).length then _ else _) _) = _ ∧ _
      rw [← grown.length_eq]
      cases full : scan.isSatisfiedBy (done ++ [version]).length with
      | true =>
        rw [scan.first_cut done _ version more full]
        exact ⟨_, rfl, grown⟩
      | false =>
        have whole := rest (done ++ [version]) _ grown full next
        rwa [List.append_assoc, List.singleton_append] at whole

def Returned (store : UserKey → Option Bytes) (pfx : CompositePrefix) (scan : VersionScan)
    (outcome : Except Error (List VersionedEntry)) : Prop :=
  ∃ versions, Requested store (fun key => pfx.Matches key ∧ scan.Within key.timestamp) versions ∧
    outcome = .ok ((scan.first versions).map entryOf)

def SecurelyReturned (encryption : Option ValueEncryption) (auths : Authorizations) (store : UserKey → Option Bytes)
    (pfx : CompositePrefix) (scan : VersionScan) (outcome : Except Error (List VersionedEntry)) : Prop :=
  ∃ versions found, Requested store (fun key => pfx.Matches key ∧ scan.Within key.timestamp ∧ Visible auths key) versions ∧
    outcome = .ok found ∧ List.Forall₂ (Opened encryption) (scan.first versions) found

def IsLatest (store : UserKey → Option Bytes) (cell : Cell) : Option VersionedEntry → Prop
  | none => ∀ key value, Stored store key value → (VersionedCell.ofKey key).cell ≠ cell
  | some entry => entry.cell.cell = cell ∧ Stored store entry.cell.toKey entry.value ∧
      ∀ key value, Stored store key value → (VersionedCell.ofKey key).cell = cell →
        key.timestamp.toInt ≤ entry.cell.timestamp.toInt

section Loops

variable (prefixToRange : UserKey → KeyBounds)
  (exactly : ∀ pfx key, Tx.inRange (prefixToRange pfx).1 (prefixToRange pfx).2 key = true ↔ pfx <+: key)
  (pfx : CompositePrefix) (bounds : KeyBounds) (ranged : pfx.range prefixToRange = .ok bounds)
  (scan : VersionScan) (limited : scan.maxVersions ≠ some 0) (store : UserKey → Option Bytes)
  (records : List (UserKey × Bytes)) (range : IsRange store bounds records)

include exactly ranged limited range

theorem scan_records_returned (decodes : AllDecode store) : Returned store pfx scan (scanRecords scan [] records) := by
  obtain ⟨versions, rfl, requested⟩ := range_versions store decodes prefixToRange exactly pfx bounds ranged records range
  refine ⟨versions.filter fun version => scan.includes version.1.timestamp, ?_, ?_⟩
  · exact requested_filter store _ versions requested (fun key => scan.includes key.timestamp) _
      fun key _ _ => scan.includes_iff key.timestamp
  · exact scan_records_eq scan [] versions (scan.unsatisfied_at_first limited)

theorem scan_entries_returned (encryption : Option ValueEncryption) (auths : Authorizations) (secured : Secured encryption store)
    (w : World I D) :
    SecurelyReturned encryption auths store pfx scan (answer ((scanEntries encryption auths scan [] records).run w)) := by
  have decodes : AllDecode store := fun encoded found =>
    (secured.keyed encoded found).imp fun key valid => valid.choose_spec.1
  obtain ⟨versions, rfl, requested⟩ := range_versions store decodes prefixToRange exactly pfx bounds ranged records range
  have found (version : CompositeKey × Bytes) (member : version ∈ versions) : store version.1.bytes = some version.2 :=
    (stored_iff store _ _).mp ((requested.member version.1 version.2).mp member).1
  have valid (key : CompositeKey) (value : Bytes) (stored : store key.bytes = some value) :
      ∃ visibility, parseVisibility key.visibility = .ok visibility := by
    obtain ⟨decoded, visibility, read, valid⟩ := secured.keyed key.bytes (by simp [stored])
    cases CompositeKey.bytes_injective _ _ ((CompositeKey.decode_iff _ _).mp read)
    exact ⟨visibility, valid⟩
  obtain ⟨entries, returned, opened⟩ := scan_entries_open encryption auths scan versions
    (fun version member => valid version.1 version.2 (found version member))
    (fun version member => secured.opens _ _ (found version member)) [] [] .nil (scan.unsatisfied_at_first limited) w
  refine ⟨versions.filter fun version => shownTo auths scan version.1, entries, ?_, returned, opened⟩
  apply requested_filter store _ versions requested (shownTo auths scan)
  intro key value stored
  obtain ⟨visibility, parsed⟩ := valid key value ((stored_iff store key value).mp stored)
  rw [shownTo, Bool.and_eq_true, scan.includes_iff, visible_iff auths key visibility parsed]

end Loops

-- The first version of a group is the newest.
theorem latest_of_returned (cell : Cell) (outcome : Except Error (List VersionedEntry))
    (returned : Returned store cell.compositePrefix .newest outcome) :
    ∃ latest, outcome.map List.head? = .ok latest ∧ IsLatest store cell latest := by
  obtain ⟨versions, requested, rfl⟩ := returned
  have wanted (key : CompositeKey) (value : Bytes) :
      (key, value) ∈ versions ↔ Stored store key value ∧ (VersionedCell.ofKey key).cell = cell := by
    rw [requested.member, group_prefix_matches]
    exact and_congr_right fun _ => and_iff_left ⟨nofun, nofun⟩
  cases versions with
  | nil =>
    refine ⟨none, rfl, ?_⟩
    intro key value stored group
    exact List.not_mem_nil ((wanted key value).mpr ⟨stored, group⟩)
  | cons first rest =>
    obtain ⟨stored, group⟩ := (wanted first.1 first.2).mp List.mem_cons_self
    refine ⟨some (entryOf first), rfl, group, stored, ?_⟩
    intro key value other otherGroup
    rcases List.mem_cons.mp ((wanted key value).mpr ⟨other, otherGroup⟩) with same | later
    · exact le_of_eq (congrArg (fun version => version.1.timestamp.toInt) same)
    · exact le_of_lt (newer_first first.1 key (group.trans otherGroup.symm)
        ((List.pairwise_cons.mp requested.ordered).1 (key, value) later))

-- Whatever offers the reads of versions, next to the store it shows.
inductive Showing : {D : Type} → Readable D → Nat → D → (UserKey → Option Bytes) → Prop where
  | snapshot (state : SnapshotState) (id instant : Nat) :
      Showing (snapshot state.trees) id instant fun key => Tx.viewAt state.trees instant (id, key)
  | singleWriter (state : SnapshotState) (id : Nat) (tx : SingleWriterTx) (reached : tx.Reached) :
      Showing (singleWriter state.trees).readable id tx (txStore state id tx)
  | optimistic (state : SnapshotState) (id : Nat) (tx : OptimisticTx) (reached : tx.inner.Reached) :
      Showing (optimistic state.trees).readable id tx (txStore state id tx.inner)

theorem showing_range (reader : Readable D) (id : Nat) (tx : D) (store : UserKey → Option Bytes)
    (showing : Showing reader id tx store) (bounds : KeyBounds) :
    IsRange store bounds (reader.range tx id bounds).2 := by
  cases showing with
  | snapshot state id instant => exact ⟨Tx.scan_ascending _ _ _, Tx.mem_scan _ _ _⟩
  | singleWriter state id tx reached => exact tx_range state id tx bounds reached
  | optimistic state id tx reached => exact tx_range state id tx.inner bounds reached

theorem answer_lift {α : Type} (x : Except Error α) (w : World I D) : answer ((lift x).run w) = x := by
  cases x <;> rfl

theorem answer_checked {α : Type} (check : SecureM I D Unit) (f : Unit → SecureM I D α) (w next : World I D)
    (passed : check.run w = .ok () next) : answer ((check >>= f).run w) = answer ((f ()).run next) := by
  rw [EStateM.run_bind, passed]

section Scans

variable (prefixToRange : UserKey → KeyBounds)
  (exactly : ∀ pfx key, Tx.inRange (prefixToRange pfx).1 (prefixToRange pfx).2 key = true ↔ pfx <+: key)
  (pfx : CompositePrefix) (contiguous : pfx.Contiguous) (fits : pfx.Fits) (scan : VersionScan)
  (limited : scan.maxVersions ≠ some 0)

include exactly contiguous fits limited

theorem RawKeyspace.scan_returned (w : World I Store) (decodes : AllDecode w.data.get) :
    Returned w.data.get pfx scan (answer ((RawKeyspace.scanVersionedPrefix prefixToRange pfx scan).run w)) := by
  obtain ⟨bounds, ranged⟩ := pfx.range_total prefixToRange contiguous fits
  rw [RawKeyspace.scanVersionedPrefix, ranged, lift_ok_bind, RawKeyspace.range_bind, answer_lift]
  exact scan_records_returned prefixToRange exactly pfx bounds ranged scan limited w.data.get _
    (SecureKeyspace.range_is_range w.data bounds) decodes

theorem Readable.scan_returned (reader : Readable D) (id : Nat) (store : UserKey → Option Bytes) (w : World I D)
    (showing : Showing reader id w.data store) (decodes : AllDecode store) :
    Returned store pfx scan (answer ((reader.scanVersionedPrefix prefixToRange id pfx scan).run w)) := by
  obtain ⟨bounds, ranged⟩ := pfx.range_total prefixToRange contiguous fits
  rw [Readable.scanVersionedPrefix, ranged, lift_ok_bind, Backend.read_bind, answer_lift]
  exact scan_records_returned prefixToRange exactly pfx bounds ranged scan limited store _
    (showing_range reader id w.data store showing bounds) decodes

theorem SecureKeyspace.scan_returned (keyspace : SecureKeyspace I) (session : Session I) (w next : World I Store)
    (passed : (keyspace.check session .read).run w = .ok () next) (secured : Secured keyspace.encryption w.data.get) :
    SecurelyReturned keyspace.encryption session.auths w.data.get pfx scan
      (answer ((keyspace.scanVersionedPrefix prefixToRange session pfx scan).run w)) := by
  have same : next.data = w.data :=
    (respects_ok Passive _ (keyspace.security.check_passive session.identity keyspace.name .read) w next () passed).data
  obtain ⟨bounds, ranged⟩ := pfx.range_total prefixToRange contiguous fits
  rw [SecureKeyspace.scanVersionedPrefix, answer_checked _ _ w next passed, ranged, lift_ok_bind, RawKeyspace.range_bind, same]
  exact scan_entries_returned prefixToRange exactly pfx bounds ranged scan limited w.data.get _
    (SecureKeyspace.range_is_range w.data bounds) keyspace.encryption session.auths secured _

theorem SecureTransaction.scan_returned (backend : Backend D) (tx : SecureTransaction I) (keyspace : SecureTxKeyspace)
    (store : UserKey → Option Bytes) (w next : World I D) (showing : Showing backend.readable keyspace.id w.data store)
    (passed : (tx.security.checkKeyspacePermission tx.session.identity keyspace.name .read).run w = .ok () next)
    (secured : Secured keyspace.encryption store) :
    SecurelyReturned keyspace.encryption tx.session.auths store pfx scan
      (answer ((tx.scanVersionedPrefix prefixToRange backend keyspace pfx scan).run w)) := by
  have same : next.data = w.data :=
    (respects_ok Passive _ (tx.security.check_passive tx.session.identity keyspace.name .read) w next () passed).data
  obtain ⟨bounds, ranged⟩ := pfx.range_total prefixToRange contiguous fits
  rw [SecureTransaction.scanVersionedPrefix, SecureTransaction.secureScanVersionedPrefix, answer_checked _ _ w next passed, ranged,
    lift_ok_bind, Backend.read_bind, same]
  exact scan_entries_returned prefixToRange exactly pfx bounds ranged scan limited store _
    (showing_range backend.readable keyspace.id w.data store showing bounds) keyspace.encryption tx.session.auths secured _

end Scans

theorem group_contiguous (cell : Cell) : cell.compositePrefix.Contiguous := ⟨nofun, nofun, nofun⟩

theorem scans_return_requested_versions (prefixToRange : UserKey → KeyBounds)
    (exactly : ∀ pfx key, Tx.inRange (prefixToRange pfx).1 (prefixToRange pfx).2 key = true ↔ pfx <+: key) :
    (∀ (pfx : CompositePrefix) (scan : VersionScan), pfx.Contiguous → pfx.Fits → scan.maxVersions ≠ some 0 →
      (∀ w : World I Store, AllDecode w.data.get →
        Returned w.data.get pfx scan (answer ((RawKeyspace.scanVersionedPrefix prefixToRange pfx scan).run w))) ∧
      (∀ (reader : Readable D) (id : Nat) (store : UserKey → Option Bytes) (w : World I D),
        Showing reader id w.data store → AllDecode store →
          Returned store pfx scan (answer ((reader.scanVersionedPrefix prefixToRange id pfx scan).run w))) ∧
      (∀ (keyspace : SecureKeyspace I) (session : Session I) (w next : World I Store),
        (keyspace.check session .read).run w = .ok () next → Secured keyspace.encryption w.data.get →
          SecurelyReturned keyspace.encryption session.auths w.data.get pfx scan
            (answer ((keyspace.scanVersionedPrefix prefixToRange session pfx scan).run w))) ∧
      (∀ (backend : Backend D) (tx : SecureTransaction I) (keyspace : SecureTxKeyspace) (store : UserKey → Option Bytes)
        (w next : World I D), Showing backend.readable keyspace.id w.data store →
        (tx.security.checkKeyspacePermission tx.session.identity keyspace.name .read).run w = .ok () next →
        Secured keyspace.encryption store →
          SecurelyReturned keyspace.encryption tx.session.auths store pfx scan
            (answer ((tx.scanVersionedPrefix prefixToRange backend keyspace pfx scan).run w)))) ∧
    ∀ cell : Cell, cell.compositePrefix.Fits →
      (∀ w : World I Store, AllDecode w.data.get →
        ∃ latest, answer ((RawKeyspace.latestVersion prefixToRange cell).run w) = .ok latest ∧ IsLatest w.data.get cell latest) ∧
      (∀ (reader : Readable D) (id : Nat) (store : UserKey → Option Bytes) (w : World I D),
        Showing reader id w.data store → AllDecode store →
          ∃ latest, answer ((reader.latestVersion prefixToRange id cell).run w) = .ok latest ∧ IsLatest store cell latest) := by
  refine ⟨?_, ?_⟩
  · intro pfx scan contiguous fits limited
    refine ⟨?_, ?_, ?_, ?_⟩
    · intro w decodes
      exact RawKeyspace.scan_returned prefixToRange exactly pfx contiguous fits scan limited w decodes
    · intro reader id store w showing decodes
      exact reader.scan_returned prefixToRange exactly pfx contiguous fits scan limited id store w showing decodes
    · intro keyspace session w next passed secured
      exact keyspace.scan_returned prefixToRange exactly pfx contiguous fits scan limited session w next passed secured
    · intro backend tx keyspace store w next showing passed secured
      exact tx.scan_returned prefixToRange exactly pfx contiguous fits scan limited backend keyspace store w next showing passed secured
  · intro cell fits
    refine ⟨?_, ?_⟩
    · intro w decodes
      rw [RawKeyspace.latestVersion, answer_map]
      exact latest_of_returned w.data.get cell _
        (RawKeyspace.scan_returned prefixToRange exactly _ (group_contiguous cell) fits .newest nofun w decodes)
    · intro reader id store w showing decodes
      rw [Readable.latestVersion, answer_map]
      exact latest_of_returned store cell _
        (reader.scan_returned prefixToRange exactly _ (group_contiguous cell) fits .newest nofun id store w showing decodes)

def otherCell : VersionedCell := ⟨⟨[2], [], [], [97]⟩, 4⟩

-- Two versions of one cell and one of another.
def versionStore : Store :=
  (hiddenStore.insert otherCell.toKey.bytes [9]).insert (VersionedCell.toKey ⟨hiddenCell.cell, 3⟩).bytes [8]

theorem decodes_insert (store : Store) (key : CompositeKey) (value : Bytes) (decodes : AllDecode store.get) :
    AllDecode (store.insert key.bytes value).get := by
  intro encoded found
  by_cases same : encoded = key.bytes
  · exact ⟨key, (CompositeKey.decode_iff _ _).mpr same⟩
  · rw [OrderedMap.get_insert, if_neg same] at found
    exact decodes encoded found

theorem version_store_decodes : AllDecode versionStore.get :=
  decodes_insert _ _ _ (decodes_insert _ _ _ (decodes_insert _ _ _ fun _ found => absurd rfl found))

theorem newest_version_is_latest : AllDecode versionStore.get ∧ hiddenCell.cell.compositePrefix.Fits ∧
      answer ((RawKeyspace.latestVersion CompositePrefix.lsmPrefixToRange hiddenCell.cell).run
        (⟨0, [], versionStore⟩ : World Unit Store)) = .ok (some ⟨hiddenCell, [7]⟩) ∧
      ∃ latest, answer ((RawKeyspace.latestVersion CompositePrefix.lsmPrefixToRange hiddenCell.cell).run
        (⟨0, [], versionStore⟩ : World Unit Store)) = .ok latest ∧ IsLatest versionStore.get hiddenCell.cell latest := by
  have fits : hiddenCell.cell.compositePrefix.Fits := by
    rw [CompositePrefix.Fits]
    decide
  have scans := scans_return_requested_versions (I := Unit) (D := Nat) CompositePrefix.lsmPrefixToRange
    CompositePrefix.lsm_prefix_to_range_exact
  exact ⟨version_store_decodes, fits, rfl, (scans.2 hiddenCell.cell fits).1 ⟨0, [], versionStore⟩ version_store_decodes⟩

def longRow : CompositePrefix := ⟨some (List.replicate 65536 2), none, none, none⟩

def lockedKeyspace : SecureKeyspace Unit := ⟨⟨fun _ => none⟩, "cells", ⟨fun _ _ _ _ => false, none⟩, none⟩

theorem long_prefix_or_locked_scan_refused :
    longRow.Contiguous ∧ AllDecode (OrderedMap.empty : Store).get ∧
      answer ((RawKeyspace.scanVersionedPrefix CompositePrefix.lsmPrefixToRange longRow ⟨none, none, none⟩).run
        (⟨0, [], .empty⟩ : World Unit Store)) =
          .error (.invalidCompositeKey "encoded composite key exceeds Fjall's user-key length limit") ∧
      answer ((lockedKeyspace.scanVersionedPrefix CompositePrefix.lsmPrefixToRange guestSession ⟨none, none, none, none⟩
        ⟨none, none, none⟩).run ⟨0, [], .empty⟩) = .error (.permissionDenied "keyspace:read") := by
  have contiguous : longRow.Contiguous := ⟨nofun, fun _ => rfl, fun _ => rfl⟩
  have long : ¬ longRow.Fits := by
    intro fits
    have supplied : longRow.supplied = [List.replicate 65536 2] := rfl
    have room := field_code_length (List.replicate 65536 (2 : Byte))
    rw [CompositePrefix.Fits, supplied, encode_prefix_fields_eq, List.flatMap_singleton, List.length_cons, maxUserKeyLen] at fits
    rw [List.length_replicate] at room
    omega
  refine ⟨contiguous, fun encoded found => absurd rfl found, ?_, rfl⟩
  rw [RawKeyspace.scanVersionedPrefix, longRow.range_refused _ contiguous long]
  rfl

end OmryaKv.Secure
