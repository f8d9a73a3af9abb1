import OmryaKv.Secure.Crypto

set_option autoImplicit false

namespace OmryaKv.Secure

open Lib

structure Cell where
  row : Bytes
  family : Bytes
  qualifier : Bytes
  visibility : Bytes
deriving DecidableEq

structure VersionedCell where
  cell : Cell
  timestamp : Int64
deriving DecidableEq

namespace VersionedCell

def toKey (cell : VersionedCell) : CompositeKey :=
  ⟨cell.cell.row, cell.cell.family, cell.cell.qualifier, cell.cell.visibility, cell.timestamp⟩

def ofKey (key : CompositeKey) : VersionedCell := ⟨⟨key.row, key.family, key.qualifier, key.visibility⟩, key.timestamp⟩

def encode (cell : VersionedCell) : Except Error UserKey := cell.toKey.encode

end VersionedCell

def Cell.compositePrefix (cell : Cell) : CompositePrefix :=
  ⟨some cell.row, some cell.family, some cell.qualifier, some cell.visibility⟩

theorem group_prefix_matches (cell : Cell) (key : CompositeKey) :
    cell.compositePrefix.Matches key ↔ (VersionedCell.ofKey key).cell = cell := by
  obtain ⟨row, family, qualifier, visibility⟩ := cell
  simp [Cell.compositePrefix, CompositePrefix.Matches, VersionedCell.ofKey]

-- The versions of a group stand together in the order of their keys.
theorem group_between (first between last : CompositeKey) (above : first.bytes < between.bytes) (below : between.bytes < last.bytes)
    (same : (VersionedCell.ofKey first).cell = (VersionedCell.ofKey last).cell) :
    (VersionedCell.ofKey between).cell = (VersionedCell.ofKey first).cell := by
  generalize group : (VersionedCell.ofKey first).cell = cell at same ⊢
  have inside := cell.compositePrefix.bytes_prefix_iff _ rfl
  have start := (inside first).mpr ((group_prefix_matches cell first).mpr group)
  have stop := (inside last).mpr ((group_prefix_matches cell last).mpr same.symm)
  rw [prefix_iff_between] at start stop
  rw [← group_prefix_matches, ← inside, prefix_iff_between]
  exact ⟨le_trans start.1 (le_of_lt above), fun next found => lt_trans below (stop.2 next found)⟩

theorem bytes_lt_iff (a b : CompositeKey) : a.bytes < b.bytes ↔ CompositeKey.cmpLogical a b = .lt := by
  rw [← CompositeKey.compare_bytes, compare_lt_iff]

theorem newer_first (earlier later : CompositeKey) (group : (VersionedCell.ofKey earlier).cell = (VersionedCell.ofKey later).cell)
    (less : CompositeKey.cmpLogical earlier later = .lt) : later.timestamp.toInt < earlier.timestamp.toInt := by
  obtain ⟨row, family, qualifier, visibility, timestamp⟩ := earlier
  obtain ⟨otherRow, otherFamily, otherQualifier, otherVisibility, otherTimestamp⟩ := later
  cases group
  have same (bytes : Bytes) : compare bytes bytes = .eq := Std.ReflCmp.compare_self
  simp only [CompositeKey.cmpLogical, same, Ordering.then, Int.compare_eq_lt] at less
  exact less

structure VersionScan where
  minTimestamp : Option Int64
  maxTimestamp : Option Int64
  maxVersions : Option Nat

namespace VersionScan

def includes (scan : VersionScan) (timestamp : Int64) : Bool :=
  (scan.minTimestamp.all fun min => decide (timestamp ≥ min)) && scan.maxTimestamp.all fun max => decide (timestamp ≤ max)

def isSatisfiedBy (scan : VersionScan) (count : Nat) : Bool := scan.maxVersions.any fun max => decide (count ≥ max)

theorem unsatisfied_at_first (scan : VersionScan) (limited : scan.maxVersions ≠ some 0) : scan.isSatisfiedBy 0 = false := by
  rw [isSatisfiedBy]
  cases max : scan.maxVersions with
  | none => rfl
  | some limit =>
    have positive : limit ≠ 0 := fun zero => limited (by rw [max, zero])
    simpa using positive

end VersionScan

structure VersionedEntry where
  cell : VersionedCell
  value : Bytes
deriving DecidableEq

-- The operations that a secure keyspace and both secure transactions offer.
inductive Operation where
  | insertVersion (cell : VersionedCell) (value : Bytes)
  | getVersion (cell : VersionedCell)
  | scanVersionedPrefix (pfx : CompositePrefix) (scan : VersionScan)
  | deleteVersion (cell : VersionedCell)

inductive Reply where
  | done
  | value (found : Option Bytes)
  | entries (found : List VersionedEntry)
deriving DecidableEq

def Operation.isRead : Operation → Bool
  | .getVersion _ => true
  | .scanVersionedPrefix _ _ => true
  | _ => false

def canonicalizeCell (cell : VersionedCell) : Except Error VersionedCell := do
  let visibility ← parseVisibility cell.cell.visibility
  if visibility.asBytes ≠ cell.cell.visibility then
    .error (.invalidVisibilityExpression "secure writes require canonical visibility expressions")
  else return cell

theorem canonicalize_cell_ok (cell canonicalCell : VersionedCell) (canonical : canonicalizeCell cell = .ok canonicalCell) :
    canonicalCell = cell := by
  obtain ⟨visibility, _, returned⟩ := except_bind_ok _ _ _ canonical
  split at returned
  · cases returned
  · cases returned
    rfl

variable {I D : Type}

-- The visibility of a record outside the timestamps is not looked at.
def VersionScan.shows (scan : VersionScan) (auths : Authorizations) (cell : VersionedCell) : Except Error Bool :=
  if scan.includes cell.timestamp then isVisible cell.cell.visibility auths else .ok false

def collectEntry (encryption : Option ValueEncryption) (entries : List VersionedEntry) (cell : VersionedCell)
    (key stored : Bytes) (shown : Bool) : SecureM I D (List VersionedEntry) :=
  if shown then do
    let value ← maybeDecryptEntry encryption key stored
    return entries ++ [⟨cell, value⟩]
  else return entries

-- The loop that both scan functions run over what the range gives them.
def scanEntries (encryption : Option ValueEncryption) (auths : Authorizations) (scan : VersionScan)
    (entries : List VersionedEntry) : List (UserKey × Bytes) → SecureM I D (List VersionedEntry)
  | [] => return entries
  | (key, stored) :: rest => do
      let decoded ← lift (CompositeKey.decode key)
      let shown ← lift (scan.shows auths (.ofKey decoded))
      let entries ← collectEntry encryption entries (.ofKey decoded) key stored shown
      if scan.isSatisfiedBy entries.length then return entries else scanEntries encryption auths scan entries rest

theorem collect_entry_passive (encryption : Option ValueEncryption) (entries : List VersionedEntry) (cell : VersionedCell)
    (key stored : Bytes) (shown : Bool) :
    Respects Passive (collectEntry encryption entries cell key stored shown : SecureM I D (List VersionedEntry)) := by
  cases shown with
  | false => exact passive_refl
  | true => exact passive_bind _ _ (maybe_decrypt_passive _ _ _) fun _ => passive_refl

theorem collect_entry_coupled {E : Type} (agree : D → E → Prop) (encryption : Option ValueEncryption)
    (entries : List VersionedEntry) (cell : VersionedCell) (key stored : Bytes) (shown : Bool) :
    Coupled (InStep agree) (collectEntry encryption entries cell key stored shown : SecureM I D (List VersionedEntry))
      (collectEntry encryption entries cell key stored shown) := by
  cases shown with
  | false => exact coupled_pure _ _
  | true => exact coupled_bind _ _ _ _ _ (maybe_decrypt_coupled agree _ _ _) fun _ => coupled_pure _ _

theorem scan_entries_passive (encryption : Option ValueEncryption) (auths : Authorizations) (scan : VersionScan)
    (entries : List VersionedEntry) (records : List (UserKey × Bytes)) :
    Respects Passive (scanEntries encryption auths scan entries records : SecureM I D (List VersionedEntry)) := by
  induction records generalizing entries with
  | nil => exact passive_refl
  | cons record records ih =>
    apply passive_bind _ _ (lift_passive _)
    intro decoded
    apply passive_bind _ _ (lift_passive _)
    intro shown
    apply passive_bind _ _ (collect_entry_passive _ _ _ _ _ _)
    intro found
    split
    · exact passive_refl
    · exact ih found

theorem scan_entries_coupled {E : Type} (agree : D → E → Prop) (encryption : Option ValueEncryption) (auths : Authorizations)
    (scan : VersionScan) (entries : List VersionedEntry) (records : List (UserKey × Bytes)) :
    Coupled (InStep agree) (scanEntries encryption auths scan entries records : SecureM I D (List VersionedEntry))
      (scanEntries encryption auths scan entries records) := by
  induction records generalizing entries with
  | nil => exact coupled_pure _ _
  | cons record records ih =>
    apply coupled_bind _ _ _ _ _ (lift_coupled agree _)
    intro decoded
    apply coupled_bind _ _ _ _ _ (lift_coupled agree _)
    intro shown
    apply coupled_bind _ _ _ _ _ (collect_entry_coupled agree _ _ _ _ _ _)
    intro found
    split
    · exact coupled_pure _ _
    · exact ih found

end OmryaKv.Secure
