import OmryaKv.Secure.Keyspace
import OmryaKv.Secure.Tx

set_option autoImplicit false

namespace OmryaKv.Secure

open Lib

-- What the reads of versions need of a snapshot or a transaction.
structure Readable (D : Type) where
  range : D → Nat → KeyBounds → D × List (UserKey × Bytes)

def Backend.readable {D : Type} (backend : Backend D) : Readable D := ⟨backend.range⟩

-- A snapshot is its instant.
def snapshot (trees : TxTrees) : Readable Nat where
  range instant id bounds := (instant, Tx.scan (Tx.seen (trees id) instant) bounds.1 bounds.2)

-- The loop of the two scans that check no visibility.
def scanRecords (scan : VersionScan) (entries : List VersionedEntry) : List (UserKey × Bytes) → Except Error (List VersionedEntry)
  | [] => .ok entries
  | (key, value) :: rest => do
      let decoded ← CompositeKey.decode key
      let cell := VersionedCell.ofKey decoded
      let entries := if scan.includes cell.timestamp then entries ++ [⟨cell, value⟩] else entries
      if scan.isSatisfiedBy entries.length then return entries else scanRecords scan entries rest

def VersionScan.newest : VersionScan := ⟨none, none, some 1⟩

variable {I D : Type} (prefixToRange : UserKey → KeyBounds)

namespace Readable

def scanVersionedPrefix (reader : Readable D) (id : Nat) (pfx : CompositePrefix) (scan : VersionScan) :
    SecureM I D (List VersionedEntry) := do
  let range ← lift (pfx.range prefixToRange)
  let records ← Backend.read fun tx => reader.range tx id range
  lift (scanRecords scan [] records)

def scanVersions (reader : Readable D) (id : Nat) (cell : Cell) (scan : VersionScan) : SecureM I D (List VersionedEntry) :=
  reader.scanVersionedPrefix prefixToRange id cell.compositePrefix scan

def latestVersion (reader : Readable D) (id : Nat) (cell : Cell) : SecureM I D (Option VersionedEntry) := do
  let found ← reader.scanVersions prefixToRange id cell .newest
  return found.head?

end Readable

namespace RawKeyspace

def scanVersionedPrefix (pfx : CompositePrefix) (scan : VersionScan) : SecureM I Store (List VersionedEntry) := do
  let range ← lift (pfx.range prefixToRange)
  let records ← RawKeyspace.range range
  lift (scanRecords scan [] records)

def scanVersions (cell : Cell) (scan : VersionScan) : SecureM I Store (List VersionedEntry) :=
  scanVersionedPrefix prefixToRange cell.compositePrefix scan

def latestVersion (cell : Cell) : SecureM I Store (Option VersionedEntry) := do
  let found ← scanVersions prefixToRange cell .newest
  return found.head?

-- Every key of the range is decoded before the first one is removed.
def matchingKeys (predicate : Int64 → Bool) (keys : List UserKey) : List (UserKey × Bytes) → Except Error (List UserKey)
  | [] => .ok keys
  | (key, _) :: rest => do
      let decoded ← CompositeKey.decode key
      matchingKeys predicate (if predicate decoded.timestamp then keys ++ [key] else keys) rest

def removeAll (raw : RawKeyspace) : List UserKey → SecureM I Store Unit
  | [] => return ()
  | key :: keys => do
      raw.remove key
      raw.removeAll keys

def deleteVersionsMatching (raw : RawKeyspace) (cell : Cell) (predicate : Int64 → Bool) : SecureM I Store Unit := do
  let range ← lift (cell.compositePrefix.range prefixToRange)
  let records ← RawKeyspace.range range
  let keys ← lift (matchingKeys predicate [] records)
  raw.removeAll keys

def deleteVersions (raw : RawKeyspace) (cell : Cell) : SecureM I Store Unit :=
  raw.deleteVersionsMatching prefixToRange cell fun _ => true

def deleteVersionsOlderThan (raw : RawKeyspace) (cell : Cell) (timestamp : Int64) : SecureM I Store Unit :=
  raw.deleteVersionsMatching prefixToRange cell fun version => decide (version < timestamp)

end RawKeyspace

end OmryaKv.Secure
