import OmryaKv.Secure.Cell
import OmryaKv.Tx.WriteTransaction

set_option autoImplicit false

namespace OmryaKv.Secure

open Lib

-- What the secure transactions need of the transaction they wrap. Reading may
-- leave a mark.
structure Backend (D : Type) where
  get : D → Nat → UserKey → D × Option Bytes
  range : D → Nat → KeyBounds → D × List (UserKey × Bytes)
  insert : D → Nat → UserKey → Bytes → D
  remove : D → Nat → UserKey → D

-- The handle of a secure keyspace in either kind of transaction.
structure SecureTxKeyspace where
  id : Nat
  name : String
  encryption : Option ValueEncryption

-- What a secure transaction captures next to the transaction it wraps.
structure SecureTransaction (I : Type) where
  session : Session I
  security : SecurityProviders I

abbrev TxTrees := Tx.Trees UserKey Bytes

abbrev SingleWriterTx := Tx.BaseTransaction UserKey Bytes

abbrev OptimisticTx := Tx.WriteTransaction UserKey Bytes

def singleWriter (trees : TxTrees) : Backend SingleWriterTx where
  get tx id key := (tx, tx.get trees id key)
  range tx id bounds := (tx, tx.range trees id bounds.1 bounds.2)
  insert tx id key value := tx.insert id key value
  remove tx id key := tx.remove id key

def optimistic (trees : TxTrees) : Backend OptimisticTx where
  get tx id key := tx.get trees id key
  range tx id bounds := tx.range trees id bounds.1 bounds.2
  insert tx id key value := tx.insert id key value
  remove tx id key := tx.remove id key

variable {I D : Type}

namespace Backend

def read {α : Type} (access : D → D × α) : SecureM I D α := fun w =>
  .ok (access w.data).2 { w with trace := w.trace ++ [.dataRead], data := (access w.data).1 }

theorem read_bind {α β : Type} (access : D → D × α) (f : α → SecureM I D β) (w : World I D) :
    (read access >>= f).run w = (f (access w.data).2).run ⟨w.clock, w.trace ++ [.dataRead], (access w.data).1⟩ := rfl

def stage (change : D → D) : SecureM I D Unit := fun w => .ok () { w with data := change w.data }

end Backend

namespace SecureTransaction

def secureGetVersion (backend : Backend D) (security : SecurityProviders I) (identity : I) (auths : Authorizations)
    (keyspace : SecureTxKeyspace) (cell : VersionedCell) : SecureM I D (Option Bytes) := do
  security.checkKeyspacePermission identity keyspace.name .read
  let encodedKey ← lift cell.encode
  let value ← Backend.read fun tx => backend.get tx keyspace.id encodedKey
  let visible ← lift (isVisible cell.cell.visibility auths)
  if visible then openFound keyspace.encryption encodedKey value else return none

def secureScanVersionedPrefix (prefixToRange : UserKey → KeyBounds) (backend : Backend D)
    (security : SecurityProviders I) (identity : I) (auths : Authorizations) (keyspace : SecureTxKeyspace)
    (pfx : CompositePrefix) (scan : VersionScan) : SecureM I D (List VersionedEntry) := do
  security.checkKeyspacePermission identity keyspace.name .read
  let range ← lift (pfx.range prefixToRange)
  let records ← Backend.read fun tx => backend.range tx keyspace.id range
  scanEntries keyspace.encryption auths scan [] records

def insertVersion (backend : Backend D) (tx : SecureTransaction I) (keyspace : SecureTxKeyspace) (cell : VersionedCell)
    (value : Bytes) : SecureM I D Unit := do
  tx.security.checkKeyspacePermission tx.session.identity keyspace.name .write
  let cell ← lift (canonicalizeCell cell)
  let encodedKey ← lift cell.encode
  let storedValue ← maybeEncryptValue keyspace.encryption encodedKey value
  Backend.stage fun inner => backend.insert inner keyspace.id encodedKey storedValue

def getVersion (backend : Backend D) (tx : SecureTransaction I) (keyspace : SecureTxKeyspace) (cell : VersionedCell) :
    SecureM I D (Option Bytes) :=
  secureGetVersion backend tx.security tx.session.identity tx.session.auths keyspace cell

def scanVersionedPrefix (prefixToRange : UserKey → KeyBounds) (backend : Backend D)
    (tx : SecureTransaction I) (keyspace : SecureTxKeyspace) (pfx : CompositePrefix) (scan : VersionScan) :
    SecureM I D (List VersionedEntry) :=
  secureScanVersionedPrefix prefixToRange backend tx.security tx.session.identity tx.session.auths keyspace pfx scan

def deleteVersion (backend : Backend D) (tx : SecureTransaction I) (keyspace : SecureTxKeyspace) (cell : VersionedCell) :
    SecureM I D Unit := do
  tx.security.checkKeyspacePermission tx.session.identity keyspace.name .delete
  let cell ← lift (canonicalizeCell cell)
  let encodedKey ← lift cell.encode
  Backend.stage fun inner => backend.remove inner keyspace.id encodedKey

def perform (prefixToRange : UserKey → KeyBounds) (backend : Backend D) (tx : SecureTransaction I)
    (keyspace : SecureTxKeyspace) : Operation → SecureM I D Reply
  | .insertVersion cell value => do
      tx.insertVersion backend keyspace cell value
      return .done
  | .getVersion cell => do
      let found ← tx.getVersion backend keyspace cell
      return .value found
  | .scanVersionedPrefix pfx scan => do
      let found ← tx.scanVersionedPrefix prefixToRange backend keyspace pfx scan
      return .entries found
  | .deleteVersion cell => do
      tx.deleteVersion backend keyspace cell
      return .done

end SecureTransaction

-- The two secure transactions differ in the transaction they wrap alone.
def singleWriterPerform (prefixToRange : UserKey → KeyBounds) (trees : TxTrees)
    (tx : SecureTransaction I) (keyspace : SecureTxKeyspace) (operation : Operation) : SecureM I SingleWriterTx Reply :=
  tx.perform prefixToRange (singleWriter trees) keyspace operation

def optimisticPerform (prefixToRange : UserKey → KeyBounds) (trees : TxTrees)
    (tx : SecureTransaction I) (keyspace : SecureTxKeyspace) (operation : Operation) : SecureM I OptimisticTx Reply :=
  tx.perform prefixToRange (optimistic trees) keyspace operation

end OmryaKv.Secure
