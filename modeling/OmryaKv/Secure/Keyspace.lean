import OmryaKv.Lib.OrderedMap
import OmryaKv.Secure.Cell

set_option autoImplicit false

namespace OmryaKv.Secure

open Lib

abbrev Store := OrderedMap UserKey Bytes

-- A write of the raw keyspace may fail, and what it leaves behind then is open.
structure WriteFault where
  error : Error
  left : Store → Store

structure RawKeyspace where
  writeFault : Nat → Option WriteFault

structure SecureKeyspace (I : Type) where
  inner : RawKeyspace
  name : String
  security : SecurityProviders I
  encryption : Option ValueEncryption

variable {I : Type}

namespace RawKeyspace

def get (key : UserKey) : SecureM I Store (Option Bytes) := fun w =>
  .ok (w.data.get key) { w with trace := w.trace ++ [.dataRead] }

def range (bounds : KeyBounds) : SecureM I Store (List (UserKey × Bytes)) := fun w =>
  .ok (w.data.entries.filter fun entry => Tx.inRange bounds.1 bounds.2 entry.1) { w with trace := w.trace ++ [.dataRead] }

theorem get_bind {β : Type} (key : UserKey) (f : Option Bytes → SecureM I Store β) (w : World I Store) :
    (get key >>= f).run w = (f (w.data.get key)).run ⟨w.clock, w.trace ++ [.dataRead], w.data⟩ := rfl

theorem range_bind {β : Type} (bounds : KeyBounds) (f : List (UserKey × Bytes) → SecureM I Store β) (w : World I Store) :
    (range bounds >>= f).run w = (f (w.data.entries.filter fun entry => Tx.inRange bounds.1 bounds.2 entry.1)).run
      ⟨w.clock, w.trace ++ [.dataRead], w.data⟩ := rfl

def write (raw : RawKeyspace) (change : Store → Store) : SecureM I Store Unit := fun w =>
  match raw.writeFault w.clock with
  | some fault => .error fault.error ⟨w.clock + 1, w.trace ++ [.rawWrite false], fault.left w.data⟩
  | none => .ok () ⟨w.clock + 1, w.trace ++ [.rawWrite true], change w.data⟩

theorem write_ok (raw : RawKeyspace) (change : Store → Store) (w next : World I Store)
    (written : (raw.write change).run w = .ok () next) : next.data = change w.data := by
  rw [EStateM.run, write] at written
  split at written
  · cases written
  · cases written
    rfl

def insert (raw : RawKeyspace) (key : UserKey) (value : Bytes) : SecureM I Store Unit := raw.write fun store => store.insert key value

def remove (raw : RawKeyspace) (key : UserKey) : SecureM I Store Unit := raw.write fun store => store.erase key

end RawKeyspace

namespace SecureKeyspace

def check (keyspace : SecureKeyspace I) (session : Session I) (permission : KeyspacePermission) : SecureM I Store Unit :=
  keyspace.security.checkKeyspacePermission session.identity keyspace.name permission

def insertVersion (keyspace : SecureKeyspace I) (session : Session I) (cell : VersionedCell) (value : Bytes) :
    SecureM I Store Unit := do
  keyspace.check session .write
  let canonicalCell ← lift (canonicalizeCell cell)
  let encodedKey ← lift canonicalCell.encode
  let storedValue ← maybeEncryptValue keyspace.encryption encodedKey value
  keyspace.inner.insert encodedKey storedValue

-- A cell that is not visible is not looked up, and its key not even encoded.
def getVersion (keyspace : SecureKeyspace I) (session : Session I) (cell : VersionedCell) : SecureM I Store (Option Bytes) := do
  keyspace.check session .read
  let visible ← lift (isVisible cell.cell.visibility session.auths)
  if visible then do
    let encodedKey ← lift cell.encode
    let stored ← RawKeyspace.get encodedKey
    openFound keyspace.encryption encodedKey stored
  else return none

def scanVersionedPrefix (prefixToRange : UserKey → KeyBounds) (keyspace : SecureKeyspace I)
    (session : Session I) (pfx : CompositePrefix) (scan : VersionScan) : SecureM I Store (List VersionedEntry) := do
  keyspace.check session .read
  let range ← lift (pfx.range prefixToRange)
  let records ← RawKeyspace.range range
  scanEntries keyspace.encryption session.auths scan [] records

def deleteVersion (keyspace : SecureKeyspace I) (session : Session I) (cell : VersionedCell) : SecureM I Store Unit := do
  keyspace.check session .delete
  let canonicalCell ← lift (canonicalizeCell cell)
  let encodedKey ← lift canonicalCell.encode
  keyspace.inner.remove encodedKey

def perform (prefixToRange : UserKey → KeyBounds) (keyspace : SecureKeyspace I)
    (session : Session I) : Operation → SecureM I Store Reply
  | .insertVersion cell value => do
      keyspace.insertVersion session cell value
      return .done
  | .getVersion cell => do
      let found ← keyspace.getVersion session cell
      return .value found
  | .scanVersionedPrefix pfx scan => do
      let found ← keyspace.scanVersionedPrefix prefixToRange session pfx scan
      return .entries found
  | .deleteVersion cell => do
      keyspace.deleteVersion session cell
      return .done

end SecureKeyspace

end OmryaKv.Secure
