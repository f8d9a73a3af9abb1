import OmryaKv.Config.CreateOptions
import OmryaKv.Lib.ByteOrder
import OmryaKv.Lib.OrderedMap
import OmryaKv.Lib.Run
import Mathlib.Data.List.AList

set_option autoImplicit false

namespace OmryaKv.Config

open Lib

def configPrefix (keyspaceId : UInt64) : Bytes := [0x63] ++ beBytes 8 keyspaceId.toNat

def encodeNameKey (keyspaceId : UInt64) : Bytes := [0x6e] ++ beBytes 8 keyspaceId.toNat

abbrev MetaTree := OrderedMap Bytes Bytes

-- A bulk ingestion of lsm-tree collects values and tombstones, each key above those
-- before it. The tree sees all of them at finish, or none.
abbrev Ingestion := OrderedMap Bytes (Option Bytes)

def Ingestion.write (ingestion : Ingestion) (key : Bytes) (value : Option Bytes) : Except Failure Ingestion :=
  if above : ∀ entry ∈ ingestion.entries, entry.1 < key then
    .ok ⟨ingestion.entries ++ [(key, value)], ascending_append_last ingestion.entries key value ingestion.sorted above⟩
  else .error (.panic "next key in ingestion must be greater than last key")

def Ingestion.finish (ingestion : Ingestion) (fault : Option Failure) (tree : MetaTree) : Except Failure MetaTree :=
  match fault with
  | some failure => .error failure
  | none => .ok (tree.overlay ingestion)

def ingest (fault : Option Failure) (tree : MetaTree) (writes : List (Bytes × Option Bytes)) : Except Failure MetaTree := do
  let ingestion ← writes.foldlM (fun ingestion kv => Ingestion.write ingestion kv.1 kv.2) OrderedMap.empty
  Ingestion.finish ingestion fault tree

structure Keyspace (Factory : Type) where
  id : UInt64
  config : CreateOptions Factory

structure MetaKeyspace (Factory : Type) where
  inner : MetaTree
  keyspaces : AList fun _ : String => Keyspace Factory
  poisoned : Bool

namespace MetaKeyspace

variable {Factory : Type} (lsm : LsmTree)

def new : MetaKeyspace Factory := ⟨.empty, ∅, false⟩

def getKvForConfig (m : MetaKeyspace Factory) (keyspaceId : UInt64) (name : String) : Option Bytes :=
  m.inner.get (encodeConfigKey keyspaceId name)

-- keyspaces.write().expect(..)
def write (m : MetaKeyspace Factory) : Except Failure Unit :=
  if m.poisoned then .error (.panic "lock is poisoned") else .ok ()

def createWrites (kvs : List (Bytes × Bytes)) : List (Bytes × Option Bytes) :=
  (kvs.insertionSort fun a b => a.1 ≤ b.1).map fun kv => (kv.1, some kv.2)

def createKeyspace (fault : Option Failure) (keyspaceId : UInt64) (name : String) (config : CreateOptions Factory)
    (m : MetaKeyspace Factory) : Except Failure (MetaKeyspace Factory) := do
  let kvs ← config.encodeKvs lsm keyspaceId
  let inner ← ingest fault m.inner (createWrites (kvs ++ [(encodeNameKey keyspaceId, utf8 name)]))
  return { m with inner, keyspaces := m.keyspaces.insert name ⟨keyspaceId, config⟩ }

def removeWrites (tree : MetaTree) (keyspaceId : UInt64) : List (Bytes × Option Bytes) :=
  let configKvs := tree.entries.filter fun kv => (configPrefix keyspaceId).isPrefixOf kv.1
  configKvs.map (fun kv => (kv.1, none)) ++ [(encodeNameKey keyspaceId, none)]

def removeKeyspace (fault : Option Failure) (name : String) (m : MetaKeyspace Factory) :
    Except Failure (MetaKeyspace Factory) := do
  m.write
  match m.keyspaces.lookup name with
  | none => return m
  | some keyspace =>
    let inner ← ingest fault m.inner (removeWrites m.inner keyspace.id)
    return { m with inner, keyspaces := m.keyspaces.erase name }

def resolveId (m : MetaKeyspace Factory) (id : UInt64) : Except Failure (Option String) :=
  match m.inner.get (encodeNameKey id) with
  | none => .ok none
  | some value =>
    match fromUtf8 value with
    | none => .error (.panic "should be utf-8")
    | some name => .ok (some name)

def fromKvs (m : MetaKeyspace Factory) (keyspaceId : UInt64) : Except Failure (CreateOptions Factory) :=
  CreateOptions.readKvs lsm (m.getKvForConfig keyspaceId)

-- Database::keyspace from the lock on.
def keyspace (fault : Option Failure) (keyspaceId : UInt64) (name : String) (createOptions : CreateOptions Factory)
    (m : MetaKeyspace Factory) : Except Failure (MetaKeyspace Factory) := do
  m.write
  match m.keyspaces.lookup name with
  | some _ => return m
  | none => createKeyspace lsm fault keyspaceId name createOptions m

-- An error leaves everything as it was. A panic under the lock poisons it.
def settle (m : MetaKeyspace Factory) : Except Failure (MetaKeyspace Factory) → MetaKeyspace Factory
  | .ok next => next
  | .error (.panic _) => { m with poisoned := true }
  | .error _ => m

end MetaKeyspace

-- The fault is what a call outside fails with: the closure that gives the
-- options, the new tree, the ingestion.
inductive MetaOp (Factory : Type) where
  | keyspace (keyspaceId : UInt64) (name : String) (createOptions : CreateOptions Factory) (fault : Option Failure)
  | deleteKeyspace (name : String) (fault : Option Failure)

variable {Factory : Type} (lsm : LsmTree)

def MetaOp.apply (m : MetaKeyspace Factory) : MetaOp Factory → Except Failure (MetaKeyspace Factory)
  | .keyspace keyspaceId name createOptions fault => m.keyspace lsm fault keyspaceId name createOptions
  | .deleteKeyspace name fault => m.removeKeyspace fault name

def MetaStep (m : MetaKeyspace Factory) (op : MetaOp Factory) (next : MetaKeyspace Factory) : Prop :=
  next = m.settle (op.apply lsm m)

end OmryaKv.Config
