import Mathlib.Algebra.Group.Nat.Defs

set_option autoImplicit false

namespace OmryaKv

abbrev Byte := UInt8

abbrev Bytes := List Byte

abbrev UserKey := Bytes

-- A value is a slice, and a slice keeps its length in 32 bits.
structure UserValue where
  bytes : Bytes
  bounded : bytes.length < 2 ^ 32
deriving DecidableEq

def UserValue.empty : UserValue := ⟨[], by decide⟩

inductive ValueType where
  | value
  | tombstone
  | weakTombstone
  | indirection
deriving DecidableEq

inductive CompressionType where
  | none
  | lz4
deriving DecidableEq

end OmryaKv
