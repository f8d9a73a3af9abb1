import OmryaKv.Storage.Endurance
import OmryaKv.Storage.Restart

set_option autoImplicit false

namespace OmryaKv.Storage

open Lib

variable {Name K V : Type} [DecidableEq K]

variable (db middle next : Database Name K V)

def Life.journals (id : Nat) (key : K) : Life Name K V → Option (Option V)
  | .session op => op.journals id key
  | .reopen _ => none

variable [DecidableEq Name]

variable (past : List (Life Name K V))

end OmryaKv.Storage
