import OmryaKv.Background.WorkerPool

set_option autoImplicit false

namespace OmryaKv.Background

open Lib

variable {Keyspace Error : Type}

variable (pool next : WorkerPool Keyspace)

def lost : EStateM.Result (Failure Error) (List (Send Keyspace)) Bool → Nat
  | .ok _ _ => 0
  | .error _ _ => 1

end OmryaKv.Background
