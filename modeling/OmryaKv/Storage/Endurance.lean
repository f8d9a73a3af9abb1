import OmryaKv.Storage.Layout

set_option autoImplicit false

namespace OmryaKv.Storage

open Lib

variable {K V : Type} [DecidableEq K]

variable {bound : Nat} {evicted : List (Event K V)} {layout : Layout K V} {p : KeyspaceLog K V}

end OmryaKv.Storage
