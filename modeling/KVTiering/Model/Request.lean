import KVTiering.Data.Dict

/-! # Request contexts

What the scheduler says of a request: its identifier, and the parameters it was sent with.
-/

namespace KVTiering.Model

/-- A value of `kv_transfer_params`, as far as the session lookup tells values apart. -/
inductive ParamValue where
  | str (value : String)
  | other
deriving DecidableEq

structure ReqContext where
  reqId : String
  kvTransferParams : Option (Dict String ParamValue)

end KVTiering.Model
