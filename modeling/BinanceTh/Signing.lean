import BinanceTh.Python

/-!
# Signing and server time

`signing.py` and `timesync.py`. A signature covers the parameters in the order they are sent, with
`timestamp` next to last; HMAC-SHA256 is a parameter. The offset manager is a pure state, which is
`synced` once the server's time has been read.
-/

namespace BinanceTh

/-- A request parameter, as the library's clients pass them. -/
inductive ParamValue where
  | str (s : String)
  | int (n : ℤ)
  deriving DecidableEq

/-- `str(value)`. -/
def ParamValue.toStr : ParamValue → String
  | .str s => s
  | .int n => toString n

abbrev Params : Type := Dict ParamValue

/-- `build_query`: `k=v` pairs joined by `&`, without a `signature`. -/
def buildQuery (params : Dict String) : String :=
  "&".intercalate ((params.filter fun kv => kv.1 ≠ "signature").map fun kv => kv.1 ++ "=" ++ kv.2)

/-- The API secret with the digest it is used in: `signPayload secret payload`. -/
structure Signer where
  apiSecret : String
  signPayload : String → String → String

namespace Signer

/-- The parameters that are signed, before `timestamp` and `signature` are added. -/
def ordered (params : Params) (recvWindow : ℤ) : Dict String :=
  let ordered := params.map fun kv => (kv.1, kv.2.toStr)
  if Dict.contains ordered "recvWindow" then ordered
  else Dict.set ordered "recvWindow" (toString recvWindow)

def signedParams (signer : Signer) (params : Params) (timestamp recvWindow : ℤ) : Dict String :=
  let ordered := Dict.set (ordered params recvWindow) "timestamp" (toString timestamp)
  Dict.set ordered "signature" (signer.signPayload signer.apiSecret (buildQuery ordered))

/-- Signing adds parameters and changes none that the caller gave. -/
theorem get?_signedParams {signer : Signer} {params : Params} {timestamp recvWindow : ℤ}
    {key : String} (hwindow : key ≠ "recvWindow") (htime : key ≠ "timestamp")
    (hsign : key ≠ "signature") :
    Dict.get? (signer.signedParams params timestamp recvWindow) key =
      (Dict.get? params key).map (·.toStr) := by
  have hordered : Dict.get? (ordered params recvWindow) key =
      (Dict.get? params key).map (·.toStr) := by
    simp only [ordered]
    split
    · exact Dict.get?_map _ _ _
    · rw [Dict.get?_set, if_neg hwindow]
      exact Dict.get?_map _ _ _
  unfold signedParams
  rw [Dict.get?_set, if_neg hsign, Dict.get?_set, if_neg htime, hordered]

end Signer

structure TimeSync where
  offsetMs : ℤ
  synced : Bool
  deriving DecidableEq

namespace TimeSync

def init : TimeSync := { offsetMs := 0, synced := false }

/-- `now_ms` at a reading `clock` of the local clock. -/
def nowMs (t : TimeSync) (clock : ℤ) : ℤ := clock + t.offsetMs

/-- `update` at a reading `clock` of the local clock. -/
def update (_t : TimeSync) (serverTimeMs clock : ℤ) : TimeSync :=
  { offsetMs := serverTimeMs - clock, synced := true }

end TimeSync

end BinanceTh
