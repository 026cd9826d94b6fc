import BinanceTh.Signing

/-!
# Redaction

`redact_params` and `redact_headers`: what may reach a log record. A value under a sensitive key is
replaced at any depth of a parsed body.
-/

namespace BinanceTh

def redacted : String := "***REDACTED***"

/-- `SENSITIVE_KEYS`. -/
def sensitiveKeys : List String :=
  ["signature", "api_secret", "apisecret", "secret", "api_key", "apikey", "x-mbx-apikey",
    "listenkey", "token"]

def isSensitive (key : String) : Bool := lower key ∈ sensitiveKeys

mutual

/-- `_redact_value`. -/
def redactValue : Json → Json
  | .obj fields => .obj (redactFields fields)
  | .arr items => .arr (redactItems items)
  | j => j

/-- `redact_params` on a parsed object. -/
def redactFields : List (String × Json) → List (String × Json)
  | [] => []
  | (key, value) :: fields =>
    (key, if isSensitive key then .str redacted else redactValue value) :: redactFields fields

def redactItems : List Json → List Json
  | [] => []
  | item :: items => redactValue item :: redactItems items

end

/-- `redact_params` on request parameters, which are not nested. -/
def redactParams (params : Params) : Params :=
  params.map fun kv => (kv.1, if isSensitive kv.1 then .str redacted else kv.2)

def redactHeaders (headers : Dict String) : Dict String :=
  headers.map fun kv => (kv.1, if isSensitive kv.1 then redacted else kv.2)

end BinanceTh
