import BinanceTh.Errors
import BinanceTh.Models
import BinanceTh.Redaction
import BinanceTh.Lib.Interaction

/-!
# The transport

`transport.py` and `retry.py` as a program over operations (`Op`). The network, the rate limiter,
the clock, the jitter, the sleep and the logger are the environment: it answers an operation with
anything of its type, so that a statement about every run holds for every server, network and
limiter. The limiter may raise (`LimiterError`); it does so where `acquire` rolls a window without
length, and where a header names a window by too many digits. The program's own state is the offset
manager; its exceptions keep that state.

`_execute` is split as its text is: `ensureSynced`, `sendParams`, `transmit`. `sync_time` calls
`_execute` for an unsigned call, which never synchronizes first, hence `executeRest`.
-/

namespace BinanceTh

open Interaction

structure HttpRequest where
  method : String
  path : String
  params : Params
  headers : Dict String

/-- A reply's body, as the JSON decoder sees it. -/
inductive JsonBody where
  | value (j : Json)
  /-- Not JSON: a `ValueError`. -/
  | invalid
  /-- Nested deeper than the decoder's recursion. -/
  | tooDeep

structure Response where
  status : ℕ
  headers : Headers
  text : String
  body : JsonBody

/-- How the HTTP client's `request` ends: with a reply, with `httpx.TimeoutException` or with
another `httpx.HTTPError`. -/
inductive NetResult where
  | response (r : Response)
  | timeout (message : String)
  | httpError (message : String)

inductive LogRecord where
  | request (method path : String) (params : Params) (headers : Dict String)
  | response (result : Json)

/-- What the program asks of its environment. -/
inductive Op where
  /-- A reading of the local clock, in milliseconds. -/
  | clock
  | log (record : LogRecord)
  | acquire (weight : ℤ) (mutating : Bool)
  | send (request : HttpRequest)
  | updateFromHeaders (headers : Headers)
  | jitter (ceiling : ℚ)
  | sleep (seconds : ℚ)
  | mintId
  | exchangeInfo (force : Bool)
  | executionRules

/-- What each operation is answered with. -/
@[reducible] def Ans : Op → Type
  | .clock => ℤ
  | .log _ => Unit
  | .acquire _ _ => Except LimiterError Unit
  | .send _ => NetResult
  | .updateFromHeaders _ => Except LimiterError Unit
  | .jitter _ => ℚ
  | .sleep _ => Unit
  | .mintId => String
  | .exchangeInfo _ => Except Exc ExchangeInfo
  | .executionRules => Except Exc ExecutionRules

/-- One operation of a run with its answer. -/
abbrev Ev : Type := Event Op Ans

/-- A coroutine of the client. -/
abbrev M : Type → Type := Comp Op Ans TimeSync Exc

def readClock : M ℤ := perform Op.clock
def log (record : LogRecord) : M Unit := perform (Op.log record)
def send (request : HttpRequest) : M NetResult := perform (Op.send request)
def jitter (ceiling : ℚ) : M ℚ := perform (Op.jitter ceiling)
def sleep (seconds : ℚ) : M Unit := perform (Op.sleep seconds)

/-- Raise what the limiter has raised. -/
def raiseLimiter (answer : Except LimiterError Unit) : M Unit :=
  raiseOr (answer.mapError LimiterError.exc)

def acquire (weight : ℤ) (mutating : Bool) : M Unit := do
  let answer ← perform (Op.acquire weight mutating)
  raiseLimiter answer

def updateFromHeaders (headers : Headers) : M Unit := do
  let answer ← perform (Op.updateFromHeaders headers)
  raiseLimiter answer

/-! ## Retrying -/

/-- The `retry_after` attribute, where the exception has one that is not `None`. -/
def Exc.retryAfter? : Exc → Option ℤ
  | .api e => e.retryAfter
  | _ => none

structure BackoffRetryer where
  base : ℚ := 1 / 2
  factor : ℚ := 2
  cap : ℚ := 8

namespace BackoffRetryer

/-- Computing the delay after attempt `attempt` raises `OverflowError`. -/
def delayOverflows (b : BackoffRetryer) (exc : Exc) (attempt : ℕ) : Bool :=
  match exc.retryAfter? with
  | some r => overflows r
  | none => overflows (b.factor ^ attempt)

/-- `_delay`. -/
def delay (b : BackoffRetryer) (exc : Exc) (attempt : ℕ) : M ℚ :=
  if b.delayOverflows exc attempt then throw .overflowError
  else match exc.retryAfter? with
    | some r => pure (roundFloat r)
    | none => jitter (min b.cap (b.base * b.factor ^ attempt))

/-- The loop of `run` at `attempt`, with `left` retries left. -/
def runFrom {α : Type} (b : BackoffRetryer) (fn : M α) (retryable : Exc → Bool) :
    (left attempt : ℕ) → M α
  | 0, _ => fn
  | left + 1, attempt => tryCatch fn fun exc =>
    if retryable exc then do
      let seconds ← b.delay exc attempt
      sleep seconds
      b.runFrom fn retryable left (attempt + 1)
    else throw exc

end BackoffRetryer

/-- The retryers of the library. -/
inductive Retryer where
  | null
  | backoff (b : BackoffRetryer)

def Retryer.run {α : Type} (retryer : Retryer) (fn : M α) (retryable : Exc → Bool)
    (maxRetries : ℕ) : M α :=
  match retryer with
  | .null => fn
  | .backoff b => b.runFrom fn retryable maxRetries 0

/-! ## The pipeline -/

/-- The settings the transport reads. -/
structure BinanceThConfig where
  apiKey : Option String
  apiSecret : Option String
  timeout : ℚ := 30
  maxRetries : ℕ := 3
  recvWindow : ℤ := 5000
  logRequests : Bool := false
  logResponses : Bool := false
  recvWindow_pos : 0 < recvWindow := by decide
  recvWindow_le : recvWindow ≤ 60000 := by decide

/-- The arguments of `request` and `_execute`. -/
structure Call where
  method : String
  path : String
  params : Params := []
  signed : Bool := false
  apiKeyOnly : Bool := false
  envelope : Bool := false
  weight : ℤ := 1
  mutating : Bool := false
  parseJson : Bool := true

/-- The transport with its collaborators; `strOf` is `str` of a parsed value that is no string. -/
structure Transport where
  config : BinanceThConfig
  signer : Option Signer
  retryer : Retryer
  pydantic : Pydantic
  strOf : Json → String

/-- `_resolve_retryer`. -/
def resolveRetryer (retryer : Option Retryer) (config : BinanceThConfig) : Retryer :=
  match retryer with
  | some r => r
  | none => if 0 < config.maxRetries then .backoff {} else .null

/-- A transport without injected collaborators: credentials from the configuration. -/
def Transport.ofConfig (config : BinanceThConfig) (signPayload : String → String → String)
    (pydantic : Pydantic) (strOf : Json → String) : Transport where
  config := config
  signer := config.apiSecret.map fun apiSecret => { apiSecret, signPayload }
  retryer := resolveRetryer none config
  pydantic := pydantic
  strOf := strOf

def timePath : String := "/api/v1/time"

def timestampErrorCode : ℤ := -1021

def Response.json (r : Response) : Except Exc Json :=
  match r.body with
  | .value j => .ok j
  | .invalid => .error .jsonDecodeError
  | .tooDeep => .error .recursionError

/-- `_try_json`: the text of a body that is not JSON. -/
def tryJson (r : Response) : Except Exc Json :=
  match r.json with
  | .error .jsonDecodeError => .ok (.str r.text)
  | j => j

/-- `_decode`. -/
def decode (r : Response) (parseJson : Bool) : Except Exc Json :=
  if 400 ≤ r.status then tryJson r
  else if parseJson then r.json
  else .ok (.str r.text)

/-- The error for a signed request without credentials. -/
def authRequired : Exc :=
  .api (build .authError "API credentials are required for signed endpoints" none (some 401) none []
    none none)

/-- `isinstance(exc, BinanceThAuthError) and exc.code == -1021`. -/
def Exc.isTimestampError : Exc → Bool
  | .api e => e.cls = .authError && e.code = some timestampErrorCode
  | _ => false

/-- `_is_retryable`. -/
def isRetryable (mutating : Bool) (exc : Exc) : Bool :=
  if mutating then false
  else match exc with
    | .networkError _ => true
    | .timeoutError _ _ => true
    | .api e => e.cls ∈ [.serverError, .rateLimitError, .ipBannedError]
    | _ => false

/-- A debug record, if its kind is enabled. -/
def logIf (enabled : Bool) (record : LogRecord) : M Unit :=
  if enabled then log record else pure ()

def requestRecord (request : HttpRequest) : LogRecord :=
  .request request.method request.path (redactParams request.params)
    (redactHeaders request.headers)

def responseRecord (result : Json) : LogRecord :=
  .response (match result with | .obj fields => .obj (redactFields fields) | j => j)

namespace Transport

variable (T : Transport)

def canSign : Bool := T.signer.isSome && T.config.apiKey.isSome

def headers (call : Call) : Dict String :=
  match T.config.apiKey with
  | some key => if call.signed || call.apiKeyOnly then [("X-MBX-APIKEY", key)] else []
  | none => []

/-- `_log_request`. -/
def logRequest (request : HttpRequest) : M Unit :=
  logIf T.config.logRequests (requestRecord request)

/-- `_log_response`. -/
def logResponse (result : Json) : M Unit := logIf T.config.logResponses (responseRecord result)

/-- The parameters that are sent: signed at the clock's reading now, or as they are. -/
def sendParams (call : Call) : M Params :=
  if call.signed then
    match T.signer with
    | none => throw authRequired
    | some signer => do
      let clock ← readClock
      let t ← get
      pure ((signer.signedParams call.params (t.nowMs clock) T.config.recvWindow).map fun kv =>
        (kv.1, ParamValue.str kv.2))
  else pure call.params

def httpRequest (call : Call) (params : Params) : HttpRequest where
  method := call.method
  path := call.path
  params := params
  headers := T.headers call

/-- The result of a reply: its body, or the error it stands for. -/
def result (call : Call) (r : Response) : Except Exc Json := do
  let body ← decode r call.parseJson
  raiseForHttpStatus r.status body r.headers
  if call.envelope then unwrap T.strOf body r.status (header r.headers requestIdHeader)
  else pure body

/-- What follows the send: report the usage headers, decode, raise or log. -/
def onReply (call : Call) : NetResult → M Json
  | .timeout message =>
    throw (.timeoutError (orDefault (some message) "Request timeout") T.config.timeout)
  | .httpError message => throw (.networkError (orDefault (some message) "Network error"))
  | .response r => do
    updateFromHeaders r.headers
    let body ← raiseOr (T.result call r)
    T.logResponse body
    pure body

/-- Log, wait for the limiter, send, and turn the reply into a result. -/
def transmit (call : Call) (params : Params) : M Json := do
  T.logRequest (T.httpRequest call params)
  acquire call.weight call.mutating
  let net ← send (T.httpRequest call params)
  T.onReply call net

/-- `_execute` without the synchronization at its start. -/
def executeRest (call : Call) : M Json := do
  let params ← T.sendParams call
  T.transmit call params

def timeCall : Call where
  method := "GET"
  path := timePath

def syncTime : M ServerTime := do
  let data ← T.executeRest timeCall
  let serverTime ← raiseOr (ServerTime.decode T.pydantic data)
  let clock ← readClock
  modify fun t => t.update serverTime.serverTime clock
  pure serverTime

/-- A signed call needs the server's time once. -/
def ensureSynced (call : Call) : M Unit := do
  let t ← get
  if call.signed && !t.synced then do
    let _ ← T.syncTime
    pure ()
  else pure ()

/-- `_execute`. -/
def execute (call : Call) : M Json := do
  T.ensureSynced call
  T.executeRest call

/-- One attempt: a signed call answered with a timestamp error is sent once more, after a resync. -/
def attempt (call : Call) : M Json :=
  tryCatch (T.execute call) fun exc =>
    if call.signed && exc.isTimestampError then do
      let _ ← T.syncTime
      T.execute call
    else throw exc

def request (call : Call) : M Json :=
  if call.signed && !T.canSign then throw authRequired
  else T.retryer.run (T.attempt call) (isRetryable call.mutating) T.config.maxRetries

end Transport

end BinanceTh
