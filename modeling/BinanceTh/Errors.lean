import BinanceTh.Exceptions

/-!
# Failure mapping

`errors.py` and `envelope.py`: from a status code, a decoded body and headers to a typed
exception. A non-zero integer `code` in the body decides the class before the status does.
-/

namespace BinanceTh

/-- The items of a reply's header mapping. -/
abbrev Headers : Type := Dict String

/-- `ENVELOPE_CODE_MAP`. -/
def envelopeCodeMap : List (ℤ × APIErrorClass) :=
  [(-1021, .authError), (-1022, .authError), (-2014, .authError), (-2015, .authError),
    (-1000, .badRequestError), (-1100, .badRequestError), (-1102, .badRequestError),
    (-1013, .badRequestError), (-1121, .badRequestError), (-2013, .badRequestError)]

def usedWeightHeader : String := "x-mbx-used-weight-1m"
def retryAfterHeader : String := "retry-after"
def requestIdHeader : String := "x-mbx-uuid"

/-- `_header`: the first value whose key is `name` in any letter case. -/
def header (headers : Headers) (name : String) : Option String :=
  (headers.find? fun kv => lower kv.1 = lower name).map (·.2)

/-- `_int_or_none`. -/
def intOrNone (value : Option String) : Option ℤ := value.bind parseInt

/-- `isinstance(value, int)`, which a `bool` satisfies. -/
def Json.asInt? : Json → Option ℤ
  | .int n => some n
  | .bool b => some (if b then 1 else 0)
  | _ => none

def Json.asStr? : Json → Option String
  | .str s => some s
  | _ => none

/-- `_extract`: the `code` and the `msg` of a body that is an object. -/
def extract : Json → Option ℤ × Option String
  | .obj fields => ((Dict.get? fields "code").bind Json.asInt?,
      (Dict.get? fields "msg").bind Json.asStr?)
  | _ => (none, none)

def exceptionForEnvelopeCode (code : ℤ) : APIErrorClass :=
  (envelopeCodeMap.lookup code).getD .apiError

def mapException (statusCode : ℕ) (code : Option ℤ) : APIErrorClass :=
  match code with
  | some c => if c ≠ 0 then exceptionForEnvelopeCode c else getExceptionForStatusCode statusCode
  | none => getExceptionForStatusCode statusCode

/-- `_build`: the rate-limit attributes only for the classes that take them. -/
def build (cls : APIErrorClass) (message : String) (code : Option ℤ) (statusCode : Option ℕ)
    (requestId : Option String) (responseData : Dict Json) (retryAfter usedWeight : Option ℤ) :
    APIError where
  cls := cls
  message := message
  code := code
  statusCode := statusCode
  requestId := requestId
  responseData := responseData
  retryAfter := if cls = .rateLimitError ∨ cls = .ipBannedError then retryAfter else none
  usedWeight := if cls = .rateLimitError then usedWeight else none

/-- `s or default`: an empty string counts as absent. -/
def orDefault (s : Option String) (default : String) : String :=
  match s with
  | some s => if s = "" then default else s
  | none => default

/-- The exception `raise_for_http_status` raises for a status of 400 or more. -/
def httpError (statusCode : ℕ) (body : Json) (headers : Headers) : APIError :=
  let (code, msg) := extract body
  build (mapException statusCode code) (orDefault msg s!"HTTP {statusCode}") code statusCode
    (header headers requestIdHeader)
    (match body with | .obj fields => fields | _ => [])
    (intOrNone (header headers retryAfterHeader)) (intOrNone (header headers usedWeightHeader))

def raiseForHttpStatus (statusCode : ℕ) (body : Json) (headers : Headers) : Except Exc Unit :=
  if statusCode < 400 then .ok () else .error (.api (httpError statusCode body headers))

/-- `raise_envelope_error`: what is raised for a non-zero `code` in an envelope. -/
def envelopeError (code : ℤ) (msg : String) (statusCode : ℕ) (responseData : Dict Json)
    (requestId : Option String) : APIError :=
  build (mapException statusCode (some code)) (orDefault (some msg) s!"API error {code}") (some code)
    statusCode requestId responseData none none

/-- The text `str(payload.get("msg", ""))` for a string or an absent `msg`; `strOf` is `str` of any
other value. -/
def envelopeMsg (strOf : Json → String) (payload : Dict Json) : String :=
  match Dict.get? payload "msg" with
  | some (.str s) => s
  | some j => strOf j
  | none => ""

/-- `unwrap`: the `data` of an envelope whose `code` is 0. -/
def unwrap (strOf : Json → String) (payload : Json) (statusCode : ℕ) (requestId : Option String) :
    Except Exc Json :=
  let bare := .error (.validationError
    "Expected an enveloped response but received a bare payload" "response" (.json payload))
  match payload with
  | .obj fields =>
    match (Dict.get? fields "code").bind Json.asInt? with
    | none => bare
    | some code =>
      if code ≠ 0 then
        .error (.api (envelopeError code (envelopeMsg strOf fields) statusCode fields requestId))
      else .ok ((Dict.get? fields "data").getD .null)
  | _ => bare

/-! ## What a class says about the reply -/

/-- No envelope code maps to a class that is retried or that counts as an unknown status. -/
theorem exceptionForEnvelopeCode_cases (code : ℤ) :
    exceptionForEnvelopeCode code = .apiError ∨ exceptionForEnvelopeCode code = .authError ∨
      exceptionForEnvelopeCode code = .badRequestError := by
  unfold exceptionForEnvelopeCode
  cases h : envelopeCodeMap.lookup code with
  | none => exact .inl rfl
  | some cls =>
    have hall : ∀ kv ∈ envelopeCodeMap, kv.2 = .authError ∨ kv.2 = .badRequestError := by decide
    exact .inr (hall _ (mem_of_lookup_eq_some h))

theorem exceptionForEnvelopeCode_ne_serverError (code : ℤ) :
    exceptionForEnvelopeCode code ≠ .serverError := by
  rcases exceptionForEnvelopeCode_cases code with h | h | h <;> rw [h] <;> decide

theorem getExceptionForStatusCode_eq_serverError_iff {statusCode : ℕ} :
    getExceptionForStatusCode statusCode = .serverError ↔ 500 ≤ statusCode := by
  unfold getExceptionForStatusCode
  split
  · next h => exact iff_of_true rfl h
  · next h =>
    refine iff_of_false (fun hs => ?_) h
    cases hl : httpStatusMap.lookup statusCode with
    | none =>
      rw [hl] at hs
      cases hs
    | some cls =>
      have hall : ∀ kv ∈ httpStatusMap, kv.2 = .serverError → 500 ≤ kv.1 := by decide
      rw [hl] at hs
      exact h (hall _ (mem_of_lookup_eq_some hl) hs)

/-- A reply counts as a server error when its status says so and its body carries no code. -/
theorem mapException_eq_serverError_iff {statusCode : ℕ} {code : Option ℤ} :
    mapException statusCode code = .serverError ↔
      500 ≤ statusCode ∧ (code = none ∨ code = some 0) := by
  unfold mapException
  cases code with
  | none => simp only [getExceptionForStatusCode_eq_serverError_iff, true_or, and_true]
  | some c =>
    by_cases hc : c = 0
    · simp [hc, getExceptionForStatusCode_eq_serverError_iff]
    · simp [hc, exceptionForEnvelopeCode_ne_serverError]

end BinanceTh
