import BinanceTh.Python

/-!
# The exception hierarchy

The library's exceptions with the attributes the code reads (`exceptions.py`), and those of the
language and of pydantic that its functions let through. `APIErrorClass` names the subclasses of
`BinanceThAPIError`; none of them is a subclass of another. `LimiterError` has those that come out of
the rate limiter.
-/

namespace BinanceTh

/-- `BinanceThAPIError` itself and its subclasses. -/
inductive APIErrorClass where
  | apiError
  | rateLimitError
  | ipBannedError
  | wafError
  | authError
  | badRequestError
  | serverError
  deriving DecidableEq

structure APIError where
  cls : APIErrorClass
  message : String
  code : Option ℤ
  statusCode : Option ℕ
  requestId : Option String
  responseData : Dict Json
  /-- Only a rate-limit and an IP-ban error have the attribute. -/
  retryAfter : Option ℤ
  /-- Only a rate-limit error has the attribute. -/
  usedWeight : Option ℤ

/-- `BinanceThOrderUnknownError`. -/
structure OrderUnknownError where
  message : String
  clientOrderId : Option String
  symbol : Option String
  resubmittable : Bool
  deriving DecidableEq

/-- The `value` attribute of a validation error. -/
inductive FieldValue where
  | str (s : String)
  | decimal (d : Decimal)
  | json (j : Json)

/-- What a call can raise. -/
inductive Exc where
  | api (e : APIError)
  | networkError (message : String)
  | timeoutError (message : String) (timeout : ℚ)
  | validationError (message field : String) (value : FieldValue)
  | orderUnknownError (e : OrderUnknownError)
  /-- `json.JSONDecodeError`, a `ValueError`. -/
  | jsonDecodeError
  /-- JSON nested deeper than the decoder's recursion. -/
  | recursionError
  | typeError
  /-- `pydantic.ValidationError`. -/
  | pydanticError
  | valueError (message : String)
  | overflowError
  | zeroDivisionError
  /-- Any other class, raised by a callable handed to the library. -/
  | other (name : String)

/-- What a rate limiter raises: the exceptions of its arithmetic and of its callables, none of the
library's own. -/
inductive LimiterError where
  | valueError (message : String)
  | zeroDivisionError
  | other (name : String)
  deriving DecidableEq

def LimiterError.exc : LimiterError → Exc
  | .valueError message => .valueError message
  | .zeroDivisionError => .zeroDivisionError
  | .other name => .other name

/-- `HTTP_STATUS_MAP`. -/
def httpStatusMap : List (ℕ × APIErrorClass) :=
  [(400, .badRequestError), (401, .authError), (403, .wafError), (418, .ipBannedError),
    (429, .rateLimitError), (500, .serverError), (502, .serverError), (503, .serverError),
    (504, .serverError)]

def getExceptionForStatusCode (statusCode : ℕ) : APIErrorClass :=
  if 500 ≤ statusCode then .serverError
  else (httpStatusMap.lookup statusCode).getD .apiError

theorem bind_eq_ok_iff {ε α β : Type} {x : Except ε α} {f : α → Except ε β} {b : β} :
    (x >>= f) = .ok b ↔ ∃ a, x = .ok a ∧ f a = .ok b := by
  cases x with
  | error e =>
    refine iff_of_false (fun h => ?_) (fun ⟨a, ha, _⟩ => ?_)
    · cases h
    · cases ha
  | ok a =>
    constructor
    · exact fun h => ⟨a, rfl, h⟩
    · rintro ⟨a', ha, h⟩
      obtain rfl := Except.ok.inj ha
      exact h

end BinanceTh
