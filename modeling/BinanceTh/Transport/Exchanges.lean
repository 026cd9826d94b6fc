import BinanceTh.Transport.Interruption

/-!
# What a call puts on the wire

`sends` projects a run to its exchanges, a request with what came back for it. A transmission is at
most one exchange (`runs_transmit_iff`); above it, `Executed`, `Attempted` and `Retried` list the
exchanges of `_execute`, of one attempt and of the retry loop together with the result, one
constructor for each way through the code. `runs_request` reads any run of `request` in which the
limiter raises nothing as one of these; the exchanges of any other run are the first ones of such a
run (`Interruptible.completion`).
-/

namespace BinanceTh

open Interaction

abbrev Exchange : Type := HttpRequest × NetResult

/-- The exchanges of a run. -/
def sends (tr : List Ev) : List Exchange :=
  tr.filterMap fun e => match e with
    | ⟨.send request, result⟩ => some (request, result)
    | _ => none

/-- How often a run has slept, which is how many attempts have been given up. -/
def sleeps (tr : List Ev) : ℕ :=
  (tr.filter fun e => match e with
    | ⟨.sleep _, _⟩ => true
    | _ => false).length

@[simp] theorem sends_append (tr₁ tr₂ : List Ev) : sends (tr₁ ++ tr₂) = sends tr₁ ++ sends tr₂ :=
  List.filterMap_append

@[simp] theorem sleeps_append (tr₁ tr₂ : List Ev) :
    sleeps (tr₁ ++ tr₂) = sleeps tr₁ + sleeps tr₂ := by
  unfold sleeps
  rw [List.filter_append, List.length_append]

theorem sleeps_sublist {tr₁ tr₂ : List Ev} (h : tr₁.Sublist tr₂) : sleeps tr₁ ≤ sleeps tr₂ :=
  (h.filter _).length_le

/-- The events before the next send. -/
def untilSend (tr : List Ev) : List Ev :=
  tr.takeWhile fun e => match e with
    | ⟨.send _, _⟩ => false
    | _ => true

theorem untilSend_append {tr₁ : List Ev} (tr₂ : List Ev) (h : sends tr₁ = []) :
    untilSend (tr₁ ++ tr₂) = tr₁ ++ untilSend tr₂ := by
  induction tr₁ with
  | nil => rfl
  | cons e tr₁ ih =>
    obtain ⟨o, x⟩ := e
    cases o with
    | send request => cases h
    | _ => exact congrArg (List.cons _) (ih h)

theorem untilSend_eq_self {tr : List Ev} (h : sends tr = []) : untilSend tr = tr := by
  have happend := untilSend_append [] h
  rw [List.append_nil] at happend
  rw [happend]
  exact List.append_nil tr

theorem exists_send {tr : List Ev} (h : sends tr ≠ []) :
    ∃ request net rest, tr = untilSend tr ++ ⟨.send request, net⟩ :: rest := by
  induction tr with
  | nil => exact absurd rfl h
  | cons e tr ih =>
    obtain ⟨o, x⟩ := e
    cases o with
    | send request => exact ⟨request, x, tr, rfl⟩
    | _ =>
      obtain ⟨request, net, rest, htr⟩ := ih h
      exact ⟨request, net, rest, congrArg (List.cons _) htr⟩

theorem untilSend_isPrefix {tr mid rest : List Ev} {request : HttpRequest} {net : NetResult}
    (h : tr = mid ++ ⟨.send request, net⟩ :: rest) : untilSend tr <+: mid := by
  subst h
  induction mid with
  | nil => exact List.prefix_rfl
  | cons e mid ih =>
    obtain ⟨o, x⟩ := e
    cases o with
    | send request => exact List.nil_prefix
    | _ => exact List.cons_prefix_cons.2 ⟨rfl, ih⟩

theorem untilSend_sublist (tr : List Ev) : (untilSend tr).Sublist tr := List.takeWhile_sublist _

/-- The body of a reply as an error reads it: the parsed JSON, or the text. -/
def Response.errorBody (reply : Response) : Json :=
  match reply.body with
  | .value j => j
  | _ => .str reply.text

/-- The integer `code` in the body of a reply, if there is one. -/
def Response.code (reply : Response) : Option ℤ := (extract reply.errorBody).1

/-- The API error a reply with a status of 400 or more stands for. -/
def Response.apiError (reply : Response) : APIError :=
  httpError reply.status reply.errorBody reply.headers

theorem Response.apiError_code (reply : Response) : reply.apiError.code = reply.code := rfl

theorem Response.apiError_cls (reply : Response) :
    reply.apiError.cls = mapException reply.status reply.code := rfl

theorem tryJson_eq {reply : Response} (h : reply.body ≠ .tooDeep) :
    tryJson reply = .ok reply.errorBody := by
  unfold tryJson Response.json Response.errorBody
  cases hb : reply.body with
  | value j => rfl
  | invalid => rfl
  | tooDeep => exact absurd hb h

theorem Response.json_error {reply : Response} {e : Exc} (h : reply.json = .error e) :
    e = .jsonDecodeError ∨ e = .recursionError := by
  unfold Response.json at h
  split at h
  · cases h
  · exact .inl (Except.error.inj h).symm
  · exact .inr (Except.error.inj h).symm

/-- How a transmission goes: the limiter refuses it, or it is sent, and the limiter takes the headers
of the reply, if there is one, or raises. -/
inductive Delivery where
  | refused (e : LimiterError)
  | sent (net : NetResult) (update : Except LimiterError Unit)

namespace Transport

variable {T : Transport} {call : Call}

/-! ## One transmission -/

/-- The result of an exchange of the call. -/
def outcome (T : Transport) (call : Call) : NetResult → Except Exc Json
  | .timeout message =>
    .error (.timeoutError (orDefault (some message) "Request timeout") T.config.timeout)
  | .httpError message => .error (.networkError (orDefault (some message) "Network error"))
  | .response r => T.result call r

/-- A bare call parses the body of a reply that is no error. -/
theorem outcome_of_lt {reply : Response} (hjson : call.parseJson = true)
    (hbare : call.envelope = false) (h : reply.status < 400) :
    T.outcome call (.response reply) = reply.json := by
  have hraise : raiseForHttpStatus reply.status = fun _ _ => .ok () := by
    funext body headers
    exact if_pos h
  simp only [outcome, result, decode, if_neg (not_le.2 h), hjson, hbare, hraise]
  cases reply.json <;> rfl

/-- A status of 400 or more is raised as an API error, whatever the body, unless the body cannot
even be scanned. -/
theorem outcome_of_le {reply : Response} (h : 400 ≤ reply.status) (hdeep : reply.body ≠ .tooDeep) :
    T.outcome call (.response reply) = .error (.api reply.apiError) := by
  simp only [outcome, result, decode, if_pos h, tryJson_eq hdeep, raiseForHttpStatus,
    if_neg (not_lt.2 h)]
  rfl

theorem outcome_of_tooDeep {reply : Response} (h : 400 ≤ reply.status)
    (hdeep : reply.body = .tooDeep) :
    T.outcome call (.response reply) = .error .recursionError := by
  simp only [outcome, result, decode, if_pos h, tryJson, Response.json, hdeep]
  rfl

theorem outcome_cases_of_le {reply : Response} (h : 400 ≤ reply.status) :
    (reply.body = .tooDeep ∧ T.outcome call (.response reply) = .error .recursionError) ∨
      (reply.body ≠ .tooDeep ∧ T.outcome call (.response reply) = .error (.api reply.apiError)) := by
  by_cases hdeep : reply.body = .tooDeep
  · exact .inl ⟨hdeep, outcome_of_tooDeep h hdeep⟩
  · exact .inr ⟨hdeep, outcome_of_le h hdeep⟩

/-- A call that succeeds was answered with a status below 400. -/
theorem reply_of_outcome_ok {net : NetResult} {j : Json} (h : T.outcome call net = .ok j) :
    ∃ reply : Response, net = .response reply ∧ reply.status < 400 := by
  cases net with
  | timeout message => cases h
  | httpError message => cases h
  | response reply =>
    refine ⟨reply, rfl, not_le.1 fun hle => ?_⟩
    rcases T.outcome_cases_of_le hle with ⟨-, hout⟩ | ⟨-, hout⟩ <;> cases hout.symm.trans h

/-- Below 400 only the parsing of the body can fail. -/
theorem outcome_error_of_lt {reply : Response} {e : Exc} (hbare : call.envelope = false)
    (h : reply.status < 400) (he : T.outcome call (.response reply) = .error e) :
    e = .jsonDecodeError ∨ e = .recursionError := by
  cases hjson : call.parseJson with
  | true =>
    rw [outcome_of_lt hjson hbare h] at he
    exact Response.json_error he
  | false =>
    have hraise : raiseForHttpStatus reply.status = fun _ _ => .ok () := by
      funext body headers
      exact if_pos h
    simp only [outcome, result, decode, if_neg (not_le.2 h), hjson, hbare, hraise] at he
    cases he

/-- A bare call fails without a reply, at the parsing of the body, or with the API error of a reply
with a status of 400 or more. -/
theorem outcome_error_cases {net : NetResult} {e : Exc} (hbare : call.envelope = false)
    (h : T.outcome call net = .error e) :
    (∃ message timeout, e = .timeoutError message timeout) ∨ (∃ message, e = .networkError message) ∨
      e = .jsonDecodeError ∨ e = .recursionError ∨
      ∃ reply : Response, net = .response reply ∧ 400 ≤ reply.status ∧ reply.body ≠ .tooDeep ∧
        e = .api reply.apiError := by
  cases net with
  | timeout message => exact .inl ⟨_, _, (Except.error.inj h).symm⟩
  | httpError message => exact .inr (.inl ⟨_, (Except.error.inj h).symm⟩)
  | response reply =>
    refine .inr (.inr ?_)
    by_cases hlt : reply.status < 400
    · rcases outcome_error_of_lt hbare hlt h with he | he
      · exact .inl he
      · exact .inr (.inl he)
    · have hle := not_lt.1 hlt
      rcases T.outcome_cases_of_le hle with ⟨-, hout⟩ | ⟨hdeep, hout⟩
      · exact .inr (.inl (Except.error.inj (h.symm.trans hout)))
      · exact .inr (.inr ⟨reply, rfl, hle, hdeep, Except.error.inj (h.symm.trans hout)⟩)

/-- The API errors of a bare call are those of the replies with a status of 400 or more. -/
theorem outcome_eq_api_iff {net : NetResult} {a : APIError} (hbare : call.envelope = false) :
    T.outcome call net = .error (.api a) ↔ ∃ reply : Response, net = .response reply ∧
      400 ≤ reply.status ∧ reply.body ≠ .tooDeep ∧ a = reply.apiError := by
  constructor
  · intro h
    rcases T.outcome_error_cases hbare h with ⟨_, _, he⟩ | ⟨_, he⟩ | he | he |
      ⟨reply, hnet, hle, hdeep, he⟩
    · cases he
    · cases he
    · cases he
    · cases he
    · exact ⟨reply, hnet, hle, hdeep, Exc.api.inj he⟩
  · rintro ⟨reply, rfl, hle, hdeep, rfl⟩
    exact outcome_of_le hle hdeep

/-- The result of a delivery: of its exchange, or what the limiter has raised. -/
def delivered (T : Transport) (call : Call) : Delivery → Except Exc Json
  | .refused e => .error e.exc
  | .sent (.response _) (.error e) => .error e.exc
  | .sent net _ => T.outcome call net

theorem delivered_cases (call : Call) (net : NetResult) (update : Except LimiterError Unit) :
    T.delivered call (.sent net update) = T.outcome call net ∨
      ∃ e : LimiterError, T.delivered call (.sent net update) = .error e.exc := by
  cases net with
  | timeout message => exact .inl rfl
  | httpError message => exact .inl rfl
  | response reply =>
    cases update with
    | ok u => exact .inl rfl
    | error e => exact .inr ⟨e, rfl⟩

def logEvents (enabled : Bool) (record : LogRecord) : List Ev :=
  if enabled then [⟨.log record, ()⟩] else []

/-- What happens before the limiter answers. -/
def announcement (T : Transport) (call : Call) (params : Params) : List Ev :=
  logEvents T.config.logRequests (requestRecord (T.httpRequest call params))

/-- What happens before the send. -/
def leadIn (T : Transport) (call : Call) (params : Params) : List Ev :=
  T.announcement call params ++ [⟨.acquire call.weight call.mutating, .ok ()⟩]

/-- What happens after the send. -/
def followUp (T : Transport) (call : Call) : NetResult → Except LimiterError Unit → List Ev
  | .response r, .ok () => ⟨.updateFromHeaders r.headers, .ok ()⟩ :: match T.result call r with
    | .ok body => logEvents T.config.logResponses (responseRecord body)
    | .error _ => []
  | .response r, .error e => [⟨.updateFromHeaders r.headers, .error e⟩]
  | _, _ => []

/-- The run of a transmission. -/
def transmission (T : Transport) (call : Call) (params : Params) : Delivery → List Ev
  | .refused e => T.announcement call params ++ [⟨.acquire call.weight call.mutating, .error e⟩]
  | .sent net update => T.leadIn call params ++
    ⟨.send (T.httpRequest call params), net⟩ :: T.followUp call net update

/-- A transmission in which the limiter raises nothing is told by what came back. -/
theorem delivery_of_smooth {params : Params} {d : Delivery}
    (h : Smooth (T.transmission call params d)) : ∃ net,
      T.delivered call d = T.outcome call net ∧
        T.transmission call params d = T.transmission call params (.sent net (.ok ())) := by
  cases d with
  | refused e =>
    obtain ⟨-, hlast⟩ := smooth_append.1 h
    cases (smooth_cons.1 hlast).1
  | sent net update =>
    refine ⟨net, ?_⟩
    cases net with
    | timeout message => exact ⟨rfl, rfl⟩
    | httpError message => exact ⟨rfl, rfl⟩
    | response reply =>
      cases update with
      | ok u => exact ⟨rfl, rfl⟩
      | error e =>
        obtain ⟨-, hrest⟩ := smooth_append.1 h
        obtain ⟨-, hlast⟩ := smooth_cons.1 hrest
        cases (smooth_cons.1 hlast).1

variable {s s' : TimeSync} {tr : List Ev}

theorem runs_logIf_bind_iff {α : Type} {enabled : Bool} {record : LogRecord} {f : Unit → M α}
    {r : Except Exc α} : Runs (logIf enabled record >>= f) s tr r s' ↔
      ∃ tr', tr = logEvents enabled record ++ tr' ∧ Runs (f ()) s tr' r s' := by
  unfold logIf logEvents log
  cases enabled with
  | true =>
    rw [if_pos rfl, if_pos rfl, runs_perform_bind_iff]
    exact ⟨fun ⟨_, tr', htr, h⟩ => ⟨tr', htr, h⟩, fun ⟨tr', htr, h⟩ => ⟨(), tr', htr, h⟩⟩
  | false =>
    rw [if_neg Bool.false_ne_true, if_neg Bool.false_ne_true]
    exact ⟨fun h => ⟨tr, rfl, h⟩, fun ⟨tr', htr, h⟩ => htr ▸ h⟩

theorem runs_raiseLimiter_bind_iff {α : Type} {answer : Except LimiterError Unit} {f : Unit → M α}
    {r : Except Exc α} : Runs (raiseLimiter answer >>= f) s tr r s' ↔
      (∃ e, answer = .error e ∧ tr = [] ∧ r = .error e.exc ∧ s' = s) ∨
        answer = .ok () ∧ Runs (f ()) s tr r s' := by
  unfold raiseLimiter
  rw [runs_raiseOr_bind_iff]
  cases answer with
  | error e =>
    constructor
    · rintro (⟨e', he, htr, hr, hs⟩ | ⟨u, hok, -⟩)
      · obtain rfl := Except.error.inj he
        exact .inl ⟨e, rfl, htr, hr, hs⟩
      · cases hok
    · rintro (⟨e', he, htr, hr, hs⟩ | ⟨hok, -⟩)
      · obtain rfl := Except.error.inj he
        exact .inl ⟨_, rfl, htr, hr, hs⟩
      · cases hok
  | ok u =>
    constructor
    · rintro (⟨e', he, -⟩ | ⟨u', -, h⟩)
      · cases he
      · exact .inr ⟨rfl, h⟩
    · rintro (⟨e', he, -⟩ | ⟨-, h⟩)
      · cases he
      · exact .inr ⟨(), rfl, h⟩

theorem runs_onReply_iff {net : NetResult} {r : Except Exc Json} :
    Runs (T.onReply call net) s tr r s' ↔
      s' = s ∧ ∃ update, r = T.delivered call (.sent net update) ∧
        tr = T.followUp call net update := by
  cases net with
  | timeout message =>
    show Runs (throw _) s tr r s' ↔ s' = s ∧ ∃ _, r = .error _ ∧ tr = []
    rw [runs_throw_iff]
    exact ⟨fun ⟨htr, hr, hs⟩ => ⟨hs, .ok (), hr, htr⟩, fun ⟨hs, _, hr, htr⟩ => ⟨htr, hr, hs⟩⟩
  | httpError message =>
    show Runs (throw _) s tr r s' ↔ s' = s ∧ ∃ _, r = .error _ ∧ tr = []
    rw [runs_throw_iff]
    exact ⟨fun ⟨htr, hr, hs⟩ => ⟨hs, .ok (), hr, htr⟩, fun ⟨hs, _, hr, htr⟩ => ⟨htr, hr, hs⟩⟩
  | response reply =>
    simp only [onReply, updateFromHeaders, bind_assoc, runs_perform_bind_iff,
      runs_raiseLimiter_bind_iff]
    constructor
    · rintro ⟨update, tr', rfl, ⟨e, rfl, rfl, rfl, rfl⟩ | ⟨rfl, h⟩⟩
      · exact ⟨rfl, .error e, rfl, rfl⟩
      · simp only [logResponse, runs_raiseOr_bind_iff, runs_logIf_bind_iff, runs_pure_iff] at h
        rcases h with ⟨e, he, rfl, rfl, rfl⟩ | ⟨body, hbody, tr'', rfl, rfl, rfl, rfl⟩
        · exact ⟨rfl, .ok (), he.symm, by simp only [followUp, he]⟩
        · exact ⟨rfl, .ok (), hbody.symm, by simp only [followUp, hbody, List.append_nil]⟩
    · rintro ⟨rfl, update, rfl, rfl⟩
      cases update with
      | error e => exact ⟨.error e, [], rfl, .inl ⟨e, rfl, rfl, rfl, rfl⟩⟩
      | ok u =>
        refine ⟨.ok (), _, rfl, .inr ⟨rfl, ?_⟩⟩
        simp only [logResponse, runs_raiseOr_bind_iff, runs_logIf_bind_iff, runs_pure_iff]
        cases hresult : T.result call reply with
        | error e => exact .inl ⟨e, rfl, rfl, hresult, trivial⟩
        | ok body =>
          exact .inr ⟨body, rfl, [], (List.append_nil _).symm, rfl, hresult, trivial⟩

/-- **One transmission.** It logs, waits for the limiter, sends at most once and ends with the result
of that delivery; the offset stays as it is. -/
theorem runs_transmit_iff {params : Params} {r : Except Exc Json} :
    Runs (T.transmit call params) s tr r s' ↔
      s' = s ∧ ∃ d, r = T.delivered call d ∧ tr = T.transmission call params d := by
  unfold transmit logRequest acquire send transmission leadIn
  simp only [runs_logIf_bind_iff, bind_assoc, runs_perform_bind_iff, runs_raiseLimiter_bind_iff,
    runs_onReply_iff]
  constructor
  · rintro ⟨_, rfl, answer, _, rfl, ⟨e, rfl, rfl, rfl, rfl⟩ |
      ⟨rfl, net, _, rfl, rfl, update, rfl, rfl⟩⟩
    · exact ⟨rfl, .refused e, rfl, rfl⟩
    · exact ⟨rfl, .sent net update, rfl, (List.append_assoc _ [_] _).symm⟩
  · rintro ⟨rfl, d, rfl, rfl⟩
    cases d with
    | refused e => exact ⟨_, rfl, .error e, [], rfl, .inl ⟨e, rfl, rfl, rfl, rfl⟩⟩
    | sent net update =>
      exact ⟨_, List.append_assoc _ [_] _, .ok (), _, rfl, .inr ⟨rfl, net, _, rfl, rfl, update, rfl,
        rfl⟩⟩

/-! ## `_execute` -/

/-- The parameters a call sends when it reads the clock at `clock`. -/
def paramsAt (T : Transport) (call : Call) (s : TimeSync) (clock : ℤ) : Params :=
  if call.signed then
    match T.signer with
    | some signer =>
      (signer.signedParams call.params (s.nowMs clock) T.config.recvWindow).map fun kv =>
        (kv.1, ParamValue.str kv.2)
    | none => []
  else call.params

/-- Only a signed call reads the clock. -/
def clockEvents (call : Call) (clock : ℤ) : List Ev :=
  if call.signed then [⟨.clock, clock⟩] else []

theorem runs_sendParams_bind_iff {α : Type} {f : Params → M α} {r : Except Exc α}
    (hsign : call.signed = true → T.signer.isSome = true) :
    Runs (T.sendParams call >>= f) s tr r s' ↔
      ∃ clock tr', tr = clockEvents call clock ++ tr' ∧
        Runs (f (T.paramsAt call s clock)) s tr' r s' := by
  unfold sendParams clockEvents paramsAt readClock
  cases hsigned : call.signed with
  | false =>
    simp only [Bool.false_eq_true, ↓reduceIte, List.nil_append, exists_eq_left']
    exact ⟨fun h => ⟨0, h⟩, fun ⟨_, h⟩ => h⟩
  | true =>
    obtain ⟨signer, hsigner⟩ := Option.isSome_iff_exists.1 (hsign hsigned)
    simp only [hsigner, ↓reduceIte, bind_assoc, runs_perform_bind_iff, runs_get_bind_iff]
    rfl

/-- The rest of `_execute` reads the clock if it signs, and transmits. -/
theorem runs_executeRest_iff {r : Except Exc Json}
    (hsign : call.signed = true → T.signer.isSome = true) :
    Runs (T.executeRest call) s tr r s' ↔
      s' = s ∧ ∃ clock d, r = T.delivered call d ∧
        tr = clockEvents call clock ++ T.transmission call (T.paramsAt call s clock) d := by
  unfold executeRest
  rw [runs_sendParams_bind_iff hsign]
  simp only [runs_transmit_iff]
  constructor
  · rintro ⟨clock, _, rfl, rfl, d, rfl, rfl⟩
    exact ⟨rfl, clock, d, rfl, rfl⟩
  · rintro ⟨rfl, clock, d, rfl, rfl⟩
    exact ⟨clock, _, rfl, rfl, d, rfl, rfl⟩

/-- In a smooth run that is one exchange. -/
theorem runs_executeRest {r : Except Exc Json}
    (hsign : call.signed = true → T.signer.isSome = true) (hsmooth : Smooth tr)
    (h : Runs (T.executeRest call) s tr r s') :
    s' = s ∧ ∃ clock net, r = T.outcome call net ∧
      tr = clockEvents call clock ++
        T.transmission call (T.paramsAt call s clock) (.sent net (.ok ())) := by
  obtain ⟨rfl, clock, d, rfl, rfl⟩ := (runs_executeRest_iff hsign).1 h
  obtain ⟨net, hout, htr⟩ := delivery_of_smooth (smooth_append.1 hsmooth).2
  exact ⟨rfl, clock, net, hout, by rw [htr]⟩

/-! ## Exchanges -/

@[simp] theorem sends_logEvents (enabled : Bool) (record : LogRecord) :
    sends (logEvents enabled record) = [] := by
  cases enabled <;> rfl

@[simp] theorem sleeps_logEvents (enabled : Bool) (record : LogRecord) :
    sleeps (logEvents enabled record) = 0 := by
  cases enabled <;> rfl

theorem silent_followUp (net : NetResult) (update : Except LimiterError Unit) :
    sends (T.followUp call net update) = [] ∧ sleeps (T.followUp call net update) = 0 := by
  cases net with
  | timeout message => exact ⟨rfl, rfl⟩
  | httpError message => exact ⟨rfl, rfl⟩
  | response reply =>
    cases update with
    | error e => exact ⟨rfl, rfl⟩
    | ok u =>
      have hcons (tr : List Ev) :
          sends (⟨.updateFromHeaders reply.headers, .ok ()⟩ :: tr) = sends tr ∧
            sleeps (⟨.updateFromHeaders reply.headers, .ok ()⟩ :: tr) = sleeps tr := ⟨rfl, rfl⟩
      unfold followUp
      rw [(hcons _).1, (hcons _).2]
      split
      · exact ⟨sends_logEvents _ _, sleeps_logEvents _ _⟩
      · exact ⟨rfl, rfl⟩

/-- The exchange of a delivery, if there is one. -/
def exchanges (T : Transport) (call : Call) (params : Params) : Delivery → List Exchange
  | .refused _ => []
  | .sent net _ => [(T.httpRequest call params, net)]

theorem sends_transmission (params : Params) (d : Delivery) :
    sends (T.transmission call params d) = T.exchanges call params d := by
  cases d with
  | refused e =>
    unfold transmission announcement
    rw [sends_append, sends_logEvents]
    rfl
  | sent net update =>
    unfold transmission leadIn announcement
    rw [sends_append, sends_append, sends_logEvents]
    show (T.httpRequest call params, net) :: sends (T.followUp call net update) = _
    rw [(silent_followUp net update).1]
    rfl

theorem sleeps_transmission (params : Params) (d : Delivery) :
    sleeps (T.transmission call params d) = 0 := by
  cases d with
  | refused e =>
    unfold transmission announcement
    rw [sleeps_append, sleeps_logEvents]
    rfl
  | sent net update =>
    unfold transmission leadIn announcement
    rw [sleeps_append, sleeps_append, sleeps_logEvents]
    show 0 + 0 + sleeps (T.followUp call net update) = 0
    rw [(silent_followUp net update).2]

theorem sends_clockEvents (clock : ℤ) : sends (clockEvents call clock) = [] := by
  unfold clockEvents
  split <;> rfl

theorem sleeps_clockEvents (clock : ℤ) : sleeps (clockEvents call clock) = 0 := by
  unfold clockEvents
  split <;> rfl

/-- The request of a time synchronization. -/
def timeRequest (T : Transport) : HttpRequest := T.httpRequest timeCall []

/-- The result of an exchange with the time endpoint. -/
def timeOutcome (T : Transport) (net : NetResult) : Except Exc ServerTime :=
  T.outcome timeCall net >>= ServerTime.decode T.pydantic

/-- **A synchronization** is one exchange with the time endpoint and ends with its outcome. -/
theorem runs_syncTime {r : Except Exc ServerTime} (hsmooth : Smooth tr)
    (h : Runs T.syncTime s tr r s') :
    ∃ net, sends tr = [(T.timeRequest, net)] ∧ sleeps tr = 0 ∧ r = T.timeOutcome net ∧
      ((∃ e, r = .error e ∧ s' = s) ∨ ∃ t, r = .ok t ∧ s'.synced = true) := by
  unfold syncTime at h
  have hrest {tr : List Ev} {r : Except Exc Json} {s' : TimeSync} (hsmooth : Smooth tr)
      (h : Runs (T.executeRest timeCall) s tr r s') :
      s' = s ∧ ∃ net, r = T.outcome timeCall net ∧ sends tr = [(T.timeRequest, net)] ∧
        sleeps tr = 0 := by
    obtain ⟨rfl, clock, net, rfl, rfl⟩ := runs_executeRest (fun h => Bool.noConfusion h) hsmooth h
    refine ⟨rfl, net, rfl, ?_, ?_⟩
    · rw [sends_append, sends_clockEvents, sends_transmission]
      rfl
    · rw [sleeps_append, sleeps_clockEvents, sleeps_transmission]
  rcases runs_bind_iff.1 h with ⟨e, rfl, h₁⟩ | ⟨data, tr₁, s₁, tr₂, rfl, h₁, h₂⟩
  · obtain ⟨rfl, net, hout, hsends, hsleeps⟩ := hrest hsmooth h₁
    refine ⟨net, hsends, hsleeps, ?_, .inl ⟨e, rfl, rfl⟩⟩
    unfold timeOutcome
    rw [← hout]
    rfl
  · obtain ⟨rfl, net, hout, hsends, hsleeps⟩ := hrest (smooth_append.1 hsmooth).1 h₁
    have htime : T.timeOutcome net = ServerTime.decode T.pydantic data := by
      unfold timeOutcome
      rw [← hout]
      rfl
    simp only [runs_raiseOr_bind_iff, readClock, runs_perform_bind_iff, runs_modify_bind_iff,
      runs_pure_iff] at h₂
    rcases h₂ with ⟨e, he, rfl, rfl, rfl⟩ | ⟨t, ht, clock, _, rfl, rfl, rfl, rfl⟩
    · rw [List.append_nil]
      exact ⟨net, hsends, hsleeps, by rw [htime, he], .inl ⟨e, rfl, rfl⟩⟩
    · refine ⟨net, ?_, ?_, by rw [htime, ht], .inr ⟨t, rfl, rfl⟩⟩
      · rw [sends_append, hsends]
        rfl
      · rw [sleeps_append, hsleeps]
        rfl

/-- The exchanges of `_execute`, its result and the offset manager after it. -/
inductive Executed (T : Transport) (call : Call) (s : TimeSync) :
    List Exchange → Except Exc Json → TimeSync → Prop
  /-- The server's time is not known yet and could not be fetched. -/
  | syncFailed {net : NetResult} {e : Exc} : call.signed = true → s.synced = false →
      T.timeOutcome net = .error e → Executed T call s [(T.timeRequest, net)] (.error e) s
  /-- The server's time is fetched, then the request is sent. -/
  | synced {net net' : NetResult} {t : ServerTime} {s₁ : TimeSync} {clock : ℤ} :
      call.signed = true → s.synced = false → T.timeOutcome net = .ok t → s₁.synced = true →
      Executed T call s
        [(T.timeRequest, net), (T.httpRequest call (T.paramsAt call s₁ clock), net')]
        (T.outcome call net') s₁
  /-- The request is sent. -/
  | direct {net : NetResult} {clock : ℤ} : (call.signed = true → s.synced = true) →
      Executed T call s [(T.httpRequest call (T.paramsAt call s clock), net)] (T.outcome call net) s

theorem Executed.of_synced {l : List Exchange} {r : Except Exc Json}
    (h : Executed T call s l r s') (hs : s.synced = true) :
    ∃ clock net, l = [(T.httpRequest call (T.paramsAt call s clock), net)] ∧
      r = T.outcome call net ∧ s' = s := by
  cases h with
  | syncFailed _ hs' =>
    rw [hs] at hs'
    cases hs'
  | synced _ hs' =>
    rw [hs] at hs'
    cases hs'
  | direct => exact ⟨_, _, rfl, rfl, rfl⟩

theorem runs_execute {r : Except Exc Json} (hsign : call.signed = true → T.signer.isSome = true)
    (hsmooth : Smooth tr) (h : Runs (T.execute call) s tr r s') :
    Executed T call s (sends tr) r s' ∧ sleeps tr = 0 := by
  unfold execute ensureSynced at h
  rw [bind_assoc, runs_get_bind_iff] at h
  by_cases hsync : (call.signed && !s.synced) = true
  · rw [if_pos hsync, bind_assoc] at h
    rw [Bool.and_eq_true, Bool.not_eq_true'] at hsync
    rcases runs_bind_iff.1 h with ⟨e, rfl, h₁⟩ | ⟨t, tr₁, s₁, tr₂, rfl, h₁, h₂⟩
    · obtain ⟨net, hsends, hsleeps, hr, ⟨e', he, rfl⟩ | ⟨_, hok, _⟩⟩ := runs_syncTime hsmooth h₁
      · rw [hsends]
        exact ⟨.syncFailed hsync.1 hsync.2 hr.symm, hsleeps⟩
      · cases hok
    · obtain ⟨hsmooth₁, hsmooth₂⟩ := smooth_append.1 hsmooth
      obtain ⟨net, hsends, hsleeps, hr, ⟨_, he, _⟩ | ⟨t', ht, hsynced⟩⟩ := runs_syncTime hsmooth₁ h₁
      · cases he
      · rw [pure_bind] at h₂
        obtain ⟨rfl, clock, net', rfl, rfl⟩ := runs_executeRest hsign hsmooth₂ h₂
        simp only [sends_append, sends_clockEvents, sends_transmission, exchanges, hsends,
          sleeps_append, sleeps_clockEvents, sleeps_transmission, hsleeps]
        exact ⟨.synced hsync.1 hsync.2 hr.symm hsynced, trivial⟩
  · rw [if_neg hsync, pure_bind] at h
    obtain ⟨rfl, clock, net, rfl, rfl⟩ := runs_executeRest hsign hsmooth h
    simp only [sends_append, sends_clockEvents, sends_transmission, exchanges, sleeps_append,
      sleeps_clockEvents, sleeps_transmission]
    refine ⟨.direct fun hsigned => ?_, trivial⟩
    simpa [hsigned] using hsync

/-! ## Attempts and retries -/

/-- The error is answered with a resync: a timestamp error of a signed call. -/
def needsResync (call : Call) (e : Exc) : Bool := call.signed && e.isTimestampError

/-- The exchanges of one attempt. -/
inductive Attempted (T : Transport) (call : Call) (s : TimeSync) :
    List Exchange → Except Exc Json → TimeSync → Prop
  | once {l : List Exchange} {r : Except Exc Json} {s' : TimeSync} : Executed T call s l r s' →
      (∀ e, r = .error e → needsResync call e = false) → Attempted T call s l r s'
  /-- The resync after a timestamp error failed. -/
  | resyncFailed {l : List Exchange} {e e' : Exc} {s₁ : TimeSync} {net : NetResult} :
      Executed T call s l (.error e) s₁ → needsResync call e = true →
      T.timeOutcome net = .error e' → Attempted T call s (l ++ [(T.timeRequest, net)]) (.error e') s₁
  /-- After the resync the request is sent once more. -/
  | resynced {l : List Exchange} {e : Exc} {s₁ s₂ : TimeSync} {net net' : NetResult}
      {t : ServerTime} {clock : ℤ} : Executed T call s l (.error e) s₁ →
      needsResync call e = true → T.timeOutcome net = .ok t → s₂.synced = true →
      Attempted T call s
        (l ++ [(T.timeRequest, net), (T.httpRequest call (T.paramsAt call s₂ clock), net')])
        (T.outcome call net') s₂

/-- Every attempt sends something. -/
theorem Attempted.ne_nil {l : List Exchange} {r : Except Exc Json}
    (h : Attempted T call s l r s') : l ≠ [] := by
  cases h with
  | once hexec _ => cases hexec <;> simp
  | resyncFailed _ _ _ => simp
  | resynced _ _ _ _ => simp

theorem runs_attempt {r : Except Exc Json} (hsign : call.signed = true → T.signer.isSome = true)
    (hsmooth : Smooth tr) (h : Runs (T.attempt call) s tr r s') :
    Attempted T call s (sends tr) r s' ∧ sleeps tr = 0 := by
  unfold attempt at h
  rcases runs_tryCatch_iff.1 h with ⟨a, rfl, h₁⟩ | ⟨e, tr₁, s₁, tr₂, rfl, h₁, h₂⟩
  · obtain ⟨hex, hsleeps⟩ := runs_execute hsign hsmooth h₁
    exact ⟨.once hex (fun e he => nomatch he), hsleeps⟩
  · obtain ⟨hsmooth₁, hsmooth₂⟩ := smooth_append.1 hsmooth
    obtain ⟨hex, hsleeps⟩ := runs_execute hsign hsmooth₁ h₁
    rw [sends_append, sleeps_append, hsleeps, Nat.zero_add]
    split at h₂
    · next hresync =>
      rcases runs_bind_iff.1 h₂ with ⟨e', rfl, h₃⟩ | ⟨t, tr₃, s₂, tr₄, rfl, h₃, h₄⟩
      · obtain ⟨net, hsends, hsleeps', hr, ⟨_, _, rfl⟩ | ⟨_, hok, _⟩⟩ := runs_syncTime hsmooth₂ h₃
        · rw [hsends]
          exact ⟨.resyncFailed hex hresync hr.symm, hsleeps'⟩
        · cases hok
      · obtain ⟨hsmooth₃, hsmooth₄⟩ := smooth_append.1 hsmooth₂
        obtain ⟨net, hsends, hsleeps', hr, hres⟩ := runs_syncTime hsmooth₃ h₃
        rcases hres with ⟨_, he, _⟩ | ⟨t', ht, hsynced⟩
        · cases he
        · obtain ⟨hex', hsleeps''⟩ := runs_execute hsign hsmooth₄ h₄
          obtain ⟨clock, net', hl, rfl, rfl⟩ := hex'.of_synced hsynced
          rw [sends_append, hsends, hl, sleeps_append, hsleeps', hsleeps'']
          exact ⟨.resynced hex hresync hr.symm hsynced, rfl⟩
    · next hresync =>
      obtain ⟨rfl, rfl, rfl⟩ := runs_throw_iff.1 h₂
      rw [show sends [] = [] from rfl, List.append_nil]
      refine ⟨.once hex fun e' he => ?_, rfl⟩
      obtain rfl := Except.error.inj he
      exact Bool.eq_false_of_not_eq_true hresync

end Transport

/-- Computing the delay after the error of attempt `attempt` raises. -/
def Retryer.delayOverflows (retryer : Retryer) (exc : Exc) (attempt : ℕ) : Bool :=
  match retryer with
  | .null => false
  | .backoff b => b.delayOverflows exc attempt

/-- How often the retryer may retry. -/
def Retryer.retries (retryer : Retryer) (maxRetries : ℕ) : ℕ :=
  match retryer with
  | .null => 0
  | .backoff _ => maxRetries

theorem Retryer.retries_le (retryer : Retryer) (n : ℕ) : retryer.retries n ≤ n := by
  cases retryer with
  | null => exact Nat.zero_le n
  | backoff b => exact le_refl n

namespace Transport

variable {T : Transport} {call : Call} {s s' : TimeSync} {tr : List Ev}

/-- `Retried T call left k s l r s' n`: from attempt `k` on, with `left` retries left, the exchanges
are `l`, the result is `r`, and `n` is the attempt it is the result of. -/
inductive Retried (T : Transport) (call : Call) : (left k : ℕ) → TimeSync → List Exchange →
    Except Exc Json → TimeSync → (n : ℕ) → Prop
  | last {left k : ℕ} {s s' : TimeSync} {l : List Exchange} {r : Except Exc Json} :
      Attempted T call s l r s' →
      (left = 0 ∨ ∀ e, r = .error e → isRetryable call.mutating e = false) →
      Retried T call left k s l r s' k
  | overflow {left k : ℕ} {s s' : TimeSync} {l : List Exchange} {e : Exc} :
      Attempted T call s l (.error e) s' → isRetryable call.mutating e = true →
      T.retryer.delayOverflows e k = true →
      Retried T call (left + 1) k s l (.error .overflowError) s' k
  | again {left k n : ℕ} {s s₁ s' : TimeSync} {l l' : List Exchange} {e : Exc}
      {r : Except Exc Json} : Attempted T call s l (.error e) s₁ →
      isRetryable call.mutating e = true → T.retryer.delayOverflows e k = false →
      Retried T call left (k + 1) s₁ l' r s' n → Retried T call (left + 1) k s (l ++ l') r s' n

theorem runs_delay {b : BackoffRetryer} {e : Exc} {k : ℕ} {r : Except Exc ℚ}
    (h : Runs (b.delay e k) s tr r s') : s' = s ∧ sends tr = [] ∧ sleeps tr = 0 ∧
      if b.delayOverflows e k then r = .error .overflowError else ∃ d, r = .ok d := by
  unfold BackoffRetryer.delay at h
  split at h
  · next ho =>
    obtain ⟨rfl, rfl, rfl⟩ := runs_throw_iff.1 h
    rw [if_pos ho]
    exact ⟨rfl, rfl, rfl, rfl⟩
  · next ho =>
    rw [if_neg ho]
    split at h
    · obtain ⟨rfl, rfl, rfl⟩ := runs_pure_iff.1 h
      exact ⟨rfl, rfl, rfl, _, rfl⟩
    · obtain ⟨d, rfl, rfl, rfl⟩ := runs_perform_iff.1 h
      exact ⟨rfl, rfl, rfl, d, rfl⟩

/-- The retry loop with a retry left: it ends with the first attempt, cannot compute the delay, or
sleeps and goes on. -/
theorem runs_runFrom_succ {α : Type} {b : BackoffRetryer} {fn : M α} {retryable : Exc → Bool}
    {left k : ℕ} {r : Except Exc α} (h : Runs (b.runFrom fn retryable (left + 1) k) s tr r s') :
    (Runs fn s tr r s' ∧ ∀ e, r = .error e → retryable e = false) ∨
    ∃ e tr₁ s₁ tr₂, tr = tr₁ ++ tr₂ ∧ Runs fn s tr₁ (.error e) s₁ ∧ retryable e = true ∧
      ((b.delayOverflows e k = true ∧ sends tr₂ = [] ∧ sleeps tr₂ = 0 ∧
          r = .error .overflowError ∧ s' = s₁) ∨
        ∃ d pause tr₃, b.delayOverflows e k = false ∧ tr₂ = pause ++ ⟨.sleep d, ()⟩ :: tr₃ ∧
          sends pause = [] ∧ sleeps pause = 0 ∧ Runs (b.delay e k) s₁ pause (.ok d) s₁ ∧
          Runs (b.runFrom fn retryable left (k + 1)) s₁ tr₃ r s') := by
  unfold BackoffRetryer.runFrom at h
  rcases runs_tryCatch_iff.1 h with ⟨a, rfl, h₁⟩ | ⟨e, tr₁, s₁, tr₂, rfl, h₁, h₂⟩
  · exact .inl ⟨h₁, fun e he => nomatch he⟩
  · by_cases hretry : retryable e = true
    · right
      refine ⟨e, tr₁, s₁, tr₂, rfl, h₁, hretry, ?_⟩
      rw [if_pos hretry] at h₂
      rcases runs_bind_iff.1 h₂ with ⟨e', rfl, h₃⟩ | ⟨d, pause, s₂, tr₃, rfl, h₃, h₄⟩
      · obtain ⟨rfl, hsends, hsleeps, hd⟩ := runs_delay h₃
        split at hd
        · next ho =>
          obtain rfl := Except.error.inj hd
          exact .inl ⟨ho, hsends, hsleeps, rfl, rfl⟩
        · obtain ⟨_, hd⟩ := hd
          cases hd
      · obtain ⟨rfl, hsends, hsleeps, hd⟩ := runs_delay h₃
        obtain ⟨_, tr₄, rfl, h₅⟩ := runs_perform_bind_iff.1 h₄
        split at hd
        · cases hd
        · next ho =>
          exact .inr ⟨d, pause, tr₄, Bool.eq_false_of_not_eq_true ho, rfl, hsends, hsleeps, h₃, h₅⟩
    · rw [if_neg hretry] at h₂
      obtain ⟨rfl, rfl, rfl⟩ := runs_throw_iff.1 h₂
      rw [List.append_nil]
      refine .inl ⟨h₁, fun e' he => ?_⟩
      obtain rfl := Except.error.inj he
      exact Bool.eq_false_of_not_eq_true hretry

theorem runs_runFrom {b : BackoffRetryer} (hb : T.retryer = .backoff b)
    (hsign : call.signed = true → T.signer.isSome = true) {left : ℕ} :
    ∀ {k : ℕ} {s : TimeSync} {tr : List Ev} {r : Except Exc Json} {s' : TimeSync},
      Smooth tr → Runs (b.runFrom (T.attempt call) (isRetryable call.mutating) left k) s tr r s' →
      Retried T call left k s (sends tr) r s' (k + sleeps tr) := by
  induction left with
  | zero =>
    intro k s tr r s' hsmooth h
    obtain ⟨hatt, hsleeps⟩ := runs_attempt hsign hsmooth h
    rw [hsleeps]
    exact .last hatt (.inl rfl)
  | succ left ih =>
    intro k s tr r s' hsmooth h
    rcases runs_runFrom_succ h with ⟨h₁, hlast⟩ | ⟨e, tr₁, s₁, tr₂, rfl, h₁, hretry, hrest⟩
    · obtain ⟨hatt, hsleeps⟩ := runs_attempt hsign hsmooth h₁
      rw [hsleeps]
      exact .last hatt (.inr hlast)
    · obtain ⟨hsmooth₁, hsmooth₂⟩ := smooth_append.1 hsmooth
      obtain ⟨hatt, hsleeps⟩ := runs_attempt hsign hsmooth₁ h₁
      rw [sends_append, sleeps_append, hsleeps, Nat.zero_add]
      rcases hrest with ⟨ho, hsends, hsleeps', rfl, rfl⟩ |
        ⟨d, pause, tr₃, ho, rfl, hsends, hsleeps', -, h₅⟩
      · rw [hsends, hsleeps', List.append_nil]
        exact .overflow hatt hretry (by rw [hb]; exact ho)
      · have hsends₅ : sends (pause ++ ⟨.sleep d, ()⟩ :: tr₃) = sends tr₃ := by
          rw [sends_append, hsends]
          rfl
        have hsleeps₅ : k + sleeps (pause ++ ⟨.sleep d, ()⟩ :: tr₃) = k + 1 + sleeps tr₃ := by
          have hcons : sleeps (⟨.sleep d, ()⟩ :: tr₃) = sleeps tr₃ + 1 := rfl
          rw [sleeps_append, hsleeps', hcons]
          omega
        have hsmooth₃ : Smooth tr₃ := (smooth_cons.1 (smooth_append.1 hsmooth₂).2).2
        rw [hsends₅, hsleeps₅]
        exact .again hatt hretry (by rw [hb]; exact ho) (ih hsmooth₃ h₅)

/-- A call that needs no credentials, or has them. -/
def MaySign (T : Transport) (call : Call) : Prop := call.signed = true → T.canSign = true

theorem maySign_of_not (h : ¬ (call.signed && !T.canSign) = true) : T.MaySign call :=
  fun hsigned => by simpa [hsigned] using h

theorem signer_of_canSign (h : T.canSign = true) : T.signer.isSome = true := by
  rw [canSign, Bool.and_eq_true] at h
  exact h.1

theorem MaySign.signer (h : T.MaySign call) (hsigned : call.signed = true) :
    T.signer.isSome = true := signer_of_canSign (h hsigned)

/-- **Every smooth run of `request`** is a sequence of attempts; a call without the credentials it
needs fails before it sends anything. -/
theorem runs_request {r : Except Exc Json} (hsmooth : Smooth tr)
    (h : Runs (T.request call) s tr r s') :
    (¬ T.MaySign call ∧ tr = [] ∧ r = .error authRequired ∧ s' = s) ∨
    (T.MaySign call ∧ Retried T call (T.retryer.retries T.config.maxRetries) 0 s (sends tr) r s'
      (sleeps tr)) := by
  unfold request at h
  split at h
  · next hno =>
    obtain ⟨rfl, rfl, rfl⟩ := runs_throw_iff.1 h
    refine .inl ⟨fun hmay => ?_, rfl, rfl, rfl⟩
    rw [Bool.and_eq_true, Bool.not_eq_true'] at hno
    rw [hmay hno.1] at hno
    cases hno.2
  · next hyes =>
    have hmay : T.MaySign call := maySign_of_not hyes
    refine .inr ⟨hmay, ?_⟩
    unfold Retryer.run at h
    cases hr : T.retryer with
    | null =>
      rw [hr] at h
      obtain ⟨hatt, hsleeps⟩ := runs_attempt hmay.signer hsmooth h
      rw [hsleeps]
      exact .last hatt (.inl rfl)
    | backoff b =>
      rw [hr] at h
      have hrun := runs_runFrom hr hmay.signer hsmooth h
      rwa [Nat.zero_add] at hrun

theorem runs_request_of_maySign {r : Except Exc Json} (hmay : T.MaySign call) (hsmooth : Smooth tr)
    (h : Runs (T.request call) s tr r s') :
    Retried T call (T.retryer.retries T.config.maxRetries) 0 s (sends tr) r s' (sleeps tr) := by
  rcases runs_request hsmooth h with ⟨hno, _⟩ | ⟨_, hretried⟩
  · exact absurd hmay hno
  · exact hretried

/-- A mutating call makes one attempt. -/
theorem Retried.of_mutating (hmut : call.mutating = true) {left k n : ℕ} {l : List Exchange}
    {r : Except Exc Json} (h : Retried T call left k s l r s' n) :
    Attempted T call s l r s' ∧ n = k := by
  have hnever (e : Exc) : isRetryable call.mutating e ≠ true := by
    rw [hmut]
    exact Bool.false_ne_true
  cases h with
  | last hatt _ => exact ⟨hatt, rfl⟩
  | overflow _ hretry => exact absurd hretry (hnever _)
  | again _ hretry => exact absurd hretry (hnever _)

theorem runs_request_mutating {r : Except Exc Json} (hmut : call.mutating = true)
    (hmay : T.MaySign call) (hsmooth : Smooth tr) (h : Runs (T.request call) s tr r s') :
    Attempted T call s (sends tr) r s' ∧ sleeps tr = 0 :=
  (runs_request_of_maySign hmay hsmooth h).of_mutating hmut

end Transport

/-! ## A scripted environment -/

/-- The environment that answers the sends of a run with `replies` in turn, at clock 0. -/
def scripted (replies : List NetResult) (past : List Ev) : (op : Op) → Ans op
  | .clock => (0 : ℤ)
  | .log _ => ()
  | .acquire _ _ => .ok ()
  | .send _ => replies.getD (sends past).length (.httpError "")
  | .updateFromHeaders _ => .ok ()
  | .jitter _ => (0 : ℚ)
  | .sleep _ => ()
  | .mintId => "minted-1"
  | .exchangeInfo _ => .ok { symbols := [] }
  | .executionRules => .ok { symbolRules := [] }

theorem smooth_scripted {replies : List NetResult} {past tr : List Ev}
    (h : Answers (scripted replies) past tr) : Smooth tr := by
  refine h.forall (P := fun ev => limiterError? ev = none) fun past o => ?_
  cases o <;> rfl

theorem limiterError?_eq_some {o : Op} {x : Ans o} {e : LimiterError}
    (h : limiterError? ⟨o, x⟩ = some e) :
    o.isTraffic = true ∧ sends [⟨o, x⟩] = [] ∧ sleeps [⟨o, x⟩] = 0 := by
  cases o with
  | acquire weight mutating => exact ⟨rfl, rfl, rfl⟩
  | updateFromHeaders headers => exact ⟨rfl, rfl, rfl⟩
  | _ => cases h

/-- **What an interrupted run has sent** is the beginning of what a smooth run of the same computation
sends, which a scripted environment answers where the other is interrupted. -/
theorem Interruptible.completion {α : Type} {c : M α} (hc : Interruptible c) {s s' : TimeSync}
    {tr : List Ev} {r : Except Exc α} (h : Runs c s tr r s') :
    ∃ tr' r' s'', Runs c s tr' r' s'' ∧ Smooth tr' ∧ sends tr <+: sends tr' ∧
      sleeps tr ≤ sleeps tr' ∧
      ∀ ev ∈ tr', ev.1.isTraffic = false → ev ∈ tr ∨ ∃ past, ev.2 = scripted [] past ev.1 := by
  rcases hc.cases h with hsmooth | ⟨e, -, hinterrupted⟩
  · exact ⟨tr, r, s', h, hsmooth, List.prefix_rfl, le_rfl, fun ev hev _ => .inl hev⟩
  · generalize e.exc = exc at hinterrupted
    cases hinterrupted with
    | @intro before ev err htr hbefore hev =>
      obtain ⟨o, x⟩ := ev
      subst htr
      obtain ⟨htraffic, hsilent, hawake⟩ := limiterError?_eq_some hev
      obtain ⟨after, r', s'', hrun, hanswers⟩ := h.divert (scripted []) (scripted [] [] o)
      refine ⟨_, r', s'', hrun, ?_, ?_, ?_, ?_⟩
      · have hanswer : Answers (scripted []) [] [⟨o, scripted [] [] o⟩] := ⟨rfl, trivial⟩
        have hnext : Smooth [⟨o, scripted [] [] o⟩] := smooth_scripted hanswer
        exact smooth_append.2 ⟨hbefore, smooth_cons.2
          ⟨(smooth_cons.1 hnext).1, smooth_scripted hanswers⟩⟩
      · rw [sends_append, sends_append, hsilent, List.append_nil]
        exact List.prefix_append _ _
      · rw [sleeps_append, sleeps_append, hawake]
        exact Nat.add_le_add_left (Nat.zero_le _) _
      · intro ev hev hquiet
        rcases List.mem_append.1 hev with hbefore | hafter
        · exact .inl (List.mem_append_left _ hbefore)
        · rcases List.mem_cons.1 hafter with rfl | hafter
          · rw [htraffic] at hquiet
            cases hquiet
          · exact .inr (hanswers.forall (P := fun ev => ∃ past, ev.2 = scripted [] past ev.1)
              (fun past o => ⟨past, rfl⟩) ev hafter)

/-- A synchronization exchanges nothing else. -/
theorem Transport.sends_syncTime {T : Transport} {s s' : TimeSync} {tr : List Ev}
    {r : Except Exc ServerTime} (h : Runs T.syncTime s tr r s') :
    ∀ x ∈ sends tr, x.1 = T.timeRequest := by
  obtain ⟨tr', r', s'', hrun, hsmooth, hinitial, -⟩ := interruptible_syncTime.completion h
  obtain ⟨net, hsends, -⟩ := runs_syncTime hsmooth hrun
  rw [hsends] at hinitial
  intro x hx
  rw [List.mem_singleton.1 (hinitial.subset hx)]

/-- No attempt sleeps. -/
theorem Transport.sleeps_attempt {T : Transport} {call : Call} {s s' : TimeSync} {tr : List Ev}
    {r : Except Exc Json} (hsign : call.signed = true → T.signer.isSome = true)
    (h : Runs (T.attempt call) s tr r s') : sleeps tr = 0 := by
  obtain ⟨tr', r', s'', hrun, hsmooth, -, hle, -⟩ := interruptible_attempt.completion h
  rw [(runs_attempt hsign hsmooth hrun).2] at hle
  exact Nat.le_zero.1 hle

/-- An attempt sends something, unless the limiter prevents it. -/
theorem Transport.sends_attempt {T : Transport} {call : Call} {s s' : TimeSync} {tr : List Ev}
    {r : Except Exc Json} (hsign : call.signed = true → T.signer.isSome = true)
    (h : Runs (T.attempt call) s tr r s') (hgranted : Smooth (untilSend tr)) : sends tr ≠ [] := by
  intro hnone
  rw [untilSend_eq_self hnone] at hgranted
  exact (runs_attempt hsign hgranted h).1.ne_nil hnone

/-- pydantic's conversions on integers, integral strings and booleans. -/
def samplePydantic : Pydantic where
  int
    | .int n => some n
    | .bool b => some (if b then 1 else 0)
    | .str s => parseInt s
    | _ => none
  decimal
    | .int n => some ⟨n, 0⟩
    | .str s => (parseInt s).map (⟨·, 0⟩)
    | _ => none
  bool
    | .bool b => some b
    | _ => none

/-- A transport with credentials and no retries. -/
def sampleTransport : Transport :=
  .ofConfig { apiKey := some "key", apiSecret := some "secret", maxRetries := 0 }
    (fun _ _ => "digest") samplePydantic fun _ => ""

end BinanceTh
