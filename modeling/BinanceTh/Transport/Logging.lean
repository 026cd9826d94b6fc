import BinanceTh.Redaction.Agreement
import BinanceTh.Transport.Sending

/-!
# What the logs tell about secrets

Two runs of `request` that differ in credentials, and in what parameters, headers and decoded bodies
hold under sensitive keys, run in lock-step (`lockstep_request`): their request records are redacted,
and are the same. The response records of a run are those of the replies that are decoded
(`emits_request`). Such a record is redacted if the result is an object, and else it is the result:
so the logs of the two runs are the same exactly if every result that is no object is the same in
both (`request_logs_iff`).
-/

namespace BinanceTh

open Interaction

/-- The log records of a run. -/
def logs (tr : List Ev) : List LogRecord :=
  tr.filterMap fun e => match e with
    | ⟨.log record, _⟩ => some record
    | _ => none

@[simp] theorem logs_append (tr tr' : List Ev) : logs (tr ++ tr') = logs tr ++ logs tr' :=
  List.filterMap_append

/-- The records of results. -/
def responses (records : List LogRecord) : List LogRecord :=
  records.filter fun record => match record with
    | .response _ => true
    | .request .. => false

theorem responses_append (records records' : List LogRecord) :
    responses (records ++ records') = responses records ++ responses records' :=
  List.filter_append _ _

/-- Of two records: the same, or two of results. -/
inductive LogRecord.Agrees : LogRecord → LogRecord → Prop
  | same (record : LogRecord) : LogRecord.Agrees record record
  | response (result result' : Json) : LogRecord.Agrees (.response result) (.response result')

theorem eq_iff_responses_eq {records records' : List LogRecord}
    (h : List.Forall₂ LogRecord.Agrees records records') :
    records = records' ↔ responses records = responses records' := by
  induction h with
  | nil => simp
  | @cons record record' records records' h _ ih =>
    rw [List.cons.injEq, ih]
    cases h with
    | response result result' => exact List.cons.injEq .. |>.symm.to_iff
    | same =>
      cases record with
      | response result => exact List.cons.injEq .. |>.symm.to_iff
      | request => exact ⟨fun h => h.2, fun h => ⟨rfl, h⟩⟩

/-- The limiter raises at the headers of a reply. -/
def headersRefused (tr : List Ev) : Bool :=
  match tr.head? with
  | some ⟨.updateFromHeaders _, .error _⟩ => true
  | _ => false

/-- The exchanges of a run that have a result: not one whose headers the limiter raises at. -/
def decoded : List Ev → List Exchange
  | [] => []
  | ev :: tr => match ev with
    | ⟨.send request, net⟩ =>
      if headersRefused tr then decoded tr else (request, net) :: decoded tr
    | _ => decoded tr

theorem decoded_append {tr' : List Ev} (h : headersRefused tr' = false) (tr : List Ev) :
    decoded (tr ++ tr') = decoded tr ++ decoded tr' := by
  induction tr with
  | nil => rfl
  | cons ev tr ih =>
    have hhead : headersRefused (tr ++ tr') = headersRefused tr := by
      cases tr with
      | nil => exact h
      | cons ev tr => rfl
    obtain ⟨o, x⟩ := ev
    cases o with
    | send request =>
      have hcons (tr : List Ev) : decoded (⟨.send request, x⟩ :: tr) =
          if headersRefused tr then decoded tr else (request, x) :: decoded tr := rfl
      rw [List.cons_append, hcons, hcons, hhead, ih]
      split <;> rfl
    | _ => exact ih

/-- pydantic takes no container for an integer. -/
structure Pydantic.RejectsContainers (P : Pydantic) : Prop where
  arr : ∀ items, P.int (.arr items) = none
  obj : ∀ fields, P.int (.obj fields) = none

/-- The transport with other credentials. -/
def Transport.withCredentials (T : Transport) (apiKey apiSecret : Option String)
    (signer : Option Signer) : Transport :=
  { T with config := { T.config with apiKey, apiSecret }, signer }

def Call.withParams (call : Call) (params : Params) : Call := { call with params }

def Json.isObject : Json → Bool
  | .obj _ => true
  | _ => false

/-- A request up to sensitive values. -/
structure HttpRequest.Agrees (request request' : HttpRequest) : Prop where
  method : request.method = request'.method
  path : request.path = request'.path
  params : DictAgree request.params request'.params
  headers : DictAgree request.headers request'.headers

/-- Whether the reply to a request of the call's run is parsed: that of a synchronization always
is. -/
def Call.parses (call : Call) (request : HttpRequest) : Bool :=
  if call.isOwn request then call.parseJson else true

inductive Op.Agrees : Op → Op → Prop
  | same (o : Op) : Op.Agrees o o
  | log {record record' : LogRecord} : record.Agrees record' →
      Op.Agrees (.log record) (.log record')
  | send {request request' : HttpRequest} : request.Agrees request' →
      Op.Agrees (.send request) (.send request')
  | updateFromHeaders {headers headers' : Headers} : DictAgree headers headers' →
      Op.Agrees (.updateFromHeaders headers) (.updateFromHeaders headers')

/-- The answers to two operations agree. -/
def EventAgrees (call : Call) : Ev → Ev → Prop
  | ⟨.send request, net⟩, ⟨.send _, net'⟩ => net.Agrees (call.parses request) net'
  | ⟨.clock, clock⟩, ⟨.clock, clock'⟩ => clock = clock'
  | ⟨.jitter _, d⟩, ⟨.jitter _, d'⟩ => d = d'
  | ⟨.acquire _ _, answer⟩, ⟨.acquire _ _, answer'⟩ => answer = answer'
  | ⟨.updateFromHeaders _, answer⟩, ⟨.updateFromHeaders _, answer'⟩ => answer = answer'
  | _, _ => True

/-- Two runs of a call in worlds that differ in sensitive values only. -/
def lockstep (call : Call) : Coupling Op Ans TimeSync Exc where
  op := Op.Agrees
  event := EventAgrees call
  state := Eq
  error := Exc.Alike

namespace Transport

variable {T : Transport} {call c : Call} {params params' : Params} {apiKey apiSecret : Option String}
  {signer : Option Signer}

/-! ## The two runs in lock-step -/

theorem headers_agree (hkey : apiKey.isSome = T.config.apiKey.isSome) (c : Call) (params : Params) :
    DictAgree (T.headers c) ((T.withCredentials apiKey apiSecret signer).headers
      (c.withParams params)) := by
  have hsecret : isSensitive "X-MBX-APIKEY" = true := by decide +kernel
  unfold headers withCredentials Call.withParams
  simp only
  cases hold : T.config.apiKey with
  | none =>
    rw [hold, Option.isSome_none, Option.isSome_eq_false_iff, Option.isNone_iff_eq_none] at hkey
    rw [hkey]
    exact .refl []
  | some key =>
    rw [hold, Option.isSome_some] at hkey
    obtain ⟨key', hkey'⟩ := Option.isSome_iff_exists.1 hkey
    rw [hkey']
    simp only
    split
    · exact .cons ⟨rfl, fun hplain => by rw [hsecret] at hplain; cases hplain⟩ .nil
    · exact .refl []

theorem lockstep_perform {o o' : Op} (h : o.Agrees o') :
    (lockstep call).CoupledComp (fun x x' => EventAgrees call ⟨o, x⟩ ⟨o', x'⟩) (perform o)
      (perform o') :=
  .perform h

theorem lockstep_logIf (enabled : Bool) {record record' : LogRecord} (h : record.Agrees record') :
    (lockstep call).CoupledComp (fun _ _ => True) (logIf enabled record) (logIf enabled record') := by
  unfold logIf log
  split
  · intro s t hst
    exact .call (.log h) fun _ _ _ => .ret ⟨.ok trivial, hst⟩
  · exact .pure trivial

theorem lockstep_raiseLimiter (answer : Except LimiterError Unit) :
    (lockstep call).CoupledComp (fun _ _ => True) (raiseLimiter answer) (raiseLimiter answer) := by
  refine .raiseOr ?_
  cases answer with
  | ok u => exact .ok trivial
  | error e => exact .error (.refl _)

theorem lockstep_onReply {net net' : NetResult} {c' : Call} (hparse : c'.parseJson = c.parseJson)
    (henvelope : c'.envelope = c.envelope) (h : net.Agrees c.parseJson net') :
    (lockstep call).CoupledComp Json.Agrees (T.onReply c net)
      ((T.withCredentials apiKey apiSecret signer).onReply c' net') := by
  have hout : ResultRel Exc.Alike Json.Agrees (T.outcome c net)
      ((T.withCredentials apiKey apiSecret signer).outcome c' net') :=
    resultRel_outcome hparse henvelope h
  cases h with
  | timeout message message' =>
    cases hout with
    | error he => exact .throw he
  | httpError message message' =>
    cases hout with
    | error he => exact .throw he
  | response h =>
    refine Coupling.CoupledComp.bind (Q := fun _ _ => True) ?_ fun _ _ _ => ?_
    · refine (lockstep_perform (.updateFromHeaders h.headers)).bind fun answer answer' hanswer => ?_
      obtain rfl : answer = answer' := hanswer
      exact lockstep_raiseLimiter answer
    · refine (Coupling.CoupledComp.raiseOr hout).bind fun body body' hbody => ?_
      exact (lockstep_logIf _ (.response _ _)).bind fun _ _ _ => .pure hbody

theorem lockstep_transmit (hkey : apiKey.isSome = T.config.apiKey.isSome)
    (hparams : DictAgree params params') (p : Params)
    (hparses : call.parses (T.httpRequest c params) = c.parseJson) :
    (lockstep call).CoupledComp Json.Agrees (T.transmit c params)
      ((T.withCredentials apiKey apiSecret signer).transmit (c.withParams p) params') := by
  have hrequest : (T.httpRequest c params).Agrees
      ((T.withCredentials apiKey apiSecret signer).httpRequest (c.withParams p) params') :=
    ⟨rfl, rfl, hparams, headers_agree hkey c p⟩
  have hrecord : (requestRecord (T.httpRequest c params)).Agrees
      (requestRecord ((T.withCredentials apiKey apiSecret signer).httpRequest (c.withParams p)
        params')) := by
    unfold requestRecord
    rw [hrequest.method, hrequest.path, redactParams_eq hrequest.params,
      redactHeaders_eq hrequest.headers]
    exact .same _
  unfold transmit logRequest
  refine (lockstep_logIf _ hrecord).bind fun _ _ _ => ?_
  refine Coupling.CoupledComp.bind (Q := fun _ _ => True) ?_ fun _ _ _ => ?_
  · refine (lockstep_perform (.same _)).bind fun answer answer' hanswer => ?_
    obtain rfl : answer = answer' := hanswer
    exact lockstep_raiseLimiter answer
  refine (lockstep_perform (.send hrequest)).bind fun net net' hnet => ?_
  change net.Agrees (call.parses _) net' at hnet
  rw [hparses] at hnet
  exact lockstep_onReply rfl rfl hnet

theorem lockstep_sendParams (hsigner : signer.isSome = T.signer.isSome)
    (hparams : DictAgree c.params params) :
    (lockstep call).CoupledComp (fun p p' => DictAgree p p' ∧ ∃ s clock, p = T.paramsAt c s clock)
      (T.sendParams c) ((T.withCredentials apiKey apiSecret signer).sendParams
        (c.withParams params)) := by
  unfold sendParams paramsAt withCredentials Call.withParams
  simp only
  split
  · cases hold : T.signer with
    | none =>
      rw [hold, Option.isSome_none, Option.isSome_eq_false_iff, Option.isNone_iff_eq_none] at hsigner
      rw [hsigner]
      exact .throw (.refl _)
    | some signer₁ =>
      rw [hold, Option.isSome_some] at hsigner
      obtain ⟨signer₂, hnew⟩ := Option.isSome_iff_exists.1 hsigner
      rw [hnew]
      refine (lockstep_perform (.same _)).bind fun clock clock' hclock => ?_
      obtain rfl : clock = clock' := hclock
      refine .get_bind fun t t' ht => ?_
      obtain rfl : t = t' := ht
      exact .pure ⟨(hparams.signedParams signer₁ signer₂ _ _).map ParamValue.str, t, clock, rfl⟩
  · exact .pure ⟨hparams, .init, 0, rfl⟩

theorem lockstep_executeRest (hkey : apiKey.isSome = T.config.apiKey.isSome)
    (hsigner : signer.isSome = T.signer.isSome) (hparams : DictAgree c.params params)
    (hparses : ∀ s clock, call.parses (T.httpRequest c (T.paramsAt c s clock)) = c.parseJson) :
    (lockstep call).CoupledComp Json.Agrees (T.executeRest c)
      ((T.withCredentials apiKey apiSecret signer).executeRest (c.withParams params)) := by
  unfold executeRest
  refine (lockstep_sendParams hsigner hparams).bind fun p p' hp => ?_
  obtain ⟨hagree, s, clock, heq⟩ := hp
  exact lockstep_transmit hkey hagree params (heq ▸ hparses s clock)

/-- The reply to a synchronization of a signed call is parsed. -/
theorem parses_timeRequest (hsigned : call.signed = true) (s : TimeSync) (clock : ℤ) :
    call.parses (T.httpRequest timeCall (T.paramsAt timeCall s clock)) = true := by
  have hown : call.isOwn (T.httpRequest timeCall (T.paramsAt timeCall s clock)) = false :=
    isOwn_timeRequest hsigned
  rw [Call.parses, hown]
  rfl

theorem parses_own (hsign : call.signed = true → T.signer.isSome = true) (s : TimeSync)
    (clock : ℤ) : call.parses (T.httpRequest call (T.paramsAt call s clock)) = call.parseJson := by
  rw [Call.parses, isOwn_httpRequest hsign]
  rfl

theorem resultRel_serverTime {P : Pydantic} (hP : P.RejectsContainers) {j j' : Json}
    (h : j.Agrees j') :
    ResultRel Exc.Alike Eq (ServerTime.decode P j) (ServerTime.decode P j') := by
  have hrefl : ∀ o : Except Exc ServerTime, ResultRel Exc.Alike Eq o o := by
    intro o
    cases o with
    | ok t => exact .ok rfl
    | error e => exact .error (.refl e)
  have hint : ∀ j j' : Json, j.Agrees j' → P.int j = P.int j' := by
    intro j j' h
    cases h with
    | same => rfl
    | arr _ => rw [hP.arr, hP.arr]
    | obj _ => rw [hP.obj, hP.obj]
  cases h with
  | same => exact hrefl _
  | arr _ => exact hrefl _
  | @obj fields fields' h =>
    have halias : isSensitive "serverTime" = false := by decide +kernel
    have hname : isSensitive "server_time" = false := by decide +kernel
    have hfield : (Pydantic.field fields "serverTime" "server_time").bind P.int =
        (Pydantic.field fields' "serverTime" "server_time").bind P.int := by
      have hone := h.get? halias
      have htwo := h.get? hname
      unfold Pydantic.field
      revert hone htwo
      cases Dict.get? fields "serverTime" <;> cases Dict.get? fields' "serverTime" <;> intro hone <;>
        cases hone
      · cases Dict.get? fields "server_time" <;> cases Dict.get? fields' "server_time" <;>
          intro htwo <;> cases htwo
        · rfl
        · next hvalue => exact hint _ _ hvalue
      · next hvalue => exact fun _ => hint _ _ hvalue
    have hsame : ServerTime.decode P (.obj fields) = ServerTime.decode P (.obj fields') := by
      unfold ServerTime.decode Pydantic.required
      simp only [hfield]
    rw [hsame]
    exact hrefl _

theorem lockstep_syncTime (hP : T.pydantic.RejectsContainers)
    (hkey : apiKey.isSome = T.config.apiKey.isSome) (hsigner : signer.isSome = T.signer.isSome)
    (hsigned : call.signed = true) :
    (lockstep call).CoupledComp Eq T.syncTime
      (T.withCredentials apiKey apiSecret signer).syncTime := by
  unfold syncTime
  refine (lockstep_executeRest hkey hsigner (.refl [])
    (parses_timeRequest hsigned)).bind fun j j' hj => ?_
  refine (Coupling.CoupledComp.raiseOr (resultRel_serverTime hP hj)).bind fun t t' ht => ?_
  obtain rfl := ht
  refine (lockstep_perform (.same _)).bind fun clock clock' hclock => ?_
  obtain rfl : clock = clock' := hclock
  exact .modify_bind (fun s s' hs => by rw [show s = s' from hs]; rfl) (.pure rfl)

/-- The credentials and parameters of two runs that differ in secrets only. -/
structure SecretsOnly (T : Transport) (call : Call) (params : Params)
    (apiKey : Option String) (signer : Option Signer) : Prop where
  apiKey : apiKey.isSome = T.config.apiKey.isSome
  signer : signer.isSome = T.signer.isSome
  params : DictAgree call.params params

theorem lockstep_execute (hP : T.pydantic.RejectsContainers)
    (h : T.SecretsOnly call params apiKey signer)
    (hsign : call.signed = true → T.signer.isSome = true) :
    (lockstep call).CoupledComp Json.Agrees (T.execute call)
      ((T.withCredentials apiKey apiSecret signer).execute (call.withParams params)) := by
  have hrest : (lockstep call).CoupledComp Json.Agrees (T.executeRest call)
      ((T.withCredentials apiKey apiSecret signer).executeRest (call.withParams params)) :=
    lockstep_executeRest h.apiKey h.signer h.params (parses_own hsign)
  unfold execute ensureSynced
  simp only [bind_assoc]
  refine .get_bind fun s s' hs => ?_
  obtain rfl : s = s' := hs
  have hsigned : (call.withParams params).signed = call.signed := rfl
  rw [hsigned]
  by_cases hsync : (call.signed && !s.synced) = true
  · rw [if_pos hsync, if_pos hsync]
    rw [Bool.and_eq_true] at hsync
    refine .bind (.bind (lockstep_syncTime hP h.apiKey h.signer hsync.1) fun _ _ _ =>
      .pure (Q := fun _ _ => True) trivial) fun _ _ _ => hrest
  · rw [if_neg hsync, if_neg hsync]
    exact .bind (.pure (Q := fun _ _ => True) trivial) fun _ _ _ => hrest

theorem lockstep_attempt (hP : T.pydantic.RejectsContainers)
    (h : T.SecretsOnly call params apiKey signer)
    (hsign : call.signed = true → T.signer.isSome = true) :
    (lockstep call).CoupledComp Json.Agrees (T.attempt call)
      ((T.withCredentials apiKey apiSecret signer).attempt (call.withParams params)) := by
  have hexec : (lockstep call).CoupledComp Json.Agrees (T.execute call)
      ((T.withCredentials apiKey apiSecret signer).execute (call.withParams params)) :=
    lockstep_execute hP h hsign
  unfold attempt
  refine hexec.tryCatch fun e e' he => ?_
  have hsigned : (call.withParams params).signed = call.signed := rfl
  rw [hsigned, ← he.isTimestampError]
  by_cases hresync : (call.signed && e.isTimestampError) = true
  · rw [if_pos hresync, if_pos hresync]
    rw [Bool.and_eq_true] at hresync
    exact (lockstep_syncTime hP h.apiKey h.signer hresync.1).bind fun _ _ _ => hexec
  · rw [if_neg hresync, if_neg hresync]
    exact .throw he

theorem lockstep_delay (b : BackoffRetryer) {e e' : Exc} (he : e.Alike e') (k : ℕ) :
    (lockstep call).CoupledComp Eq (b.delay e k) (b.delay e' k) := by
  have hover : b.delayOverflows e' k = b.delayOverflows e k := by
    unfold BackoffRetryer.delayOverflows
    rw [he.retryAfter]
  unfold BackoffRetryer.delay
  rw [hover, ← he.retryAfter]
  split
  · exact .throw (Exc.Alike.refl _)
  · split
    · exact .pure rfl
    · intro s t hst
      exact .call (.same _) fun d d' hd => .ret ⟨.ok hd, hst⟩

theorem lockstep_runFrom {b : BackoffRetryer} {fn fn' : M Json} {retryable : Exc → Bool}
    (hfn : (lockstep call).CoupledComp Json.Agrees fn fn')
    (hretryable : ∀ e e', e.Alike e' → retryable e = retryable e') (left : ℕ) :
    ∀ k, (lockstep call).CoupledComp Json.Agrees (b.runFrom fn retryable left k)
      (b.runFrom fn' retryable left k) := by
  induction left with
  | zero =>
    intro k
    exact hfn
  | succ left ih =>
    intro k
    unfold BackoffRetryer.runFrom
    refine hfn.tryCatch fun e e' he => ?_
    rw [← hretryable e e' he]
    split
    · refine (lockstep_delay b he k).bind fun d d' hd => ?_
      obtain rfl := hd
      exact (lockstep_perform (.same _)).bind fun _ _ _ => ih (k + 1)
    · exact .throw he

/-- **Two runs in lock-step.** -/
theorem lockstep_request (hP : T.pydantic.RejectsContainers)
    (h : T.SecretsOnly call params apiKey signer) :
    (lockstep call).CoupledComp Json.Agrees (T.request call)
      ((T.withCredentials apiKey apiSecret signer).request (call.withParams params)) := by
  have hcan : (T.withCredentials apiKey apiSecret signer).canSign = T.canSign := by
    unfold canSign withCredentials
    simp only [h.apiKey, h.signer]
  have hsigned : (call.withParams params).signed = call.signed := rfl
  unfold Transport.request
  rw [hcan, hsigned]
  split
  · exact .throw (.refl _)
  · next hmay =>
    have hsign := (maySign_of_not hmay).signer
    have hattempt : (lockstep call).CoupledComp Json.Agrees (T.attempt call)
        ((T.withCredentials apiKey apiSecret signer).attempt (call.withParams params)) :=
      lockstep_attempt hP h hsign
    have hretryer : (T.withCredentials apiKey apiSecret signer).retryer = T.retryer := rfl
    rw [hretryer]
    unfold Retryer.run
    cases T.retryer with
    | null => exact hattempt
    | backoff b =>
      exact lockstep_runFrom hattempt (fun e e' he => he.isRetryable call.mutating) _ 0

/-! ## The logs of a run -/

/-- What an exchange of a run of the call is decoded to, or the error it stands for. -/
def resultOf (T : Transport) (call : Call) (x : Exchange) : Except Exc Json :=
  if call.isOwn x.1 then T.outcome call x.2 else T.outcome timeCall x.2

/-- What its result is logged as. -/
def resultLogs (T : Transport) (call : Call) (x : Exchange) : List LogRecord :=
  match T.resultOf call x with
  | .ok result => [responseRecord result]
  | .error _ => []

/-- The response records of a run are those of the exchanges that have a result. -/
def LogsExchanges (T : Transport) (call : Call) (tr : List Ev) : Prop :=
  headersRefused tr = false ∧ responses (logs tr) = (decoded tr).flatMap (T.resultLogs call)

theorem additive_logsExchanges : Additive (T.LogsExchanges call) where
  nil := ⟨rfl, rfl⟩
  append {tr tr'} h h' := by
    constructor
    · cases tr with
      | nil => exact h'.1
      | cons ev tr => exact h.1
    · rw [logs_append, responses_append, decoded_append h'.1, List.flatMap_append, h.2, h'.2]

section Enabled

variable (hresponses : T.config.logResponses = true)

include hresponses

theorem emits_transmit (hresult : ∀ net,
      T.resultOf call (T.httpRequest c params, net) = T.outcome c net) :
    Emits (T.LogsExchanges call) (T.transmit c params) := by
  intro s tr r s' hrun
  obtain ⟨-, d, -, rfl⟩ := runs_transmit_iff.1 hrun
  have hannounce : T.LogsExchanges call (T.announcement c params) := by
    unfold announcement logEvents
    split <;> exact ⟨rfl, rfl⟩
  cases d with
  | refused e => exact additive_logsExchanges.append hannounce ⟨rfl, rfl⟩
  | sent net update =>
    refine additive_logsExchanges.append (additive_logsExchanges.append hannounce ⟨rfl, rfl⟩)
      ⟨rfl, ?_⟩
    have hlogs : T.resultLogs call (T.httpRequest c params, net) =
        match T.outcome c net with
        | .ok result => [responseRecord result]
        | .error _ => [] := by
      unfold resultLogs
      rw [hresult]
    have hone : [(T.httpRequest c params, net)].flatMap (T.resultLogs call) =
        T.resultLogs call (T.httpRequest c params, net) := List.flatMap_singleton ..
    cases net with
    | timeout message => exact (hone.trans hlogs).symm
    | httpError message => exact (hone.trans hlogs).symm
    | response reply =>
      cases update with
      | error e => rfl
      | ok u =>
        have hfollow : T.followUp c (.response reply) (.ok u) =
            ⟨.updateFromHeaders reply.headers, .ok ()⟩ :: match T.outcome c (.response reply) with
              | .ok body => logEvents true (responseRecord body)
              | .error _ => [] := by
          rw [← hresponses]
          rfl
        rw [hfollow]
        revert hlogs
        cases T.outcome c (.response reply) with
        | error e => exact fun hlogs => (hone.trans hlogs).symm
        | ok body => exact fun hlogs => (hone.trans hlogs).symm

theorem emits_executeRest (hresult : ∀ s clock net,
      T.resultOf call (T.httpRequest c (T.paramsAt c s clock), net) = T.outcome c net)
    (hsign : c.signed = true → T.signer.isSome = true) :
    Emits (T.LogsExchanges call) (T.executeRest c) := by
  intro s tr r s' hrun
  unfold executeRest at hrun
  obtain ⟨clock, tr', rfl, htransmit⟩ := (runs_sendParams_bind_iff hsign).1 hrun
  refine additive_logsExchanges.append ?_
    (emits_transmit hresponses (hresult s clock) _ _ _ _ htransmit)
  unfold clockEvents
  split <;> exact ⟨rfl, rfl⟩

theorem emits_syncTime (hsigned : call.signed = true) :
    Emits (T.LogsExchanges call) T.syncTime := by
  have htime : ∀ s clock net, T.resultOf call
      (T.httpRequest timeCall (T.paramsAt timeCall s clock), net) = T.outcome timeCall net := by
    intro s clock net
    have hown : call.isOwn (T.httpRequest timeCall (T.paramsAt timeCall s clock)) = false :=
      isOwn_timeRequest hsigned
    rw [resultOf, hown]
    rfl
  unfold syncTime
  refine (emits_executeRest hresponses htime nofun).bind additive_logsExchanges
    fun data => ?_
  refine (Emits.raiseOr additive_logsExchanges _).bind additive_logsExchanges fun t => ?_
  refine Emits.bind additive_logsExchanges (Emits.perform fun clock => ⟨rfl, rfl⟩) fun clock => ?_
  exact .modify_bind (.pure additive_logsExchanges t)

theorem emits_execute (hsign : call.signed = true → T.signer.isSome = true) :
    Emits (T.LogsExchanges call) (T.execute call) := by
  have hown : ∀ s clock net, T.resultOf call
      (T.httpRequest call (T.paramsAt call s clock), net) = T.outcome call net := by
    intro s clock net
    rw [resultOf, isOwn_httpRequest hsign]
    rfl
  have hrest := emits_executeRest hresponses hown hsign
  unfold execute ensureSynced
  simp only [bind_assoc]
  refine .get_bind fun s => ?_
  by_cases hsync : (call.signed && !s.synced) = true
  · rw [if_pos hsync]
    rw [Bool.and_eq_true] at hsync
    refine Emits.bind additive_logsExchanges ?_ fun _ => hrest
    exact (emits_syncTime hresponses hsync.1).bind additive_logsExchanges
      fun _ => .pure additive_logsExchanges _
  · rw [if_neg hsync]
    exact hrest

theorem emits_attempt (hsign : call.signed = true → T.signer.isSome = true) :
    Emits (T.LogsExchanges call) (T.attempt call) := by
  have hexec := emits_execute hresponses hsign
  unfold attempt
  refine hexec.tryCatch additive_logsExchanges fun e => ?_
  by_cases hresync : (call.signed && e.isTimestampError) = true
  · rw [if_pos hresync]
    rw [Bool.and_eq_true] at hresync
    exact (emits_syncTime hresponses hresync.1).bind additive_logsExchanges
      fun _ => hexec
  · rw [if_neg hresync]
    exact .throw additive_logsExchanges e

omit hresponses in
theorem emits_runFrom {b : BackoffRetryer} {fn : M Json} {retryable : Exc → Bool}
    (hfn : Emits (T.LogsExchanges call) fn) (left : ℕ) :
    ∀ k, Emits (T.LogsExchanges call) (b.runFrom fn retryable left k) := by
  induction left with
  | zero =>
    intro k
    exact hfn
  | succ left ih =>
    intro k
    unfold BackoffRetryer.runFrom
    refine hfn.tryCatch additive_logsExchanges fun e => ?_
    split
    · refine Emits.bind additive_logsExchanges ?_ fun d => ?_
      · unfold BackoffRetryer.delay
        split
        · exact .throw additive_logsExchanges _
        · split
          · exact .pure additive_logsExchanges _
          · exact .perform fun d => ⟨rfl, rfl⟩
      · exact Emits.bind additive_logsExchanges (Emits.perform fun _ => ⟨rfl, rfl⟩) fun _ => ih (k + 1)
    · exact .throw additive_logsExchanges e

/-- Every run of `request` logs its results. -/
theorem emits_request : Emits (T.LogsExchanges call) (T.request call) := by
  unfold Transport.request
  split
  · exact .throw additive_logsExchanges _
  · next hmay =>
    have hsign := (maySign_of_not hmay).signer
    have hattempt := emits_attempt hresponses hsign
    unfold Retryer.run
    cases T.retryer with
    | null => exact hattempt
    | backoff b => exact emits_runFrom hattempt _ 0

end Enabled

/-! ## The logs of two runs -/

/-- Exchanges with the same logs, but for the values of sensitive keys. -/
def ExchangeAgrees (call : Call) (x x' : Exchange) : Prop :=
  x.1.Agrees x'.1 ∧ x.2.Agrees (call.parses x.1) x'.2

section Agreeing

variable {tr tr' : List Ev}
  (h : List.Forall₂ (fun e e' => (lockstep call).op e.1 e'.1 ∧ (lockstep call).event e e') tr tr')

include h

theorem logs_agree : List.Forall₂ LogRecord.Agrees (logs tr) (logs tr') := by
  induction h with
  | nil => exact .nil
  | @cons e e' tr tr' he _ ih =>
    obtain ⟨o, x⟩ := e
    obtain ⟨o', x'⟩ := e'
    obtain ⟨hop, -⟩ := he
    change Op.Agrees o o' at hop
    cases hop with
    | same =>
      cases o with
      | log record => exact .cons (.same record) ih
      | _ => exact ih
    | log hrecord => exact .cons hrecord ih
    | send => exact ih
    | updateFromHeaders => exact ih

theorem headersRefused_eq : headersRefused tr = headersRefused tr' := by
  cases h with
  | nil => rfl
  | @cons e e' tr tr' he =>
    obtain ⟨o, x⟩ := e
    obtain ⟨o', x'⟩ := e'
    obtain ⟨hop, hevent⟩ := he
    change Op.Agrees o o' at hop
    cases hop with
    | same =>
      cases o with
      | updateFromHeaders headers =>
        obtain rfl : x = x' := hevent
        rfl
      | _ => rfl
    | log => rfl
    | send => rfl
    | updateFromHeaders =>
      obtain rfl : x = x' := hevent
      cases x <;> rfl

theorem decoded_agree : List.Forall₂ (ExchangeAgrees call) (decoded tr) (decoded tr') := by
  induction h with
  | nil => exact .nil
  | @cons e e' tr tr' he htail ih =>
    obtain ⟨o, x⟩ := e
    obtain ⟨o', x'⟩ := e'
    obtain ⟨hop, hevent⟩ := he
    change Op.Agrees o o' at hop
    cases hop with
    | same =>
      cases o with
      | send request =>
        unfold decoded
        simp only [headersRefused_eq htail]
        split
        · exact ih
        · exact .cons ⟨⟨rfl, rfl, .refl _, .refl _⟩, hevent⟩ ih
      | _ => exact ih
    | log => exact ih
    | send hrequest =>
      unfold decoded
      simp only [headersRefused_eq htail]
      split
      · exact ih
      · exact .cons ⟨hrequest, hevent⟩ ih
    | updateFromHeaders => exact ih

end Agreeing

theorem isOwn_eq {request request' : HttpRequest} (h : request.Agrees request') :
    (call.withParams params).isOwn request' = call.isOwn request := by
  unfold Call.isOwn Call.withParams
  rw [h.method, h.path, h.params.contains_eq]

theorem resultRel_resultOf {T' : Transport} {x x' : Exchange} (h : ExchangeAgrees call x x') :
    ResultRel Exc.Alike Json.Agrees (T.resultOf call x) (T'.resultOf (call.withParams params) x') := by
  obtain ⟨hrequest, hnet⟩ := h
  unfold resultOf
  unfold Call.parses at hnet
  rw [isOwn_eq hrequest]
  split
  · next hown =>
    rw [if_pos hown] at hnet
    exact resultRel_outcome rfl rfl hnet
  · next hown =>
    rw [if_neg hown] at hnet
    have hparsed : x.2.Agrees timeCall.parseJson x'.2 := hnet
    exact resultRel_outcome rfl rfl hparsed

/-- What is no object is logged as it is. -/
theorem responseRecord_eq_iff {j j' : Json} (h : j.Agrees j') :
    responseRecord j = responseRecord j' ↔ (j.isObject = false → j = j') := by
  cases hobject : j.isObject with
  | true =>
    refine iff_of_true ?_ nofun
    unfold Json.isObject at hobject
    split at hobject
    · obtain ⟨fields', rfl, hfields⟩ := h.fields
      unfold responseRecord
      simp only
      rw [hfields.redactFields_eq]
    · cases hobject
  | false =>
    have hrecord : ∀ j : Json, j.isObject = false → responseRecord j = .response j := by
      intro j hj
      cases j with
      | obj fields => cases hj
      | _ => rfl
    have hobject' : j'.isObject = false := by
      rw [← hobject]
      cases h <;> rfl
    rw [hrecord j hobject, hrecord j' hobject', LogRecord.response.injEq]
    exact ⟨fun heq _ => heq, fun himp => himp rfl⟩

/-- Of two exchanges that agree, the logs are the same if a result that is no object is. -/
theorem resultLogs_eq_iff {T' : Transport} {x x' : Exchange} (h : ExchangeAgrees call x x') :
    (T.resultLogs call x).length = (T'.resultLogs (call.withParams params) x').length ∧
    (T.resultLogs call x = T'.resultLogs (call.withParams params) x' ↔
      ∀ j j', T.resultOf call x = .ok j → T'.resultOf (call.withParams params) x' = .ok j' →
        j.isObject = false → j = j') := by
  have hresult : ResultRel Exc.Alike Json.Agrees (T.resultOf call x)
      (T'.resultOf (call.withParams params) x') := resultRel_resultOf h
  unfold resultLogs
  revert hresult
  cases T.resultOf call x <;> cases T'.resultOf (call.withParams params) x' <;> intro hresult <;>
    cases hresult
  · simp
  · next j j' hj =>
    refine ⟨rfl, ?_⟩
    simp only [List.cons.injEq, and_true, Except.ok.injEq, responseRecord_eq_iff hj]
    constructor
    · intro himp a a' ha ha' hobject
      rw [← ha, ← ha']
      exact himp (ha ▸ hobject)
    · exact fun hall hobject => hall _ _ rfl rfl hobject

theorem flatMap_eq_iff {α β γ : Type} {R : α → β → Prop} {f : α → List γ} {g : β → List γ}
    (hR : ∀ a b, R a b → (f a).length = (g b).length) {l : List α} {l' : List β}
    (h : List.Forall₂ R l l') :
    l.flatMap f = l'.flatMap g ↔ ∀ p ∈ l.zip l', f p.1 = g p.2 := by
  induction h with
  | nil => simp
  | cons hab _ ih =>
    rw [List.flatMap_cons, List.flatMap_cons, List.zip_cons_cons, List.forall_mem_cons, ← ih]
    constructor
    · intro heq
      exact List.append_inj heq (hR _ _ hab)
    · intro ⟨hhead, htail⟩
      rw [hhead, htail]

/-- **The logs and the secrets.** Of two runs that differ in secrets only, the log records are the
same exactly when every result that is not an object is the same in both. -/
theorem request_logs_iff (hresponses : T.config.logResponses = true)
    (hP : T.pydantic.RejectsContainers) (hsecrets : T.SecretsOnly call params apiKey signer)
    {s s₁ s₂ : TimeSync} {tr tr' : List Ev} {r r' : Except Exc Json}
    (hrun : Runs (T.request call) s tr r s₁)
    (hrun' : Runs ((T.withCredentials apiKey apiSecret signer).request (call.withParams params)) s
      tr' r' s₂) (halike : (lockstep call).AnsweredAlike tr tr') :
    logs tr = logs tr' ↔ ∀ p ∈ (decoded tr).zip (decoded tr'), ∀ j j',
      T.resultOf call p.1 = .ok j →
      (T.withCredentials apiKey apiSecret signer).resultOf (call.withParams params) p.2 = .ok j' →
      j.isObject = false → j = j' := by
  have hevents := (lockstep_request hP hsecrets).runs rfl hrun hrun' halike
  have hdecoded := decoded_agree hevents
  have hlogs : T.LogsExchanges call tr := emits_request hresponses _ _ _ _ hrun
  have hlogs' : (T.withCredentials apiKey apiSecret signer).LogsExchanges (call.withParams params)
      tr' :=
    emits_request (T := T.withCredentials apiKey apiSecret signer) hresponses _ _ _ _ hrun'
  have hlength : ∀ x x', ExchangeAgrees call x x' → (T.resultLogs call x).length =
      ((T.withCredentials apiKey apiSecret signer).resultLogs (call.withParams params) x').length :=
    fun _ _ h => (resultLogs_eq_iff h).1
  rw [eq_iff_responses_eq (logs_agree hevents), hlogs.2, hlogs'.2, flatMap_eq_iff hlength hdecoded]
  constructor
  · intro h p hp
    exact (resultLogs_eq_iff ((List.forall₂_iff_zip.1 hdecoded).2 hp)).2.1 (h p hp)
  · intro h p hp
    exact (resultLogs_eq_iff ((List.forall₂_iff_zip.1 hdecoded).2 hp)).2.2 (h p hp)

/-- A transport that logs. -/
def loggingTransport : Transport :=
  .ofConfig { sampleTransport.config with apiSecret := none, logRequests := true,
                                          logResponses := true }
    (fun _ _ => "digest") samplePydantic fun _ => ""

/-- The same with another key. -/
def rekeyedTransport : Transport := loggingTransport.withCredentials (some "key'") none none

def listenKeyCall : Call where
  method := "POST"
  path := "/api/v1/listenKey"
  apiKeyOnly := true

/-- A body with one listenKey. -/
def listenKeyBody (listenKey : String) : Json := .obj [("listenKey", .str listenKey)]

theorem listenKeyBody_agrees (listenKey listenKey' : String) :
    (listenKeyBody listenKey).Agrees (listenKeyBody listenKey') :=
  .obj (.secret (by decide +kernel) .nil)

theorem samplePydantic_rejectsContainers : samplePydantic.RejectsContainers :=
  ⟨fun _ => rfl, fun _ => rfl⟩

theorem loggingTransport_secretsOnly :
    loggingTransport.SecretsOnly listenKeyCall [] (some "key'") none :=
  ⟨rfl, rfl, .refl []⟩

/-- The environment that answers with `body`. -/
def answering (body : Json) : List Ev → (op : Op) → Ans op :=
  scripted [.response ⟨200, [], "", .value body⟩]

/-- The events of the listenKey request that is answered with `body`. -/
def listenKeyTrace (T : Transport) (body : Json) : List Ev :=
  ((T.request listenKeyCall).play (answering body) ⟨0, true⟩).1

theorem listenKeyTrace_runs (T : Transport) (body : Json) :
    Runs (T.request listenKeyCall) ⟨0, true⟩ (listenKeyTrace T body)
      ((T.request listenKeyCall).play (answering body) ⟨0, true⟩).2.1
      ((T.request listenKeyCall).play (answering body) ⟨0, true⟩).2.2 :=
  (Comp.runs_play _ _ _).1

/-- Bodies that agree up to secrets make runs that are answered alike. -/
theorem listenKeyTrace_answeredAlike {body body' : Json} (h : body.Agrees body') :
    (lockstep listenKeyCall).AnsweredAlike (listenKeyTrace loggingTransport body)
      (listenKeyTrace rekeyedTransport body') := by
  have hreply : NetResult.Agrees true (.response ⟨200, [], "", .value body⟩)
      (.response ⟨200, [], "", .value body'⟩) := .response ⟨rfl, .refl [], .ok h⟩
  intro p hp _
  have hmem : p ∈ [(⟨.log _, ⟨⟩⟩, ⟨.log _, ⟨⟩⟩), (⟨.acquire _ _, .ok ()⟩, ⟨.acquire _ _, .ok ()⟩),
      (⟨.send _, _⟩, ⟨.send _, _⟩), (⟨.updateFromHeaders _, .ok ()⟩, ⟨.updateFromHeaders _, .ok ()⟩),
      (⟨.log _, ⟨⟩⟩, ⟨.log _, ⟨⟩⟩)] := hp
  simp only [List.mem_cons, List.not_mem_nil, or_false] at hmem
  obtain rfl | rfl | rfl | rfl | rfl := hmem
  · trivial
  · rfl
  · exact hreply
  · rfl
  · trivial

/-- Two keys for one user-data stream, each in an object. -/
theorem request_logs_object :
    logs (listenKeyTrace loggingTransport (listenKeyBody "a")) =
      logs (listenKeyTrace rekeyedTransport (listenKeyBody "b")) := by
  have halike := listenKeyTrace_answeredAlike (listenKeyBody_agrees "a" "b")
  refine (request_logs_iff rfl samplePydantic_rejectsContainers loggingTransport_secretsOnly
    (listenKeyTrace_runs _ _) (listenKeyTrace_runs _ _) halike).2 ?_
  intro p hp j j' hj hj' hobject
  have hmem : p ∈ [(((_, _), (_, _)) : Exchange × Exchange)] := hp
  obtain rfl := List.mem_singleton.1 hmem
  have hresult : j = listenKeyBody "a" := (Except.ok.inj hj).symm
  rw [hresult] at hobject
  cases hobject

/-- The same keys in arrays, which are logged as they are. -/
theorem not_request_logs_array :
    let body := Json.arr [listenKeyBody "a"]
    let body' := Json.arr [listenKeyBody "b"]
    loggingTransport.SecretsOnly listenKeyCall [] (some "key'") none ∧
      (∃ r s', Runs (loggingTransport.request listenKeyCall) ⟨0, true⟩
        (listenKeyTrace loggingTransport body) r s') ∧
      (∃ r s', Runs (rekeyedTransport.request listenKeyCall) ⟨0, true⟩
        (listenKeyTrace rekeyedTransport body') r s') ∧
      (lockstep listenKeyCall).AnsweredAlike (listenKeyTrace loggingTransport body)
        (listenKeyTrace rekeyedTransport body') ∧
      logs (listenKeyTrace loggingTransport body) ≠
        logs (listenKeyTrace rekeyedTransport body') := by
  intro body body'
  have hagree : body.Agrees body' := .arr (.cons (listenKeyBody_agrees "a" "b") .nil)
  refine ⟨loggingTransport_secretsOnly, ⟨_, _, listenKeyTrace_runs _ _⟩,
    ⟨_, _, listenKeyTrace_runs _ _⟩, listenKeyTrace_answeredAlike hagree, ?_⟩
  intro heq
  have hlast : (logs (listenKeyTrace loggingTransport body)).getLast? =
      (logs (listenKeyTrace rekeyedTransport body')).getLast? := by rw [heq]
  have hrecord : some (LogRecord.response body) = some (LogRecord.response body') := hlast
  simp [body, body', listenKeyBody] at hrecord

end Transport

end BinanceTh
