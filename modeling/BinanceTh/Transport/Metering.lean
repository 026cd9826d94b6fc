import BinanceTh.Orders.Session

/-!
# Metered requests

Every request that the client sends is admitted by the limiter first, with the weight of its
endpoint, and the headers of each reply are reported to it before anything else is sent or admitted;
one at whose admission the limiter raises is not sent. So for the retries of a request, the
synchronizations in between and the reconciliation of an order, and for every session of the order
client (`OrdersClient.session_metered`).
-/

namespace BinanceTh

open Interaction

def traffic (tr : List Ev) : List Ev := tr.filter fun e => e.1.isTraffic

/-- What is reported to the limiter of a reply. -/
def NetResult.reports : NetResult → Except LimiterError Unit → List Ev
  | .response r, update => [⟨.updateFromHeaders r.headers, update⟩]
  | .timeout _, _ | .httpError _, _ => []

/-- A request between its admission, which the limiter can refuse by raising, and its report. -/
def metered (charge : HttpRequest → ℤ × Bool) (request : HttpRequest) : Delivery → List Ev
  | .refused e => [⟨.acquire (charge request).1 (charge request).2, .error e⟩]
  | .sent net update => ⟨.acquire (charge request).1 (charge request).2, .ok ()⟩ ::
      ⟨.send request, net⟩ :: net.reports update

/-- The traffic of a run is that of requests, each of which is admitted and reported. -/
def Metered (charge : HttpRequest → ℤ × Bool) (tr : List Ev) : Prop :=
  ∃ requests : List (HttpRequest × Delivery),
    traffic tr = requests.flatMap fun x => metered charge x.1 x.2

theorem traffic_append (tr tr' : List Ev) : traffic (tr ++ tr') = traffic tr ++ traffic tr' :=
  List.filter_append ..

theorem sends_traffic (tr : List Ev) : sends (traffic tr) = sends tr := by
  induction tr with
  | nil => rfl
  | cons e tr ih =>
    obtain ⟨op, answer⟩ := e
    cases op with
    | send request => exact congrArg (List.cons _) ih
    | _ => exact ih

/-- What a smooth run makes of a request is told by its exchange. -/
theorem metered_of_smooth {charge : HttpRequest → ℤ × Bool} {request : HttpRequest} {d : Delivery}
    (h : Smooth (metered charge request d)) : metered charge request d =
      (sends (metered charge request d)).flatMap fun x => metered charge x.1 (.sent x.2 (.ok ())) := by
  cases d with
  | refused e => cases (smooth_cons.1 h).1
  | sent net update =>
    cases net with
    | timeout message => rfl
    | httpError message => rfl
    | response reply =>
      cases update with
      | ok u => rfl
      | error e =>
        obtain ⟨-, hsent⟩ := smooth_cons.1 h
        obtain ⟨-, hreport⟩ := smooth_cons.1 hsent
        cases (smooth_cons.1 hreport).1

/-- Where the limiter raises nothing, the traffic is that of the exchanges. -/
theorem Metered.of_smooth {charge : HttpRequest → ℤ × Bool} {tr : List Ev} (h : Metered charge tr)
    (hsmooth : Smooth tr) :
    traffic tr = (sends tr).flatMap fun x => metered charge x.1 (.sent x.2 (.ok ())) := by
  obtain ⟨requests, htr⟩ := h
  have hall : Smooth (traffic tr) := hsmooth.sublist List.filter_sublist
  rw [← sends_traffic, htr] at *
  clear htr hsmooth
  induction requests with
  | nil => rfl
  | cons x requests ih =>
    rw [List.flatMap_cons, smooth_append] at hall
    rw [List.flatMap_cons, sends_append, List.flatMap_append, ← metered_of_smooth hall.1,
      ← ih hall.2]

theorem additive_metered (charge : HttpRequest → ℤ × Bool) : Additive (Metered charge) where
  nil := ⟨[], rfl⟩
  append h h' := by
    obtain ⟨requests, htr⟩ := h
    obtain ⟨requests', htr'⟩ := h'
    exact ⟨requests ++ requests', by rw [traffic_append, List.flatMap_append, htr, htr']⟩

theorem metered_of_not_isTraffic {charge : HttpRequest → ℤ × Bool} (e : Ev)
    (h : e.1.isTraffic = false) : Metered charge [e] := by
  refine ⟨[], List.filter_cons_of_neg ?_⟩
  rw [h]
  exact Bool.false_ne_true

/-! ## Transmissions -/

namespace Transport

variable {T : Transport} {call : Call}

theorem traffic_logEvents (enabled : Bool) (record : LogRecord) :
    traffic (logEvents enabled record) = [] := by
  cases enabled <;> rfl

theorem traffic_followUp (net : NetResult) (update : Except LimiterError Unit) :
    traffic (T.followUp call net update) = net.reports update := by
  cases net with
  | timeout message => rfl
  | httpError message => rfl
  | response r =>
    cases update with
    | error e => rfl
    | ok u =>
      unfold followUp
      have hcons (tr : List Ev) : traffic (⟨.updateFromHeaders r.headers, .ok ()⟩ :: tr) =
          ⟨.updateFromHeaders r.headers, .ok ()⟩ :: traffic tr := rfl
      rw [hcons]
      split
      · rw [traffic_logEvents]
        rfl
      · rfl

theorem traffic_transmission (params : Params) (d : Delivery) :
    traffic (T.transmission call params d) =
      metered (fun _ => (call.weight, call.mutating)) (T.httpRequest call params) d := by
  have hannounce (tr : List Ev) : traffic (T.announcement call params ++ tr) = traffic tr := by
    unfold announcement
    rw [traffic_append, traffic_logEvents, List.nil_append]
  cases d with
  | refused e => exact hannounce _
  | sent net update =>
    have hsend : traffic (⟨.send (T.httpRequest call params), net⟩ :: T.followUp call net update) =
        ⟨.send (T.httpRequest call params), net⟩ :: traffic (T.followUp call net update) := rfl
    unfold transmission leadIn
    rw [traffic_append, hannounce, hsend, traffic_followUp]
    rfl

/-- **A transmission is metered**, if the call has the weight of its request. -/
theorem emits_transmit_metered {charge : HttpRequest → ℤ × Bool} {params : Params}
    (hcharge : charge (T.httpRequest call params) = (call.weight, call.mutating)) :
    Emits (Metered charge) (T.transmit call params) := by
  intro s tr r s' hrun
  obtain ⟨-, d, -, rfl⟩ := runs_transmit_iff.1 hrun
  refine ⟨[(T.httpRequest call params, d)], ?_⟩
  rw [traffic_transmission, List.flatMap_singleton]
  cases d <;> unfold metered <;> rw [hcharge]

end Transport

/-! ## The order client -/

namespace OrdersClient

/-- What a request of the order client weighs, and whether it is an order for the limiter. -/
def charge (request : HttpRequest) : ℤ × Bool :=
  if request.path = timePath then (1, false)
  else if request.method = "GET" then (2, false)
  else (1, true)

variable {C : OrdersClient} {calls : List SessionCall} {s s' : TimeSync} {tr : List Ev}
  {r : Except Exc Unit}

/-- **Every request is metered.** In every run of every session, the limiter's and the network's part
is that of the requests, one after the other: each is admitted with its own weight, as an order if it
is one, and only then sent, and the headers of its reply are reported, before the next is admitted. -/
theorem session_metered (h : Runs (C.session calls) s tr r s') : Metered charge tr := by
  have hmetered := additive_metered charge
  have hquiet : Quiet Recording fun tr _ => Metered charge tr := by
    rintro o ho past s x _ hpast rfl
    exact hmetered.append hpast (metered_of_not_isTraffic _ ho)
  have htransmit (c : Call) (hcharge : ∀ params, charge (C.transport.httpRequest c params) =
      (c.weight, c.mutating)) : Keeps Recording (fun tr _ => Metered charge tr)
        (C.transport.executeRest c) :=
    Transport.keeps_executeRest_of hquiet fun params => (emits_iff_keeps hmetered).1
      (Transport.emits_transmit_metered (hcharge params))
  have hsync : Keeps Recording (fun tr _ => Metered charge tr) C.transport.syncTime := by
    refine Keeps.bind (htransmit _ fun params => if_pos rfl) fun data => ?_
    refine Keeps.bind (.raiseOr _) fun time => Keeps.bind (hquiet.keeps rfl) fun clock => ?_
    exact .modify_bind (.pure time) fun _ _ h => h
  have hpath : orderPath ≠ timePath := by decide
  have hpost : "POST" ≠ "GET" := by decide
  have hdelete : "DELETE" ≠ "GET" := by decide
  refine (emits_iff_keeps hmetered).2 (keeps_session_of hquiet hsync fun call _ c hasks => ?_)
    _ _ _ _ h
  refine Transport.keeps_request_of hquiet hsync (Transport.keeps_execute_of hsync (htransmit c ?_))
  intro params
  cases hasks with
  | post => exact (if_neg hpath).trans (if_neg hpost)
  | cancel => exact (if_neg hpath).trans (if_neg hdelete)
  | query | reconcile => exact (if_neg hpath).trans (if_pos rfl)

/-- An order whose status is unknown and is asked for, and a cancellation. -/
def sampleSession : List Ev × Except Exc Unit × TimeSync :=
  (sampleOrders.session [.createOrder (sampleArgs (some "a")),
    .cancelOrder "BTCTHB" none (some "a") none]).play (scripted [unavailable, notFound, notFound])
      ⟨0, true⟩

/-- Three requests: a POST, a GET and a DELETE. -/
theorem session_metered_sample :
    Metered charge sampleSession.1 ∧
      (sends sampleSession.1).map (fun x => charge x.1) = [(1, true), (2, false), (1, true)] :=
  ⟨session_metered (Comp.runs_play _ _ _).1, by decide +kernel⟩

end OrdersClient

end BinanceTh
