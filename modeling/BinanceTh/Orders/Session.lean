import BinanceTh.Orders.Placing

/-!
# Sessions of the order client

A session is a sequence of calls, one after the other. What the requests of the order client and a
synchronization keep, every session keeps (`OrdersClient.keeps_session_of`).
-/

namespace BinanceTh

open Interaction

variable {W : Type} {H : W → (o : Op) → Ans o → W → Prop}

/-- `CancelOrderRequest`: the fields and the checks of a query. -/
abbrev CancelOrderRequest : Type := QueryOrderRequest

theorem QueryOrderRequest.construct_recvWindow {fields request : QueryOrderRequest}
    (h : QueryOrderRequest.construct fields = .ok request) :
    request.recvWindow = fields.recvWindow := by
  unfold QueryOrderRequest.construct at h
  dsimp only at h
  split at h
  · obtain rfl := Except.ok.inj h
    rfl
  · cases h

namespace OrdersClient

variable (C : OrdersClient)

def cancelCall (request : CancelOrderRequest) : Call where
  method := "DELETE"
  path := orderPath
  params := request.params
  signed := true
  mutating := true

def cancelOrder (symbol : String) (orderId : Option ℤ) (origClientOrderId : Option String)
    (recvWindow : Option ℤ) : M Order := do
  let request ← raiseOr
    (QueryOrderRequest.construct { symbol, orderId, origClientOrderId, recvWindow })
  let raw ← C.transport.request (cancelCall request)
  raiseOr (Order.decode C.transport.pydantic raw)

/-- A call on the client. -/
inductive SessionCall where
  | createOrder (args : CreateOrderArgs)
  | cancelOrder (symbol : String) (orderId : Option ℤ) (origClientOrderId : Option String)
      (recvWindow : Option ℤ)
  | queryOrder (symbol : String) (orderId : Option ℤ) (origClientOrderId : Option String)
      (recvWindow : Option ℤ)
  | serverTime

/-- A call, whatever it returns. -/
def call : SessionCall → M Unit
  | .createOrder args => do
    let _ ← C.createOrder args
    pure ()
  | .cancelOrder symbol orderId origClientOrderId recvWindow => do
    let _ ← C.cancelOrder symbol orderId origClientOrderId recvWindow
    pure ()
  | .queryOrder symbol orderId origClientOrderId recvWindow => do
    let _ ← C.queryOrder symbol orderId origClientOrderId recvWindow
    pure ()
  | .serverTime => do
    let _ ← C.transport.syncTime
    pure ()

/-- One call after the other; the caller lives with what they raise. -/
def session : List SessionCall → M Unit
  | [] => pure ()
  | call :: calls => do
    tryCatch (C.call call) fun _ => pure ()
    session calls

/-- The requests that a call on the client can send, beside synchronizations. -/
inductive Asks : SessionCall → Call → Prop
  | post {args : CreateOrderArgs} {order₀ order : OrderRequest} :
      args.resolveRequest = .ok order₀ → order.recvWindow = order₀.recvWindow →
      Asks (.createOrder args) (postCall order)
  | reconcile {args : CreateOrderArgs} {order₀ : OrderRequest} {request : QueryOrderRequest} :
      args.resolveRequest = .ok order₀ → request.recvWindow = none →
      Asks (.createOrder args) (queryCall request)
  | cancel {symbol : String} {orderId : Option ℤ} {id : Option String}
      {request : CancelOrderRequest} :
      Asks (.cancelOrder symbol orderId id request.recvWindow) (cancelCall request)
  | query {symbol : String} {orderId : Option ℤ} {id : Option String}
      {request : QueryOrderRequest} :
      Asks (.queryOrder symbol orderId id request.recvWindow) (queryCall request)

variable {C} {J : W → TimeSync → Prop} {args : CreateOrderArgs}

theorem keeps_chooseId (hquiet : Quiet H J) (order : OrderRequest) : Keeps H J (chooseId order) := by
  have hmint : Keeps H J mintId := hquiet.keeps rfl
  unfold chooseId
  split
  · split
    · exact hmint
    · exact .pure _
  · exact hmint

/-- Validating keeps the order's window. -/
theorem triple_validateIf (hquiet : Quiet H J) (order : OrderRequest) :
    Triple H J (C.validateIf args order)
      (fun order' w s => J w s ∧ order'.recvWindow = order.recvWindow) fun _ => J := by
  have hinfo (force : Bool) : Keeps H J (fetchExchangeInfo force) :=
    Keeps.bind (hquiet.keeps rfl) fun answer => .raiseOr answer
  have hrules : Keeps H J fetchExecutionRules :=
    Keeps.bind (hquiet.keeps rfl) fun answer => .raiseOr answer
  unfold validateIf
  split
  · unfold validate
    refine Triple.bind (Q := fun _ => J) ?_ fun info => ?_
    · refine Keeps.bind (hinfo false) fun info => ?_
      split
      · exact .pure _
      · exact Keeps.bind (hinfo true) fun info => .pure _
    · split
      · exact .throw fun _ _ hJ => hJ
      · refine Triple.bind (Q := fun _ => J) ?_ fun rules => ?_
        · unfold symbolRules
          split
          · exact Keeps.bind hrules fun rules => .pure _
          · exact .pure fun _ _ hJ => hJ
        · refine (Keeps.raiseOr_eq _).conseq (fun _ _ hJ => hJ) (fun order' w s h => ?_)
            fun _ _ _ hJ => hJ
          rw [validateOrder_frame h.2]
          exact ⟨h.1, rfl⟩
  · exact .pure fun _ _ hJ => ⟨hJ, rfl⟩

/-- The order that is prepared has the window of the one that was asked for. -/
theorem triple_prepare (hquiet : Quiet H J) (args : CreateOrderArgs) :
    Triple H J (C.prepare args) (fun prepared w s => J w s ∧ ∃ order₀,
      args.resolveRequest = .ok order₀ ∧ prepared.1.recvWindow = order₀.recvWindow) fun _ => J := by
  refine (Keeps.raiseOr_eq _).bind fun order₀ => .of_fact fun hresolve => ?_
  split
  · refine Triple.bind (keeps_chooseId hquiet order₀) fun id => ?_
    refine (triple_validateIf hquiet _).bind fun order => .pure fun w s h => ?_
    refine ⟨h.1, order₀, hresolve, h.2.trans ?_⟩
    unfold withId
    split <;> rfl
  · exact .throw fun _ _ hJ => hJ

/-- **What synchronizations and the requests of its calls keep**, a session keeps. -/
theorem keeps_session_of (hquiet : Quiet H J) (hsync : Keeps H J C.transport.syncTime)
    {calls : List SessionCall} (hrequest : ∀ call ∈ calls, ∀ c, Asks call c →
      Keeps H J (C.transport.request c)) : Keeps H J (C.session calls) := by
  have hquery (symbol : String) (orderId : Option ℤ) (id : Option String)
      (recvWindow : Option ℤ) (h : ∀ request : QueryOrderRequest, request.recvWindow = recvWindow →
        Keeps H J (C.transport.request (queryCall request))) :
      Keeps H J (C.queryOrder symbol orderId id recvWindow) := by
    refine (Keeps.raiseOr_eq _).bind fun request => .of_fact fun hconstruct => ?_
    exact Keeps.bind (h request (QueryOrderRequest.construct_recvWindow hconstruct))
      fun raw => .raiseOr _
  have hcall (call : SessionCall) (h : ∀ c, Asks call c → Keeps H J (C.transport.request c)) :
      Keeps H J (C.call call) := by
    cases call with
    | createOrder args =>
      refine Keeps.bind ?_ fun _ => .pure _
      refine (triple_prepare hquiet args).bind fun prepared => .of_fact fun hprepared => ?_
      obtain ⟨order₀, hresolve, hwindow⟩ := hprepared
      refine Keeps.tryCatch ?_ fun e => ?_
      · exact Keeps.bind (h _ (.post hresolve hwindow)) fun raw => .raiseOr _
      · split
        · refine Keeps.tryCatch (hquery _ _ _ none fun _ hnone => h _ (.reconcile hresolve hnone)) fun e => ?_
          split <;> exact .throw _
        · exact .throw _
    | cancelOrder symbol orderId id recvWindow =>
      refine Keeps.bind ?_ fun _ => .pure _
      refine (Keeps.raiseOr_eq _).bind fun request => .of_fact fun hconstruct => ?_
      obtain rfl := QueryOrderRequest.construct_recvWindow hconstruct
      exact Keeps.bind (h _ .cancel) fun raw => .raiseOr _
    | queryOrder symbol orderId id recvWindow =>
      refine Keeps.bind (hquery symbol orderId id recvWindow fun request hwindow => ?_)
        fun _ => .pure _
      subst hwindow
      exact h _ .query
    | serverTime => exact Keeps.bind hsync fun _ => .pure _
  induction calls with
  | nil => exact .pure _
  | cons call calls ih =>
    refine Keeps.bind (Keeps.tryCatch (hcall call (hrequest call List.mem_cons_self))
      fun _ => .pure _) fun _ => ih fun call' hmem => ?_
    exact hrequest call' (List.mem_cons_of_mem call hmem)

end OrdersClient

end BinanceTh
