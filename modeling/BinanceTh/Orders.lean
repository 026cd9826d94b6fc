import BinanceTh.Transport
import BinanceTh.Validation

/-!
# The order client

`orders.py`: placing an order with a client order id chosen before the send, and the reconciliation
query after a transient failure. `create_order` is split where its text is: everything before the
`try` (`prepare`), the body of the `try` (`submit`) and the handler (`reconcile`).
-/

namespace BinanceTh

open Interaction

def orderPath : String := "/api/v1/order"

def orderNotFoundCode : ℤ := -2013

/-- `_params`: the parameters of a request model under their aliases, without `None`. -/
def paramsOf (fields : List (String × Option String)) : Params :=
  fields.filterMap fun kv => kv.2.map fun v => (kv.1, ParamValue.str v)

def OrderRequest.params (r : OrderRequest) : Params :=
  paramsOf [("symbol", some r.symbol), ("side", some r.side.value), ("type", some r.orderType.value),
    ("timeInForce", r.timeInForce.map (·.value)), ("quantity", r.quantity.map (·.format)),
    ("quoteOrderQty", r.quoteOrderQty.map (·.format)), ("price", r.price.map (·.format)),
    ("newClientOrderId", r.newClientOrderId), ("stopPrice", r.stopPrice.map (·.format)),
    ("recvWindow", r.recvWindow.map toString)]

def QueryOrderRequest.params (r : QueryOrderRequest) : Params :=
  paramsOf [("symbol", some r.symbol), ("orderId", r.orderId.map toString),
    ("origClientOrderId", r.origClientOrderId), ("recvWindow", r.recvWindow.map toString)]

theorem get?_paramsOf_of_notMem {fields : List (String × Option String)} {key : String}
    (h : key ∉ fields.map (·.1)) : Dict.get? (paramsOf fields) key = none := by
  induction fields with
  | nil => rfl
  | cons kv fields ih =>
    obtain ⟨k, v⟩ := kv
    rw [List.map_cons, List.mem_cons, not_or] at h
    have hrest := ih h.2
    cases v with
    | none => exact hrest
    | some v =>
      have hcons : paramsOf ((k, some v) :: fields) = (k, .str v) :: paramsOf fields := rfl
      rw [hcons, Dict.get?_cons, if_neg h.1, hrest]

theorem paramsOf_cons_none (key : String) (fields : List (String × Option String)) :
    paramsOf ((key, none) :: fields) = paramsOf fields := rfl

theorem paramsOf_cons_some (key v : String) (fields : List (String × Option String)) :
    paramsOf ((key, some v) :: fields) = (key, .str v) :: paramsOf fields := rfl

/-- A parameter is there exactly when its field is not `None`. -/
theorem get?_paramsOf {fields : List (String × Option String)} (hnodup : (fields.map (·.1)).Nodup)
    {key : String} {v : Option String} (hmem : (key, v) ∈ fields) :
    Dict.get? (paramsOf fields) key = v.map ParamValue.str := by
  induction fields with
  | nil => cases hmem
  | cons kv fields ih =>
    obtain ⟨k, w⟩ := kv
    obtain ⟨hk, hrest⟩ := List.nodup_cons.1 hnodup
    rcases List.mem_cons.1 hmem with heq | hmem'
    · obtain ⟨rfl, rfl⟩ := Prod.mk.inj heq
      cases v with
      | none =>
        rw [paramsOf_cons_none]
        exact get?_paramsOf_of_notMem hk
      | some v =>
        rw [paramsOf_cons_some, Dict.get?_cons, if_pos rfl]
        rfl
    · have hne : key ≠ k := by
        intro heq
        exact hk (heq ▸ List.mem_map.2 ⟨(key, v), hmem', rfl⟩)
      cases w with
      | none =>
        rw [paramsOf_cons_none]
        exact ih hrest hmem'
      | some w =>
        rw [paramsOf_cons_some, Dict.get?_cons, if_neg hne]
        exact ih hrest hmem'

theorem OrderRequest.get?_params_newClientOrderId (r : OrderRequest) :
    Dict.get? r.params "newClientOrderId" = r.newClientOrderId.map ParamValue.str :=
  get?_paramsOf (by simp) (by simp)

theorem QueryOrderRequest.get?_params_origClientOrderId (r : QueryOrderRequest) :
    Dict.get? r.params "origClientOrderId" = r.origClientOrderId.map ParamValue.str :=
  get?_paramsOf (by simp) (by simp)

/-- The arguments of `create_order`. A member of a string enumeration is a string. -/
structure CreateOrderArgs where
  symbol : Option String := none
  side : Option String := none
  orderType : Option String := none
  request : Option OrderRequest := none
  quantity : Option Decimal := none
  price : Option Decimal := none
  timeInForce : Option String := none
  quoteOrderQty : Option Decimal := none
  stopPrice : Option Decimal := none
  newClientOrderId : Option String := none
  recvWindow : Option ℤ := none
  validate : Bool := true

namespace CreateOrderArgs

/-- One of the keyword parameters that describe an order is given. -/
def anyKeyword (a : CreateOrderArgs) : Bool :=
  a.symbol.isSome || a.side.isSome || a.orderType.isSome || a.quantity.isSome || a.price.isSome ||
    a.timeInForce.isSome || a.quoteOrderQty.isSome || a.stopPrice.isSome ||
    a.newClientOrderId.isSome || a.recvWindow.isSome

/-- `Enum(value)`, which raises `ValueError` for a value that no member has. -/
def member {α : Type} (ofValue? : String → Option α) (value : String) : Except Exc α :=
  match ofValue? value with
  | some m => .ok m
  | none => .error (.valueError value)

def optionalMember {α : Type} (ofValue? : String → Option α) :
    Option String → Except Exc (Option α)
  | none => .ok none
  | some value => (member ofValue? value).map some

/-- `_resolve_request`. -/
def resolveRequest (a : CreateOrderArgs) : Except Exc OrderRequest :=
  match a.request with
  | some r =>
    if a.anyKeyword then
      .error (.valueError "pass either request= or keyword params, not both")
    else .ok r
  | none =>
    match a.symbol, a.side, a.orderType with
    | some symbol, some side, some orderType => do
      let side ← member OrderSide.ofValue? side
      let orderType ← member OrderType.ofValue? orderType
      let timeInForce ← optionalMember TimeInForce.ofValue? a.timeInForce
      OrderRequest.construct
        { symbol, side, orderType, timeInForce, quantity := a.quantity, price := a.price,
          quoteOrderQty := a.quoteOrderQty, stopPrice := a.stopPrice,
          newClientOrderId := a.newClientOrderId, recvWindow := a.recvWindow }
    | _, _, _ =>
      .error (.valueError "symbol, side, and order_type are required when request= is omitted")

end CreateOrderArgs

/-- The failures after which the status of an order is unknown. -/
def Exc.isUnknownStatus : Exc → Bool
  | .api e => e.cls = .serverError
  | .timeoutError _ _ => true
  | .networkError _ => true
  | _ => false

/-- A provider's answer, or the exception it raised. -/
def fetchExchangeInfo (force : Bool) : M ExchangeInfo := do
  let answer ← perform (Op.exchangeInfo force)
  raiseOr answer

def fetchExecutionRules : M ExecutionRules := do
  let answer ← perform Op.executionRules
  raiseOr answer

def mintId : M String := perform Op.mintId

structure OrdersClient where
  transport : Transport
  /-- An execution-rules provider was handed in. -/
  hasExecutionRules : Bool
  useExecutionRules : Bool

namespace OrdersClient

variable (C : OrdersClient)

/-- `order.new_client_order_id or self._mint_id()`. -/
def chooseId (order : OrderRequest) : M String :=
  match order.newClientOrderId with
  | some id => if id = "" then mintId else pure id
  | none => mintId

/-- The copy that carries the chosen id, if the order carried none. -/
def withId (order : OrderRequest) (clientOrderId : String) : OrderRequest :=
  match order.newClientOrderId with
  | some _ => order
  | none => { order with newClientOrderId := some clientOrderId }

/-- The symbol's information, refreshed once when the cached one does not have the symbol. -/
def symbolInfo (symbol : String) : M (Option SymbolInfo) := do
  let info ← fetchExchangeInfo false
  match info.getSymbol symbol with
  | some s => pure (some s)
  | none => do
    let info ← fetchExchangeInfo true
    pure (info.getSymbol symbol)

def symbolRules (symbol : String) : M (Option SymbolExecutionRules) :=
  if C.useExecutionRules && C.hasExecutionRules then do
    let rules ← fetchExecutionRules
    pure (rules.getSymbol symbol)
  else pure none

/-- `_validate`. -/
def validate (order : OrderRequest) : M OrderRequest := do
  match ← symbolInfo order.symbol with
  | none => throw (.validationError "unknown symbol" "symbol" (.str order.symbol))
  | some info => do
    let rules ← C.symbolRules order.symbol
    raiseOr (validateOrder order info rules)

def validateIf (args : CreateOrderArgs) (order : OrderRequest) : M OrderRequest :=
  if args.validate then C.validate order else pure order

/-- `create_order` up to its `try`: the order as it will be sent, and the id it will be asked for
by. -/
def prepare (args : CreateOrderArgs) : M (OrderRequest × String) := do
  let order ← raiseOr args.resolveRequest
  if C.transport.canSign then do
    let clientOrderId ← chooseId order
    let order ← C.validateIf args (withId order clientOrderId)
    pure (order, clientOrderId)
  else throw authRequired

def postCall (order : OrderRequest) : Call where
  method := "POST"
  path := orderPath
  params := order.params
  signed := true
  mutating := true

def queryCall (request : QueryOrderRequest) : Call where
  method := "GET"
  path := orderPath
  params := request.params
  signed := true
  weight := 2

/-- The body of the `try`: the POST, and the order in its reply. -/
def submit (order : OrderRequest) : M Order := do
  let raw ← C.transport.request (postCall order)
  raiseOr (Order.decode C.transport.pydantic raw)

def queryOrder (symbol : String) (orderId : Option ℤ) (origClientOrderId : Option String)
    (recvWindow : Option ℤ) : M Order := do
  let request ← raiseOr
    (QueryOrderRequest.construct { symbol, orderId, origClientOrderId, recvWindow })
  let raw ← C.transport.request (queryCall request)
  raiseOr (Order.decode C.transport.pydantic raw)

/-- What `_reconcile` raises for an API error of its query. -/
def unknownError (symbol clientOrderId : String) (queryError : APIError) : OrderUnknownError :=
  if queryError.code = some orderNotFoundCode then
    { message := "order was not placed; safe to resubmit"
      clientOrderId := some clientOrderId, symbol := some symbol, resubmittable := true }
  else
    { message := "order status unknown; reconciliation query failed"
      clientOrderId := some clientOrderId, symbol := some symbol, resubmittable := false }

/-- `_reconcile`; only an API error of the query is caught. -/
def reconcile (symbol clientOrderId : String) : M Order :=
  tryCatch (C.queryOrder symbol none (some clientOrderId) none) fun exc =>
    match exc with
    | .api queryError => throw (.orderUnknownError (unknownError symbol clientOrderId queryError))
    | exc => throw exc

def createOrder (args : CreateOrderArgs) : M Order := do
  let (order, clientOrderId) ← C.prepare args
  tryCatch (C.submit order) fun exc =>
    if exc.isUnknownStatus then C.reconcile order.symbol clientOrderId else throw exc

end OrdersClient

end BinanceTh
