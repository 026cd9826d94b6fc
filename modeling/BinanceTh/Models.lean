import BinanceTh.Exceptions

/-!
# The models of the order endpoints

`models/enums.py`, `models/base.py` and `models/orders.py`, as far as orders need them. A response
model decodes a JSON value (`decode`), a request model is built from typed arguments.

pydantic is not part of the repository. Its conversions of JSON numbers and booleans are a parameter
(`Pydantic`); a `str` field takes strings only and strips them, an enumeration takes the values of
its members. A value that is not an object cannot be unpacked into keyword arguments (`typeError`),
a missing or unconvertible field is a `pydanticError`.
-/

namespace BinanceTh

/-! ## Enumerations -/

/-- The member of an enumeration with a given value. -/
def memberOf {α : Type} (members : List α) (value : α → String) (s : String) : Option α :=
  members.find? fun m => value m = s

inductive OrderSide where
  | buy | sell
  deriving DecidableEq

def OrderSide.value : OrderSide → String
  | .buy => "BUY"
  | .sell => "SELL"

def OrderSide.ofValue? : String → Option OrderSide := memberOf [.buy, .sell] value

inductive OrderType where
  | limit | market | stopLoss | stopLossLimit | takeProfit | takeProfitLimit | limitMaker
  deriving DecidableEq

def OrderType.value : OrderType → String
  | .limit => "LIMIT"
  | .market => "MARKET"
  | .stopLoss => "STOP_LOSS"
  | .stopLossLimit => "STOP_LOSS_LIMIT"
  | .takeProfit => "TAKE_PROFIT"
  | .takeProfitLimit => "TAKE_PROFIT_LIMIT"
  | .limitMaker => "LIMIT_MAKER"

def OrderType.ofValue? : String → Option OrderType :=
  memberOf [.limit, .market, .stopLoss, .stopLossLimit, .takeProfit, .takeProfitLimit, .limitMaker]
    value

inductive OrderStatus where
  | new | partiallyFilled | filled | canceled | rejected | expired
  deriving DecidableEq

def OrderStatus.value : OrderStatus → String
  | .new => "NEW"
  | .partiallyFilled => "PARTIALLY_FILLED"
  | .filled => "FILLED"
  | .canceled => "CANCELED"
  | .rejected => "REJECTED"
  | .expired => "EXPIRED"

def OrderStatus.ofValue? : String → Option OrderStatus :=
  memberOf [.new, .partiallyFilled, .filled, .canceled, .rejected, .expired] value

inductive TimeInForce where
  | gtc | ioc | fok
  deriving DecidableEq

def TimeInForce.value : TimeInForce → String
  | .gtc => "GTC"
  | .ioc => "IOC"
  | .fok => "FOK"

def TimeInForce.ofValue? : String → Option TimeInForce := memberOf [.gtc, .ioc, .fok] value

inductive FilterType where
  | priceFilter | percentPrice | lotSize | minNotional | icebergParts | marketLotSize | maxNumOrders
  | maxNumAlgoOrders | maxNumIcebergOrders | exchangeMaxNumOrders | exchangeMaxNumAlgoOrders
  deriving DecidableEq

inductive SymbolType where
  | global
  | site
  deriving DecidableEq

def SymbolType.value : SymbolType → String
  | .global => "GLOBAL"
  | .site => "SITE"

def SymbolType.ofValue? : String → Option SymbolType := memberOf [.global, .site] value

/-! ## Decoding -/

/-- pydantic's lax conversions of a JSON value to a number or a boolean. -/
structure Pydantic where
  int : Json → Option ℤ
  decimal : Json → Option Decimal
  bool : Json → Option Bool

namespace Pydantic

/-- `str` with `str_strip_whitespace`. -/
def str : Json → Option String
  | .str s => some (strip isSpace s)
  | _ => none

def enum {α : Type} (ofValue? : String → Option α) : Json → Option α
  | .str s => ofValue? s
  | _ => none

/-- `T | None`. -/
def optional {α : Type} (convert : Json → Option α) : Json → Option (Option α)
  | .null => some none
  | j => (convert j).map some

/-- With `populate_by_name` a field is found under its alias or else under its name. -/
def field (data : Dict Json) (key name : String) : Option Json :=
  (Dict.get? data key).or (Dict.get? data name)

def required {α : Type} (convert : Json → Option α) (data : Dict Json) (key name : String) :
    Except Exc α :=
  match (field data key name).bind convert with
  | some a => .ok a
  | none => .error .pydanticError

def withDefault {α : Type} (default : α) (convert : Json → Option α) (data : Dict Json)
    (key name : String) : Except Exc α :=
  match field data key name with
  | none => .ok default
  | some j => match convert j with
    | some a => .ok a
    | none => .error .pydanticError

end Pydantic

open Pydantic

structure ServerTime where
  serverTime : ℤ
  deriving DecidableEq

/-- `ServerTime(**data)`. -/
def ServerTime.decode (P : Pydantic) : Json → Except Exc ServerTime
  | .obj data => do
    let serverTime ← required P.int data "serverTime" "server_time"
    pure { serverTime }
  | _ => .error .typeError

structure Order where
  symbol : String
  orderId : ℤ
  orderListId : ℤ
  clientOrderId : String
  price : Decimal
  origQty : Decimal
  executedQty : Decimal
  cummulativeQuoteQty : Decimal
  status : OrderStatus
  timeInForce : TimeInForce
  orderType : OrderType
  side : OrderSide
  stopPrice : Option Decimal
  time : ℤ
  updateTime : ℤ
  isWorking : Bool
  origQuoteOrderQty : Decimal
  deriving DecidableEq

/-- `Order(**raw)`. -/
def Order.decode (P : Pydantic) : Json → Except Exc Order
  | .obj data => do
    let symbol ← required str data "symbol" "symbol"
    let orderId ← required P.int data "orderId" "order_id"
    let orderListId ← withDefault (-1) P.int data "orderListId" "order_list_id"
    let clientOrderId ← required str data "clientOrderId" "client_order_id"
    let price ← required P.decimal data "price" "price"
    let origQty ← required P.decimal data "origQty" "orig_qty"
    let executedQty ← required P.decimal data "executedQty" "executed_qty"
    let cummulativeQuoteQty ←
      required P.decimal data "cummulativeQuoteQty" "cummulative_quote_qty"
    let status ← required (enum OrderStatus.ofValue?) data "status" "status"
    let timeInForce ← required (enum TimeInForce.ofValue?) data "timeInForce" "time_in_force"
    let orderType ← required (enum OrderType.ofValue?) data "type" "order_type"
    let side ← required (enum OrderSide.ofValue?) data "side" "side"
    let stopPrice ← withDefault none (optional P.decimal) data "stopPrice" "stop_price"
    let time ← required P.int data "time" "time"
    let updateTime ← required P.int data "updateTime" "update_time"
    let isWorking ← required P.bool data "isWorking" "is_working"
    let origQuoteOrderQty ← required P.decimal data "origQuoteOrderQty" "orig_quote_order_qty"
    pure { symbol, orderId, orderListId, clientOrderId, price, origQty, executedQty,
           cummulativeQuoteQty, status, timeInForce, orderType, side, stopPrice, time, updateTime,
           isWorking, origQuoteOrderQty }
  | _ => .error .typeError

/-! ### What decoding raises -/

/-- The exceptions of decoding a parsed value. -/
def Exc.isDecodeError : Exc → Bool
  | .typeError => true
  | .pydanticError => true
  | _ => false

def RaisesDecodeErrors {α : Type} (x : Except Exc α) : Prop :=
  ∀ e, x = .error e → e.isDecodeError = true

section

variable {α β : Type}

theorem raisesDecodeErrors_ok (a : α) : RaisesDecodeErrors (.ok a) := nofun

theorem RaisesDecodeErrors.bind {x : Except Exc α} {f : α → Except Exc β}
    (hx : RaisesDecodeErrors x) (hf : ∀ a, RaisesDecodeErrors (f a)) :
    RaisesDecodeErrors (x >>= f) := by
  cases x with
  | error e =>
    intro e' h
    obtain rfl := Except.error.inj h
    exact hx e rfl
  | ok a => exact hf a

theorem raisesDecodeErrors_required (convert : Json → Option α) (data : Dict Json)
    (key name : String) : RaisesDecodeErrors (required convert data key name) := by
  unfold required
  split
  · exact raisesDecodeErrors_ok _
  · intro e h
    obtain rfl := Except.error.inj h
    rfl

theorem raisesDecodeErrors_withDefault (default : α) (convert : Json → Option α)
    (data : Dict Json) (key name : String) :
    RaisesDecodeErrors (withDefault default convert data key name) := by
  unfold withDefault
  split
  · exact raisesDecodeErrors_ok _
  · split
    · exact raisesDecodeErrors_ok _
    · intro e h
      obtain rfl := Except.error.inj h
      rfl

end

theorem ServerTime.raisesDecodeErrors (P : Pydantic) (j : Json) :
    RaisesDecodeErrors (ServerTime.decode P j) := by
  unfold ServerTime.decode
  split
  · exact (raisesDecodeErrors_required _ _ _ _).bind fun _ => raisesDecodeErrors_ok _
  · intro e h
    obtain rfl := Except.error.inj h
    rfl

theorem Order.raisesDecodeErrors (P : Pydantic) (j : Json) :
    RaisesDecodeErrors (Order.decode P j) := by
  unfold Order.decode
  split
  · repeat refine RaisesDecodeErrors.bind (by
      first
      | exact raisesDecodeErrors_required _ _ _ _
      | exact raisesDecodeErrors_withDefault _ _ _ _ _) fun _ => ?_
    exact raisesDecodeErrors_ok _
  · intro e h
    obtain rfl := Except.error.inj h
    rfl

/-! ## Exchange information -/

/-- The fields of a symbol filter that pre-trade validation reads. -/
structure SymbolFilter where
  filterType : FilterType
  minPrice : Option Decimal
  maxPrice : Option Decimal
  tickSize : Option Decimal
  minQty : Option Decimal
  maxQty : Option Decimal
  stepSize : Option Decimal
  minNotional : Option Decimal

structure SymbolInfo where
  symbol : String
  filters : List SymbolFilter

def SymbolInfo.getFilter (info : SymbolInfo) (filterType : FilterType) : Option SymbolFilter :=
  info.filters.find? fun f => f.filterType = filterType

structure ExchangeInfo where
  symbols : List SymbolInfo

def ExchangeInfo.getSymbol (info : ExchangeInfo) (symbol : String) : Option SymbolInfo :=
  info.symbols.find? fun s => s.symbol = symbol

/-- The execution rules of one symbol, of which nothing is enforced yet. -/
structure SymbolExecutionRules where
  symbol : String

structure ExecutionRules where
  symbolRules : List SymbolExecutionRules

def ExecutionRules.getSymbol (rules : ExecutionRules) (symbol : String) :
    Option SymbolExecutionRules :=
  rules.symbolRules.find? fun r => r.symbol = symbol

/-! ## Requests -/

structure OrderRequest where
  symbol : String
  side : OrderSide
  orderType : OrderType
  timeInForce : Option TimeInForce
  quantity : Option Decimal
  quoteOrderQty : Option Decimal
  price : Option Decimal
  newClientOrderId : Option String
  stopPrice : Option Decimal
  recvWindow : Option ℤ
  deriving DecidableEq

namespace OrderRequest

/-- `validate_order_params`: the parameters that the order type requires are there. -/
def validateOrderParams (r : OrderRequest) : Bool :=
  !(r.orderType = .limit &&
      (r.price.isNone || r.timeInForce.isNone || r.quantity.isNone)) &&
    !(r.orderType = .market && r.quantity.isNone && r.quoteOrderQty.isNone) &&
    !(r.orderType ∈ [.stopLoss, .stopLossLimit, .takeProfit, .takeProfitLimit] &&
      r.stopPrice.isNone) &&
    !(r.orderType ∈ [.stopLossLimit, .takeProfitLimit] && (r.price.isNone || r.timeInForce.isNone))

/-- The largest `recvWindow` a request model takes. -/
def maxRecvWindow : ℤ := 60000

/-- `OrderRequest(...)`: strings are stripped, `recv_window` is bounded, and the validator runs. -/
def construct (r : OrderRequest) : Except Exc OrderRequest :=
  let r := { r with
    symbol := strip isSpace r.symbol
    newClientOrderId := r.newClientOrderId.map (strip isSpace) }
  if r.recvWindow.all (· ≤ maxRecvWindow) && r.validateOrderParams then .ok r
  else .error .pydanticError

/-- A request the model accepts: one that its construction returned. -/
def Accepted (r : OrderRequest) : Prop := ∃ r₀, construct r₀ = .ok r

end OrderRequest

structure QueryOrderRequest where
  symbol : String
  orderId : Option ℤ
  origClientOrderId : Option String
  recvWindow : Option ℤ
  deriving DecidableEq

/-- `QueryOrderRequest(...)`. -/
def QueryOrderRequest.construct (r : QueryOrderRequest) : Except Exc QueryOrderRequest :=
  let r := { r with
    symbol := strip isSpace r.symbol
    origClientOrderId := r.origClientOrderId.map (strip isSpace) }
  if r.recvWindow.all (· ≤ OrderRequest.maxRecvWindow) &&
      (r.orderId.isSome || r.origClientOrderId.isSome) then .ok r
  else .error .pydanticError

end BinanceTh
