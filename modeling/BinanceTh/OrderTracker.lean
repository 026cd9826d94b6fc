import BinanceTh.Lib.Table
import BinanceTh.Lib.Versioned
import BinanceTh.Models

/-!
# The order tracker

`ordertracker.py` and the conversion of execution reports of `models/userdata.py`. A view holds the
open orders by id; a report replaces its order, removes it once terminal, and is dropped if it is
older than what the view has. For a single order this is a replica of a versioned record
(`get_apply`), and so are the reports of a whole run (`get_foldl_apply`).

The tracker's task waits for `openOrders` and then reads its queue until a reconnect marker sends it
back to wait.
-/

namespace BinanceTh

open Versioned

/-- `_TERMINAL`. -/
def OrderStatus.isTerminal : OrderStatus → Bool
  | .new | .partiallyFilled => false
  | .filled | .canceled | .rejected | .expired => true

def Order.isActive (order : Order) : Bool :=
  order.status = .new || order.status = .partiallyFilled

theorem Order.isActive_eq (order : Order) : order.isActive = !order.status.isTerminal := by
  unfold isActive
  cases order.status <;> rfl

/-- The fields of an execution report that an order is made of. -/
structure ExecutionReportEvent where
  eventTime : ℤ
  symbol : String
  clientOrderId : String
  side : String
  orderType : String
  timeInForce : String
  origQty : Decimal
  price : Decimal
  stopPrice : Option Decimal
  currentOrderStatus : String
  orderId : ℤ
  orderListId : Option ℤ
  cumulativeFilledQty : Decimal
  transactionTime : Option ℤ
  isOnBook : Option Bool
  orderCreationTime : Option ℤ
  cumulativeQuoteQty : Option Decimal
  quoteOrderQty : Option Decimal

/-- `_coerce`. -/
def coerce {α : Type} (ofValue? : String → Option α) (raw : String) (default : α) : α :=
  (ofValue? raw).getD default

def orderFromExecutionReport (evt : ExecutionReportEvent) : Order :=
  let status := coerce OrderStatus.ofValue? evt.currentOrderStatus .new
  let isActive := status = .new || status = .partiallyFilled
  { symbol := evt.symbol
    orderId := evt.orderId
    orderListId := evt.orderListId.getD (-1)
    clientOrderId := evt.clientOrderId
    price := evt.price
    origQty := evt.origQty
    executedQty := evt.cumulativeFilledQty
    cummulativeQuoteQty := evt.cumulativeQuoteQty.getD ⟨0, 0⟩
    status
    timeInForce := coerce TimeInForce.ofValue? evt.timeInForce .gtc
    orderType := coerce OrderType.ofValue? evt.orderType .limit
    side := coerce OrderSide.ofValue? evt.side .buy
    stopPrice := evt.stopPrice
    time := evt.orderCreationTime.getD evt.eventTime
    updateTime := evt.transactionTime.getD evt.eventTime
    isWorking := evt.isOnBook.getD isActive
    origQuoteOrderQty := evt.quoteOrderQty.getD ⟨0, 0⟩ }

/-! ## The view -/

/-- The open orders by `orderId`. -/
abbrev LocalOrderView : Type := Table Order.orderId

namespace LocalOrderView

def seed (orders : List Order) : LocalOrderView := Table.ofList (orders.filter Order.isActive)

def apply (view : LocalOrderView) (event : ExecutionReportEvent) : LocalOrderView :=
  let order := orderFromExecutionReport event
  let put := if order.status.isTerminal then view.erase order.orderId else view.insert order
  match view.lookup order.orderId with
  | some prev => if order.updateTime < prev.updateTime then view else put
  | none => put

/-- `open`. -/
def openOrders (view : LocalOrderView) : List Order := view.values

def get (view : LocalOrderView) (orderId : ℤ) : Option Order := view.lookup orderId

/-! ### One order -/

/-- An order as a versioned record: its update time, and whether it is closed. -/
def reading : Reading Order ℤ where
  version order := order.updateTime
  isFinal order := order.status.isTerminal

theorem mem_openOrders_iff {view : LocalOrderView} {order : Order} :
    order ∈ view.openOrders ↔ view.get order.orderId = some order := Table.mem_values_iff

/-- **One report, one order.** -/
theorem get_apply (view : LocalOrderView) (event : ExecutionReportEvent) (orderId : ℤ) :
    (view.apply event).get orderId = if (orderFromExecutionReport event).orderId = orderId then
      reading.absorb (view.get orderId) (orderFromExecutionReport event) else view.get orderId := by
  generalize horder : orderFromExecutionReport event = order
  have hput : Table.lookup (if order.status.isTerminal then view.erase order.orderId
      else view.insert order) orderId =
      if order.orderId = orderId then reading.keep order else view.lookup orderId := by
    unfold Reading.keep reading
    split
    · exact Table.lookup_erase
    · exact Table.lookup_insert
  unfold get apply
  rw [horder]
  dsimp only
  by_cases hid : order.orderId = orderId
  · subst hid
    rw [if_pos rfl] at hput ⊢
    cases hprev : view.lookup order.orderId with
    | none => exact hput
    | some prev =>
      dsimp only
      by_cases hstale : order.updateTime < prev.updateTime
      · rw [if_pos hstale, hprev]
        exact (Reading.absorb_of_lt hstale).symm
      · rw [if_neg hstale, hput]
        exact (if_neg hstale).symm
  · rw [if_neg hid] at hput ⊢
    split
    · split
      · rfl
      · exact hput
    · exact hput

/-- The reports of one order, as the states they report. -/
def statesOf (orderId : ℤ) (events : List ExecutionReportEvent) : List Order :=
  (events.map orderFromExecutionReport).filter (·.orderId = orderId)

/-- **A run of reports, one order.** -/
theorem get_foldl_apply (events : List ExecutionReportEvent) (view : LocalOrderView) (orderId : ℤ) :
    (events.foldl apply view).get orderId =
      (statesOf orderId events).foldl reading.absorb (view.get orderId) := by
  induction events generalizing view with
  | nil => rfl
  | cons event events ih =>
    rw [List.foldl_cons, ih, get_apply, statesOf, statesOf, List.map_cons]
    by_cases hid : (orderFromExecutionReport event).orderId = orderId
    · rw [if_pos hid, List.filter_cons_of_pos (by simpa using hid), List.foldl_cons]
    · rw [if_neg hid, List.filter_cons_of_neg (by simpa using hid)]

/-- A listing with one state for each order, of which `latest` is the one for `orderId`. -/
theorem get_seed {orders : List Order} {orderId : ℤ} {latest : Option Order}
    (horders : ∀ order ∈ orders, order.orderId = orderId → latest = some order)
    (hlatest : ∀ order, latest = some order →
      order.orderId = orderId ∧ (order.isActive = true → order ∈ orders)) :
    (seed orders).get orderId = latest.bind reading.keep := by
  have hfound : ∀ order ∈ orders.filter Order.isActive, order.orderId = orderId →
      latest = some order := fun order hmem => horders order (List.mem_of_mem_filter hmem)
  unfold seed get
  by_cases hopen : ∃ order, latest = some order ∧ order.isActive = true
  · obtain ⟨order, rfl, hactive⟩ := hopen
    obtain ⟨rfl, hmem⟩ := hlatest order rfl
    have hfilter : order ∈ orders.filter Order.isActive :=
      List.mem_filter.2 ⟨hmem hactive, hactive⟩
    have hkeep : reading.keep order = some order := by
      rw [Order.isActive_eq, Bool.not_eq_true'] at hactive
      exact Reading.keep_eq_some_iff reading |>.2 ⟨hactive, rfl⟩
    rw [Table.lookup_ofList_of_mem hfilter, Option.bind_some, hkeep]
    exact fun o ho hid => (Option.some.inj (hfound o ho hid)).symm
  · have hnone : latest.bind reading.keep = none := by
      refine Option.eq_none_iff_forall_ne_some.2 fun order horder => hopen ?_
      obtain ⟨order', hlatest', hkeep⟩ := Option.bind_eq_some_iff.1 horder
      obtain ⟨hfinal, rfl⟩ := (Reading.keep_eq_some_iff reading).1 hkeep
      refine ⟨order, hlatest', ?_⟩
      rw [Order.isActive_eq, Bool.not_eq_true']
      exact hfinal
    rw [hnone]
    refine Table.lookup_ofList_of_forall_ne fun order hmem hid => hopen ?_
    exact ⟨order, hfound order hmem hid, (List.mem_filter.1 hmem).2⟩

end LocalOrderView

/-! ## The task -/

/-- What a subscription's queue holds: an execution report, `_RECONNECTED` or a `_StreamError`. -/
inductive Item where
  | report (event : ExecutionReportEvent)
  | reconnected
  | fault (message : String)

/-- Where `OrderTrackerSynchronizer.run` stands. -/
inductive TrackerPhase where
  | unstarted
  /-- Its `open_orders` request is on its way. -/
  | awaiting
  /-- Its `open_orders` request is served, the reply on its way. -/
  | answered
  | reading
  | ended
  deriving DecidableEq

structure OrderTracker where
  phase : TrackerPhase
  view : Option LocalOrderView

namespace OrderTracker

/-- `open`. -/
def openOrders (tracker : OrderTracker) : List Order :=
  match tracker.view with
  | some view => view.openOrders
  | none => []

/-- The reply to `open_orders()`: a new view, and on to the queue. -/
def seeded (tracker : OrderTracker) (orders : List Order) : OrderTracker :=
  { tracker with phase := .reading, view := some (LocalOrderView.seed orders) }

/-- One item of the queue. -/
def consume (tracker : OrderTracker) : Item → OrderTracker
  | .report event => { tracker with view := tracker.view.map (·.apply event) }
  | .reconnected => { tracker with phase := .awaiting }
  -- raised in the task
  | .fault _ => { tracker with phase := .ended }

end OrderTracker

end BinanceTh
