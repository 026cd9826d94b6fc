import BinanceTh.Lib.Transition
import BinanceTh.OrderTracker
import Mathlib.Logic.Function.Basic

/-!
# The user-data stream

`userstream.py`: one supervised socket per symbol type, both offering what they read to the queue of
an order tracker. A label is one step of one party: the exchange, the supervisor of one socket, or
the tracker. What the exchange sends on a connected socket is in the queue with the same step; on
another it is lost.
-/

namespace BinanceTh

open Transition

/-! ## A connection -/

/-- Where `_run_supervisor` stands. -/
inductive SupervisorPhase where
  /-- In `keys.create()`. -/
  | creating
  | connecting
  /-- Waiting for its reader, which has ended if the socket is not `live`. -/
  | running (live : Bool)
  /-- In `ws.close()`. -/
  | closing (timedOut : Bool)
  | sleeping
  | ended
  deriving DecidableEq

structure UserDataConnection where
  phase : SupervisorPhase
  first : Bool
  planned : Bool
  deriving DecidableEq

/-- What an await of the supervisor gives, and what happens to its socket. -/
inductive ConnectionEvent where
  /-- `keys.create()` returned; the key for the symbol type, if there is one. -/
  | created (key : Option String)
  | createFailed (isAuthError : Bool) (exc : String)
  | connected
  | connectFailed
  | dropped
  /-- A `listenKeyExpired` frame. -/
  | expired
  /-- The wait for the reader is over: the reader has ended, or the session is too old. -/
  | woken
  | closed
  | slept

namespace UserDataConnection

/-- A connection whose supervisor has just been started. -/
def start : UserDataConnection := ⟨.creating, true, false⟩

/-- The exchange's reports reach the reader. -/
def isConnected (conn : UserDataConnection) : Bool := conn.phase = .running true

/-- `_fault`, and the supervisor returns. -/
def fail (conn : UserDataConnection) (message : String) : UserDataConnection × List Item :=
  ({ conn with phase := .ended }, [.fault message])

/-- What follows an error: sleep and try again, or give up. -/
def backOff (conn : UserDataConnection) (autoReconnect : Bool) (message : String) :
    UserDataConnection × List Item :=
  if autoReconnect then ({ conn with phase := .sleeping }, []) else conn.fail message

/-- `_run_supervisor` between two awaits, with what it offers to the queues. -/
def step (autoReconnect : Bool) (symbolType : SymbolType) (conn : UserDataConnection) :
    ConnectionEvent → Option (UserDataConnection × List Item)
  | .created (some _) =>
    if conn.phase = .creating then some ({ conn with phase := .connecting }, []) else none
  | .created none =>
    if conn.phase = .creating then some (conn.fail ("no listenKey for " ++ symbolType.value))
    else none
  | .createFailed isAuthError exc =>
    if conn.phase = .creating then
      if isAuthError then some (conn.fail ("user-data auth failed: " ++ exc))
      else some (conn.backOff autoReconnect ("listenKey create failed: " ++ exc))
    else none
  | .connected =>
    if conn.phase = .connecting then
      some ({ conn with phase := .running true, first := false },
        if conn.first then [] else [.reconnected])
    else none
  | .connectFailed =>
    if conn.phase = .connecting then some (conn.backOff autoReconnect "user-data connect failed")
    else none
  | .dropped =>
    if conn.phase = .running true then some ({ conn with phase := .running false }, []) else none
  | .expired =>
    if conn.phase = .running true then
      some ({ conn with phase := .running false, planned := true }, [])
    else none
  | .woken =>
    match conn.phase with
    | .running live => some ({ conn with phase := .closing live }, [])
    | _ => none
  | .closed =>
    match conn.phase with
    | .closing timedOut =>
      -- a planned reconnect is not an error
      if timedOut || conn.planned then
        some ({ conn with phase := .creating, planned := false }, [])
      else some (conn.backOff autoReconnect "user-data stream disconnected")
    | _ => none
  | .slept =>
    if conn.phase = .sleeping then some ({ conn with phase := .creating }, []) else none

/-- A step without an open socket at its end; only giving up offers something, a fault. -/
structure Disconnects (conn conn' : UserDataConnection) (items : List Item) : Prop where
  isConnected_eq : conn'.isConnected = false
  first_eq : conn'.first = conn.first
  items_eq : items = [] ∨ conn'.phase = .ended ∧ ∃ message, items = [.fault message]

variable {autoReconnect : Bool} {symbolType : SymbolType} {conn conn' : UserDataConnection}
  {event : ConnectionEvent} {items : List Item}

theorem disconnects_fail {message : String} (h : conn.fail message = (conn', items)) :
    conn.Disconnects conn' items := by
  cases h
  exact ⟨rfl, rfl, .inr ⟨rfl, message, rfl⟩⟩

theorem disconnects_backOff {message : String}
    (h : conn.backOff autoReconnect message = (conn', items)) : conn.Disconnects conn' items := by
  unfold backOff at h
  split at h
  · cases h
    exact ⟨rfl, rfl, .inl rfl⟩
  · exact disconnects_fail h

/-- **What a step of a connection does** to its socket and to the queue. -/
theorem step_cases (h : conn.step autoReconnect symbolType event = some (conn', items)) :
    (event = .connected ∧ conn'.isConnected = true ∧ conn'.first = false ∧
      items = if conn.first then [] else [.reconnected]) ∨ conn.Disconnects conn' items := by
  cases event with
  | connected =>
    obtain ⟨-, h⟩ := Option.ite_none_right_eq_some.1 h
    cases h
    exact .inl ⟨rfl, rfl, rfl, rfl⟩
  | created key =>
    refine .inr ?_
    cases key with
    | none =>
      obtain ⟨-, h⟩ := Option.ite_none_right_eq_some.1 h
      exact disconnects_fail (Option.some.inj h)
    | some key =>
      obtain ⟨-, h⟩ := Option.ite_none_right_eq_some.1 h
      cases h
      exact ⟨rfl, rfl, .inl rfl⟩
  | createFailed isAuthError exc =>
    obtain ⟨-, h⟩ := Option.ite_none_right_eq_some.1 h
    refine .inr ?_
    split at h
    · exact disconnects_fail (Option.some.inj h)
    · exact disconnects_backOff (Option.some.inj h)
  | connectFailed =>
    obtain ⟨-, h⟩ := Option.ite_none_right_eq_some.1 h
    exact .inr (disconnects_backOff (Option.some.inj h))
  | dropped | expired | slept =>
    obtain ⟨-, h⟩ := Option.ite_none_right_eq_some.1 h
    cases h
    exact .inr ⟨rfl, rfl, .inl rfl⟩
  | woken =>
    simp only [step] at h
    split at h <;> cases h
    exact .inr ⟨rfl, rfl, .inl rfl⟩
  | closed =>
    simp only [step] at h
    refine .inr ?_
    split at h
    · split at h
      · cases h
        exact ⟨rfl, rfl, .inl rfl⟩
      · exact disconnects_backOff (Option.some.inj h)
    · cases h

/-- A supervisor that has ended takes no step. -/
theorem step_ended (hended : conn.phase = .ended) :
    conn.step autoReconnect symbolType event = none := by
  unfold step
  cases event with
  | created key => cases key <;> simp [hended]
  | _ => simp [hended]

end UserDataConnection

/-! ## The stream, the exchange and the tracker -/

structure UserStream where
  /-- The exchange's orders, open or not, in their current state. -/
  orders : Table Order.orderId
  /-- What the exchange answered last to `openOrders`. -/
  listing : List Order
  conns : SymbolType → UserDataConnection
  /-- The queue of the tracker's subscription. -/
  queue : List Item
  tracker : OrderTracker

inductive UserStreamLabel where
  /-- An order of the exchange changes. -/
  | change (event : ExecutionReportEvent)
  | connection (symbolType : SymbolType) (event : ConnectionEvent)
  /-- `order_tracker()`. -/
  | orderTracker
  /-- The exchange serves `openOrders`. -/
  | serve (orders : List Order)
  | reply
  | consume

namespace UserStream

/-- The exchange's open orders. -/
def openOrders (s : UserStream) : List Order := s.orders.values.filter Order.isActive

def enqueue (s : UserStream) (items : List Item) : UserStream :=
  { s with queue := s.queue ++ items }

/-- To the tracker's subscription, once there is one. -/
def offer (s : UserStream) (items : List Item) : UserStream :=
  if s.tracker.phase = .unstarted then s else s.enqueue items

/-- Every change of an order has a newer update time. -/
def Supersedes (s : UserStream) (order : Order) : Prop :=
  ∀ prev ∈ s.orders.lookup order.orderId,
    prev.updateTime < order.updateTime ∧ prev.symbol = order.symbol

instance (s : UserStream) (order : Order) : Decidable (s.Supersedes order) := by
  unfold Supersedes
  infer_instance

def changed (s : UserStream) (order : Order) : UserStream :=
  { s with orders := s.orders.insert order }

def withConnection (s : UserStream) (symbolType : SymbolType) (conn : UserDataConnection) :
    UserStream :=
  { s with conns := Function.update s.conns symbolType conn }

/-- `_ensure_started`; no tracker yet. -/
def start (orders : Table Order.orderId) : UserStream :=
  ⟨orders, [], fun _ => .start, [], ⟨.unstarted, none⟩⟩

variable (autoReconnect : Bool) (kindOf : String → SymbolType)

def step (s : UserStream) : UserStreamLabel → Option UserStream
  | .change event =>
    let order := orderFromExecutionReport event
    if s.Supersedes order then
      -- lost if the socket of the symbol's type is not connected
      if (s.conns (kindOf event.symbol)).isConnected then
        some ((s.changed order).offer [.report event])
      else some (s.changed order)
    else none
  | .connection symbolType event =>
    ((s.conns symbolType).step autoReconnect symbolType event).map fun (conn, items) =>
      (s.withConnection symbolType conn).offer items
  | .orderTracker =>
    if s.tracker.phase = .unstarted then
      some { s with tracker := ⟨.awaiting, none⟩, queue := [] }
    else none
  | .serve orders =>
    if s.tracker.phase = .awaiting ∧ orders ⊆ s.openOrders ∧ s.openOrders ⊆ orders then
      some { s with listing := orders, tracker := { s.tracker with phase := .answered } }
    else none
  | .reply =>
    if s.tracker.phase = .answered then
      some { s with tracker := s.tracker.seeded s.listing }
    else none
  | .consume =>
    match s.tracker.phase, s.queue with
    | .reading, item :: queue => some { s with queue, tracker := s.tracker.consume item }
    | _, _ => none

/-- The user-data stream over an exchange that starts with `orders`. -/
def system (orders : Table Order.orderId) : System UserStream UserStreamLabel where
  init := start orders
  step s l := s.step autoReconnect kindOf l

end UserStream

end BinanceTh
