import BinanceTh.Backoff
import BinanceTh.ListenKey
import BinanceTh.Stream.Queue
import BinanceTh.UserStream

/-!
# The user-data client

`UserDataStream` of `userstream.py` with any number of subscriptions: the queues, which both
connections offer to, and the calls that wait in `_ensure_started` for the first listenKeys. The
connections step as in `UserDataConnection.step`; the listenKey manager may answer anything.
-/

namespace BinanceTh

open Transition

/-- A connection with the backoff of its supervisor. -/
structure SupervisedConnection where
  conn : UserDataConnection
  backoff : Backoff

namespace SupervisedConnection

def start : SupervisedConnection := ⟨.start, {}⟩

/-- `await self._sleep(backoff.next())`; what `next` raises ends the supervisor. -/
def sleep (sup : SupervisedConnection) (conn : UserDataConnection) : SupervisedConnection :=
  match sup.backoff.next with
  | .ok (_, backoff) => ⟨conn, backoff⟩
  | .error _ => ⟨{ conn with phase := .ended }, sup.backoff⟩

/-- The supervisor after a step of the connection to `conn`. -/
def follow (sup : SupervisedConnection) (conn : UserDataConnection) : SupervisedConnection :=
  match conn.phase with
  | .sleeping => sup.sleep conn
  | .running true => ⟨conn, sup.backoff.reset⟩
  | _ => ⟨conn, sup.backoff⟩

end SupervisedConnection

/-- What the queues hold besides closes and faults. -/
inductive UserFrame where
  | frame (data : Dict Json)
  /-- `_RECONNECTED`. -/
  | reconnected

/-- `_ORDER_EVENT`. -/
def orderEvent : String := "executionReport"

structure UserDataStream where
  subs : Registry
  /-- The number of subscriptions made. -/
  made : ℕ
  queues : Queues UserFrame
  conns : SymbolType → Option SupervisedConnection
  started : Bool
  /-- The calls in `_ensure_started`, by the event type they will subscribe to. -/
  calls : List String

inductive UserDataLabel where
  /-- A `watch_*` or `order_tracker`. -/
  | call (eventType : String)
  /-- `create` returns to a call, and these are the manager's keys. -/
  | created (i : ℕ) (keys : ListenKeys)
  | createFailed (i : ℕ)
  | connection (symbolType : SymbolType) (event : ConnectionEvent)
  /-- A reader gets a frame. -/
  | frame (symbolType : SymbolType) (eventType : String) (data : Dict Json)
  | unsubscribe (sub : Subscription)
  /-- The consumer of a subscription takes an item. -/
  | next (sub : Subscription)

namespace UserDataStream

def new : UserDataStream := ⟨∅, 0, .new, fun _ => none, false, []⟩

def subscribe (s : UserDataStream) (eventType : String) : UserDataStream :=
  let sub : Subscription := ⟨eventType, s.made⟩
  { s with
    made := s.made + 1
    subs := Registry.add s.subs sub
    queues := Function.update s.queues sub {} }

def unsubscribe (s : UserDataStream) (sub : Subscription) : UserDataStream :=
  { s with subs := Registry.remove s.subs sub, queues := s.queues.offerTo sub .closed }

/-- `_dispatch` of a frame. -/
def dispatch (s : UserDataStream) (eventType : String) (data : Dict Json) : UserDataStream :=
  { s with queues := s.queues.offerAll (Registry.ofStream s.subs eventType) (.payload (.frame data)) }

def broadcastReconnect (s : UserDataStream) : UserDataStream :=
  { s with queues := s.queues.offerAll (Registry.ofStream s.subs orderEvent) (.payload .reconnected) }

def faultAll (s : UserDataStream) (message : String) : UserDataStream :=
  { s with queues := s.queues.offerAll (Registry.all s.subs) (.fault message) }

/-- What a connection offers; a report comes as a frame. -/
def offerItem (s : UserDataStream) : Item → UserDataStream
  | .report _ => s
  | .reconnected => s.broadcastReconnect
  | .fault message => s.faultAll message

def withConnection (s : UserDataStream) (symbolType : SymbolType) (sup : SupervisedConnection) :
    UserDataStream :=
  { s with conns := Function.update s.conns symbolType (some sup) }

/-- A connection for each type that has a key. -/
def startConnections (s : UserDataStream) (keys : ListenKeys) : UserDataStream :=
  { s with started := true, conns := fun symbolType => (keys symbolType).map fun _ => .start }

/-- `_ensure_started` after its `create`; another caller may have won the race. -/
def ensureStarted (s : UserDataStream) (keys : ListenKeys) : UserDataStream :=
  if s.started then s else s.startConnections keys

def step (autoReconnect : Bool) (s : UserDataStream) : UserDataLabel → Option UserDataStream
  | .call eventType =>
    if s.started then some (s.subscribe eventType)
    else some { s with calls := s.calls ++ [eventType] }
  | .created i keys => do
    let eventType ← s.calls[i]?
    some (({ s with calls := s.calls.eraseIdx i }.ensureStarted keys).subscribe eventType)
  | .createFailed i => do
    let _ ← s.calls[i]?
    some { s with calls := s.calls.eraseIdx i }
  | .connection symbolType event => do
    let sup ← s.conns symbolType
    let (conn, items) ← sup.conn.step autoReconnect symbolType event
    some (items.foldl offerItem (s.withConnection symbolType (sup.follow conn)))
  | .frame symbolType eventType data => do
    let sup ← s.conns symbolType
    if sup.conn.isConnected then some (s.dispatch eventType data) else none
  | .unsubscribe sub => some (s.unsubscribe sub)
  | .next sub => (s.queues sub).next.map fun (_, queue) =>
    { s with queues := Function.update s.queues sub queue }

def system (autoReconnect : Bool) : System UserDataStream UserDataLabel where
  init := new
  step s l := s.step autoReconnect l

end UserDataStream

end BinanceTh
