import BinanceTh.Backoff
import BinanceTh.Models
import BinanceTh.Stream.Queue

/-!
# The market-stream client

`StreamClient` of `stream.py`: a connection for each host, the queues of its subscriptions, and the
calls that look up a symbol's type before they subscribe. A supervisor ends by giving up, with a
fault to every subscription, or by the `OverflowError` of its backoff, without one.

The connection itself steps as in `Connection.step`.
-/

namespace BinanceTh

open Transition

/-! ## A connection with its queues -/

structure StreamConnection where
  conn : Connection
  queues : Queues Json
  backoff : Backoff

inductive StreamConnectionLabel where
  /-- A step of the connection; `exc` is the text of the error if its connect fails. -/
  | connection (l : ConnectionLabel) (exc : String)
  /-- The reader gets a frame. -/
  | frame (stream : String) (data : Json)
  /-- The consumer of a subscription takes an item. -/
  | next (sub : Subscription)

/-- There is a supervisor that has not ended. -/
def ConnectionPhase.supervised : ConnectionPhase → Bool
  | .idle => false
  | .ended => false
  | _ => true

namespace StreamConnection

def new (host : String) : StreamConnection := ⟨.new host, Queues.new, {}⟩

def subscribe (config : StreamConfig) (s : StreamConnection) (stream : String) : StreamConnection :=
  { s with
    conn := s.conn.subscribe config stream
    queues := Function.update s.queues ⟨stream, s.conn.made⟩ {} }

/-- `_fault_all`. -/
def faultAll (s : StreamConnection) (message : String) : StreamConnection :=
  { s with queues := s.queues.offerAll (Registry.all s.conn.subs) (.fault message) }

/-- `await self._sleep(backoff.next())`; what `next` raises ends the supervisor. -/
def sleep (s : StreamConnection) (conn : Connection) : StreamConnection :=
  match s.backoff.next with
  | .ok (_, backoff) => { s with conn, backoff }
  | .error _ => { s with conn := { conn with phase := .ended } }

/-- After an error, or a planned reconnect. -/
def goOn (s : StreamConnection) (conn : Connection) (message : String) : StreamConnection :=
  match conn.phase with
  | .sleeping => s.sleep conn
  | .ended => { s with conn }.faultAll message
  | _ => { s with conn }

/-- What a step of the connection to `conn` does to the rest. -/
def follow (config : StreamConfig) (s : StreamConnection) (conn : Connection) (exc : String) :
    ConnectionLabel → StreamConnection
  | .subscribe stream => s.subscribe config stream
  | .unsubscribe sub => { s with conn, queues := s.queues.offerTo sub .closed }
  | .connected => { s with conn, backoff := s.backoff.reset }
  | .connectFailed => s.goOn conn ("WebSocket connect failed: " ++ exc)
  | .closed => s.goOn conn "WebSocket disconnected"
  | _ => { s with conn }

def step (config : StreamConfig) (s : StreamConnection) :
    StreamConnectionLabel → Option StreamConnection
  | .connection l exc => (s.conn.step config l).map fun conn => s.follow config conn exc l
  | .frame stream data =>
    if s.conn.phase = .running then
      some { s with
        queues := s.queues.offerAll (Registry.ofStream s.conn.subs stream) (.payload data) }
    else none
  | .next sub => (s.queues sub).next.map fun (_, queue) =>
    { s with queues := Function.update s.queues sub queue }

end StreamConnection

/-! ## The client -/

structure SymbolTypeInfo where
  symbol : String
  symbolType : String

/-- `StreamRouter`, with `str.upper` and `str.lower`. -/
structure StreamRouter where
  wsBaseUrlGlobal : String
  wsBaseUrlSite : String
  upper : String → String
  lower : String → String

namespace StreamRouter

/-- What `_resolve_type` takes from the answer of its provider. -/
def typeOf (router : StreamRouter) (symbol : String) (infos : List SymbolTypeInfo) : SymbolType :=
  match (infos.find? fun i => router.upper i.symbol = router.upper symbol).or infos.head? with
  | some info => (SymbolType.ofValue? info.symbolType).getD .site
  | none => .site

def hostFor (router : StreamRouter) : SymbolType → String
  | .global => router.wsBaseUrlGlobal
  | .site => router.wsBaseUrlSite

def streamName (router : StreamRouter) (symbol channel : String) (interval : Option String) :
    String :=
  let suffix := match interval with
    | none => channel
    | some interval => channel ++ "_" ++ interval
  router.lower symbol ++ "@" ++ suffix

end StreamRouter

/-- The arguments of `_subscribe`. -/
structure StreamCall where
  symbol : String
  channel : String
  interval : Option String

structure StreamClient where
  /-- `_conns`; one that is not made yet is new. -/
  conns : String → StreamConnection
  /-- `_type_cache` of the router. -/
  typeCache : Dict SymbolType
  /-- The calls of `_subscribe` that wait for the type of their symbol. -/
  lookups : List StreamCall

inductive StreamClientLabel where
  /-- A `watch_*` or `order_book` enters `_subscribe`. -/
  | call (call : StreamCall)
  | lookedUp (i : ℕ) (infos : List SymbolTypeInfo)
  | lookupFailed (i : ℕ)
  | connection (host : String) (l : StreamConnectionLabel)

namespace StreamClient

def new : StreamClient := ⟨.new, [], []⟩

def withConnection (s : StreamClient) (host : String) (conn : StreamConnection) : StreamClient :=
  { s with conns := Function.update s.conns host conn }

/-- `_subscribe` once the symbol's type is known. -/
def subscribe (config : StreamConfig) (router : StreamRouter) (s : StreamClient) (call : StreamCall)
    (symbolType : SymbolType) : StreamClient :=
  let host := router.hostFor symbolType
  s.withConnection host
    ((s.conns host).subscribe config (router.streamName call.symbol call.channel call.interval))

/-- `_subscribe` makes the subscriptions of a connection. -/
def isSubscribe : StreamConnectionLabel → Bool
  | .connection (.subscribe _) _ => true
  | _ => false

def step (config : StreamConfig) (router : StreamRouter) (s : StreamClient) :
    StreamClientLabel → Option StreamClient
  | .call call =>
    match Dict.get? s.typeCache (router.upper call.symbol) with
    | some symbolType => some (s.subscribe config router call symbolType)
    | none => some { s with lookups := s.lookups ++ [call] }
  | .lookedUp i infos => do
    let call ← s.lookups[i]?
    let symbolType := router.typeOf call.symbol infos
    let typeCache := s.typeCache.set (router.upper call.symbol) symbolType
    some ({ s with typeCache, lookups := s.lookups.eraseIdx i }.subscribe config router call
      symbolType)
  | .lookupFailed i => do
    let _ ← s.lookups[i]?
    some { s with lookups := s.lookups.eraseIdx i }
  | .connection host l =>
    if isSubscribe l then none
    else ((s.conns host).step config l).map fun conn => s.withConnection host conn

def system (config : StreamConfig) (router : StreamRouter) :
    System StreamClient StreamClientLabel where
  init := new
  step s l := s.step config router l

end StreamClient

/-- `upper` and `lower` as they are on the symbol BTCUSDT. -/
def sampleRouter : StreamRouter where
  wsBaseUrlGlobal := "wss://global"
  wsBaseUrlSite := "wss://site"
  upper symbol := symbol
  lower symbol := if symbol = "BTCUSDT" then "btcusdt" else symbol

def tradesCall : StreamCall := ⟨"BTCUSDT", "trade", none⟩

end BinanceTh
