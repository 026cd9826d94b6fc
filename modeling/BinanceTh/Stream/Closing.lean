import BinanceTh.Stream.Client

/-!
# Closing connections and clients

`_Connection.aclose` of `stream.py`, on top of the steps of `StreamConnection`. It empties the slot
of the supervisor, so a later `subscribe` makes another one; that one leaves its loop at once, since
`_closing` stays set. A supervisor that is cancelled gets a `CancelledError` at its await, and
passes it on, except where it waits for its own reader.

`StreamClient.aclose` runs that of each connection it has in a task of its own. Only the first call
does; `_subscribe` does not look at `_closing`.
-/

namespace BinanceTh

open Transition

/-- What `_dispatch` takes from a message that is JSON; `none` if it offers it to nobody. -/
def demux : Json → Option (String × Json)
  | .obj fields =>
    match Dict.get? fields "stream", Dict.get? fields "data" with
    | some (.str stream), some data => some (stream, data)
    | _, _ => none
  | _ => none

theorem demux_obj {fields : Dict Json} {stream : String} {data : Json}
    (hstream : fields.get? "stream" = some (.str stream))
    (hdata : fields.get? "data" = some data) : demux (.obj fields) = some (stream, data) := by
  simp only [demux, hstream, hdata]

/-- A task of `_run_supervisor`. -/
inductive SupervisorRef where
  /-- The one whose steps are those of `Connection.step`. -/
  | first
  /-- The `i`-th of those made while the connection was closing. -/
  | late (i : ℕ)
  deriving DecidableEq

/-- Where a call of `aclose` stands. -/
inductive AclosePhase where
  | awaiting (supervisor : SupervisorRef)
  /-- In `ws.close()`. -/
  | closingSocket
  | returned
  /-- It has raised what the supervisor raised. -/
  | raised
  deriving DecidableEq

def AclosePhase.finished : AclosePhase → Bool
  | .returned | .raised => true
  | _ => false

structure ClosableConnection where
  stream : StreamConnection
  /-- `_closing`. -/
  closing : Bool
  /-- `_supervisor`. -/
  supervisor : Option SupervisorRef
  /-- A `CancelledError` is on its way to the first supervisor. -/
  cancelRequested : Bool
  /-- The first supervisor has ended with what `_Backoff.next` raised. -/
  failed : Bool
  /-- Of each late supervisor, whether it has ended. -/
  late : List Bool
  /-- The calls of `aclose`. -/
  closes : List AclosePhase
  /-- All the subscriptions that `subscribe` has made. -/
  issued : List Subscription

inductive ClosableLabel where
  | subscribe (stream : String)
  | unsubscribe (sub : Subscription)
  /-- A pending call of `subscribe` or `unsubscribe` returns. -/
  | returned
  /-- A step of the first supervisor; `exc` is the text of the error if its connect fails. -/
  | supervise (l : ConnectionLabel) (exc : String)
  /-- The first supervisor gets its `CancelledError`. -/
  | aborted
  /-- The first step of a late supervisor, or its cancellation before that. -/
  | lateEnded (i : ℕ)
  | dropped
  /-- The reader gets a message that is JSON. -/
  | message (raw : Json)
  /-- The consumer of a subscription takes an item. -/
  | next (sub : Subscription)
  | aclose
  /-- The `i`-th call of `aclose`: its supervisor has ended. -/
  | joined (i : ℕ)
  /-- The `i`-th call of `aclose`: the socket is closed. -/
  | socketClosed (i : ℕ)

/-- The labels of the supervisor's own steps. -/
def ConnectionLabel.isSupervisor : ConnectionLabel → Bool
  | .started | .connected | .connectFailed | .woken _ | .cancelled | .closed | .slept => true
  | _ => false

/-- The wait for a reader that is cancelled. -/
def ConnectionLabel.isCancelled : ConnectionLabel → Bool
  | .cancelled => true
  | _ => false

namespace ClosableConnection

def new (host : String) : ClosableConnection := ⟨.new host, false, none, false, false, [], [], []⟩

/-- `asyncio.create_task(self._run_supervisor())`. -/
def spawn (s : ClosableConnection) : ClosableConnection :=
  if s.closing then
    { s with supervisor := some (.late s.late.length), late := s.late ++ [false] }
  else
    { s with supervisor := some .first, stream.conn.phase := .starting }

def subscribe (config : StreamConfig) (s : ClosableConnection) (stream : String) :
    ClosableConnection :=
  let sub : Subscription := ⟨stream, s.stream.conn.made⟩
  let first := (s.stream.conn.subs.lookup stream).isNone
  let s' := { s with
    stream.conn := s.stream.conn.register stream
    stream.queues := Function.update s.stream.queues sub {}
    issued := s.issued ++ [sub] }
  match s.supervisor with
  | none => s'.spawn
  | some _ =>
    if first then { s' with stream.conn := s'.stream.conn.applyStream config stream .subscribe }
    else s'

/-! ## The supervisor -/

/-- A step of a connection that is closing: the supervisor's loop ends. -/
def leave (s : StreamConnection) (conn : Connection) (exc : String) :
    ConnectionLabel → StreamConnection
  | .started | .slept => { s with conn := { conn with phase := .ended } }
  | .connectFailed =>
    { s with conn := { conn with phase := .ended } }.faultAll ("WebSocket connect failed: " ++ exc)
  | .connected => { s with conn, backoff := s.backoff.reset }
  | .closed => { s with conn := { conn with phase := .ended, planned := s.conn.planned } }
  | _ => { s with conn }

/-- `await self._sleep(backoff.next())` raises what `next` raises. -/
def raises (s : StreamConnection) (conn : Connection) : Bool :=
  conn.phase = .sleeping && s.backoff.next.isOk = false

/-- A `CancelledError` comes before anything else; the await of a cancelled reader takes it. -/
def supervise (config : StreamConfig) (s : ClosableConnection) (l : ConnectionLabel)
    (exc : String) : Option ClosableConnection :=
  if l.isSupervisor && (!s.cancelRequested || l.isCancelled) then
    (s.stream.conn.step config l).map fun conn =>
      if s.closing then
        { s with stream := leave s.stream conn exc l, cancelRequested := false }
      else
        { s with
          stream := s.stream.follow config conn exc l
          failed := s.failed || raises s.stream conn }
  else none

/-- A waiting supervisor cancels its reader, too. -/
def abort (s : ClosableConnection) : Option ClosableConnection :=
  if s.cancelRequested && s.stream.conn.phase.supervised && s.stream.conn.phase ≠ .cancelling then
    some { s with stream.conn.phase := .ended, cancelRequested := false }
  else none

def hasEnded (s : ClosableConnection) : SupervisorRef → Bool
  | .first => !s.stream.conn.phase.supervised
  | .late i => s.late[i]?.getD true

/-! ## The calls of `aclose` -/

/-- `sub.close()` for every subscription, and the registry is empty. -/
def endAll (s : ClosableConnection) : ClosableConnection :=
  { s with
    stream.queues := s.stream.queues.offerAll (Registry.all s.stream.conn.subs) .closed
    stream.conn.subs := ∅
    stream.conn.desired := ∅ }

/-- What follows the await of the supervisor. -/
def closeSocket (s : ClosableConnection) : ClosableConnection × AclosePhase :=
  match s.stream.conn.ws with
  | some _ => ({ s with stream.conn.ws := none }, .closingSocket)
  | none => (s.endAll, .returned)

def join (s : ClosableConnection) (supervisor : SupervisorRef) : ClosableConnection × AclosePhase :=
  if supervisor = .first && s.failed then (s, .raised) else s.closeSocket

/-- `supervisor.cancel()`; a late supervisor ends anyway. -/
def cancel (s : ClosableConnection) (supervisor : SupervisorRef) : ClosableConnection :=
  if supervisor = .first && !s.hasEnded .first then { s with cancelRequested := true } else s

/-- A call up to its first await; one of a task that is done is none. -/
def enter (s : ClosableConnection) : ClosableConnection × AclosePhase :=
  let s' := { s with closing := true, supervisor := none }
  match s.supervisor with
  | none => s'.closeSocket
  | some supervisor =>
    let s'' := s'.cancel supervisor
    if s''.hasEnded supervisor then s''.join supervisor else (s'', .awaiting supervisor)

def aclose (s : ClosableConnection) : ClosableConnection :=
  { s.enter.1 with closes := s.closes ++ [s.enter.2] }

/-- A call that goes on. -/
def resume (s : ClosableConnection) (i : ℕ) (next : ClosableConnection × AclosePhase) :
    ClosableConnection :=
  { next.1 with closes := s.closes.set i next.2 }

/-! ## The steps -/

def step (config : StreamConfig) (s : ClosableConnection) : ClosableLabel → Option ClosableConnection
  | .subscribe stream => some (s.subscribe config stream)
  | .unsubscribe sub =>
    some { s with
      stream.conn := s.stream.conn.unsubscribe config sub
      stream.queues := s.stream.queues.offerTo sub .closed }
  | .returned => (s.stream.conn.step config .returned).map fun conn => { s with stream.conn := conn }
  | .supervise l exc => s.supervise config l exc
  | .aborted => s.abort
  | .lateEnded i => if s.late[i]? = some false then some { s with late := s.late.set i true } else none
  | .dropped => (s.stream.conn.step config .dropped).map fun conn => { s with stream.conn := conn }
  | .message raw =>
    if s.stream.conn.phase = .running then
      match demux raw with
      | some (stream, data) =>
        (s.stream.step config (.frame stream data)).map fun stream => { s with stream }
      | none => some s
    else none
  | .next sub => (s.stream.step config (.next sub)).map fun stream => { s with stream }
  | .aclose => some s.aclose
  | .joined i =>
    match s.closes[i]? with
    | some (.awaiting supervisor) =>
      if s.hasEnded supervisor then some (s.resume i (s.join supervisor)) else none
    | _ => none
  | .socketClosed i =>
    if s.closes[i]? = some .closingSocket then some (s.resume i (s.endAll, .returned)) else none

def system (config : StreamConfig) (host : String) : System ClosableConnection ClosableLabel where
  init := new host
  step s l := s.step config l

variable {config : StreamConfig} {s s' : ClosableConnection} {i : ℕ}

theorem step_returned (h : s.step config .returned = some s') :
    s' = { s with stream.conn.pending := s.stream.conn.pending - 1 } := by
  obtain ⟨conn, hconn, rfl⟩ := Option.map_eq_some_iff.1 h
  obtain ⟨-, hconn⟩ := Option.ite_none_right_eq_some.1 hconn
  obtain rfl := Option.some.inj hconn
  rfl

theorem step_lateEnded (h : s.step config (.lateEnded i) = some s') :
    s.late[i]? = some false ∧ s' = { s with late := s.late.set i true } := by
  obtain ⟨hi, h⟩ := Option.ite_none_right_eq_some.1 h
  exact ⟨hi, (Option.some.inj h).symm⟩

/-- A message changes the queues at most. -/
theorem step_message {raw : Json} (h : s.step config (.message raw) = some s') :
    ∃ queues, s' = { s with stream.queues := queues } := by
  obtain ⟨-, h⟩ := Option.ite_none_right_eq_some.1 h
  split at h
  · obtain ⟨stream, hstream, rfl⟩ := Option.map_eq_some_iff.1 h
    obtain ⟨-, hstream⟩ := Option.ite_none_right_eq_some.1 hstream
    obtain rfl := Option.some.inj hstream
    exact ⟨_, rfl⟩
  · obtain rfl := Option.some.inj h
    exact ⟨_, rfl⟩

theorem step_next {sub : Subscription} (h : s.step config (.next sub) = some s') :
    ∃ item queue, (s.stream.queues sub).next = some (item, queue) ∧
      s' = { s with stream.queues := Function.update s.stream.queues sub queue } := by
  obtain ⟨stream, hstream, rfl⟩ := Option.map_eq_some_iff.1 h
  obtain ⟨⟨item, queue⟩, hnext, rfl⟩ := Option.map_eq_some_iff.1 hstream
  exact ⟨item, queue, hnext, rfl⟩

theorem step_joined (h : s.step config (.joined i) = some s') :
    ∃ supervisor, s.closes[i]? = some (.awaiting supervisor) ∧ s.hasEnded supervisor = true ∧
      s' = s.resume i (s.join supervisor) := by
  simp only [step] at h
  split at h
  · next supervisor hi =>
    obtain ⟨hended, h⟩ := Option.ite_none_right_eq_some.1 h
    exact ⟨supervisor, hi, hended, (Option.some.inj h).symm⟩
  · cases h

theorem step_socketClosed (h : s.step config (.socketClosed i) = some s') :
    s.closes[i]? = some .closingSocket ∧ s' = s.resume i (s.endAll, .returned) := by
  obtain ⟨hi, h⟩ := Option.ite_none_right_eq_some.1 h
  exact ⟨hi, (Option.some.inj h).symm⟩

end ClosableConnection

/-! ## A client -/

/-- How far the first call of `StreamClient.aclose` is. -/
inductive Teardown where
  /-- There is none: `_closing` is not set. -/
  | none
  /-- It waits for `gathered`; the tasks of `scheduled` have not begun. -/
  | gathering (gathered scheduled : List ℕ)
  | done

structure ClosableClient where
  /-- Every connection that was made. -/
  connections : List ClosableConnection
  /-- `_conns`, each connection as its position in `connections`. -/
  conns : Dict ℕ
  /-- `_type_cache` of the router. -/
  typeCache : Dict SymbolType
  /-- The calls of `_subscribe` that wait for the type of their symbol. -/
  lookups : List StreamCall
  teardown : Teardown
  /-- A call of `aclose` has returned. -/
  returned : Bool

inductive ClosableClientLabel where
  /-- A `watch_*` or `order_book` enters `_subscribe`. -/
  | call (call : StreamCall)
  | lookedUp (i : ℕ) (infos : List SymbolTypeInfo)
  | lookupFailed (i : ℕ)
  | connection (i : ℕ) (l : ClosableLabel)
  | aclose
  /-- The task of a connection's `aclose` runs for the first time. -/
  | closeBegun (i : ℕ)
  /-- `asyncio.gather` is done. -/
  | gathered

namespace ClosableClient

def new : ClosableClient := ⟨[], [], [], [], .none, false⟩

/-- `_subscribe` once the symbol's type is known. -/
def subscribe (config : StreamConfig) (router : StreamRouter) (s : ClosableClient)
    (call : StreamCall) (symbolType : SymbolType) : ClosableClient :=
  let host := router.hostFor symbolType
  let stream := router.streamName call.symbol call.channel call.interval
  match Dict.get? s.conns host with
  | some i => { s with connections := s.connections.modify i fun conn => conn.subscribe config stream }
  | none =>
    { s with
      connections := s.connections ++ [(ClosableConnection.new host).subscribe config stream]
      conns := s.conns.set host s.connections.length }

/-- The first call of `aclose` returns. -/
def finish (s : ClosableClient) : ClosableClient :=
  { s with conns := [], teardown := .done, returned := true }

def aclose (s : ClosableClient) : ClosableClient :=
  match s.teardown with
  | .none =>
    let gathered := s.conns.map Prod.snd
    if gathered = [] then s.finish else { s with teardown := .gathering gathered gathered }
  | _ => { s with returned := true }

/-- The `aclose` of a connection has returned or raised. -/
def closed (s : ClosableClient) (i : ℕ) : Bool :=
  s.connections[i]?.any fun conn => conn.closes.all AclosePhase.finished

/-- The steps of a connection that its client makes. -/
def isOwn : ClosableLabel → Bool
  | .subscribe _ | .aclose => false
  | _ => true

def step (config : StreamConfig) (router : StreamRouter) (s : ClosableClient) :
    ClosableClientLabel → Option ClosableClient
  | .call call =>
    match Dict.get? s.typeCache (router.upper call.symbol) with
    | some symbolType => some (s.subscribe config router call symbolType)
    | none => some { s with lookups := s.lookups ++ [call] }
  | .lookedUp i infos => do
    let call ← s.lookups[i]?
    let symbolType := router.typeOf call.symbol infos
    let typeCache := s.typeCache.set (router.upper call.symbol) symbolType
    some ({ s with typeCache, lookups := s.lookups.eraseIdx i }.subscribe config router call
      symbolType)
  | .lookupFailed i => do
    let _ ← s.lookups[i]?
    some { s with lookups := s.lookups.eraseIdx i }
  | .connection i l =>
    if isOwn l then do
      let conn ← s.connections[i]?
      let conn' ← conn.step config l
      some { s with connections := s.connections.set i conn' }
    else none
  | .aclose => some s.aclose
  | .closeBegun i =>
    match s.teardown with
    | .gathering gathered scheduled =>
      if i ∈ scheduled then
        some { s with
          connections := s.connections.modify i ClosableConnection.aclose
          teardown := .gathering gathered (scheduled.erase i) }
      else none
    | _ => none
  | .gathered =>
    match s.teardown with
    | .gathering gathered [] => if gathered.all s.closed then some s.finish else none
    | _ => none

def system (config : StreamConfig) (router : StreamRouter) :
    System ClosableClient ClosableClientLabel where
  init := new
  step s l := s.step config router l

end ClosableClient

end BinanceTh
