import BinanceTh.Lib.Transition
import Mathlib.Data.Finset.Basic
import Mathlib.Data.Finset.Lattice.Lemmas
import Mathlib.Data.List.AList

/-!
# The market stream

`_Connection` of `stream.py`: one socket for all the streams of a host, kept up by a supervisor.
Subscribers change the set of desired streams; the URL of the next connect is made from it, and a
socket that is up is told with a control frame. A label is a call, or one step of the supervisor
from one await to the next.
-/

namespace BinanceTh

open Transition

/-! ## Sockets -/

/-- A combined URL: its host and the names in `?streams=`. -/
structure StreamUrl where
  host : String
  streams : Finset String
  deriving DecidableEq

def combinedUrl (host : String) (streams : Finset String) : StreamUrl := ⟨host, streams⟩

inductive FrameMethod where
  | subscribe
  | unsubscribe
  deriving DecidableEq

/-- A control frame. -/
structure Frame where
  method : FrameMethod
  params : List String
  id : ℕ
  deriving DecidableEq

def subscribeFrame (streams : List String) (requestId : ℕ) (method : FrameMethod) : Frame :=
  ⟨method, streams, requestId⟩

structure Socket where
  url : StreamUrl
  sent : List Frame
  live : Bool
  deriving DecidableEq

namespace Socket

/-- On a socket that is not live it raises. -/
def send (ws : Socket) (frame : Frame) : Socket :=
  if ws.live then { ws with sent := ws.sent ++ [frame] } else ws

def close (ws : Socket) : Socket := { ws with live := false }

end Socket

def Frame.applyTo (streams : Finset String) (frame : Frame) : Finset String :=
  match frame.method with
  | .subscribe => streams ∪ frame.params.toFinset
  | .unsubscribe => streams \ frame.params.toFinset

/-- The streams that the exchange sends on a socket. -/
def Socket.carried (ws : Socket) : Finset String := ws.sent.foldl Frame.applyTo ws.url.streams

/-! ## A connection -/

structure StreamConfig where
  wsAutoReconnect : Bool
  wsSupportsLiveSubscribe : Bool

/-- `_Subscription`: its stream, and which object it is. -/
structure Subscription where
  stream : String
  id : ℕ
  deriving DecidableEq

/-- Where `_run_supervisor` stands. -/
inductive ConnectionPhase where
  /-- There is no supervisor. -/
  | idle
  | starting
  | connecting (url : StreamUrl)
  /-- Waiting for its reader. -/
  | running
  /-- The session is too old; waiting for the cancelled reader. -/
  | cancelling
  /-- In `ws.close()`. -/
  | closing (timedOut : Bool)
  | sleeping
  | ended
  deriving DecidableEq

structure Connection where
  host : String
  desired : Finset String
  subs : AList fun _ : String => List Subscription
  /-- The number of subscriptions made. -/
  made : ℕ
  ws : Option Socket
  phase : ConnectionPhase
  planned : Bool
  reqId : ℕ
  /-- The calls of `subscribe` and `unsubscribe` that have not returned. -/
  pending : ℕ

inductive ConnectionLabel where
  | subscribe (stream : String)
  | unsubscribe (sub : Subscription)
  /-- A pending call returns. -/
  | returned
  /-- The supervisor's task runs for the first time. -/
  | started
  | connected
  | connectFailed
  | dropped
  /-- The wait for the reader is over: it has ended, or the session is too old. -/
  | woken (timedOut : Bool)
  | cancelled
  | closed
  | slept

namespace Connection

def new (host : String) : Connection := ⟨host, ∅, ∅, 0, none, .idle, false, 0, 0⟩

/-- `_apply_stream`. -/
def applyStream (config : StreamConfig) (s : Connection) (stream : String) (method : FrameMethod) :
    Connection :=
  match s.ws with
  | none => s
  | some ws =>
    if config.wsSupportsLiveSubscribe then
      let reqId := s.reqId + 1
      let frame := subscribeFrame [stream] reqId method
      { s with reqId, ws := some (ws.send frame), pending := s.pending + 1 }
    else if s.desired ≠ ∅ then
      { s with planned := true, ws := some ws.close, pending := s.pending + 1 }
    else s

/-- A new subscription to the stream. -/
def register (s : Connection) (stream : String) : Connection :=
  let sub : Subscription := ⟨stream, s.made⟩
  { s with
    made := s.made + 1
    subs := s.subs.insert stream ((s.subs.lookup stream).getD [] ++ [sub])
    desired := insert stream s.desired }

def subscribe (config : StreamConfig) (s : Connection) (stream : String) : Connection :=
  let first := (s.subs.lookup stream).isNone
  if s.phase = .idle then { s.register stream with phase := .starting }
  else if first then (s.register stream).applyStream config stream .subscribe
  else s.register stream

/-- The stream has no subscription left. -/
def unregister (s : Connection) (stream : String) : Connection :=
  { s with subs := s.subs.erase stream, desired := s.desired.erase stream }

def unsubscribe (config : StreamConfig) (s : Connection) (sub : Subscription) : Connection :=
  match s.subs.lookup sub.stream with
  | none => s
  | some subs =>
    if subs.erase sub = [] then
      (s.unregister sub.stream).applyStream config sub.stream .unsubscribe
    else { s with subs := s.subs.insert sub.stream (subs.erase sub) }

/-- The top of the supervisor's loop. -/
def connect (s : Connection) : Connection :=
  { s with phase := .connecting (combinedUrl s.host s.desired) }

/-- What follows an error: sleep and try again, or give up. -/
def backOff (config : StreamConfig) (s : Connection) : Connection :=
  { s with phase := if config.wsAutoReconnect then .sleeping else .ended }

def step (config : StreamConfig) (s : Connection) : ConnectionLabel → Option Connection
  | .subscribe stream => some (s.subscribe config stream)
  | .unsubscribe sub => some (s.unsubscribe config sub)
  | .returned => if 0 < s.pending then some { s with pending := s.pending - 1 } else none
  | .started => if s.phase = .starting then some s.connect else none
  | .connected =>
    match s.phase with
    | .connecting url => some { s with ws := some ⟨url, [], true⟩, phase := .running }
    | _ => none
  | .connectFailed =>
    match s.phase with
    | .connecting _ => some (s.backOff config)
    | _ => none
  | .dropped => some { s with ws := s.ws.map Socket.close }
  | .woken timedOut =>
    if s.phase = .running then
      if timedOut then some { s with phase := .cancelling }
      else some { s with phase := .closing false, ws := s.ws.map Socket.close }
    else none
  | .cancelled =>
    if s.phase = .cancelling then
      some { s with phase := .closing true, ws := s.ws.map Socket.close }
    else none
  | .closed =>
    match s.phase with
    | .closing timedOut =>
      let s' := { s with ws := none }
      -- a planned reconnect is not an error
      if timedOut || s.planned then some { s' with planned := false }.connect
      else some (s'.backOff config)
    | _ => none
  | .slept => if s.phase = .sleeping then some s.connect else none

def system (config : StreamConfig) (host : String) : System Connection ConnectionLabel where
  init := new host
  step s l := s.step config l

end Connection

end BinanceTh
