import BinanceTh.Lib.ReadLoop
import BinanceTh.Stream.Closing
import BinanceTh.UserStream.Client

/-!
# Malformed frames

What the read loops of `stream.py` and `userstream.py` make of a raw frame, whatever it is; what
`json.loads` makes of it is a parameter. A market connection looks its subscriptions up under the
value of `stream` before it knows that this is a string. A value that cannot be hashed, an array or
an object, raises there, and the loop ends. The user-data connection looks at the type first, and
never raises.
-/

namespace BinanceTh

open ReadLoop

/-! ## Raw frames -/

/-- What `json.loads` raises. -/
inductive LoadsError where
  /-- `JSONDecodeError` and `UnicodeDecodeError` among others. -/
  | valueError
  | typeError
  /-- Nested too deeply. -/
  | recursionError
  deriving DecidableEq

/-- `except (ValueError, TypeError): return`, or else the exception goes on. -/
def LoadsError.skip : LoadsError → Except Exc Bool
  | .valueError | .typeError => .ok false
  | .recursionError => .error .recursionError

/-- `_subs.get(key, ())`; no name equals a key that is not a string. -/
def subsUnder (subs : Registry) : Json → Except Exc (List Subscription)
  | .str stream => .ok (Registry.ofStream subs stream)
  | .arr _ | .obj _ => .error .typeError
  | _ => .ok []

variable {ρ : Type} (loads : ρ → Except LoadsError Json)

namespace StreamConnection

/-- `_dispatch` of a market connection. -/
def dispatch : Handler StreamConnection ρ Exc := fun s raw =>
  match loads raw with
  | .error e => (s, e.skip)
  | .ok (.obj frame) =>
    match Dict.get? frame "stream", Dict.get? frame "data" with
    | some stream, some data =>
      match subsUnder s.conn.subs stream with
      | .ok subs => ({ s with queues := s.queues.offerAll subs (.payload data) }, .ok false)
      | .error e => (s, .error e)
    | _, _ => (s, .ok false)
  | .ok _ => (s, .ok false)

/-- The members that the demultiplexer needs, with a name. -/
def isMessage : Json → Bool
  | .obj frame =>
    match Dict.get? frame "stream", Dict.get? frame "data" with
    | some (.str _), some _ => true
    | _, _ => false
  | _ => false

/-- An object with `data` and with a `stream` that cannot be hashed. -/
def isUnhashable : Json → Bool
  | .obj frame =>
    match Dict.get? frame "stream", Dict.get? frame "data" with
    | some (.arr _), some _ => true
    | some (.obj _), some _ => true
    | _, _ => false
  | _ => false

end StreamConnection

namespace UserDataStream

/-- `_dispatch` of the stream. -/
def dispatchFrame (s : UserDataStream) (frame : Dict Json) : UserDataStream :=
  match Dict.get? frame "e" with
  | some (.str eventType) => s.dispatch eventType frame
  | _ => s

/-- `_handle` of a connection of the stream; `true` ends its reader. -/
def handle : Handler UserDataStream ρ Exc := fun s raw =>
  match loads raw with
  | .error e => (s, e.skip)
  | .ok (.obj frame) =>
    match Dict.get? frame "e" with
    | some (.str "listenKeyExpired") => (s, .ok true)
    | _ => (s.dispatchFrame frame, .ok false)
  | .ok _ => (s, .ok false)

/-- An event with a name. -/
def isMessage : Json → Bool
  | .obj frame =>
    match Dict.get? frame "e" with
    | some (.str _) => true
    | _ => false
  | _ => false

end UserDataStream

/-- The frame is not JSON, or none that the predicate holds of. -/
def malformed (isMessage : Json → Bool) (raw : ρ) : Bool :=
  match loads raw with
  | .ok json => !isMessage json
  | .error _ => true

/-- `stream` cannot be hashed. -/
def unhashable (raw : ρ) : Bool :=
  match loads raw with
  | .ok json => StreamConnection.isUnhashable json
  | .error _ => false

/-- Reading the frames raises nothing, those in `skip` change nothing, and all that is done is the
same without them. -/
structure Skips {σ : Type} (handle : Handler σ ρ Exc) (skip : ρ → Bool) (s : σ)
    (events : List (Event σ ρ)) : Prop where
  not_raised : ∀ e, (run handle { state := s } events).status ≠ .raised e
  unchanged : ∀ raw, .frame raw ∈ events → skip raw = true → ∀ state, (handle state raw).1 = state
  absent : run handle { state := s } (events.filter fun event => !event.isFrame skip) =
    run handle { state := s } events

variable {loads} {raw : ρ}

/-! ## Market frames -/

namespace StreamConnection

variable {s : StreamConnection}

/-- A message is dispatched as in a step of the connection. -/
theorem dispatch_message {config : StreamConfig} {json data : Json} {stream : String}
    (hloads : loads raw = .ok json) (hdemux : demux json = some (stream, data))
    (hrunning : s.conn.phase = .running) :
    s.step config (.frame stream data) = some (dispatch loads s raw).1 := by
  unfold demux at hdemux
  split at hdemux
  · next fields =>
    split at hdemux
    · next stream' data' hstream hdata =>
      obtain ⟨rfl, rfl⟩ := Prod.mk.inj (Option.some.inj hdemux)
      simp only [dispatch, hloads, hstream, hdata, subsUnder, step, if_pos hrunning]
    · cases hdemux
  · cases hdemux

/-- The lookup under a list or a dictionary raises. -/
theorem dispatch_unhashable (h : unhashable loads raw = true) (s : StreamConnection) :
    dispatch loads s raw = (s, .error .typeError) := by
  unfold unhashable at h
  split at h
  · next json hloads =>
    unfold isUnhashable at h
    split at h
    · next frame =>
      split at h
      · next hstream hdata => simp only [dispatch, hloads, hstream, hdata, subsUnder]
      · next hstream hdata => simp only [dispatch, hloads, hstream, hdata, subsUnder]
      · cases h
    · cases h
  · cases h

/-- Every other frame is handled. -/
theorem dispatch_ok (h : unhashable loads raw = false)
    (hnesting : loads raw ≠ .error .recursionError) (s : StreamConnection) :
    (dispatch loads s raw).2 = .ok false ∧
      (malformed loads isMessage raw = true → dispatch loads s raw = (s, .ok false)) := by
  unfold unhashable at h
  unfold malformed dispatch
  cases hloads : loads raw with
  | error e =>
    cases e with
    | recursionError => exact absurd hloads hnesting
    | _ => exact ⟨rfl, fun _ => rfl⟩
  | ok json =>
    rw [hloads] at h
    cases json with
    | obj frame =>
      dsimp only [isMessage, isUnhashable] at h ⊢
      cases hstream : Dict.get? frame "stream" with
      | none => exact ⟨rfl, fun _ => rfl⟩
      | some stream =>
        cases hdata : Dict.get? frame "data" with
        | none => cases stream <;> exact ⟨rfl, fun _ => rfl⟩
        | some data =>
          rw [hstream, hdata] at h
          cases stream with
          | str stream => exact ⟨rfl, fun h => by cases h⟩
          | arr items => cases h
          | obj fields => cases h
          | _ => exact ⟨rfl, fun _ => rfl⟩
    | _ => exact ⟨rfl, fun _ => rfl⟩

variable {events : List (Event StreamConnection ρ)}

/-- The loop of a market connection. -/
theorem skips_iff (hnesting : ∀ raw, .frame raw ∈ events → loads raw ≠ .error .recursionError)
    (s : StreamConnection) :
    Skips (dispatch loads) (malformed loads isMessage) s events ↔
      ∀ raw, .frame raw ∈ events → unhashable loads raw = false := by
  have hiff : (∀ e, (run (dispatch loads) { state := s } events).status ≠ .raised e) ↔
      ∀ raw, .frame raw ∈ events → unhashable loads raw = false :=
    run_not_raised_iff
      (fun raw _ hbad state => ⟨.typeError, by rw [dispatch_unhashable hbad]⟩)
      (fun raw hraw hgood state => (dispatch_ok hgood (hnesting raw hraw) state).1) rfl
  constructor
  · exact fun h => hiff.1 h.not_raised
  · intro hall
    have hsame : ∀ raw, .frame raw ∈ events → malformed loads isMessage raw = true →
        ∀ state, dispatch loads state raw = (state, .ok false) :=
      fun raw hraw hmalformed state =>
        (dispatch_ok (hall raw hraw) (hnesting raw hraw) state).2 hmalformed
    refine ⟨hiff.2 hall, ?_, run_filter hsame⟩
    exact fun raw hraw hmalformed state => congrArg Prod.fst (hsame raw hraw hmalformed state)

end StreamConnection

/-! ## Frames of user data -/

namespace UserDataStream

theorem handle_malformed (h : malformed loads isMessage raw = true)
    (hnesting : loads raw ≠ .error .recursionError) (s : UserDataStream) :
    handle loads s raw = (s, .ok false) := by
  unfold malformed at h
  unfold handle
  cases hloads : loads raw with
  | error e =>
    cases e with
    | recursionError => exact absurd hloads hnesting
    | _ => rfl
  | ok json =>
    rw [hloads] at h
    cases json with
    | obj frame =>
      dsimp only [isMessage] at h ⊢
      unfold dispatchFrame
      cases hname : Dict.get? frame "e" with
      | none => rfl
      | some name =>
        rw [hname] at h
        cases name with
        | str eventType => cases h
        | _ => rfl
    | _ => rfl

theorem handle_not_raised (hnesting : loads raw ≠ .error .recursionError) (s : UserDataStream)
    (e : Exc) : (handle loads s raw).2 ≠ .error e := by
  unfold handle
  split
  · next e' hloads =>
    cases e' with
    | recursionError => exact absurd hloads hnesting
    | _ => exact fun heq => by cases heq
  · split <;> exact fun heq => by cases heq
  · exact fun heq => by cases heq

variable {events : List (Event UserDataStream ρ)}

/-- The loop of a user-data connection. -/
theorem skips (hnesting : ∀ raw, .frame raw ∈ events → loads raw ≠ .error .recursionError)
    (s : UserDataStream) : Skips (handle loads) (malformed loads isMessage) s events := by
  have hsame : ∀ raw, .frame raw ∈ events → malformed loads isMessage raw = true →
      ∀ state, handle loads state raw = (state, .ok false) :=
    fun raw hraw hmalformed => handle_malformed hmalformed (hnesting raw hraw)
  refine ⟨?_, ?_, run_filter hsame⟩
  · exact run_not_raised (fun raw hraw => handle_not_raised (hnesting raw hraw))
      (fun e heq => by cases heq)
  · exact fun raw hraw hmalformed state => congrArg Prod.fst (hsame raw hraw hmalformed state)

end UserDataStream

/-! ## Both loops -/

/-- **Malformed frames are skipped** by both read loops, whatever other tasks do between two frames,
if and only if no market frame is an object that has `data` and an array or an object as `stream`.
The frames are any whose nesting the decoder can follow. -/
theorem skips_malformed_iff {marketEvents : List (Event StreamConnection ρ)}
    {userEvents : List (Event UserDataStream ρ)}
    (hmarket : ∀ raw, .frame raw ∈ marketEvents → loads raw ≠ .error .recursionError)
    (huser : ∀ raw, .frame raw ∈ userEvents → loads raw ≠ .error .recursionError)
    (market : StreamConnection) (user : UserDataStream) :
    (Skips (StreamConnection.dispatch loads) (malformed loads StreamConnection.isMessage) market
        marketEvents ∧
      Skips (UserDataStream.handle loads) (malformed loads UserDataStream.isMessage) user
        userEvents) ↔
      ∀ raw, .frame raw ∈ marketEvents → unhashable loads raw = false := by
  rw [StreamConnection.skips_iff hmarket market]
  exact and_iff_left (UserDataStream.skips huser user)

/-- Two texts with what they decode to; no other text is JSON here. -/
def decodeText (text : String) : Except LoadsError Json :=
  if text = "\x7b\"stream\": \"btcthb@trade\", \"data\": 1\x7d" then
    .ok (.obj [("stream", .str "btcthb@trade"), ("data", .int 1)])
  else if text = "\x7b\"stream\": [], \"data\": 1\x7d" then
    .ok (.obj [("stream", .arr []), ("data", .int 1)])
  else .error .valueError

theorem decodeText_ne (text : String) : decodeText text ≠ .error .recursionError := by
  unfold decodeText
  split
  · exact fun heq => by cases heq
  · split <;> exact fun heq => by cases heq

/-- A subscription is made; a text that is not JSON comes before each of two messages. -/
def goodFrames : List (Event StreamConnection String) :=
  [.other fun s => s.subscribe ⟨true, true⟩ "btcthb@trade", .frame "not json",
    .frame "\x7b\"stream\": \"btcthb@trade\", \"data\": 1\x7d", .frame "",
    .frame "\x7b\"stream\": \"btcthb@trade\", \"data\": 1\x7d"]

/-- Both messages are delivered. -/
theorem skips_malformed_iff_goodFrames :
    ((run (StreamConnection.dispatch decodeText) { state := .new "wss://site" }
        goodFrames).state.queues ⟨"btcthb@trade", 0⟩).items = [.payload (.int 1), .payload (.int 1)] ∧
      ∀ e, (run (UserDataStream.handle decodeText) { state := .new } [.frame "not json"]).status ≠
        .raised e := by
  have hhashable : ∀ raw, .frame raw ∈ goodFrames → unhashable decodeText raw = false := by
    intro raw hraw
    simp only [goodFrames, List.mem_cons, List.not_mem_nil, or_false, Event.frame.injEq,
      reduceCtorEq, false_or] at hraw
    rcases hraw with rfl | rfl | rfl | rfl <;> rfl
  have hskips : Skips (StreamConnection.dispatch decodeText)
        (malformed decodeText StreamConnection.isMessage) (.new "wss://site") goodFrames ∧
      Skips (UserDataStream.handle decodeText) (malformed decodeText UserDataStream.isMessage) .new
        [.frame "not json"] :=
    (skips_malformed_iff (fun raw _ => decodeText_ne raw) (fun raw _ => decodeText_ne raw)
      (.new "wss://site") .new).2 hhashable
  refine ⟨?_, hskips.2.not_raised⟩
  rw [← hskips.1.absent]
  rfl

/-- An array as `stream` ends the loop. -/
theorem not_skips_malformed :
    ¬ ∀ events : List (Event StreamConnection String),
      Skips (StreamConnection.dispatch decodeText)
        (malformed decodeText StreamConnection.isMessage) (.new "wss://site") events := by
  intro h
  refine (h [.frame "\x7b\"stream\": [], \"data\": 1\x7d"]).not_raised .typeError ?_
  rfl

end BinanceTh
