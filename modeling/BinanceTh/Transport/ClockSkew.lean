import BinanceTh.Orders.Session

/-!
# The server's clock

The exchange refuses a signed request whose timestamp is later than its own clock, or older than the
request's window. The client keeps an offset, which it takes from the reply of the time endpoint:
it is never ahead of the exchange's clock, and behind by what that reply took. Here the local clock
is off by any constant, and the limiter, a request and a reply have longest times. Where they fit in
the window together, a client whose offset is its own has every request accepted in time
(`OrdersClient.session_inTime`), and one whose offset is wrong is refused for it at most until it has
resynchronized: no request ends with a timestamp error (`Transport.request_heals`).
-/

namespace BinanceTh

open Interaction

/-- How far the local clock is behind the exchange's, and how long the limiter, a request and the
reply of the time endpoint take at most. -/
structure Delays where
  skew : ℤ
  wait : ℤ
  transit : ℤ
  latency : ℤ

namespace Delays

/-- How old a timestamp is at most when it arrives. -/
def total (d : Delays) : ℤ := d.latency + d.wait + d.transit

/-- The offset makes of the local clock one that is not ahead, and behind by a reply's latency at
most. -/
def Accurate (d : Delays) (s : TimeSync) : Prop :=
  d.skew - d.latency ≤ s.offsetMs ∧ s.offsetMs ≤ d.skew

end Delays

/-- The timestamp of a request that arrives now is not in the future, and its window is open. -/
def HttpRequest.InWindow (request : HttpRequest) (arrival : ℤ) : Prop :=
  ∃ timestamp window : ℤ, Dict.get? request.params "timestamp" = some (.str (toString timestamp)) ∧
    Dict.get? request.params "recvWindow" = some (.str (toString window)) ∧
    timestamp ≤ arrival ∧ arrival ≤ timestamp + window

/-- The reply refuses the request for its timestamp. -/
def NetResult.isRefusal : NetResult → Bool
  | .response reply => 400 ≤ reply.status && (Exc.api reply.apiError).isTimestampError
  | _ => false

/-- The exchange: its clock, and what has arrived when, latest first. -/
structure ServerClock where
  now : ℤ
  arrived : List (HttpRequest × ℤ)

namespace ServerClock

/-- How the exchange answers a request. -/
inductive Replies (T : Transport) (d : Delays) (c : ServerClock) (request : HttpRequest)
    (net : NetResult) : ServerClock → Prop
  /-- It does not arrive, or something on the way answers it. -/
  | lost {now : ℤ} : c.now ≤ now → net.isRefusal = false →
      (request = T.timeRequest → ∀ t, T.timeOutcome net ≠ .ok t) →
      Replies T d c request net ⟨now, c.arrived⟩
  /-- It is refused for its timestamp only out of its window; the time endpoint tells the time. -/
  | arrived {arrival now : ℤ} : c.now ≤ arrival → arrival ≤ c.now + d.transit → c.now ≤ now →
      (net.isRefusal = true → Dict.contains request.params "timestamp" = true ∧
        ¬ request.InWindow arrival) →
      (request = T.timeRequest → ∀ t, T.timeOutcome net = .ok t →
        t.serverTime = arrival ∧ arrival ≤ now ∧ now ≤ arrival + d.latency) →
      Replies T d c request net ⟨now, (request, arrival) :: c.arrived⟩

/-- Time passes while the task waits. -/
def Answers (T : Transport) (d : Delays) (c : ServerClock) : (op : Op) → Ans op → ServerClock → Prop
  | .clock, reading, c' => reading = c.now - d.skew ∧ c' = c
  | .acquire _ _, _, c' =>
    c.now ≤ c'.now ∧ c'.now ≤ c.now + d.wait ∧ c'.arrived = c.arrived
  | .send request, net, c' => Replies T d c request net c'
  | .sleep _, _, c' | .exchangeInfo _, _, c' | .executionRules, _, c' =>
    c.now ≤ c'.now ∧ c'.arrived = c.arrived
  | _, _, c' => c' = c

/-- Every signed request that has arrived since `past` did so in its window. -/
def InTime (past : List (HttpRequest × ℤ)) (c : ServerClock) : Prop :=
  ∃ arrived, c.arrived = arrived ++ past ∧
    ∀ x ∈ arrived, Dict.contains x.1.params "timestamp" = true → x.1.InWindow x.2

variable {T : Transport} {d : Delays} {c c' : ServerClock} {past : List (HttpRequest × ℤ)}
  {request : HttpRequest} {net : NetResult}

theorem InTime.congr (h : c.InTime past) (heq : c'.arrived = c.arrived) : c'.InTime past := by
  unfold InTime
  rwa [heq]

/-- A request that can only arrive in its window is not refused. -/
theorem InTime.replies (h : c.InTime past) (hreplies : Replies T d c request net c')
    (hwindow : ∀ arrival, c.now ≤ arrival → arrival ≤ c.now + d.transit →
      Dict.contains request.params "timestamp" = true → request.InWindow arrival) :
    c'.InTime past ∧ net.isRefusal = false := by
  cases hreplies with
  | lost _ hrefusal _ => exact ⟨h.congr rfl, hrefusal⟩
  | arrived hsent harrival _ hrefusal _ =>
    have hopen := hwindow _ hsent harrival
    obtain ⟨arrived, harrived, hall⟩ := h
    refine ⟨⟨_ :: arrived, congrArg _ harrived, fun x hx => ?_⟩, ?_⟩
    · rcases List.mem_cons.1 hx with rfl | hx
      · exact hopen
      · exact hall x hx
    · refine Bool.eq_false_of_not_eq_true fun hrefused => ?_
      obtain ⟨hstamped, hclosed⟩ := hrefusal hrefused
      exact hclosed (hopen hstamped)

end ServerClock

/-! ## Transmissions -/

namespace Transport

open ServerClock

variable {T : Transport} {call : Call} {d : Delays} {past : List (HttpRequest × ℤ)}

/-- Only a refusal is raised as a timestamp error. -/
theorem isTimestampError_of_outcome {net : NetResult} {e : Exc} (hbare : call.envelope = false)
    (hrefusal : net.isRefusal = false) (h : T.outcome call net = .error e) :
    e.isTimestampError = false := by
  cases e with
  | api a =>
    obtain ⟨reply, rfl, hstatus, -, rfl⟩ := (outcome_eq_api_iff hbare).1 h
    exact (Bool.and_eq_false_iff.1 hrefusal).resolve_left (by simpa using hstatus)
  | _ => rfl

theorem admits_followUp {net : NetResult} {update : Except LimiterError Unit} {c c' : ServerClock}
    (h : Admits (Answers T d) c (T.followUp call net update) c') : c' = c := by
  refine h.invariant (I := fun c' => c' = c) (fun e he c₁ c₂ hc₁ hanswer => ?_) rfl
  have hlog {enabled : Bool} {record : LogRecord} (he : e ∈ logEvents enabled record) : c₂ = c₁ := by
    unfold logEvents at he
    split at he
    · obtain rfl := List.mem_singleton.1 he
      exact hanswer
    · cases he
  cases net with
  | timeout message => cases he
  | httpError message => cases he
  | response reply =>
    cases update with
    | error err =>
      obtain rfl := List.mem_singleton.1 he
      exact Eq.trans hanswer hc₁
    | ok u =>
      rcases List.mem_cons.1 he with rfl | he
      · exact Eq.trans hanswer hc₁
      · split at he
        · exact (hlog he).trans hc₁
        · cases he

/-- A transmission waits for the limiter, and then for the reply; the limiter may raise after
either. -/
theorem triple_transmit {params : Params} {P : ServerClock → TimeSync → Prop}
    (P' : ServerClock → TimeSync → Prop) (Q : NetResult → ServerClock → TimeSync → Prop)
    (hacquire : ∀ c s c', P c s → c.now ≤ c'.now → c'.now ≤ c.now + d.wait →
      c'.arrived = c.arrived → P' c' s)
    (hsend : ∀ c s net c', P' c s → Replies T d c (T.httpRequest call params) net c' → Q net c' s) :
    Triple (Answers T d) P (T.transmit call params)
      (fun j c s => ∃ net, T.outcome call net = .ok j ∧ Q net c s)
      fun e c s => (∃ net, T.outcome call net = .error e ∧ Q net c s) ∨
        ∃ err : LimiterError, e = err.exc ∧ (P' c s ∨ ∃ net, Q net c s) := by
  refine Triple.bind (Q := fun _ => P) ?_ fun _ => ?_
  · unfold logRequest logIf
    split
    · refine .perform fun c s x c' hP hanswer => ?_
      obtain rfl : c' = c := hanswer
      exact hP
    · exact .pure fun _ _ hP => hP
  refine Triple.bind (Q := fun _ => P') ?_ fun _ => ?_
  · refine triple_acquire (fun c s x c' hP hanswer => ?_) fun err _ _ hP' => .inr ⟨err, rfl, .inl hP'⟩
    exact hacquire c s c' hP hanswer.1 hanswer.2.1 hanswer.2.2
  refine Triple.bind (Q := Q) (.perform hsend) fun net c s tr r s' c' hQ hrun hadm => ?_
  obtain ⟨rfl, update, rfl, rfl⟩ := runs_onReply_iff.1 hrun
  obtain rfl := admits_followUp hadm
  rcases T.delivered_cases call net update with hout | ⟨err, herr⟩
  · rw [hout]
    cases hresult : T.outcome call net with
    | ok j => exact ⟨net, hresult, hQ⟩
    | error e => exact .inl ⟨net, hresult, hQ⟩
  · rw [herr]
    exact .inr ⟨err, rfl, .inr ⟨net, hQ⟩⟩

/-- Where a call stands that has not touched the offset. -/
def Stands (past : List (HttpRequest × ℤ)) (s₀ : TimeSync) (c : ServerClock) (s : TimeSync) : Prop :=
  c.InTime past ∧ s = s₀

/-- **A synchronization** finds an accurate offset, or leaves it as it is; it is never refused for a
timestamp, since it has none. -/
theorem triple_syncTime (past : List (HttpRequest × ℤ)) (s₀ : TimeSync) :
    Triple (Answers T d) (Stands past s₀) T.syncTime
      (fun _ c s => c.InTime past ∧ s.synced = true ∧ d.Accurate s)
      fun e c s => Stands past s₀ c s ∧ e.isTimestampError = false := by
  have hrest : T.executeRest timeCall = T.transmit timeCall [] := rfl
  have htransmit := triple_transmit (T := T) (d := d) (P := Stands past s₀) (Stands past s₀)
    (fun net c s => (Stands past s₀ c s ∧ net.isRefusal = false) ∧ ∀ t, T.timeOutcome net = .ok t →
      t.serverTime ≤ c.now ∧ c.now ≤ t.serverTime + d.latency)
    (fun c s c' h _ _ heq => ⟨h.1.congr heq, h.2⟩)
    fun c s net c' h (hreplies : Replies T d c (T.httpRequest timeCall []) net c') => by
      obtain ⟨htime, hrefusal⟩ := h.1.replies hreplies fun _ _ _ hstamped => by cases hstamped
      refine ⟨⟨⟨htime, h.2⟩, hrefusal⟩, fun t ht => ?_⟩
      cases hreplies with
      | lost _ _ hlost => exact absurd ht (hlost rfl t)
      | arrived _ _ _ _ htold =>
        obtain ⟨rfl, hle, hlatency⟩ := htold rfl t ht
        exact ⟨hle, hlatency⟩
  unfold syncTime
  rw [hrest]
  refine Triple.bind (htransmit.conseq (fun _ _ h => h) (fun _ _ _ h => h) ?_) fun data => ?_
  · rintro e c s (⟨net, hout, ⟨hstands, hrefusal⟩, -⟩ | ⟨err, rfl, hstands | ⟨_, ⟨hstands, -⟩, -⟩⟩)
    · exact ⟨hstands, isTimestampError_of_outcome rfl hrefusal hout⟩
    · exact ⟨hstands, err.not_timestampError⟩
    · exact ⟨hstands, err.not_timestampError⟩
  refine Triple.bind (Q := fun t c s => Stands past s₀ c s ∧ t.serverTime ≤ c.now ∧
    c.now ≤ t.serverTime + d.latency) (.raiseOr ?_) fun t => ?_
  · rintro c s ⟨net, hout, ⟨hstands, -⟩, htold⟩
    have htime : T.timeOutcome net = ServerTime.decode T.pydantic data := by
      unfold timeOutcome
      rw [hout]
      rfl
    cases hdecode : ServerTime.decode T.pydantic data with
    | ok t => exact ⟨hstands, htold t (htime.trans hdecode)⟩
    | error e =>
      refine ⟨hstands, Bool.eq_false_of_not_eq_true fun he => ?_⟩
      have hdec := ServerTime.raisesDecodeErrors T.pydantic data e hdecode
      cases e <;> simp [Exc.isTimestampError, Exc.isDecodeError] at he hdec
  refine Triple.bind (Q := fun clock c _ => c.InTime past ∧ clock = c.now - d.skew ∧
    t.serverTime ≤ c.now ∧ c.now ≤ t.serverTime + d.latency) (.perform ?_) fun clock => ?_
  · rintro c s clock c' ⟨hstands, htold⟩ ⟨rfl, rfl⟩
    exact ⟨hstands.1, rfl, htold⟩
  · refine .modify_bind (.pure fun _ _ h => h) ?_
    rintro c s ⟨htime, hclock, hle, hlatency⟩
    refine ⟨htime, rfl, ?_, ?_⟩ <;> simp only [TimeSync.update] <;> omega

/-! ## Signed requests -/

/-- The text of the window of a signed call: the caller's, or the configured one. -/
def windowText (T : Transport) (call : Call) : String :=
  match Dict.get? call.params "recvWindow" with
  | some window => window.toStr
  | none => toString T.config.recvWindow

/-- The window of the call has room for the delays. -/
def Wide (T : Transport) (d : Delays) (call : Call) : Prop :=
  ∃ window : ℤ, T.windowText call = toString window ∧ d.total ≤ window

theorem timestamp_paramsAt (s : TimeSync) (clock : ℤ) (hsigned : call.signed = true)
    (hsign : T.signer.isSome = true) :
    Dict.get? (T.paramsAt call s clock) "timestamp" = some (.str (toString (s.nowMs clock))) := by
  obtain ⟨signer, hsigner⟩ := Option.isSome_iff_exists.1 hsign
  unfold paramsAt
  rw [if_pos hsigned, hsigner]
  dsimp only
  rw [Dict.get?_map, Signer.signedParams, Dict.get?_set, if_neg (by decide), Dict.get?_set,
    if_pos rfl]
  rfl

theorem recvWindow_paramsAt (s : TimeSync) (clock : ℤ) (hsigned : call.signed = true)
    (hsign : T.signer.isSome = true) :
    Dict.get? (T.paramsAt call s clock) "recvWindow" = some (.str (T.windowText call)) := by
  obtain ⟨signer, hsigner⟩ := Option.isSome_iff_exists.1 hsign
  have hordered : Dict.get? (Signer.ordered call.params T.config.recvWindow) "recvWindow" =
      some (T.windowText call) := by
    unfold Signer.ordered windowText
    dsimp only
    have hget := Dict.get?_map ParamValue.toStr call.params "recvWindow"
    unfold Dict.contains
    cases hparam : Dict.get? call.params "recvWindow" with
    | some window =>
      rw [hparam] at hget
      rw [hget]
      exact hget
    | none =>
      rw [hparam] at hget
      rw [hget, if_neg (by simp), Dict.get?_set, if_pos rfl]
  unfold paramsAt
  rw [if_pos hsigned, hsigner]
  dsimp only
  rw [Dict.get?_map, Signer.signedParams, Dict.get?_set, if_neg (by decide), Dict.get?_set,
    if_neg (by decide), hordered]
  rfl

/-- The timestamp of the parameters is not in the future, and `age` old at most. -/
def Stamped (params : Params) (window age now : ℤ) : Prop :=
  ∃ timestamp : ℤ, Dict.get? params "timestamp" = some (.str (toString timestamp)) ∧
    Dict.get? params "recvWindow" = some (.str (toString window)) ∧
    timestamp ≤ now ∧ now ≤ timestamp + age

/-- What is signed is as old as the offset is late, and no older. -/
theorem triple_sendParams (past : List (HttpRequest × ℤ)) (hsigned : call.signed = true)
    {window : ℤ} (hwindow : T.windowText call = toString window) {s₀ : TimeSync}
    (haccurate : d.Accurate s₀) :
    Triple (Answers T d) (Stands past s₀) (T.sendParams call)
      (fun params c s => Stands past s₀ c s ∧ Stamped params window d.latency c.now)
      fun e c s => Stands past s₀ c s ∧ e.isTimestampError = false := by
  unfold sendParams
  rw [if_pos hsigned]
  cases hsigner : T.signer with
  | none => exact .throw fun c s h => ⟨h, rfl⟩
  | some signer =>
    have hsign : T.signer.isSome = true := by rw [hsigner]; rfl
    refine Triple.bind (Q := fun clock c s => Stands past s₀ c s ∧ clock = c.now - d.skew)
      (.perform ?_) fun clock => .get_bind fun t => .pure ?_
    · rintro c s clock c' hstands ⟨rfl, rfl⟩
      exact ⟨hstands, rfl⟩
    · rintro c s ⟨⟨⟨htime, rfl⟩, rfl⟩, rfl⟩
      have htimestamp := timestamp_paramsAt s (c.now - d.skew) hsigned hsign
      have hrecvWindow := recvWindow_paramsAt s (c.now - d.skew) hsigned hsign
      unfold paramsAt at htimestamp hrecvWindow
      rw [if_pos hsigned, hsigner] at htimestamp hrecvWindow
      rw [hwindow] at hrecvWindow
      refine ⟨⟨htime, rfl⟩, _, htimestamp, hrecvWindow, ?_⟩
      obtain ⟨hbehind, hahead⟩ := haccurate
      unfold TimeSync.nowMs
      omega

/-- **Signed with an accurate offset**, a request arrives in its window and is not refused. -/
theorem triple_executeRest (past : List (HttpRequest × ℤ)) (hsigned : call.signed = true)
    (hbare : call.envelope = false) (hwide : T.Wide d call) {s₀ : TimeSync}
    (haccurate : d.Accurate s₀) :
    Triple (Answers T d) (Stands past s₀) (T.executeRest call) (fun _ => Stands past s₀)
      fun e c s => Stands past s₀ c s ∧ e.isTimestampError = false := by
  obtain ⟨window, hwindow, htotal⟩ := hwide
  refine (triple_sendParams past hsigned hwindow haccurate).bind fun params => ?_
  have htransmit := triple_transmit (T := T) (d := d)
    (P := fun c s => Stands past s₀ c s ∧ Stamped params window d.latency c.now)
    (fun c s => Stands past s₀ c s ∧ Stamped params window (d.latency + d.wait) c.now)
    (fun net c s => Stands past s₀ c s ∧ net.isRefusal = false)
    (fun c s c' ⟨hstands, hstamped⟩ hle hwait heq => ?_)
    fun c s net c' ⟨hstands, hstamped⟩
      (hreplies : Replies T d c (T.httpRequest call params) net c') => ?_
  · refine htransmit.conseq (fun _ _ h => h) ?_ ?_
    · rintro j c s ⟨net, -, hstands, -⟩
      exact hstands
    · rintro e c s (⟨net, hout, hstands, hrefusal⟩ | ⟨err, rfl, ⟨hstands, -⟩ | ⟨_, hstands, -⟩⟩)
      · exact ⟨hstands, isTimestampError_of_outcome hbare hrefusal hout⟩
      · exact ⟨hstands, err.not_timestampError⟩
      · exact ⟨hstands, err.not_timestampError⟩
  · obtain ⟨timestamp, htimestamp, hrecvWindow, hahead, hage⟩ := hstamped
    exact ⟨⟨hstands.1.congr heq, hstands.2⟩, timestamp, htimestamp, hrecvWindow, by omega, by omega⟩
  · obtain ⟨timestamp, htimestamp, hrecvWindow, hahead, hage⟩ := hstamped
    obtain ⟨htime, hrefusal⟩ := hstands.1.replies hreplies fun arrival hsent harrival _ => by
      unfold Delays.total at htotal
      exact ⟨timestamp, window, htimestamp, hrecvWindow, by omega, by omega⟩
    exact ⟨⟨htime, hstands.2⟩, hrefusal⟩

/-! ## Requests -/

/-- What arrived did so in time, and an offset that has been taken is accurate. -/
def Steady (d : Delays) (past : List (HttpRequest × ℤ)) (c : ServerClock) (s : TimeSync) : Prop :=
  c.InTime past ∧ (s.synced = true → d.Accurate s)

theorem quiet_steady : Quiet (Answers T d) (Steady d past) := by
  rintro o ho c s x c' ⟨htime, haccurate⟩ hanswer
  have hsame : c'.arrived = c.arrived := by
    cases o with
    | acquire | send | updateFromHeaders => cases ho
    | clock => rw [hanswer.2]
    | sleep | exchangeInfo | executionRules => exact hanswer.2
    | log | jitter | mintId =>
      obtain rfl : c' = c := hanswer
      rfl
  exact ⟨htime.congr hsame, haccurate⟩

theorem keeps_syncTime : Keeps (Answers T d) (Steady d past) T.syncTime := by
  refine Triple.of_start fun c₀ s₀ ⟨htime, haccurate⟩ => ?_
  refine (triple_syncTime past s₀).conseq ?_ (fun _ c s h => ⟨h.1, fun _ => h.2.2⟩) ?_
  · rintro c s ⟨rfl, rfl⟩
    exact ⟨htime, rfl⟩
  · rintro e c s ⟨⟨htime, rfl⟩, -⟩
    exact ⟨htime, haccurate⟩

theorem triple_execute (hsigned : call.signed = true) (hbare : call.envelope = false)
    (hwide : T.Wide d call) :
    Triple (Answers T d) (Steady d past) (T.execute call) (fun _ => Steady d past)
      fun e c s => Steady d past c s ∧ e.isTimestampError = false := by
  refine Triple.bind (Q := fun _ c s => c.InTime past ∧ d.Accurate s) ?_ fun _ => ?_
  · refine .get_bind fun s₀ => ?_
    by_cases hsynced : s₀.synced = true
    · rw [if_neg (by simp [hsynced])]
      refine .pure ?_
      rintro c s ⟨⟨htime, haccurate⟩, rfl⟩
      exact ⟨htime, haccurate hsynced⟩
    · rw [if_pos (by simp [hsigned, hsynced])]
      refine Triple.bind ((triple_syncTime past s₀).conseq (fun c s h => ⟨h.1.1, h.2⟩)
        (fun _ _ _ h => h) ?_) fun _ => .pure fun c s h => ⟨h.1, h.2.2⟩
      rintro e c s ⟨⟨htime, rfl⟩, he⟩
      exact ⟨⟨htime, fun h => absurd h hsynced⟩, he⟩
  · refine Triple.of_start fun c₀ s₀ ⟨htime, haccurate⟩ => ?_
    refine (triple_executeRest past hsigned hbare hwide haccurate).conseq ?_ ?_ ?_
    · rintro c s ⟨rfl, rfl⟩
      exact ⟨htime, rfl⟩
    · rintro j c s ⟨htime, rfl⟩
      exact ⟨htime, fun _ => haccurate⟩
    · rintro e c s ⟨⟨htime, rfl⟩, he⟩
      exact ⟨⟨htime, fun _ => haccurate⟩, he⟩

theorem keeps_request (hsigned : call.signed = true) (hbare : call.envelope = false)
    (hwide : T.Wide d call) : Keeps (Answers T d) (Steady d past) (T.request call) :=
  keeps_request_of quiet_steady keeps_syncTime
    ((triple_execute hsigned hbare hwide).conseq (fun _ _ h => h) (fun _ _ _ h => h)
      fun _ _ _ h => h.1)

/-- **A wrong offset heals.** Whatever the offset is, no signed request ends with a timestamp error:
the one that is refused for it is sent again with an accurate one. -/
theorem request_heals {s s' : TimeSync} {c c' : ServerClock} {tr : List Ev} {r : Except Exc Json}
    (hsigned : call.signed = true) (hbare : call.envelope = false) (hwide : T.Wide d call)
    (h : Runs (T.request call) s tr r s') (hadm : Admits (Answers T d) c tr c') :
    ∀ e, r = .error e → e.isTimestampError = false := by
  have hexecute : Triple (Answers T d) (fun _ _ => True) (T.execute call) (fun _ _ _ => True)
      fun _ _ _ => True := fun c s tr r s' c' _ _ _ => by cases r <;> trivial
  have hattempt : Triple (Answers T d) (fun _ _ => True) (T.attempt call) (fun _ _ _ => True)
      fun e _ _ => e.isTimestampError = false := by
    refine hexecute.tryCatch fun e => ?_
    rw [hsigned, Bool.true_and]
    split
    · refine Triple.of_start fun c₀ s₀ _ => ?_
      refine Triple.bind (Q := fun _ => Steady d c₀.arrived) ?_ fun _ =>
        (triple_execute hsigned hbare hwide).conseq (fun _ _ h => h) (fun _ _ _ _ => trivial)
          fun _ _ _ h => h.2
      refine (triple_syncTime c₀.arrived s₀).conseq ?_ (fun _ c s h => ⟨h.1, fun _ => h.2.2⟩)
        fun _ _ _ h => h.2
      rintro c s ⟨rfl, rfl⟩
      exact ⟨⟨[], rfl, fun _ hx => absurd hx List.not_mem_nil⟩, rfl⟩
    · next hother => exact .throw fun _ _ _ => Bool.eq_false_of_not_eq_true hother
  have hrequest := triple_request_of (fun _ _ _ _ _ _ _ _ => trivial) hattempt
    (fun _ _ _ _ _ => trivial) (fun _ _ _ => rfl) (fun _ _ _ => rfl) _ _ _ _ _ _ trivial h hadm
  rintro e rfl
  exact hrequest

/-! ### An exchange an hour ahead -/

def hourAhead : Delays where
  skew := 3600000
  wait := 1000
  transit := 500
  latency := 500

def hourReply : NetResult :=
  .response ⟨200, [], "", .value (.obj [("serverTime", .int 3600000)])⟩

theorem hourReply_tells (t : ServerTime) (h : sampleTransport.timeOutcome hourReply = .ok t) :
    t.serverTime = 3600000 := by
  have hout : sampleTransport.timeOutcome hourReply = .ok ⟨3600000⟩ := rfl
  obtain rfl := Except.ok.inj (hout.symm.trans h)
  rfl

def samplePost : Call where
  method := "POST"
  path := "/api/v1/order"
  signed := true
  mutating := true

/-- A POST by a client that takes the local clock for the exchange's. -/
def healingRun : List Ev × Except Exc Json × TimeSync :=
  (sampleTransport.request samplePost).play
    (scripted [.response ⟨400, [], "", .value (.obj [("code", .int (-1021))])⟩, hourReply,
      .response ⟨200, [], "", .value (.obj [])⟩]) ⟨0, true⟩

/-- A number has no more digits than its text has characters. -/
theorem lt_of_toString {z : ℤ} {n : ℕ} (hn : 0 < n) (h : (toString z).length = n) :
    z < 10 ^ n := by
  cases z with
  | ofNat m =>
    have hdigits : (Nat.toDigits 10 m).length ≤ n := by
      rw [← Nat.toList_repr, String.length_toList]
      exact h.le
    have hlt := (Nat.length_toDigits_le_iff (by decide) hn).1 hdigits
    change (m : ℤ) < 10 ^ n
    exact_mod_cast hlt
  | negSucc m => exact (Int.negSucc_lt_zero m).trans (by positivity)

/-- It is refused, and accepted after the resync. -/
theorem request_heals_hourAhead :
    ∃ c, Admits (Answers sampleTransport hourAhead) ⟨3600000, []⟩ healingRun.1 c ∧
      (sends healingRun.1).map (fun x => x.2.isRefusal) = [true, false, false] ∧
      ∀ e, healingRun.2.1 = .error e → e.isTimestampError = false := by
  have hclosed {request : HttpRequest}
      (htimestamp : Dict.get? request.params "timestamp" = some (.str "0"))
      (hrecvWindow : Dict.get? request.params "recvWindow" = some (.str "5000")) :
      ¬ request.InWindow 3600000 := by
    rintro ⟨timestamp, window, ht, hw, -, hle⟩
    have ht : toString timestamp = "0" := by simpa using ht.symm.trans htimestamp
    have hw : toString window = "5000" := by simpa using hw.symm.trans hrecvWindow
    have ht := lt_of_toString (n := 1) (by decide) (by rw [ht]; rfl)
    have hw := lt_of_toString (n := 4) (by decide) (by rw [hw]; rfl)
    omega
  have hpath : "/api/v1/order" ≠ timePath := by decide
  have hpost {params : Params} : sampleTransport.httpRequest samplePost params ≠
      sampleTransport.timeRequest := fun h => hpath (congrArg HttpRequest.path h)
  have hadm : ∃ c, Admits (Answers sampleTransport hourAhead) ⟨3600000, []⟩ healingRun.1 c :=
    ⟨_, .cons ⟨rfl, rfl⟩ (.cons ⟨le_rfl, by decide, rfl⟩ (.cons
      (.arrived le_rfl (by decide) le_rfl (fun _ => ⟨by decide, hclosed rfl rfl⟩)
        fun h => absurd h hpost)
      (.cons rfl (.cons ⟨le_rfl, by decide, rfl⟩ (.cons
        (.arrived le_rfl (by decide) le_rfl nofun fun _ t ht =>
          ⟨hourReply_tells t ht, le_rfl, by decide⟩)
        (.cons rfl (.cons ⟨rfl, rfl⟩ (.cons ⟨rfl, rfl⟩ (.cons ⟨le_rfl, by decide, rfl⟩ (.cons
          (.arrived le_rfl (by decide) le_rfl nofun fun h => absurd h hpost)
          (.cons rfl (.nil _))))))))))))⟩
  obtain ⟨c, hadm⟩ := hadm
  refine ⟨c, hadm, by decide, request_heals rfl rfl ⟨5000, rfl, by decide⟩
    (Comp.runs_play _ _ _).1 hadm⟩

end Transport

/-! ## Sessions -/

namespace OrdersClient

open ServerClock

/-- The windows that the caller gives to the requests of a call. -/
def SessionCall.windows : SessionCall → List (Option ℤ)
  | .createOrder args =>
    match args.resolveRequest with
    | .ok order => [order.recvWindow, none]
    | .error _ => []
  | .cancelOrder _ _ _ recvWindow | .queryOrder _ _ _ recvWindow => [recvWindow]
  | .serverTime => []

variable {C : OrdersClient} {calls : List SessionCall} {d : Delays}

theorem wide_of_params {c : Call} {recvWindow : Option ℤ}
    (hparam : Dict.get? c.params "recvWindow" = recvWindow.map fun w => .str (toString w))
    (hroom : d.total ≤ recvWindow.getD C.transport.config.recvWindow) : C.transport.Wide d c := by
  refine ⟨recvWindow.getD C.transport.config.recvWindow, ?_, hroom⟩
  unfold Transport.windowText
  rw [hparam]
  cases recvWindow <;> rfl

theorem Asks.wide {call : SessionCall} {c : Call} (h : Asks call c)
    (hroom : ∀ w ∈ call.windows, d.total ≤ w.getD C.transport.config.recvWindow) :
    c.signed = true ∧ c.envelope = false ∧ C.transport.Wide d c := by
  have horder (order : OrderRequest) : Dict.get? order.params "recvWindow" =
      order.recvWindow.map fun w => .str (toString w) := by
    refine (get?_paramsOf (by simp) (v := order.recvWindow.map toString) (by simp)).trans ?_
    exact Option.map_map ..
  have hquery (request : QueryOrderRequest) : Dict.get? request.params "recvWindow" =
      request.recvWindow.map fun w => .str (toString w) := by
    refine (get?_paramsOf (by simp) (v := request.recvWindow.map toString) (by simp)).trans ?_
    exact Option.map_map ..
  cases h with
  | @post args order₀ order hresolve hwindow =>
    have hmem : order.recvWindow ∈ (SessionCall.createOrder args).windows := by
      rw [SessionCall.windows, hresolve, hwindow]
      exact List.mem_cons_self
    exact ⟨rfl, rfl, wide_of_params (horder order) (hroom _ hmem)⟩
  | @reconcile args order₀ request hresolve hnone =>
    have hmem : request.recvWindow ∈ (SessionCall.createOrder args).windows := by
      rw [SessionCall.windows, hresolve, hnone]
      exact List.mem_cons_of_mem _ List.mem_cons_self
    exact ⟨rfl, rfl, wide_of_params (hquery request) (hroom _ hmem)⟩
  | @cancel _ _ _ request =>
    exact ⟨rfl, rfl, wide_of_params (hquery request) (hroom _ List.mem_cons_self)⟩
  | @query _ _ _ request =>
    exact ⟨rfl, rfl, wide_of_params (hquery request) (hroom _ List.mem_cons_self)⟩

variable {T : Transport} {c c' : ServerClock} {tr : List Ev}

/-- What has arrived stays. -/
theorem arrived_subset (hadm : Admits (Answers T d) c tr c') : c.arrived ⊆ c'.arrived := by
  refine hadm.invariant (I := fun c' => c.arrived ⊆ c'.arrived) (fun e _ c₁ c₂ h hanswer => ?_)
    (List.Subset.refl _)
  obtain ⟨o, x⟩ := e
  cases o with
  | send request =>
    cases hanswer with
    | lost => exact h
    | arrived => exact List.subset_cons_of_subset _ h
  | clock => rwa [hanswer.2]
  | acquire => rwa [hanswer.2.2]
  | sleep | exchangeInfo | executionRules => rwa [hanswer.2]
  | log | updateFromHeaders | jitter | mintId =>
    obtain rfl : c₂ = c₁ := hanswer
    exact h

/-- While nothing arrives out of its window, nothing is refused for its timestamp. -/
theorem isRefusal_of_inTime (hadm : Admits (Answers T d) c tr c') (htime : c'.InTime []) :
    ∀ x ∈ sends tr, x.2.isRefusal = false := by
  rintro ⟨request, net⟩ hx
  obtain ⟨e, he, heq⟩ := List.mem_filterMap.1 hx
  obtain ⟨l₁, l₂, rfl⟩ := List.append_of_mem he
  obtain ⟨c₁, -, hadm⟩ := admits_append_iff.1 hadm
  obtain ⟨o, y⟩ := e
  cases o with
  | send request' =>
    obtain ⟨rfl, rfl⟩ := Prod.mk.inj (Option.some.inj heq)
    obtain ⟨c₂, hreplies, hadm⟩ := admits_cons_iff.1 hadm
    refine Bool.eq_false_of_not_eq_true fun hrefused => ?_
    cases hreplies with
    | lost _ hrefusal => exact Bool.noConfusion (hrefusal.symm.trans hrefused)
    | arrived _ _ _ hrefusal =>
      obtain ⟨hstamped, hclosed⟩ := hrefusal hrefused
      obtain ⟨arrived, harrived, hall⟩ := htime
      rw [List.append_nil] at harrived
      exact hclosed (hall _ (harrived ▸ arrived_subset hadm List.mem_cons_self) hstamped)
  | _ => cases heq

/-- **Every request arrives in time**, in every session of a client that starts without an offset or
with an accurate one, if every window has room for the delays; so none is refused for its
timestamp. -/
theorem session_inTime {s s' : TimeSync} {r : Except Exc Unit} {now : ℤ}
    (hroom : ∀ call ∈ calls, ∀ w ∈ call.windows, d.total ≤ w.getD C.transport.config.recvWindow)
    (hstart : s.synced = true → d.Accurate s) (h : Runs (C.session calls) s tr r s')
    (hadm : Admits (Answers C.transport d) ⟨now, []⟩ tr c) :
    (∀ x ∈ c.arrived, Dict.contains x.1.params "timestamp" = true → x.1.InWindow x.2) ∧
      (∀ x ∈ sends tr, x.2.isRefusal = false) ∧ (s'.synced = true → d.Accurate s') := by
  have hkeeps : Keeps (Answers C.transport d) (Transport.Steady d []) (C.session calls) :=
    keeps_session_of Transport.quiet_steady Transport.keeps_syncTime fun call hmem c hasks => by
      obtain ⟨hsigned, hbare, hwide⟩ := hasks.wide (hroom call hmem)
      exact Transport.keeps_request hsigned hbare hwide
  have hends := hkeeps _ _ _ _ _ _ ⟨⟨[], rfl, fun _ hx => absurd hx List.not_mem_nil⟩, hstart⟩ h hadm
  have hsteady : Transport.Steady d [] c s' := by cases r <;> exact hends
  obtain ⟨htime, haccurate⟩ := hsteady
  refine ⟨?_, isRefusal_of_inTime hadm htime, haccurate⟩
  obtain ⟨arrived, harrived, hall⟩ := htime
  rwa [harrived, List.append_nil]

/-- The first call of a client, which has to ask for the time. -/
def firstCall : SessionCall := .cancelOrder "BTCTHB" none (some "a") none

def firstSession : List Ev × Except Exc Unit × TimeSync :=
  (sampleOrders.session [firstCall]).play (scripted [Transport.hourReply, notFound]) .init

/-- The exchange is an hour ahead. -/
theorem session_inTime_hourAhead :
    ∃ c, Admits (Answers sampleTransport Transport.hourAhead) ⟨3600000, []⟩ firstSession.1 c ∧
      c.arrived.length = 2 ∧
      (∀ x ∈ c.arrived, Dict.contains x.1.params "timestamp" = true → x.1.InWindow x.2) ∧
      firstSession.2.2 = ⟨3600000, true⟩ := by
  have hpath : orderPath ≠ timePath := by decide
  obtain ⟨c, hadm, hlength⟩ : ∃ c, Admits (Answers sampleTransport Transport.hourAhead)
      ⟨3600000, []⟩ firstSession.1 c ∧ c.arrived.length = 2 :=
    ⟨_, .cons ⟨le_rfl, by decide, rfl⟩ (.cons
      (.arrived le_rfl (by decide) le_rfl nofun fun _ t ht =>
        ⟨Transport.hourReply_tells t ht, le_rfl, by decide⟩)
      (.cons rfl (.cons ⟨rfl, rfl⟩ (.cons ⟨rfl, rfl⟩ (.cons ⟨le_rfl, by decide, rfl⟩ (.cons
        (.arrived le_rfl (by decide) le_rfl nofun fun h =>
          absurd (congrArg HttpRequest.path h) hpath)
        (.cons rfl (.nil _)))))))), rfl⟩
  have hroom : ∀ call ∈ [firstCall], ∀ w ∈ call.windows,
      Transport.hourAhead.total ≤ w.getD sampleOrders.transport.config.recvWindow := by
    intro call hcall w hw
    obtain rfl := List.mem_singleton.1 hcall
    obtain rfl := List.mem_singleton.1 hw
    decide
  have hstart : TimeSync.init.synced = true → Transport.hourAhead.Accurate .init :=
    fun h => Bool.noConfusion h
  obtain ⟨htime, -, -⟩ := session_inTime hroom hstart (Comp.runs_play _ _ _).1 hadm
  exact ⟨c, hadm, hlength, htime, rfl⟩

end OrdersClient

end BinanceTh
