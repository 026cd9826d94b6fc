import BinanceTh.Stream

/-!
# What a socket carries

An installed socket carries the desired streams as long as every change of them reaches it: by its
URL, if it is made before the connect, and by a control frame afterwards. A change made while the
connect is in progress is in neither.
-/

namespace BinanceTh

open Transition

namespace Socket

theorem carried_send {ws : Socket} (hlive : ws.live = true) (frame : Frame) :
    (ws.send frame).carried = frame.applyTo ws.carried := by
  unfold send carried
  rw [if_pos hlive, List.foldl_append, List.foldl_cons, List.foldl_nil]

theorem send_of_not_live {ws : Socket} (hlive : ws.live = false) (frame : Frame) :
    ws.send frame = ws := by
  unfold send
  rw [hlive]
  exact if_neg Bool.false_ne_true

end Socket

namespace Connection

/-- The installed socket, if any, is live. -/
def WsLive (s : Connection) : Prop := ∀ ws, s.ws = some ws → ws.live = true

/-- Every subscribed stream is desired, and an installed socket carries what is desired. -/
structure Inv (s : Connection) : Prop where
  subs : ∀ stream ∈ s.subs, stream ∈ s.desired
  idle : s.phase = .idle → s.ws = none
  carried : ∀ ws, s.ws = some ws → ws.carried = s.desired

variable {config : StreamConfig} {s s' : Connection} {stream : String} {sub : Subscription}

theorem inv_new (host : String) : (new host).Inv where
  subs stream h := absurd h (AList.notMem_empty stream)
  idle _ := rfl
  carried ws h := by cases h

/-- A live socket is sent the frame; a dead one or none stays as it is. -/
theorem applyStream_ws (hconfig : config.wsSupportsLiveSubscribe = true) (s : Connection)
    (stream : String) (method : FrameMethod) :
    ∃ reqId, (s.applyStream config stream method).ws =
      s.ws.map fun ws => ws.send (subscribeFrame [stream] reqId method) := by
  unfold applyStream
  cases hws : s.ws with
  | none => exact ⟨0, hws⟩
  | some ws =>
    refine ⟨s.reqId + 1, ?_⟩
    dsimp only
    rw [if_pos hconfig]
    rfl

theorem applyTo_subscribe (streams : Finset String) (reqId : ℕ) :
    (subscribeFrame [stream] reqId .subscribe).applyTo streams = insert stream streams := by
  rw [Finset.insert_eq, Finset.union_comm]
  rfl

theorem applyTo_unsubscribe (streams : Finset String) (reqId : ℕ) :
    (subscribeFrame [stream] reqId .unsubscribe).applyTo streams = streams.erase stream := by
  rw [← Finset.sdiff_singleton_eq_erase]
  rfl

/-- Only the socket changes, and on the way a request id and a call. -/
theorem applyStream_frame (s : Connection) (config : StreamConfig) (stream : String)
    (method : FrameMethod) :
    (s.applyStream config stream method).subs = s.subs ∧
    (s.applyStream config stream method).desired = s.desired ∧
    (s.applyStream config stream method).phase = s.phase := by
  unfold applyStream
  split
  · exact ⟨rfl, rfl, rfl⟩
  · split
    · exact ⟨rfl, rfl, rfl⟩
    · split <;> exact ⟨rfl, rfl, rfl⟩

/-- The frame makes up for the change of what is desired. -/
theorem Inv.applyStream {method : FrameMethod} (hconfig : config.wsSupportsLiveSubscribe = true)
    (hidle : s.phase = .idle → s.ws = none) (hsubs : ∀ stream ∈ s.subs, stream ∈ s.desired)
    (hcarried : ∀ ws, s.ws = some ws → ∀ reqId,
      (ws.send (subscribeFrame [stream] reqId method)).carried = s.desired) :
    (s.applyStream config stream method).Inv := by
  obtain ⟨hsubs', hdesired', hphase'⟩ := s.applyStream_frame config stream method
  obtain ⟨reqId, hmap⟩ := applyStream_ws hconfig s stream method
  refine ⟨?_, ?_, ?_⟩
  · rw [hsubs', hdesired']
    exact hsubs
  · intro hphase
    rw [hmap, hidle (hphase'.symm.trans hphase)]
    rfl
  · intro ws hws
    rw [hmap] at hws
    obtain ⟨ws', hws', rfl⟩ := Option.map_eq_some_iff.1 hws
    rw [hdesired']
    exact hcarried ws' hws' reqId

/-! ## A call -/

theorem subs_register (h : s.Inv) :
    ∀ x ∈ (s.register stream).subs, x ∈ (s.register stream).desired := by
  intro x hx
  rcases (AList.mem_insert s.subs).1 hx with rfl | hx
  · exact Finset.mem_insert_self x s.desired
  · exact Finset.mem_insert_of_mem (h.subs x hx)

/-- A socket that is live is told of a new stream. -/
theorem Inv.subscribe (hconfig : config.wsSupportsLiveSubscribe = true) (h : s.Inv)
    (hsync : s.WsLive ∨ stream ∈ s.desired) : (s.subscribe config stream).Inv := by
  unfold Connection.subscribe
  dsimp only
  split
  · next hidle =>
    have hnone : s.ws = none := h.idle hidle
    refine ⟨subs_register h, fun _ => hnone, fun ws hws => ?_⟩
    cases hnone.symm.trans hws
  · next hidle =>
    split
    · next hfirst =>
      refine .applyStream hconfig h.idle (subs_register h) fun ws hws reqId => ?_
      cases hlive : ws.live with
      | true =>
        rw [Socket.carried_send hlive, h.carried ws hws, applyTo_subscribe]
        rfl
      | false =>
        -- the dead socket carries the stream already
        have hmem : stream ∈ s.desired := hsync.resolve_left fun hws' => by
          rw [hws' ws hws] at hlive
          cases hlive
        rw [Socket.send_of_not_live hlive, h.carried ws hws]
        exact (Finset.insert_eq_of_mem hmem).symm
    · next hfirst =>
      have hmem : stream ∈ s.desired := by
        refine h.subs stream (AList.lookup_isSome.1 ?_)
        cases hlookup : s.subs.lookup stream with
        | none => exact absurd (by rw [hlookup]; rfl) hfirst
        | some subs => rfl
      refine ⟨subs_register h, fun hidle' => absurd hidle' hidle, fun ws hws => ?_⟩
      exact (h.carried ws hws).trans (Finset.insert_eq_of_mem hmem).symm

/-- The subscription is the last one of its stream. -/
def IsLast (s : Connection) (sub : Subscription) : Prop :=
  ∃ subs, s.subs.lookup sub.stream = some subs ∧ subs.erase sub = []

theorem Inv.unsubscribe (hconfig : config.wsSupportsLiveSubscribe = true) (h : s.Inv)
    (hsync : s.WsLive ∨ ¬ s.IsLast sub) : (s.unsubscribe config sub).Inv := by
  unfold Connection.unsubscribe
  split
  · exact h
  · next subs hlookup =>
    have hmem : sub.stream ∈ s.subs := AList.lookup_isSome.1 (by rw [hlookup]; rfl)
    split
    · next hlast =>
      have hlive : s.WsLive := hsync.resolve_right (not_not_intro ⟨subs, hlookup, hlast⟩)
      refine .applyStream hconfig h.idle (fun x hx => ?_) fun ws hws reqId => ?_
      · obtain ⟨hne, hx⟩ := AList.mem_erase.1 hx
        exact Finset.mem_erase.2 ⟨hne, h.subs x hx⟩
      · rw [Socket.carried_send (hlive ws hws), h.carried ws hws, applyTo_unsubscribe]
        rfl
    · refine ⟨fun x hx => ?_, h.idle, h.carried⟩
      rcases (AList.mem_insert s.subs).1 hx with rfl | hx
      · exact h.subs _ hmem
      · exact h.subs x hx

/-! ## The supervisor -/

/-- A change of the desired streams meets a live socket or none, and a connect the streams of its
URL. -/
def InSync (s : Connection) : ConnectionLabel → Prop
  | .subscribe stream => s.WsLive ∨ stream ∈ s.desired
  | .unsubscribe sub => s.WsLive ∨ ¬ s.IsLast sub
  | .connected => ∀ url, s.phase = .connecting url → url.streams = s.desired
  | _ => True

theorem Inv.of_none (h : s.Inv) {phase : ConnectionPhase} {planned : Bool} :
    Inv { s with ws := none, phase, planned } :=
  ⟨h.subs, fun _ => rfl, fun ws hws => by cases hws⟩

/-- The supervisor goes on without a word to the socket, or closes it. -/
theorem Inv.of_phase (h : s.Inv) {phase : ConnectionPhase} (hphase : phase ≠ .idle) :
    Inv { s with phase } :=
  ⟨h.subs, fun hidle => absurd hidle hphase, h.carried⟩

theorem Inv.close (h : s.Inv) : Inv { s with ws := s.ws.map Socket.close } where
  subs := h.subs
  idle hidle := by rw [h.idle hidle]; rfl
  carried ws hws := by
    obtain ⟨ws', hws', rfl⟩ := Option.map_eq_some_iff.1 hws
    exact h.carried ws' hws'

theorem Inv.backOff (h : s.Inv) : (s.backOff config).Inv := by
  refine h.of_phase ?_
  split <;> exact ConnectionPhase.noConfusion

/-- **The invariant, step by step.** -/
theorem Inv.step {l : ConnectionLabel} (hconfig : config.wsSupportsLiveSubscribe = true)
    (h : s.Inv) (hsync : s.InSync l) (hstep : s.step config l = some s') : s'.Inv := by
  cases l with
  | subscribe stream =>
    cases hstep
    exact h.subscribe hconfig hsync
  | unsubscribe sub =>
    cases hstep
    exact h.unsubscribe hconfig hsync
  | returned =>
    obtain ⟨-, hstep⟩ := Option.ite_none_right_eq_some.1 hstep
    cases hstep
    exact { h with }
  | started | slept =>
    obtain ⟨-, hstep⟩ := Option.ite_none_right_eq_some.1 hstep
    cases hstep
    exact h.of_phase ConnectionPhase.noConfusion
  | connected =>
    simp only [Connection.step] at hstep
    split at hstep
    · next url hphase =>
      cases hstep
      refine ⟨h.subs, fun hidle => (by cases hidle), fun ws hws => ?_⟩
      cases hws
      exact hsync url hphase
    · cases hstep
  | connectFailed =>
    simp only [Connection.step] at hstep
    split at hstep
    · cases hstep
      exact h.backOff
    · cases hstep
  | dropped =>
    cases hstep
    exact h.close
  | woken timedOut =>
    obtain ⟨-, hstep⟩ := Option.ite_none_right_eq_some.1 hstep
    split at hstep
    · cases hstep
      exact h.of_phase ConnectionPhase.noConfusion
    · cases hstep
      exact h.close.of_phase ConnectionPhase.noConfusion
  | cancelled =>
    obtain ⟨-, hstep⟩ := Option.ite_none_right_eq_some.1 hstep
    cases hstep
    exact h.close.of_phase ConnectionPhase.noConfusion
  | closed =>
    simp only [Connection.step] at hstep
    split at hstep
    · split at hstep
      · cases hstep
        exact h.of_none
      · cases hstep
        exact h.of_none
    · cases hstep

/-- When no call is pending, an installed socket carries exactly the desired streams. -/
def Subscribed (s : Connection) : Prop :=
  s.pending = 0 → ∀ ws, s.ws = some ws → ws.carried = s.desired

/-- **No subscription is lost**, as long as no change of the desired streams falls into a connect
or onto a dead socket. -/
theorem run_subscribed {host : String} {ls : List ConnectionLabel}
    (hconfig : config.wsSupportsLiveSubscribe = true)
    (hsync : (system config host).Guarded InSync (new host) ls)
    (hrun : (system config host).run (new host) ls = some s) : s.Subscribed := by
  have hinv : s.Inv := System.run_invariant
    (fun _ _ _ h hsync hstep => h.step hconfig hsync hstep) ls (inv_new host) hsync hrun
  exact fun _ => hinv.carried

/-- One stream before the connect and one after it, and the first one ends. -/
def changesWhileLive : List ConnectionLabel :=
  [.subscribe "a", .started, .connected, .subscribe "b", .returned, .unsubscribe ⟨"a", 0⟩,
    .returned]

theorem run_subscribed_live : ∃ s, (system ⟨true, true⟩ "wss://host").run (new "wss://host")
    changesWhileLive = some s ∧ s.desired = {"b"} ∧ s.Subscribed := by
  have hsync : (system ⟨true, true⟩ "wss://host").Guarded InSync (new "wss://host")
      changesWhileLive := by
    refine System.guarded_cons (.inl fun ws hws => ?_) rfl <| System.guarded_cons trivial rfl <|
      System.guarded_cons (fun url hurl => ?_) rfl <|
      System.guarded_cons (.inl fun ws hws => ?_) rfl <| System.guarded_cons trivial rfl <|
      System.guarded_cons (.inl fun ws hws => ?_) rfl <| System.guarded_cons trivial rfl trivial
    · cases hws
    · cases hurl
      rfl
    · cases hws
      rfl
    · cases hws
      rfl
  exact ⟨_, rfl, by decide, run_subscribed rfl hsync rfl⟩

/-- A subscription made while the connect is in progress is lost. -/
theorem not_subscribed_connecting : ¬ ∀ ls s,
    (system ⟨true, true⟩ "wss://host").run (new "wss://host") ls = some s → s.Subscribed := by
  intro h
  have hrun := h [.subscribe "a", .started, .subscribe "b", .connected] _ rfl rfl _ rfl
  exact absurd hrun (by decide)

end Connection

end BinanceTh
