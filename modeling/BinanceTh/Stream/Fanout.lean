import BinanceTh.Stream.Closing
import BinanceTh.Stream.Subscriptions

/-!
# The registry of a connection

`desired` and `_subs` of a connection change together: a stream is desired as long as it has a
subscription, and a subscription is registered once, under its own stream. So a message of a stream
is offered once to each of its subscriptions (`run_registered`).
-/

namespace BinanceTh

open Transition

namespace Connection

/-- The desired streams are those with a subscription, and the registry is in order. -/
structure Registered (s : Connection) : Prop where
  desired : ∀ stream, stream ∈ s.desired ↔ stream ∈ s.subs
  wellFormed : Registry.WellFormed s.subs

/-- A subscription that is still to be made is not registered. -/
structure RegistryInv (s : Connection) : Prop where
  registered : s.Registered
  made : ∀ sub, Registry.Has s.subs sub → sub.id < s.made

variable {config : StreamConfig} {s s' : Connection} {stream : String} {sub : Subscription}
  {l : ConnectionLabel}

theorem registryInv_new (host : String) : (new host).RegistryInv where
  registered := ⟨fun _ => by simp [new, AList.mem_keys], Registry.wellFormed_empty⟩
  made _ h := absurd h Registry.not_has_empty

/-- The registry decides. -/
theorem RegistryInv.of_eq (h : s.RegistryInv) (hsubs : s'.subs = s.subs)
    (hdesired : s'.desired = s.desired) (hmade : s'.made = s.made) : s'.RegistryInv := by
  refine ⟨⟨?_, ?_⟩, ?_⟩
  · rw [hsubs, hdesired]
    exact h.registered.desired
  · rw [hsubs]
    exact h.registered.wellFormed
  · rw [hsubs, hmade]
    exact h.made

theorem made_applyStream (s : Connection) (config : StreamConfig) (stream : String)
    (method : FrameMethod) : (s.applyStream config stream method).made = s.made := by
  unfold applyStream
  split
  · rfl
  · split
    · rfl
    · split <;> rfl

theorem made_unsubscribe (s : Connection) (config : StreamConfig) (sub : Subscription) :
    (s.unsubscribe config sub).made = s.made := by
  unfold unsubscribe
  split
  · rfl
  · split
    · exact (s.unregister sub.stream).made_applyStream config sub.stream .unsubscribe
    · rfl

theorem RegistryInv.applyStream (h : s.RegistryInv) (config : StreamConfig) (stream : String)
    (method : FrameMethod) : (s.applyStream config stream method).RegistryInv := by
  obtain ⟨hsubs, hdesired, -⟩ := s.applyStream_frame config stream method
  exact h.of_eq hsubs hdesired (s.made_applyStream config stream method)

theorem RegistryInv.register (h : s.RegistryInv) (stream : String) :
    (s.register stream).RegistryInv := by
  have hsubs : (s.register stream).subs = Registry.add s.subs ⟨stream, s.made⟩ := rfl
  refine ⟨⟨fun x => ?_, ?_⟩, fun sub hsub => ?_⟩
  · change x ∈ insert stream s.desired ↔ x ∈ s.subs.insert stream _
    rw [Finset.mem_insert, AList.mem_insert, h.registered.desired]
  · rw [hsubs]
    refine h.registered.wellFormed.add fun hhas => ?_
    exact Nat.lt_irrefl _ (h.made _ hhas)
  · rw [hsubs] at hsub
    change sub.id < s.made + 1
    rcases Registry.has_add.1 hsub with rfl | hold
    · exact Nat.lt_succ_self _
    · exact Nat.lt_succ_of_lt (h.made sub hold)

theorem RegistryInv.unsubscribe (h : s.RegistryInv) (config : StreamConfig) (sub : Subscription) :
    (s.unsubscribe config sub).RegistryInv := by
  have hwellFormed := h.registered.wellFormed.remove sub
  have hhas : ∀ x, Registry.Has (Registry.remove s.subs sub) x → x.id < s.made :=
    fun x hx => h.made x hx.of_remove
  unfold Registry.remove at hwellFormed hhas
  unfold Connection.unsubscribe
  cases hlookup : s.subs.lookup sub.stream with
  | none => exact h
  | some subs =>
    rw [hlookup] at hwellFormed hhas
    dsimp only at hwellFormed hhas ⊢
    split
    · next hempty =>
      rw [if_pos hempty] at hwellFormed hhas
      refine RegistryInv.applyStream ⟨⟨fun x => ?_, hwellFormed⟩, hhas⟩ config sub.stream _
      change x ∈ s.desired.erase sub.stream ↔ x ∈ s.subs.erase sub.stream
      rw [Finset.mem_erase, AList.mem_erase, h.registered.desired]
    · next hne =>
      rw [if_neg hne] at hwellFormed hhas
      refine ⟨⟨fun x => ?_, hwellFormed⟩, hhas⟩
      change x ∈ s.desired ↔ x ∈ s.subs.insert sub.stream _
      rw [AList.mem_insert, h.registered.desired]
      refine ⟨.inr, fun hx => hx.elim (fun heq => ?_) id⟩
      rw [heq]
      exact AList.lookup_isSome.1 (by rw [hlookup]; rfl)

/-- The supervisor leaves the registry alone. -/
theorem step_registry (hsubscribe : ∀ stream, l ≠ .subscribe stream)
    (hunsubscribe : ∀ sub, l ≠ .unsubscribe sub) (h : s.step config l = some s') :
    s'.subs = s.subs ∧ s'.desired = s.desired ∧ s'.made = s.made := by
  cases l with
  | subscribe stream => exact absurd rfl (hsubscribe stream)
  | unsubscribe sub => exact absurd rfl (hunsubscribe sub)
  | dropped =>
    obtain rfl := Option.some.inj h
    exact ⟨rfl, rfl, rfl⟩
  | returned | started | slept | cancelled =>
    obtain ⟨-, h⟩ := Option.ite_none_right_eq_some.1 h
    obtain rfl := Option.some.inj h
    exact ⟨rfl, rfl, rfl⟩
  | woken timedOut =>
    obtain ⟨-, h⟩ := Option.ite_none_right_eq_some.1 h
    split at h <;>
    · obtain rfl := Option.some.inj h
      exact ⟨rfl, rfl, rfl⟩
  | connected | connectFailed =>
    simp only [step] at h
    split at h
    · obtain rfl := Option.some.inj h
      exact ⟨rfl, rfl, rfl⟩
    · cases h
  | closed =>
    simp only [step] at h
    split at h
    · split at h <;>
      · obtain rfl := Option.some.inj h
        exact ⟨rfl, rfl, rfl⟩
    · cases h

end Connection

namespace StreamConnection

/-- Of a connection, what a supervisor that goes on or ends may change is the phase. -/
theorem goOn_registry (s : StreamConnection) (conn : Connection) (message : String) :
    (s.goOn conn message).conn.subs = conn.subs ∧
    (s.goOn conn message).conn.desired = conn.desired ∧
    (s.goOn conn message).conn.made = conn.made := by
  unfold goOn
  split
  · unfold sleep
    split <;> exact ⟨rfl, rfl, rfl⟩
  · exact ⟨rfl, rfl, rfl⟩
  · exact ⟨rfl, rfl, rfl⟩

theorem follow_registry (config : StreamConfig) (s : StreamConnection) (conn : Connection)
    (exc : String) {l : ConnectionLabel} (hl : l.isSupervisor = true) :
    (s.follow config conn exc l).conn.subs = conn.subs ∧
    (s.follow config conn exc l).conn.desired = conn.desired ∧
    (s.follow config conn exc l).conn.made = conn.made := by
  cases l with
  | subscribe | unsubscribe | returned | dropped => cases hl
  | connectFailed | closed => exact s.goOn_registry conn _
  | started | connected | woken | cancelled | slept => exact ⟨rfl, rfl, rfl⟩

end StreamConnection

namespace ClosableConnection

variable {config : StreamConfig} {host : String} {s s' : ClosableConnection}
  {l : ClosableLabel} {ls : List ClosableLabel}

/-- A step that leaves the registry alone. -/
def KeepsRegistry (s s' : ClosableConnection) : Prop :=
  s'.stream.conn.subs = s.stream.conn.subs ∧ s'.stream.conn.desired = s.stream.conn.desired ∧
    s'.stream.conn.made = s.stream.conn.made

/-- A step in which `aclose` empties it. -/
def ClearsRegistry (s' : ClosableConnection) : Prop :=
  s'.stream.conn.subs = ∅ ∧ s'.stream.conn.desired = ∅

theorem KeepsRegistry.inv (h : s.KeepsRegistry s') (hinv : s.stream.conn.RegistryInv) :
    s'.stream.conn.RegistryInv := hinv.of_eq h.1 h.2.1 h.2.2

theorem ClearsRegistry.inv (h : s'.ClearsRegistry) : s'.stream.conn.RegistryInv := by
  obtain ⟨hsubs, hdesired⟩ := h
  refine ⟨⟨fun x => ?_, ?_⟩, ?_⟩
  · rw [hsubs, hdesired]
    exact ⟨fun hx => absurd hx (Finset.notMem_empty x), fun hx => absurd hx (AList.notMem_empty x)⟩
  · rw [hsubs]
    exact Registry.wellFormed_empty
  · rw [hsubs]
    exact fun _ hx => absurd hx Registry.not_has_empty

theorem keepsRegistry_supervise {l : ConnectionLabel} {exc : String}
    (h : s.supervise config l exc = some s') : s.KeepsRegistry s' := by
  obtain ⟨hl, h⟩ := Option.ite_none_right_eq_some.1 h
  obtain ⟨conn, hstep, rfl⟩ := Option.map_eq_some_iff.1 h
  rw [Bool.and_eq_true] at hl
  have hconn : conn.subs = s.stream.conn.subs ∧ conn.desired = s.stream.conn.desired ∧
      conn.made = s.stream.conn.made := by
    refine Connection.step_registry (l := l) ?_ ?_ hstep
    · rintro stream rfl
      cases hl.1
    · rintro sub rfl
      cases hl.1
  unfold KeepsRegistry
  split
  · cases l <;> exact hconn
  · obtain ⟨hsubs, hdesired, hmade⟩ := s.stream.follow_registry config conn exc hl.1
    exact ⟨hsubs.trans hconn.1, hdesired.trans hconn.2.1, hmade.trans hconn.2.2⟩

/-- A call of `aclose` that goes on after the await of a supervisor. -/
theorem registry_join (s : ClosableConnection) (supervisor : SupervisorRef) :
    s.KeepsRegistry (s.join supervisor).1 ∨ (s.join supervisor).1.ClearsRegistry := by
  unfold join closeSocket
  split
  · exact .inl ⟨rfl, rfl, rfl⟩
  · split
    · exact .inl ⟨rfl, rfl, rfl⟩
    · exact .inr ⟨rfl, rfl⟩

theorem registry_aclose (s : ClosableConnection) :
    s.KeepsRegistry s.aclose ∨ s.aclose.ClearsRegistry := by
  unfold aclose enter
  cases s.supervisor with
  | none =>
    dsimp only
    unfold closeSocket
    split
    · exact .inl ⟨rfl, rfl, rfl⟩
    · exact .inr ⟨rfl, rfl⟩
  | some supervisor =>
    dsimp only
    have hcancel (t : ClosableConnection) : t.KeepsRegistry (t.cancel supervisor) := by
      unfold cancel
      split <;> exact ⟨rfl, rfl, rfl⟩
    obtain ⟨hsubs, hdesired, hmade⟩ :=
      hcancel { s with closing := true, supervisor := none }
    split
    · refine (registry_join _ supervisor).imp (fun h => ?_) id
      exact ⟨h.1.trans hsubs, h.2.1.trans hdesired, h.2.2.trans hmade⟩
    · exact .inl ⟨hsubs, hdesired, hmade⟩

theorem registryInv_subscribe (hinv : s.stream.conn.RegistryInv) (config : StreamConfig)
    (stream : String) : (s.subscribe config stream).stream.conn.RegistryInv := by
  have hregister := hinv.register stream
  unfold subscribe
  dsimp only
  split
  · unfold spawn
    split <;> exact hregister.of_eq rfl rfl rfl
  · split
    · exact hregister.applyStream config stream .subscribe
    · exact hregister

/-- A message for its stream is offered to the subscriptions of the stream, and to each once. -/
theorem message_offers {raw data : Json} {stream : String} (hinv : s.stream.conn.RegistryInv)
    (hdemux : demux raw = some (stream, data)) (h : s.step config (.message raw) = some s')
    (sub : Subscription) :
    s'.stream.queues sub =
      if sub ∈ Registry.ofStream s.stream.conn.subs stream then
        (s.stream.queues sub).offer (.payload data)
      else s.stream.queues sub := by
  obtain ⟨-, h⟩ := Option.ite_none_right_eq_some.1 h
  rw [hdemux] at h
  obtain ⟨stream', hstep, rfl⟩ := Option.map_eq_some_iff.1 h
  obtain ⟨-, hstep⟩ := Option.ite_none_right_eq_some.1 hstep
  obtain rfl := Option.some.inj hstep
  exact Queues.offerAll_apply _ _ (hinv.registered.wellFormed.nodup_ofStream stream)

/-- **One step.** -/
theorem registryInv_step (hinv : s.stream.conn.RegistryInv) (h : s.step config l = some s') :
    s'.stream.conn.RegistryInv := by
  cases l with
  | subscribe stream =>
    obtain rfl := Option.some.inj h
    exact registryInv_subscribe hinv config stream
  | unsubscribe sub =>
    obtain rfl := Option.some.inj h
    exact hinv.unsubscribe config sub
  | returned =>
    obtain rfl := step_returned h
    exact hinv.of_eq rfl rfl rfl
  | dropped =>
    obtain rfl := Option.some.inj h
    exact hinv.of_eq rfl rfl rfl
  | supervise l exc => exact (keepsRegistry_supervise h).inv hinv
  | aborted =>
    obtain ⟨-, h⟩ := Option.ite_none_right_eq_some.1 h
    obtain rfl := Option.some.inj h
    exact hinv.of_eq rfl rfl rfl
  | lateEnded i =>
    obtain ⟨-, rfl⟩ := step_lateEnded h
    exact hinv.of_eq rfl rfl rfl
  | message raw =>
    obtain ⟨queues, rfl⟩ := step_message h
    exact hinv
  | next sub =>
    obtain ⟨item, queue, -, rfl⟩ := step_next h
    exact hinv
  | aclose =>
    obtain rfl := Option.some.inj h
    exact s.registry_aclose.elim (fun hkeeps => hkeeps.inv hinv) fun hclears => hclears.inv
  | joined i =>
    obtain ⟨supervisor, -, -, rfl⟩ := step_joined h
    exact (s.registry_join supervisor).elim (fun hkeeps => hkeeps.inv hinv) fun hclears =>
      hclears.inv
  | socketClosed i =>
    obtain ⟨-, rfl⟩ := step_socketClosed h
    exact ClearsRegistry.inv ⟨rfl, rfl⟩

/-- **The registry.** In every state reached, the desired streams are the keys of the registry, and
a message, that is an object with a name as `stream` and with `data`, is offered once to each
subscription that its stream has then, and to no other. -/
theorem run_registered (hrun : (system config host).run (new host) ls = some s) :
    s.stream.conn.Registered ∧
    ∀ (fields : Dict Json) (stream : String) (data : Json) (s' : ClosableConnection),
      fields.get? "stream" = some (.str stream) → fields.get? "data" = some data →
      s.step config (.message (.obj fields)) = some s' → ∀ sub, s'.stream.queues sub =
        if sub ∈ Registry.ofStream s.stream.conn.subs stream then
          (s.stream.queues sub).offer (.payload data)
        else s.stream.queues sub := by
  have hinv : s.stream.conn.RegistryInv := by
    refine System.run_invariant (M := system config host) (C := fun _ _ => True)
      (I := fun s => s.stream.conn.RegistryInv) ?_ ls (Connection.registryInv_new host)
      (System.guarded_of_forall ls (fun _ _ => trivial) _) hrun
    intro s l s' hinv _ hstep
    exact registryInv_step hinv hstep
  refine ⟨hinv.registered, fun fields stream data s' hstream hdata hstep sub => ?_⟩
  exact message_offers hinv (demux_obj hstream hdata) hstep sub

/-- Two subscriptions of a stream and one of another one, on a socket; a fourth is given up twice. -/
def twoTrades : List ClosableLabel :=
  [.subscribe "btcthb@trade", .subscribe "btcthb@trade", .subscribe "ethbtc@trade",
    .supervise .started "", .supervise .connected "", .subscribe "btcthb@trade",
    .unsubscribe ⟨"btcthb@trade", 3⟩, .unsubscribe ⟨"btcthb@trade", 3⟩]

/-- A trade comes for the first two. -/
theorem run_registered_twoTrades :
    ∃ s s', (system ⟨true, true⟩ "wss://site").run (new "wss://site") twoTrades = some s ∧
      s.stream.conn.Registered ∧ s.stream.conn.desired = {"btcthb@trade", "ethbtc@trade"} ∧
      s.step ⟨true, true⟩ (.message (.obj [("stream", .str "btcthb@trade"), ("data", .int 1)])) =
        some s' ∧
      (s'.stream.queues ⟨"btcthb@trade", 0⟩).items = [.payload (.int 1)] ∧
      (s'.stream.queues ⟨"btcthb@trade", 1⟩).items = [.payload (.int 1)] ∧
      (s'.stream.queues ⟨"ethbtc@trade", 2⟩).items = [] := by
  obtain ⟨s, s', hrun, hdesired, hstep, hsubs, hfirst, hsecond, hthird⟩ : ∃ s s',
      (system ⟨true, true⟩ "wss://site").run (new "wss://site") twoTrades = some s ∧
      s.stream.conn.desired = {"btcthb@trade", "ethbtc@trade"} ∧
      s.step ⟨true, true⟩ (.message (.obj [("stream", .str "btcthb@trade"), ("data", .int 1)])) =
        some s' ∧
      Registry.ofStream s.stream.conn.subs "btcthb@trade" =
        [⟨"btcthb@trade", 0⟩, ⟨"btcthb@trade", 1⟩] ∧
      s.stream.queues ⟨"btcthb@trade", 0⟩ = {} ∧ s.stream.queues ⟨"btcthb@trade", 1⟩ = {} ∧
      s.stream.queues ⟨"ethbtc@trade", 2⟩ = {} :=
    ⟨_, _, rfl, by decide, rfl, by decide, rfl, rfl, rfl⟩
  obtain ⟨hregistered, hoffered⟩ := run_registered hrun
  have hoffers := hoffered _ _ _ s' rfl rfl hstep
  refine ⟨s, s', hrun, hregistered, hdesired, hstep, ?_, ?_, ?_⟩
  · rw [hoffers, hsubs, if_pos (by decide), hfirst]
    rfl
  · rw [hoffers, hsubs, if_pos (by decide), hsecond]
    rfl
  · rw [hoffers, hsubs, if_neg (by decide), hthird]

end ClosableConnection

end BinanceTh
