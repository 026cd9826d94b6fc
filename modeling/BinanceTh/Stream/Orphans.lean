import BinanceTh.Stream.Client
import BinanceTh.Stream.Subscriptions

/-!
# Subscriptions without a supervisor

A subscription of a connection waits for ever if its supervisor has ended and no close or fault has
come to its queue. That does not happen as long as nobody subscribes after the supervisor has ended,
and the supervisor does not end by its backoff (`StreamConnection.noOrphan_step`), for all the
connections of a client at once (`StreamClient.noOrphan_step`).
-/

namespace BinanceTh

open Transition

namespace Connection

variable {config : StreamConfig} {s s' : Connection} {stream : String} {sub : Subscription}
  {l : ConnectionLabel}

/-- A connection that is subscribed to has a supervisor, unless that has ended. -/
theorem supervised_subscribe (config : StreamConfig) (h : s.phase ≠ .ended) (stream : String) :
    (s.subscribe config stream).phase.supervised = true := by
  have hphase : s.phase = .idle ∨ s.phase.supervised = true := by
    unfold ConnectionPhase.supervised
    cases hphase : s.phase <;> simp_all
  unfold subscribe
  dsimp only
  split
  · rfl
  · next hidle =>
    have hsup := hphase.resolve_left hidle
    split
    · rw [(applyStream_frame _ _ _ _).2.2]
      exact hsup
    · exact hsup

theorem unsubscribe_frame (config : StreamConfig) (s : Connection) (sub : Subscription) :
    (s.unsubscribe config sub).subs = Registry.remove s.subs sub ∧
      (s.unsubscribe config sub).phase = s.phase := by
  unfold unsubscribe Registry.remove
  cases hlookup : s.subs.lookup sub.stream with
  | none => exact ⟨rfl, rfl⟩
  | some l =>
    dsimp only
    split
    · obtain ⟨hsubs, -, hphase⟩ := applyStream_frame (s.unregister sub.stream) config sub.stream
        .unsubscribe
      exact ⟨hsubs, hphase⟩
    · exact ⟨rfl, rfl⟩

/-- An error after which the supervisor sleeps. -/
def retries (config : StreamConfig) (s : Connection) : ConnectionLabel → Bool
  | .connectFailed => config.wsAutoReconnect
  | .closed => config.wsAutoReconnect && !s.planned && s.phase = .closing false
  | _ => false

/-- After an error or a planned reconnect the supervisor goes on, or it gives up. -/
theorem step_of_error (hl : l = .connectFailed ∨ l = .closed) (h : s.step config l = some s') :
    s'.subs = s.subs ∧ (s'.phase = .ended ∨
      s'.phase.supervised = true ∧ (s'.phase = .sleeping → s.retries config l = true)) := by
  have hback : ∀ t : Connection, (t.backOff config).phase = .ended ∨
      (t.backOff config).phase.supervised = true ∧ config.wsAutoReconnect = true := by
    intro t
    unfold backOff
    split
    · next hauto => exact .inr ⟨rfl, hauto⟩
    · exact .inl rfl
  rcases hl with rfl | rfl
  · simp only [step] at h
    split at h
    · obtain rfl := Option.some.inj h
      refine ⟨rfl, (hback s).imp_right fun hsleep => ⟨hsleep.1, fun _ => hsleep.2⟩⟩
    · cases h
  · simp only [step] at h
    split at h
    · next timedOut hphase =>
      split at h
      · obtain rfl := Option.some.inj h
        refine ⟨rfl, .inr ⟨rfl, ?_⟩⟩
        intro hsleep
        cases hsleep
      · next hplanned =>
        obtain rfl := Option.some.inj h
        refine ⟨rfl, (hback _).imp_right fun hsleep => ⟨hsleep.1, fun _ => ?_⟩⟩
        simp only [Bool.or_eq_true, not_or, Bool.not_eq_true] at hplanned
        simp [retries, hsleep.2, hplanned.1, hplanned.2, hphase]
    · cases h

/-- In its other steps a supervisor does not end. -/
theorem step_of_ne (hsubscribe : ∀ stream, l ≠ .subscribe stream)
    (hunsubscribe : ∀ sub, l ≠ .unsubscribe sub) (hfailed : l ≠ .connectFailed)
    (hclosed : l ≠ .closed) (h : s.step config l = some s') :
    s'.subs = s.subs ∧ (s'.phase = s.phase ∨ s'.phase.supervised = true) := by
  cases l with
  | subscribe stream => exact absurd rfl (hsubscribe stream)
  | unsubscribe sub => exact absurd rfl (hunsubscribe sub)
  | connectFailed => exact absurd rfl hfailed
  | closed => exact absurd rfl hclosed
  | dropped =>
    obtain rfl := Option.some.inj h
    exact ⟨rfl, .inl rfl⟩
  | returned =>
    obtain ⟨-, h⟩ := Option.ite_none_right_eq_some.1 h
    obtain rfl := Option.some.inj h
    exact ⟨rfl, .inl rfl⟩
  | started | slept | cancelled =>
    obtain ⟨-, h⟩ := Option.ite_none_right_eq_some.1 h
    obtain rfl := Option.some.inj h
    exact ⟨rfl, .inr rfl⟩
  | woken timedOut =>
    obtain ⟨-, h⟩ := Option.ite_none_right_eq_some.1 h
    split at h
    · obtain rfl := Option.some.inj h
      exact ⟨rfl, .inr rfl⟩
    · obtain rfl := Option.some.inj h
      exact ⟨rfl, .inr rfl⟩
  | connected =>
    simp only [step] at h
    split at h
    · obtain rfl := Option.some.inj h
      exact ⟨rfl, .inr rfl⟩
    · cases h

end Connection

namespace StreamConnection

variable {config : StreamConfig} {s s' : StreamConnection} {l : StreamConnectionLabel}

/-- A registered subscription has a supervisor, or its end. -/
def NoOrphan (s : StreamConnection) : Prop :=
  ∀ sub, Registry.Has s.conn.subs sub → s.conn.phase.supervised = true ∨ (s.queues sub).HasEnd

/-- The backoff has a delay for the error. -/
def CanSleep (config : StreamConfig) (s : StreamConnection) : StreamConnectionLabel → Prop
  | .connection l _ => s.conn.retries config l = true → s.backoff.n < 1024
  | _ => True

theorem noOrphan_new (host : String) : (new host).NoOrphan :=
  fun _ hsub => absurd hsub Registry.not_has_empty

theorem noOrphan_subscribe (hphase : s.conn.phase ≠ .ended) (stream : String) :
    (s.subscribe config stream).NoOrphan :=
  fun _ _ => .inl (Connection.supervised_subscribe config hphase stream)

/-- A supervisor that gives up leaves its fault in every queue. -/
theorem noOrphan_goOn {conn : Connection} {message : String}
    (hphase : conn.phase = .ended ∨ conn.phase.supervised = true ∧
      (conn.phase = .sleeping → s.backoff.n < 1024)) : (s.goOn conn message).NoOrphan := by
  intro sub hsub
  unfold goOn at hsub ⊢
  rcases hphase with hended | ⟨hsup, hsleep⟩
  · rw [hended] at hsub ⊢
    exact .inr (Queues.hasEnd_offerAll rfl _ _ (.inl hsub.mem_all))
  · split
    · next hphase =>
      unfold sleep
      rw [Backoff.next_of_lt (hsleep hphase)]
      exact .inl hsup
    · next hended =>
      rw [hended] at hsup
      cases hsup
    · exact .inl hsup

/-- A step that leaves the subscriptions and their queues alone. -/
theorem noOrphan_of_frame (hnot : s.NoOrphan) (hsubs : s'.conn.subs = s.conn.subs)
    (hqueues : s'.queues = s.queues)
    (hphase : s'.conn.phase = s.conn.phase ∨ s'.conn.phase.supervised = true) : s'.NoOrphan := by
  intro sub hsub
  rw [hsubs] at hsub
  rcases hphase with hphase | hsup
  · rw [hphase, hqueues]
    exact hnot sub hsub
  · exact .inl hsup

theorem noOrphan_unsubscribe {sub : Subscription} {conn : Connection} (hnot : s.NoOrphan)
    (hconn : conn = s.conn.unsubscribe config sub) :
    NoOrphan { s with conn, queues := s.queues.offerTo sub .closed } := by
  subst hconn
  obtain ⟨hsubs, hphase⟩ := s.conn.unsubscribe_frame config sub
  intro sub' hsub'
  change Registry.Has (s.conn.unsubscribe config sub).subs sub' at hsub'
  change (s.conn.unsubscribe config sub).phase.supervised = true ∨ _
  rw [hsubs] at hsub'
  rw [hphase]
  exact (hnot sub' hsub'.of_remove).imp_right fun hend =>
    Queues.hasEnd_offerTo rfl _ _ (.inr hend)

/-- **One step of a connection.** -/
theorem noOrphan_step (hnot : s.NoOrphan) (hl : StreamClient.isSubscribe l = false)
    (hsleep : s.CanSleep config l) (h : s.step config l = some s') : s'.NoOrphan := by
  cases l with
  | frame stream data =>
    obtain ⟨hphase, h⟩ := Option.ite_none_right_eq_some.1 h
    obtain rfl := Option.some.inj h
    intro sub _
    refine .inl ?_
    rw [hphase]
    rfl
  | next sub =>
    obtain ⟨⟨item, queue⟩, hnext, rfl⟩ := Option.map_eq_some_iff.1 h
    intro sub' hsub'
    exact (hnot sub' hsub').imp_right fun hend => Queues.hasEnd_next hend hnext
  | connection l exc =>
    obtain ⟨conn, hstep, rfl⟩ := Option.map_eq_some_iff.1 h
    cases l with
    | subscribe stream => cases hl
    | unsubscribe sub => exact noOrphan_unsubscribe hnot (Option.some.inj hstep).symm
    | connectFailed =>
      obtain ⟨-, hphase⟩ := Connection.step_of_error (.inl rfl) hstep
      exact noOrphan_goOn (hphase.imp_right fun hsup => ⟨hsup.1, fun h => hsleep (hsup.2 h)⟩)
    | closed =>
      obtain ⟨-, hphase⟩ := Connection.step_of_error (.inr rfl) hstep
      exact noOrphan_goOn (hphase.imp_right fun hsup => ⟨hsup.1, fun h => hsleep (hsup.2 h)⟩)
    | returned | started | connected | dropped | woken | cancelled | slept =>
      obtain ⟨hsubs, hphase⟩ := Connection.step_of_ne (by simp) (by simp) (by simp) (by simp) hstep
      exact noOrphan_of_frame hnot hsubs rfl hphase

end StreamConnection

namespace StreamClient

variable {config : StreamConfig} {router : StreamRouter} {s s' : StreamClient}
  {l : StreamClientLabel} {ls : List StreamClientLabel}

/-- Every subscription that is registered at one of the connections has a running supervisor, or its
end. -/
def NoOrphan (s : StreamClient) : Prop := ∀ host, (s.conns host).NoOrphan

theorem not_noOrphan (host : String) (sub : Subscription)
    (hhas : Registry.Has (s.conns host).conn.subs sub)
    (hphase : (s.conns host).conn.phase.supervised = false)
    (hend : ¬ ((s.conns host).queues sub).HasEnd) : ¬ s.NoOrphan := by
  intro hnot
  rcases hnot host sub hhas with hsup | hend'
  · rw [hphase] at hsup
    cases hsup
  · exact hend hend'

/-- The supervisor of the symbol type's host has not ended. -/
def Served (router : StreamRouter) (s : StreamClient) (symbolType : SymbolType) : Prop :=
  (s.conns (router.hostFor symbolType)).conn.phase ≠ .ended

/-- Nobody subscribes at a connection whose supervisor has ended, and no backoff overflows. -/
def Serves (config : StreamConfig) (router : StreamRouter) (s : StreamClient) :
    StreamClientLabel → Prop
  | .call call =>
    ∀ symbolType ∈ Dict.get? s.typeCache (router.upper call.symbol), s.Served router symbolType
  | .lookedUp i infos =>
    ∀ call : StreamCall, s.lookups[i]? = some call →
      s.Served router (router.typeOf call.symbol infos)
  | .lookupFailed _ => True
  | .connection host l => (s.conns host).CanSleep config l

theorem noOrphan_withConnection {host : String} {conn : StreamConnection} (hnot : s.NoOrphan)
    (hconn : conn.NoOrphan) : (s.withConnection host conn).NoOrphan := by
  intro host'
  unfold withConnection
  by_cases heq : host' = host
  · subst heq
    simpa using hconn
  · simpa [Function.update_of_ne heq] using hnot host'

/-- **One step of a client.** -/
theorem noOrphan_step (hnot : s.NoOrphan) (hserves : s.Serves config router l)
    (h : s.step config router l = some s') : s'.NoOrphan := by
  cases l with
  | call call =>
    simp only [step] at h
    split at h
    · next symbolType hcache =>
      obtain rfl := Option.some.inj h
      exact noOrphan_withConnection hnot
        (StreamConnection.noOrphan_subscribe (hserves symbolType hcache) _)
    · obtain rfl := Option.some.inj h
      exact hnot
  | lookedUp i infos =>
    obtain ⟨call, hget, h⟩ := Option.bind_eq_some_iff.1 h
    obtain rfl := Option.some.inj h
    exact noOrphan_withConnection hnot (StreamConnection.noOrphan_subscribe (hserves call hget) _)
  | lookupFailed i =>
    obtain ⟨call, hget, h⟩ := Option.bind_eq_some_iff.1 h
    obtain rfl := Option.some.inj h
    exact hnot
  | connection host l =>
    simp only [step] at h
    split at h
    · cases h
    · next hl =>
      obtain ⟨conn, hstep, rfl⟩ := Option.map_eq_some_iff.1 h
      rw [Bool.not_eq_true] at hl
      exact noOrphan_withConnection hnot
        (StreamConnection.noOrphan_step (hnot host) hl hserves hstep)

/-- Every run of a client. -/
theorem run_noOrphan (hserves : (system config router).Guarded (Serves config router) new ls)
    (hrun : (system config router).run new ls = some s) : s.NoOrphan := by
  refine System.run_invariant ?_ ls (fun host => StreamConnection.noOrphan_new host) hserves hrun
  intro s l s' hnot hserves hstep
  exact noOrphan_step hnot hserves hstep

end StreamClient

end BinanceTh
