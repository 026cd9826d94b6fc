import BinanceTh.Stream.Orphans
import BinanceTh.UserStream.Client

/-!
# User-data subscriptions without a supervisor

A subscription of the user-data stream is served by the supervisors of both symbol types. When the
last of them gives up, its fault is the last item in every queue. So no subscription waits for ever,
as long as nobody subscribes when no supervisor is left, and no supervisor ends by its backoff
(`UserDataStream.run_noOrphan`). `streams_noOrphan` has the same for the market streams.
-/

namespace BinanceTh

open Transition

namespace UserDataConnection

variable {autoReconnect : Bool} {symbolType : SymbolType} {conn conn' : UserDataConnection}
  {event : ConnectionEvent} {items : List Item}

/-- An error after which the supervisor sleeps. -/
def retries (autoReconnect : Bool) (conn : UserDataConnection) : ConnectionEvent → Bool
  | .createFailed isAuthError _ => autoReconnect && !isAuthError
  | .connectFailed => autoReconnect
  | .closed => autoReconnect && !conn.planned && conn.phase = .closing false
  | _ => false

/-- The supervisor goes on, it sleeps after an error, or it ends with a fault. -/
structure Advances (autoReconnect : Bool) (conn : UserDataConnection) (event : ConnectionEvent)
    (conn' : UserDataConnection) (items : List Item) : Prop where
  sleeps : conn'.phase = .sleeping → conn.retries autoReconnect event = true
  ends : conn'.phase = .ended → ∃ message, items = [.fault message]

theorem advances_fail {message : String} (h : conn.fail message = (conn', items)) :
    conn.Advances autoReconnect event conn' items := by
  cases h
  refine ⟨fun hsleep => ?_, fun _ => ⟨message, rfl⟩⟩
  cases hsleep

theorem advances_backOff {message : String}
    (hretries : autoReconnect = true → conn.retries autoReconnect event = true)
    {conn₀ : UserDataConnection} (h : conn₀.backOff autoReconnect message = (conn', items)) :
    conn.Advances autoReconnect event conn' items := by
  unfold backOff at h
  split at h
  · next hauto =>
    cases h
    refine ⟨fun _ => hretries hauto, fun hended => ?_⟩
    cases hended
  · cases h
    refine ⟨fun hsleep => ?_, fun _ => ⟨message, rfl⟩⟩
    cases hsleep

theorem advances_of_phase {phase : SupervisorPhase} (hphase : conn'.phase = phase)
    (hsleeping : phase ≠ .sleeping) (hended : phase ≠ .ended) :
    conn.Advances autoReconnect event conn' items :=
  ⟨fun h => absurd (hphase.symm.trans h) hsleeping, fun h => absurd (hphase.symm.trans h) hended⟩

theorem advances_step (h : conn.step autoReconnect symbolType event = some (conn', items)) :
    conn.Advances autoReconnect event conn' items := by
  cases event with
  | created key =>
    cases key with
    | none =>
      obtain ⟨-, h⟩ := Option.ite_none_right_eq_some.1 h
      exact advances_fail (Option.some.inj h)
    | some key =>
      obtain ⟨-, h⟩ := Option.ite_none_right_eq_some.1 h
      cases h
      exact advances_of_phase rfl (by simp) (by simp)
  | createFailed isAuthError exc =>
    obtain ⟨-, h⟩ := Option.ite_none_right_eq_some.1 h
    split at h
    · exact advances_fail (Option.some.inj h)
    · next hauth =>
      refine advances_backOff (fun hauto => ?_) (Option.some.inj h)
      simp [retries, hauto, hauth]
  | connectFailed =>
    obtain ⟨-, h⟩ := Option.ite_none_right_eq_some.1 h
    exact advances_backOff (fun hauto => hauto) (Option.some.inj h)
  | connected | dropped | expired | slept =>
    obtain ⟨-, h⟩ := Option.ite_none_right_eq_some.1 h
    cases h
    exact advances_of_phase rfl (by simp) (by simp)
  | woken =>
    simp only [step] at h
    split at h
    · cases h
      exact advances_of_phase rfl (by simp) (by simp)
    · cases h
  | closed =>
    simp only [step] at h
    split at h
    · next timedOut hphase =>
      split at h
      · cases h
        exact advances_of_phase rfl (by simp) (by simp)
      · next hplanned =>
        refine advances_backOff (fun hauto => ?_) (Option.some.inj h)
        simp only [Bool.or_eq_true, not_or, Bool.not_eq_true] at hplanned
        simp [retries, hauto, hplanned.1, hplanned.2, hphase]
    · cases h

end UserDataConnection

theorem SupervisedConnection.conn_follow {sup : SupervisedConnection} {conn : UserDataConnection}
    (h : conn.phase = .sleeping → sup.backoff.n < 1024) : (sup.follow conn).conn = conn := by
  unfold follow
  split
  · next hphase =>
    unfold sleep
    rw [Backoff.next_of_lt (h hphase)]
  · rfl
  · rfl

namespace UserDataStream

variable {autoReconnect : Bool} {s s' : UserDataStream} {l : UserDataLabel}
  {ls : List UserDataLabel}

/-- A supervisor of one of the connections has not ended. -/
def Supervised (s : UserDataStream) : Prop :=
  ∃ symbolType sup, s.conns symbolType = some sup ∧ sup.conn.phase ≠ .ended

/-- A registered subscription has a running supervisor, or its end. -/
def NoOrphan (s : UserDataStream) : Prop :=
  ∀ sub, Registry.Has s.subs sub → s.Supervised ∨ (s.queues sub).HasEnd

theorem not_noOrphan (sub : Subscription) (hhas : Registry.Has s.subs sub)
    (hended : ∀ symbolType sup, s.conns symbolType = some sup → sup.conn.phase = .ended)
    (hend : ¬ (s.queues sub).HasEnd) : ¬ s.NoOrphan := by
  intro hnot
  rcases hnot sub hhas with ⟨symbolType, sup, hsup, hrunning⟩ | hend'
  · exact hrunning (hended symbolType sup hsup)
  · exact hend hend'

/-- Nobody subscribes when no supervisor is left and none is started, and no backoff overflows. -/
def Serves (autoReconnect : Bool) (s : UserDataStream) : UserDataLabel → Prop
  | .call _ => s.started = true → s.Supervised
  | .created _ keys =>
    (s.started = true → s.Supervised) ∧
      (s.started = false → ∃ symbolType, (keys symbolType).isSome = true)
  | .connection symbolType event =>
    ∀ sup, s.conns symbolType = some sup → sup.conn.retries autoReconnect event = true →
      sup.backoff.n < 1024
  | _ => True

theorem noOrphan_of_supervised (h : s.Supervised) : s.NoOrphan := fun _ _ => .inl h

theorem supervised_ensureStarted {keys : ListenKeys} (hsup : s.started = true → s.Supervised)
    (hkeys : s.started = false → ∃ symbolType, (keys symbolType).isSome = true) :
    (s.ensureStarted keys).Supervised := by
  unfold ensureStarted
  cases hstarted : s.started with
  | true => exact hsup hstarted
  | false =>
    obtain ⟨symbolType, hkey⟩ := hkeys hstarted
    obtain ⟨key, hkey⟩ := Option.isSome_iff_exists.1 hkey
    refine ⟨symbolType, .start, ?_, by simp [SupervisedConnection.start, UserDataConnection.start]⟩
    simp [startConnections, hkey]

theorem conns_offerItems (items : List Item) :
    ∀ s : UserDataStream, (items.foldl offerItem s).conns = s.conns := by
  induction items with
  | nil =>
    intro s
    rfl
  | cons item items ih =>
    intro s
    rw [List.foldl_cons, ih]
    cases item <;> rfl

/-- A fault goes to every subscription. -/
theorem noOrphan_faultAll (s : UserDataStream) (message : String) : (s.faultAll message).NoOrphan :=
  fun _ hsub => .inr (Queues.hasEnd_offerAll rfl _ _ (.inl (Registry.Has.mem_all hsub)))

/-- A step of a connection: its supervisor is still there, or it leaves a fault. -/
theorem noOrphan_connection {symbolType : SymbolType} {event : ConnectionEvent}
    {sup : SupervisedConnection} {conn : UserDataConnection} {items : List Item}
    (hstep : sup.conn.step autoReconnect symbolType event = some (conn, items))
    (hsleep : sup.conn.retries autoReconnect event = true → sup.backoff.n < 1024) :
    (items.foldl offerItem (s.withConnection symbolType (sup.follow conn))).NoOrphan := by
  have hadvances := UserDataConnection.advances_step hstep
  have hconn := SupervisedConnection.conn_follow fun h => hsleep (hadvances.sleeps h)
  by_cases hended : conn.phase = .ended
  · obtain ⟨message, rfl⟩ := hadvances.ends hended
    exact noOrphan_faultAll _ message
  · refine noOrphan_of_supervised ⟨symbolType, sup.follow conn, ?_, ?_⟩
    · rw [conns_offerItems]
      exact Function.update_self symbolType _ s.conns
    · rw [hconn]
      exact hended

/-- **One step of the user-data stream.** -/
theorem noOrphan_step (hnot : s.NoOrphan) (hserves : s.Serves autoReconnect l)
    (h : s.step autoReconnect l = some s') : s'.NoOrphan := by
  cases l with
  | call eventType =>
    simp only [step] at h
    split at h
    · next hstarted =>
      obtain rfl := Option.some.inj h
      exact noOrphan_of_supervised (hserves hstarted)
    · obtain rfl := Option.some.inj h
      exact hnot
  | created i keys =>
    obtain ⟨eventType, hget, h⟩ := Option.bind_eq_some_iff.1 h
    obtain rfl := Option.some.inj h
    exact noOrphan_of_supervised (supervised_ensureStarted hserves.1 hserves.2)
  | createFailed i =>
    obtain ⟨eventType, hget, h⟩ := Option.bind_eq_some_iff.1 h
    obtain rfl := Option.some.inj h
    exact hnot
  | connection symbolType event =>
    obtain ⟨sup, hsup, h⟩ := Option.bind_eq_some_iff.1 h
    obtain ⟨⟨conn, items⟩, hstep, h⟩ := Option.bind_eq_some_iff.1 h
    obtain rfl := Option.some.inj h
    exact noOrphan_connection hstep (hserves sup hsup)
  | frame symbolType eventType data =>
    obtain ⟨sup, hsup, h⟩ := Option.bind_eq_some_iff.1 h
    obtain ⟨hconnected, h⟩ := Option.ite_none_right_eq_some.1 h
    obtain rfl := Option.some.inj h
    refine noOrphan_of_supervised ⟨symbolType, sup, hsup, fun hended => ?_⟩
    simp [UserDataConnection.isConnected, hended] at hconnected
  | unsubscribe sub =>
    obtain rfl := Option.some.inj h
    intro sub' hsub'
    exact (hnot sub' (Registry.Has.of_remove hsub')).imp_right fun hend =>
      Queues.hasEnd_offerTo rfl _ _ (.inr hend)
  | next sub =>
    obtain ⟨⟨item, queue⟩, hnext, rfl⟩ := Option.map_eq_some_iff.1 h
    intro sub' hsub'
    exact (hnot sub' hsub').imp_right fun hend => Queues.hasEnd_next hend hnext

/-- Every run of the user-data stream. -/
theorem run_noOrphan (hserves : (system autoReconnect).Guarded (Serves autoReconnect) new ls)
    (hrun : (system autoReconnect).run new ls = some s) : s.NoOrphan := by
  refine System.run_invariant ?_ ls (fun sub hsub => absurd hsub Registry.not_has_empty) hserves hrun
  intro s l s' hnot hserves hstep
  exact noOrphan_step hnot hserves hstep

end UserDataStream

/-- **No orphan subscriber**, of market streams and of user-data streams. -/
theorem streams_noOrphan (config : StreamConfig) (router : StreamRouter) (autoReconnect : Bool) :
    (∀ ls s, (StreamClient.system config router).Guarded (StreamClient.Serves config router) .new ls →
      (StreamClient.system config router).run .new ls = some s → s.NoOrphan) ∧
    ∀ ls s, (UserDataStream.system autoReconnect).Guarded (UserDataStream.Serves autoReconnect) .new
      ls → (UserDataStream.system autoReconnect).run .new ls = some s → s.NoOrphan :=
  ⟨fun _ _ hserves hrun => StreamClient.run_noOrphan hserves hrun,
    fun _ _ hserves hrun => UserDataStream.run_noOrphan hserves hrun⟩

/-- A step of the connection that the call leads to. -/
def siteConnection (l : ConnectionLabel) : StreamClientLabel :=
  .connection "wss://site" (.connection l "")

/-- The socket drops, there is no reconnecting, and the consumer is left with the fault. -/
def tradesDropped : List StreamClientLabel :=
  [.call tradesCall, .lookedUp 0 [], siteConnection .started, siteConnection .connected,
    siteConnection .dropped, siteConnection (.woken false), siteConnection .closed]

/-- One connection of the user-data stream gives up; the other one serves a new subscription. -/
def siteOnly : List UserDataLabel :=
  [.call orderEvent, .created 0 fun _ => some "key",
    .connection .global (.createFailed true "invalid api key"), .call orderEvent]

theorem streams_noOrphan_dropped :
    (∃ s, (StreamClient.system ⟨false, true⟩ sampleRouter).run .new tradesDropped = some s ∧
      (s.conns "wss://site").conn.phase = .ended ∧ s.NoOrphan) ∧
    ∃ s, (UserDataStream.system false).run .new siteOnly = some s ∧ s.made = 2 ∧ s.NoOrphan := by
  have hstreams := streams_noOrphan ⟨false, true⟩ sampleRouter false
  have hmarket : (StreamClient.system ⟨false, true⟩ sampleRouter).Guarded
      (StreamClient.Serves ⟨false, true⟩ sampleRouter) .new tradesDropped := by
    refine System.guarded_cons (fun symbolType hcache => ?_) rfl <|
      System.guarded_cons (fun call _ hended => ?_) rfl <|
      System.guarded_cons (fun hretries => ?_) rfl <|
      System.guarded_cons (fun hretries => ?_) rfl <|
      System.guarded_cons (fun hretries => ?_) rfl <|
      System.guarded_cons (fun hretries => ?_) rfl <|
      System.guarded_cons (fun hretries => ?_) rfl trivial
    · cases hcache
    · cases hended
    all_goals cases hretries
  have huser : (UserDataStream.system false).Guarded (UserDataStream.Serves false) .new siteOnly := by
    refine System.guarded_cons (fun hstarted => ?_) rfl <|
      System.guarded_cons ⟨fun hstarted => ?_, fun _ => ⟨.global, rfl⟩⟩ rfl <|
      System.guarded_cons (fun sup _ hretries => ?_) rfl <|
      System.guarded_cons (fun _ => ⟨.site, .start, rfl, fun hended => ?_⟩) rfl trivial
    · cases hstarted
    · cases hstarted
    · cases hretries
    · cases hended
  exact ⟨⟨_, rfl, rfl, hstreams.1 _ _ hmarket rfl⟩, ⟨_, rfl, rfl, hstreams.2 _ _ huser rfl⟩⟩

/-- The connect fails without a retry, and the consumer subscribes again. -/
def tradesAgain : List StreamClientLabel :=
  [.call tradesCall, .lookedUp 0 [], siteConnection .started, siteConnection .connectFailed,
    .call tradesCall]

/-- Both connections give up, and the consumer subscribes again. -/
def ordersAgain : List UserDataLabel :=
  [.call orderEvent, .created 0 fun _ => some "key",
    .connection .global (.createFailed true "invalid api key"),
    .connection .site (.createFailed true "invalid api key"), .call orderEvent]

/-- The second subscription waits for a supervisor that has ended. -/
theorem not_streams_noOrphan_again :
    (∃ s, (StreamClient.system ⟨false, true⟩ sampleRouter).run .new tradesAgain = some s ∧
      s.lookups = [] ∧ (s.conns "wss://site").conn.pending = 0 ∧ ¬ s.NoOrphan) ∧
    ∃ s, (UserDataStream.system true).run .new ordersAgain = some s ∧ s.calls = [] ∧
      ¬ s.NoOrphan := by
  refine ⟨⟨_, rfl, ?_⟩, ⟨_, rfl, ?_⟩⟩
  · refine ⟨rfl, rfl, ?_⟩
    exact StreamClient.not_noOrphan "wss://site" ⟨"btcusdt@trade", 1⟩ ⟨_, rfl, by decide⟩ rfl
      (SubscriptionQueue.not_hasEnd_nil rfl rfl)
  · refine ⟨rfl, ?_⟩
    refine UserDataStream.not_noOrphan ⟨orderEvent, 1⟩ ⟨_, rfl, by decide⟩
      (fun symbolType sup hsup => ?_) (SubscriptionQueue.not_hasEnd_nil rfl rfl)
    cases symbolType <;> obtain rfl := Option.some.inj hsup <;> rfl

end BinanceTh
