import BinanceTh.ListenKey
import BinanceTh.UserStream

/-!
# The keys of the sockets

Two user-data connections and the listenKey manager they share. Each connection asks for keys
before it connects and takes the one of its symbol type; the reply it waits for replaces all the
keys of the manager. The key of an installed socket is among those that are kept alive, as long as
each reply has every key in use (`KeyedStream.run_keptAlive`).
-/

namespace BinanceTh

open Tasks Transition

/-- A connection with its call of `create`. -/
structure KeyedConnection where
  conn : UserDataConnection
  /-- The call of `create` that its supervisor awaits. -/
  call : Option ℕ
  /-- The key of its last URL. -/
  key : Option String

namespace KeyedConnection

/-- A connection whose supervisor has not taken its first step. -/
def start : KeyedConnection := ⟨.start, none, none⟩

/-- The key of the installed socket; `_ws` is reset after `ws.close()`. -/
def installed (c : KeyedConnection) : Option String :=
  match c.conn.phase with
  | .running _ | .closing _ => c.key
  | _ => none

/-- The key of the installed socket, or of the connect in progress. -/
def inUse (c : KeyedConnection) : Option String :=
  match c.conn.phase with
  | .connecting => c.key
  | _ => c.installed

end KeyedConnection

structure KeyedStream where
  manager : ListenKeyManager
  conns : SymbolType → Option KeyedConnection
  started : Bool

inductive KeyedStreamLabel where
  /-- A step of the manager; callers that are no supervisors come from `_ensure_started`. -/
  | manager (l : ListenKeyLabel)
  /-- `create` returns to `_ensure_started`. -/
  | ensured (c : ℕ)
  /-- A supervisor takes its first step. -/
  | begin (symbolType : SymbolType)
  /-- `create` returns to a supervisor; `exc` is the text of what it raised. -/
  | created (symbolType : SymbolType) (exc : String)
  /-- Any other step of a connection. -/
  | connection (symbolType : SymbolType) (event : ConnectionEvent)

/-- `except BinanceThAuthError`. -/
def Exc.isAuthError : Exc → Bool
  | .api e => e.cls = .authError
  | _ => false

/-- The await of `create` is over. -/
def ConnectionEvent.isCreate : ConnectionEvent → Bool
  | .created _ | .createFailed _ _ => true
  | _ => false

def ListenKeyLabel.isWake : ListenKeyLabel → Bool
  | .wake _ => true
  | _ => false

namespace KeyedStream

def new : KeyedStream := ⟨.new, fun _ => none, false⟩

/-- The keys that `keepalive` sends a PUT for. -/
def kept (s : KeyedStream) : List String := s.manager.keys.values

/-- A connection after a step of its supervisor, which calls `create` at the top of its loop. -/
def place (s : KeyedStream) (symbolType : SymbolType) (c : KeyedConnection) : KeyedStream :=
  if c.conn.phase = .creating then
    { s with
      manager := s.manager.create
      conns := Function.update s.conns symbolType (some { c with call := some s.manager.calls.length }) }
  else { s with conns := Function.update s.conns symbolType (some c) }

/-- `_ensure_started` after its `create`, unless that has raised. -/
def ensureStarted (s : KeyedStream) : Outcome Unit Exc → KeyedStream
  | .returned () =>
    if s.started then s
    else { s with
      started := true
      conns := fun symbolType => (s.manager.keyFor symbolType).map fun _ => .start }
  | _ => s

/-- A call of `create` goes on after its await, with this result. -/
def finish (apiKey : Option String) (s : KeyedStream) (c : ℕ) :
    Option (KeyedStream × Outcome Unit Exc) := do
  let manager ← s.manager.step apiKey (.wake c)
  let call ← manager.calls[c]?
  let result ← call.result
  some ({ s with manager }, result)

/-- The call is one of a supervisor. -/
def owned (s : KeyedStream) (c : ℕ) : Bool :=
  [SymbolType.global, SymbolType.site].any fun symbolType =>
    (s.conns symbolType).any fun conn => conn.call = some c

/-- A supervisor after its call of `create`. -/
def resumed (autoReconnect : Bool) (s : KeyedStream) (symbolType : SymbolType) (c : KeyedConnection)
    (exc : String) : Outcome Unit Exc → Option KeyedStream
  | .returned () =>
    let key := s.manager.keyFor symbolType
    (c.conn.step autoReconnect symbolType (.created key)).map fun (conn, _) =>
      s.place symbolType ⟨conn, none, key⟩
  | .raised e =>
    (c.conn.step autoReconnect symbolType (.createFailed e.isAuthError exc)).map fun (conn, _) =>
      s.place symbolType { c with conn, call := none }
  | .cancelled => some (s.place symbolType { c with conn.phase := .ended, call := none })

def step (apiKey : Option String) (autoReconnect : Bool) (s : KeyedStream) :
    KeyedStreamLabel → Option KeyedStream
  | .manager l =>
    if l.isWake then none else (s.manager.step apiKey l).map fun manager => { s with manager }
  | .ensured c =>
    if s.owned c then none
    else (s.finish apiKey c).map fun (s', result) => s'.ensureStarted result
  | .begin symbolType => do
    let c ← s.conns symbolType
    if c.conn.phase = .creating ∧ c.call = none then some (s.place symbolType c) else none
  | .created symbolType exc => do
    let c ← s.conns symbolType
    let call ← c.call
    let (s', result) ← s.finish apiKey call
    s'.resumed autoReconnect symbolType c exc result
  | .connection symbolType event =>
    if event.isCreate then none
    else do
      let c ← s.conns symbolType
      let (conn, _) ← c.conn.step autoReconnect symbolType event
      some (s.place symbolType { c with conn })

def system (apiKey : Option String) (autoReconnect : Bool) : System KeyedStream KeyedStreamLabel where
  init := new
  step s l := s.step apiKey autoReconnect l

/-- The key of each installed socket is kept alive. -/
def KeptAlive (s : KeyedStream) : Prop :=
  ∀ symbolType c key, s.conns symbolType = some c → c.installed = some key → key ∈ s.kept

/-- A reply that is stored has the keys in use. -/
def KeepsUsed (s : KeyedStream) : KeyedStreamLabel → Prop
  | .manager l =>
    ∀ keys ∈ l.stores, ∀ symbolType c key, s.conns symbolType = some c → c.inUse = some key →
      key ∈ keys.values
  | _ => True

/-- So is the key of each connect in progress. -/
def Inv (s : KeyedStream) : Prop :=
  ∀ symbolType c key, s.conns symbolType = some c → c.inUse = some key → key ∈ s.kept

variable {apiKey : Option String} {autoReconnect : Bool} {s s' : KeyedStream}
  {l : KeyedStreamLabel} {ls : List KeyedStreamLabel}

theorem Inv.keptAlive (h : s.Inv) : s.KeptAlive := by
  intro symbolType c key hc hinstalled
  refine h symbolType c key hc ?_
  unfold KeyedConnection.installed at hinstalled
  unfold KeyedConnection.inUse KeyedConnection.installed
  cases hphase : c.conn.phase with
  | running live | closing timedOut =>
    rw [hphase] at hinstalled
    exact hinstalled
  | creating | connecting | sleeping | ended =>
    rw [hphase] at hinstalled
    cases hinstalled

/-- As long as the manager's keys stay the same, the connections decide. -/
theorem Inv.of_conns (h : s.Inv) (hkept : s'.kept = s.kept)
    (hconns : ∀ symbolType c, s'.conns symbolType = some c → s.conns symbolType = some c ∨
      ∀ key, c.inUse = some key → key ∈ s.kept) : s'.Inv := by
  intro symbolType c key hc huse
  rw [hkept]
  rcases hconns symbolType c hc with hold | hnew
  · exact h symbolType c key hold huse
  · exact hnew key huse

theorem kept_create (s : KeyedStream) : s.manager.create.keys = s.manager.keys := by
  have hstep : s.manager.step none .create = some s.manager.create := rfl
  exact ListenKeyManager.keys_step hstep

theorem Inv.place (h : s.Inv) (symbolType : SymbolType) {c : KeyedConnection}
    (hc : ∀ key, c.inUse = some key → key ∈ s.kept) : (s.place symbolType c).Inv := by
  unfold KeyedStream.place
  split
  · next hcreating =>
    refine h.of_conns (congrArg ListenKeys.values s.kept_create) fun symbolType' c' hc' => ?_
    change Function.update s.conns symbolType _ symbolType' = some c' at hc'
    by_cases heq : symbolType' = symbolType
    · subst heq
      rw [Function.update_self] at hc'
      obtain rfl := Option.some.inj hc'
      refine .inr fun key huse => hc key ?_
      unfold KeyedConnection.inUse KeyedConnection.installed at huse ⊢
      exact huse
    · rw [Function.update_of_ne heq] at hc'
      exact .inl hc'
  · refine h.of_conns rfl fun symbolType' c' hc' => ?_
    change Function.update s.conns symbolType _ symbolType' = some c' at hc'
    by_cases heq : symbolType' = symbolType
    · subst heq
      rw [Function.update_self] at hc'
      obtain rfl := Option.some.inj hc'
      exact .inr hc
    · rw [Function.update_of_ne heq] at hc'
      exact .inl hc'

/-- A supervisor that sleeps, is at the top of its loop or has ended has no key in use. -/
theorem not_inUse {c : KeyedConnection} {key : String}
    (hphase : c.conn.phase = .creating ∨ c.conn.phase = .sleeping ∨ c.conn.phase = .ended) :
    c.inUse ≠ some key := by
  unfold KeyedConnection.inUse KeyedConnection.installed
  rcases hphase with hphase | hphase | hphase <;> simp [hphase]

theorem phase_backOff {conn conn' : UserDataConnection} {message : String} {items : List Item}
    (h : conn.backOff autoReconnect message = (conn', items)) :
    conn'.phase = .creating ∨ conn'.phase = .sleeping ∨ conn'.phase = .ended := by
  unfold UserDataConnection.backOff at h
  split at h
  · cases h
    exact .inr (.inl rfl)
  · cases h
    exact .inr (.inr rfl)

/-- A step of a supervisor that is not waiting for `create` makes no other key used. -/
theorem inUse_of_step {c : KeyedConnection} {conn : UserDataConnection} {symbolType : SymbolType}
    {event : ConnectionEvent} {items : List Item} {key : String} (hevent : event.isCreate = false)
    (hstep : c.conn.step autoReconnect symbolType event = some (conn, items))
    (huse : ({ c with conn } : KeyedConnection).inUse = some key) : c.inUse = some key := by
  cases event with
  | created | createFailed => cases hevent
  | connected | dropped | expired =>
    obtain ⟨hphase, hstep⟩ := Option.ite_none_right_eq_some.1 hstep
    cases hstep
    unfold KeyedConnection.inUse KeyedConnection.installed
    rw [hphase]
    exact huse
  | connectFailed =>
    obtain ⟨-, hstep⟩ := Option.ite_none_right_eq_some.1 hstep
    exact absurd huse (not_inUse (phase_backOff (Option.some.inj hstep)))
  | woken =>
    simp only [UserDataConnection.step] at hstep
    split at hstep
    · next live hphase =>
      cases hstep
      unfold KeyedConnection.inUse KeyedConnection.installed
      rw [hphase]
      exact huse
    · cases hstep
  | closed =>
    simp only [UserDataConnection.step] at hstep
    split at hstep
    · split at hstep
      · cases hstep
        exact absurd huse (not_inUse (.inl rfl))
      · exact absurd huse (not_inUse (phase_backOff (Option.some.inj hstep)))
    · cases hstep
  | slept =>
    obtain ⟨-, hstep⟩ := Option.ite_none_right_eq_some.1 hstep
    cases hstep
    exact absurd huse (not_inUse (.inl rfl))

/-- A call of `create` that goes on leaves the keys and the connections alone. -/
theorem finish_frame {c : ℕ} {result : Outcome Unit Exc} (h : s.finish apiKey c = some (s', result)) :
    s'.kept = s.kept ∧ s'.conns = s.conns := by
  obtain ⟨manager, hmanager, h⟩ := Option.bind_eq_some_iff.1 h
  obtain ⟨call, -, h⟩ := Option.bind_eq_some_iff.1 h
  obtain ⟨result', -, h⟩ := Option.bind_eq_some_iff.1 h
  cases h
  exact ⟨congrArg ListenKeys.values (ListenKeyManager.keys_step hmanager), rfl⟩

/-- A new connection uses no key. -/
theorem Inv.ensureStarted (h : s.Inv) (result : Outcome Unit Exc) : (s.ensureStarted result).Inv := by
  cases result with
  | returned =>
    unfold KeyedStream.ensureStarted
    dsimp only
    split
    · exact h
    · refine h.of_conns rfl fun symbolType c hc => .inr fun key huse => ?_
      obtain ⟨key', -, rfl⟩ := Option.map_eq_some_iff.1 hc
      exact absurd huse (not_inUse (.inl rfl))
  | raised e => exact h
  | cancelled => exact h

/-- The supervisor takes the key of its type from the manager. -/
theorem Inv.resumed {symbolType : SymbolType} {c : KeyedConnection} {exc : String}
    {result : Outcome Unit Exc} (h : s.Inv)
    (hstep : s.resumed autoReconnect symbolType c exc result = some s') : s'.Inv := by
  cases result with
  | returned =>
    obtain ⟨⟨conn, items⟩, hconn, rfl⟩ := Option.map_eq_some_iff.1 hstep
    refine h.place symbolType fun key huse => ?_
    cases hkey : s.manager.keyFor symbolType with
    | none =>
      rw [hkey] at hconn huse
      obtain ⟨-, hconn⟩ := Option.ite_none_right_eq_some.1 hconn
      cases hconn
      exact absurd huse (not_inUse (.inr (.inr rfl)))
    | some key' =>
      rw [hkey] at hconn huse
      obtain ⟨-, hconn⟩ := Option.ite_none_right_eq_some.1 hconn
      cases hconn
      obtain rfl := Option.some.inj huse
      exact ListenKeys.mem_values.2 ⟨symbolType, hkey⟩
  | raised e =>
    obtain ⟨⟨conn, items⟩, hconn, rfl⟩ := Option.map_eq_some_iff.1 hstep
    refine h.place symbolType fun key huse => absurd huse (not_inUse ?_)
    obtain ⟨-, hconn⟩ := Option.ite_none_right_eq_some.1 hconn
    split at hconn
    · cases hconn
      exact .inr (.inr rfl)
    · exact phase_backOff (Option.some.inj hconn)
  | cancelled =>
    obtain rfl := Option.some.inj hstep
    exact h.place symbolType fun key huse => absurd huse (not_inUse (.inr (.inr rfl)))

/-- **One step.** -/
theorem inv_step (h : s.Inv) (hkeeps : s.KeepsUsed l)
    (hstep : s.step apiKey autoReconnect l = some s') : s'.Inv := by
  cases l with
  | manager l =>
    obtain ⟨-, hstep⟩ := Option.ite_none_left_eq_some.1 hstep
    obtain ⟨manager, hmanager, rfl⟩ := Option.map_eq_some_iff.1 hstep
    have hkeys := ListenKeyManager.keys_step hmanager
    intro symbolType c key hc huse
    change key ∈ manager.keys.values
    rw [hkeys]
    cases hstores : l.stores with
    | none => exact h symbolType c key hc huse
    | some keys => exact hkeeps keys hstores symbolType c key hc huse
  | ensured c =>
    obtain ⟨-, hstep⟩ := Option.ite_none_left_eq_some.1 hstep
    obtain ⟨⟨t, result⟩, hfinish, rfl⟩ := Option.map_eq_some_iff.1 hstep
    obtain ⟨hkept, hconns⟩ := finish_frame hfinish
    have ht : t.Inv := h.of_conns hkept fun symbolType c hc => .inl (hconns ▸ hc)
    exact ht.ensureStarted result
  | begin symbolType =>
    obtain ⟨c, hc, hstep⟩ := Option.bind_eq_some_iff.1 hstep
    obtain ⟨-, hstep⟩ := Option.ite_none_right_eq_some.1 hstep
    obtain rfl := Option.some.inj hstep
    exact h.place symbolType (h symbolType c · hc)
  | created symbolType exc =>
    obtain ⟨c, hc, hstep⟩ := Option.bind_eq_some_iff.1 hstep
    obtain ⟨call, -, hstep⟩ := Option.bind_eq_some_iff.1 hstep
    obtain ⟨⟨t, result⟩, hfinish, hstep⟩ := Option.bind_eq_some_iff.1 hstep
    obtain ⟨hkept, hconns⟩ := finish_frame hfinish
    have ht : t.Inv := h.of_conns hkept fun symbolType c hc => .inl (hconns ▸ hc)
    exact ht.resumed hstep
  | connection symbolType event =>
    obtain ⟨hevent, hstep⟩ := Option.ite_none_left_eq_some.1 hstep
    obtain ⟨c, hc, hstep⟩ := Option.bind_eq_some_iff.1 hstep
    obtain ⟨⟨conn, items⟩, hconn, hstep⟩ := Option.bind_eq_some_iff.1 hstep
    obtain rfl := Option.some.inj hstep
    refine h.place symbolType fun key huse => h symbolType c key hc ?_
    exact inUse_of_step (Bool.eq_false_iff.2 hevent) hconn huse

/-- **The keys of the sockets.** In every run in which each stored reply has the keys in use, the
key of each installed socket is among those kept alive. -/
theorem run_keptAlive (hkeeps : (system apiKey autoReconnect).Guarded KeepsUsed new ls)
    (hrun : (system apiKey autoReconnect).run new ls = some s) : s.KeptAlive := by
  have hinv : s.Inv := by
    refine System.run_invariant (M := system apiKey autoReconnect) (C := KeepsUsed) ?_ ls ?_ hkeeps
      hrun
    · intro s l s' h hkeeps hstep
      exact inv_step h hkeeps hstep
    · intro symbolType c key hc
      cases hc
  exact hinv.keptAlive

theorem keepsUsed_of_stores {l : ListenKeyLabel} (h : l.stores = none) : s.KeepsUsed (.manager l) := by
  intro keys hkeys
  rw [h] at hkeys
  cases hkeys

/-- The answer with these keys. -/
def keysReply (globalKey siteKey : String) : Except Exc Json :=
  .ok (.arr [.obj [("listenKey", .str globalKey), ("type", .str "GLOBAL")],
    .obj [("listenKey", .str siteKey), ("type", .str "SITE")]])

/-- A call of `_ensure_started` makes both connections, and they connect with the first keys. -/
def bothConnected (reply : Except Exc Json) : List KeyedStreamLabel :=
  [.manager .create, .manager (.begin 0), .manager (.reply 0 (keysReply "g1" "s1")), .ensured 0,
    .begin .global, .begin .site, .manager (.begin 1), .manager (.reply 1 reply), .created .global "",
    .created .site "", .connection .global .connected, .connection .site .connected]

/-- The site's socket drops, and its supervisor asks for keys. -/
def siteReconnects (reply : Except Exc Json) : List KeyedStreamLabel :=
  [.connection .site .dropped, .connection .site .woken, .connection .site .closed,
    .connection .site .slept, .manager (.begin 2), .manager (.reply 2 reply)]

/-- The server answers with the keys that are in use. -/
theorem run_keptAlive_same :
    ∃ s c, (system (some "key") true).run new (bothConnected (keysReply "g1" "s1") ++
        siteReconnects (keysReply "g1" "s2")) = some s ∧
      s.conns .global = some c ∧ c.installed = some "g1" ∧ s.KeptAlive := by
  have hkeeps : (system (some "key") true).Guarded KeepsUsed new (bothConnected (keysReply "g1" "s1") ++
      siteReconnects (keysReply "g1" "s2")) := by
    refine System.guarded_cons (keepsUsed_of_stores rfl) rfl <|
      System.guarded_cons (keepsUsed_of_stores rfl) rfl <|
      System.guarded_cons (fun keys hkeys symbolType c key hc huse => ?_) rfl <|
      System.guarded_cons trivial rfl <| System.guarded_cons trivial rfl <|
      System.guarded_cons trivial rfl <| System.guarded_cons (keepsUsed_of_stores rfl) rfl <|
      System.guarded_cons (fun keys hkeys symbolType c key hc huse => ?_) rfl <|
      System.guarded_cons trivial rfl <| System.guarded_cons trivial rfl <|
      System.guarded_cons trivial rfl <| System.guarded_cons trivial rfl <|
      System.guarded_cons trivial rfl <| System.guarded_cons trivial rfl <|
      System.guarded_cons trivial rfl <| System.guarded_cons trivial rfl <|
      System.guarded_cons (keepsUsed_of_stores rfl) rfl <|
      System.guarded_cons (fun keys hkeys symbolType c key hc huse => ?_) rfl trivial
    · cases hc
    · cases symbolType <;>
      · obtain rfl := Option.some.inj hc
        cases huse
    · cases symbolType with
      | global =>
        obtain rfl := Option.some.inj hc
        obtain rfl := Option.some.inj huse
        obtain rfl := Option.some.inj hkeys
        decide
      | site =>
        obtain rfl := Option.some.inj hc
        cases huse
  obtain ⟨s, c, hrun, hc, hinstalled⟩ : ∃ s c, (system (some "key") true).run new
      (bothConnected (keysReply "g1" "s1") ++ siteReconnects (keysReply "g1" "s2")) = some s ∧
        s.conns .global = some c ∧ c.installed = some "g1" := ⟨_, _, rfl, rfl, rfl⟩
  exact ⟨s, c, hrun, hc, hinstalled, run_keptAlive hkeeps hrun⟩

/-- The server answers the site's supervisor with a new key for the other connection, too. -/
theorem not_run_keptAlive_new :
    ¬ ∀ ls s, (system (some "key") true).run new ls = some s → s.KeptAlive := by
  intro h
  have hkept := h (bothConnected (keysReply "g1" "s1") ++ siteReconnects (keysReply "g2" "s2")) _ rfl
    .global _ "g1" rfl rfl
  exact absurd hkept (by decide)

end KeyedStream

end BinanceTh
