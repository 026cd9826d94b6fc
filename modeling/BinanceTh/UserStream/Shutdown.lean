import BinanceTh.Lib.Counting
import BinanceTh.UserStream.Orphans

/-!
# The end of the user-data client

`UserDataStream.aclose`, beside everything else that the client does. It cancels the supervisors, ends
the subscriptions that it finds, and deletes the listenKeys. Calls that wait in `_ensure_started` look at
`_closing`, so no connection is started after it; but what they subscribe to after the sweep is served
by nobody (`ClosableUserData.run_tornDown`). The teardown takes at most eight steps, and can always
take the next one (`ClosableUserData.run_teardown`).
-/

namespace BinanceTh

open Transition

/-- Where `aclose` of a connection stands. -/
inductive ConnectionClose where
  | unbegun
  /-- It awaits the cancelled supervisor. -/
  | awaiting
  /-- In `ws.close()`. -/
  | closingSocket
  | done
  deriving DecidableEq

/-- Where the call of `aclose` that tears down stands; any other returns at once. -/
inductive UserTeardown where
  | unbegun
  /-- It awaits the `aclose` of the connections. -/
  | gathering
  /-- In `keys.close()`. -/
  | deleting
  | done
  deriving DecidableEq

/-- It has ended the subscriptions. -/
def UserTeardown.swept : UserTeardown → Bool
  | .deleting | .done => true
  | _ => false

structure ClosableUserData where
  stream : UserDataStream
  teardown : UserTeardown
  closes : SymbolType → ConnectionClose
  /-- All the subscriptions that were made. -/
  issued : List Subscription
  /-- Those made after the sweep. -/
  late : List Subscription
  /-- Those that `_unsubscribe` was called for. -/
  left : List Subscription

inductive ClosableUserLabel where
  | stream (l : UserDataLabel)
  | aclose
  /-- The `aclose` of a connection begins. -/
  | closeBegun (symbolType : SymbolType)
  /-- A cancelled supervisor ends; it may take the error where it awaits its own reader. -/
  | supervisorEnded (symbolType : SymbolType) (taken : Bool)
  | socketClosed (symbolType : SymbolType)
  /-- The `aclose` of every connection is over. -/
  | gathered
  | keysClosed

namespace UserDataConnection

/-- What happens to the socket, and not in the supervisor. -/
def ofSocket : ConnectionEvent → Bool
  | .dropped | .expired => true
  | _ => false

/-- `_ws` is set. -/
def hasSocket (conn : UserDataConnection) : Bool :=
  match conn.phase with
  | .running _ | .closing _ => true
  | _ => false

end UserDataConnection

namespace UserDataStream

/-- A step that leaves the registry as it is, and takes no end away from a subscription that is not
in it. -/
structure Keeps (s s' : UserDataStream) : Prop where
  subs : s'.subs = s.subs
  made : s'.made = s.made
  conns : s'.conns = s.conns
  ends : ∀ sub, Registry.Has s.subs sub ∨ (s.queues sub).HasEnd →
    Registry.Has s.subs sub ∨ (s'.queues sub).HasEnd

variable {s s' t : UserDataStream} {sub : Subscription}

theorem Keeps.refl (s : UserDataStream) : s.Keeps s := ⟨rfl, rfl, rfl, fun _ h => h⟩

theorem Keeps.trans (h : s.Keeps s') (h' : s'.Keeps t) : s.Keeps t where
  subs := h'.subs.trans h.subs
  made := h'.made.trans h.made
  conns := h'.conns.trans h.conns
  ends sub hsub := by
    have hends := h'.ends sub (h.subs ▸ h.ends sub hsub)
    rwa [h.subs] at hends

theorem isSome_withConnection {symbolType symbolType' : SymbolType} {sup : SupervisedConnection}
    (h : symbolType' = symbolType ∨ (s.conns symbolType').isSome = true) :
    ((s.withConnection symbolType sup).conns symbolType').isSome = true := by
  unfold withConnection
  dsimp only
  by_cases heq : symbolType' = symbolType
  · rw [heq, Function.update_self]
    rfl
  · rw [Function.update_of_ne heq]
    exact h.resolve_left heq

/-- To offer something to the subscribers of one stream. -/
theorem keeps_offerAll (hown : s.subs.WellFormed) (stream : String) (item : StreamItem UserFrame) :
    s.Keeps { s with queues := s.queues.offerAll (Registry.ofStream s.subs stream) item } where
  subs := rfl
  made := rfl
  conns := rfl
  ends sub hsub := by
    by_cases hmem : sub ∈ Registry.ofStream s.subs stream
    · exact .inl (hown.has_of_mem hmem)
    · refine hsub.imp_right fun hend => ?_
      dsimp only
      rwa [Queues.offerAll_apply _ _ (hown.nodup_ofStream stream), if_neg hmem]

theorem keeps_offerItem (hown : s.subs.WellFormed) (item : Item) : s.Keeps (s.offerItem item) := by
  cases item with
  | report event => exact .refl s
  | reconnected => exact keeps_offerAll hown orderEvent _
  | fault message =>
    exact ⟨rfl, rfl, rfl, fun sub hsub => hsub.imp_right fun hend =>
      Queues.hasEnd_offerAll rfl _ _ (.inr hend)⟩

theorem keeps_offerItems (items : List Item) :
    ∀ s : UserDataStream, s.subs.WellFormed → s.Keeps (items.foldl offerItem s) := by
  induction items with
  | nil => exact fun s _ => .refl s
  | cons item items ih =>
    intro s hown
    have hitem := keeps_offerItem hown item
    exact hitem.trans (ih _ (hitem.subs ▸ hown))

end UserDataStream

namespace ClosableUserData

def new : ClosableUserData := ⟨.new, .unbegun, fun _ => .unbegun, [], [], []⟩

/-- `_closing`. -/
def closing (s : ClosableUserData) : Bool := s.teardown ≠ .unbegun

def withClose (s : ClosableUserData) (symbolType : SymbolType) (close : ConnectionClose) :
    ClosableUserData :=
  { s with closes := Function.update s.closes symbolType close }

def subscribe (s : ClosableUserData) (eventType : String) : ClosableUserData :=
  let sub : Subscription := ⟨eventType, s.stream.made⟩
  { s with
    stream := s.stream.subscribe eventType
    issued := s.issued ++ [sub]
    late := if s.teardown.swept then s.late ++ [sub] else s.late }

/-- `sub.close()` for every subscription, and the registry is empty. -/
def sweep (s : ClosableUserData) : ClosableUserData :=
  { s with
    stream.queues := s.stream.queues.offerAll (Registry.all s.stream.subs) .closed
    stream.subs := ∅
    teardown := .deleting }

/-- There is a connection whose `aclose` is not over. -/
def gathers (s : ClosableUserData) : Bool :=
  [SymbolType.global, .site].any fun symbolType =>
    (s.stream.conns symbolType).isSome && s.closes symbolType ≠ .done

/-- A step of the client that is no part of `aclose`. -/
def stepStream (autoReconnect : Bool) (s : ClosableUserData) :
    UserDataLabel → Option ClosableUserData
  | .call eventType =>
    if s.stream.started || s.closing then some (s.subscribe eventType)
    else some { s with stream.calls := s.stream.calls ++ [eventType] }
  | .created i keys => do
    let eventType ← s.stream.calls[i]?
    let stream := { s.stream with calls := s.stream.calls.eraseIdx i }
    some ({ s with stream := if s.closing then stream else stream.ensureStarted keys }.subscribe
      eventType)
  | .connection symbolType event =>
    -- a cancelled supervisor does not go on
    if s.closes symbolType = .unbegun ∨
        s.closes symbolType = .awaiting ∧ UserDataConnection.ofSocket event = true then
      (s.stream.step autoReconnect (.connection symbolType event)).map fun stream =>
        { s with stream }
    else none
  | .unsubscribe sub =>
    if sub ∈ s.issued then
      some { s with stream := s.stream.unsubscribe sub, left := s.left ++ [sub] }
    else none
  | l => (s.stream.step autoReconnect l).map fun stream => { s with stream }

def step (autoReconnect : Bool) (s : ClosableUserData) :
    ClosableUserLabel → Option ClosableUserData
  | .stream l => s.stepStream autoReconnect l
  | .aclose =>
    if s.closing then some s
    else if s.gathers then some { s with teardown := .gathering }
    else some s.sweep
  | .closeBegun symbolType => do
    let sup ← s.stream.conns symbolType
    if s.teardown = .gathering ∧ s.closes symbolType = .unbegun then
      -- a supervisor that has ended has closed its socket
      some (s.withClose symbolType (if sup.conn.phase = .ended then .done else .awaiting))
    else none
  | .supervisorEnded symbolType taken => do
    let sup ← s.stream.conns symbolType
    if s.closes symbolType = .awaiting ∧ (taken = true → sup.conn.phase = .closing true) then
      let close := if sup.conn.hasSocket && !taken then .closingSocket else .done
      some { s.withClose symbolType close with
        stream := s.stream.withConnection symbolType
          { sup with conn := { sup.conn with phase := .ended } } }
    else none
  | .socketClosed symbolType =>
    if s.closes symbolType = .closingSocket then some (s.withClose symbolType .done) else none
  | .gathered => if s.teardown = .gathering ∧ s.gathers = false then some s.sweep else none
  | .keysClosed => if s.teardown = .deleting then some { s with teardown := .done } else none

def system (autoReconnect : Bool) : System ClosableUserData ClosableUserLabel where
  init := new
  step s l := s.step autoReconnect l

variable {autoReconnect : Bool} {s s' t : ClosableUserData} {l : ClosableUserLabel}
  {ls ls' : List ClosableUserLabel} {sub : Subscription}

/-! ## The invariant -/

/-- What is kept from step to step. -/
structure Inv (s : ClosableUserData) : Prop where
  wellFormed : Registry.WellFormed s.stream.subs
  known : ∀ sub, Registry.Has s.stream.subs sub → sub ∈ s.issued
  fresh : ∀ sub ∈ s.issued, sub.id < s.stream.made
  left : ∀ sub ∈ s.left, sub ∈ s.issued
  late : ∀ sub ∈ s.late, sub ∈ s.issued
  /-- The `aclose` of a connection begins after that of the client. -/
  unbegun : s.closing = false → ∀ symbolType, s.closes symbolType = .unbegun
  begun : ∀ symbolType, s.closes symbolType ≠ .unbegun → (s.stream.conns symbolType).isSome = true
  ended : ∀ symbolType sup, s.stream.conns symbolType = some sup →
    s.closes symbolType = .closingSocket ∨ s.closes symbolType = .done → sup.conn.phase = .ended
  /-- Before the sweep, a subscription is registered or has its end. -/
  before : s.teardown.swept = false → s.late = [] ∧
    ∀ sub ∈ s.issued, Registry.Has s.stream.subs sub ∨ (s.stream.queues sub).HasEnd
  /-- After the sweep, only `_unsubscribe` ends a subscription. -/
  after : s.teardown.swept = true → s.gathers = false ∧ ∀ sub ∈ s.issued,
    (sub ∉ s.late ∨ sub ∈ s.left → (s.stream.queues sub).HasEnd) ∧
      (sub ∈ s.late → sub ∉ s.left → s.stream.queues sub = {})

theorem inv_new : new.Inv where
  wellFormed := Registry.wellFormed_empty
  known _ hhas := absurd hhas Registry.not_has_empty
  fresh _ hsub := absurd hsub List.not_mem_nil
  left _ hsub := hsub
  late _ hsub := hsub
  unbegun _ _ := rfl
  begun _ hbegun := absurd rfl hbegun
  ended _ _ hsup := by cases hsup
  before _ := ⟨rfl, fun _ hsub => absurd hsub List.not_mem_nil⟩
  after hswept := by cases hswept

theorem gathers_eq_false_iff :
    s.gathers = false ↔
      ∀ symbolType, (s.stream.conns symbolType).isSome = true → s.closes symbolType = .done := by
  unfold gathers
  constructor
  · intro h symbolType hsome
    have hnot := List.any_eq_false.1 h symbolType (by cases symbolType <;> simp)
    simpa [hsome] using hnot
  · intro h
    refine List.any_eq_false.2 fun symbolType _ => ?_
    simpa using h symbolType

/-- After the sweep no supervisor runs. -/
theorem Inv.phase_ended (h : s.Inv) (hswept : s.teardown.swept = true) {symbolType : SymbolType}
    {sup : SupervisedConnection} (hsup : s.stream.conns symbolType = some sup) :
    s.closes symbolType = .done ∧ sup.conn.phase = .ended := by
  have hdone := gathers_eq_false_iff.1 (h.after hswept).1 symbolType (by rw [hsup]; rfl)
  exact ⟨hdone, h.ended symbolType sup hsup (.inr hdone)⟩

/-! ## The steps of the client -/

theorem swept_of_closing (h : s.closing = false) : s.teardown.swept = false := by
  unfold closing at h
  cases hteardown : s.teardown <;> simp_all [UserTeardown.swept]

/-- A subscription that is made now is none of those there are. -/
theorem Inv.not_mem_issued (h : s.Inv) (eventType : String) :
    (⟨eventType, s.stream.made⟩ : Subscription) ∉ s.issued :=
  fun hmem => Nat.lt_irrefl _ (h.fresh _ hmem)

theorem Inv.subscribe (h : s.Inv) (eventType : String) : (s.subscribe eventType).Inv := by
  have hnew := h.not_mem_issued eventType
  have hne {sub : Subscription} (hsub : sub ∈ s.issued) : sub ≠ ⟨eventType, s.stream.made⟩ := by
    rintro rfl
    exact hnew hsub
  have hqueue {sub : Subscription} (hsub : sub ∈ s.issued) :
      (s.subscribe eventType).stream.queues sub = s.stream.queues sub :=
    Function.update_of_ne (hne hsub) _ _
  have hissued {sub : Subscription} (hsub : sub ∈ (s.subscribe eventType).issued) :
      sub ∈ s.issued ∨ sub = ⟨eventType, s.stream.made⟩ :=
    (List.mem_append.1 hsub).imp_right List.mem_singleton.1
  refine ⟨?_, fun sub hhas => ?_, fun sub hsub => ?_, fun sub hsub => ?_, fun sub hsub => ?_,
    h.unbegun, h.begun, h.ended, fun hswept => ?_, fun hswept => ?_⟩
  · exact h.wellFormed.add fun hhas => hnew (h.known _ hhas)
  · rcases Registry.has_add.1 hhas with rfl | hhas
    · exact List.mem_append_right _ (List.mem_singleton_self _)
    · exact List.mem_append_left _ (h.known sub hhas)
  · change sub.id < s.stream.made + 1
    rcases hissued hsub with hold | rfl
    · exact Nat.lt_succ_of_lt (h.fresh sub hold)
    · exact Nat.lt_succ_self _
  · exact List.mem_append_left _ (h.left sub hsub)
  · change sub ∈ (if s.teardown.swept then s.late ++ [_] else s.late) at hsub
    split at hsub
    · rcases List.mem_append.1 hsub with hold | hsub
      · exact List.mem_append_left _ (h.late sub hold)
      · exact List.mem_append_right _ hsub
    · exact List.mem_append_left _ (h.late sub hsub)
  · have hswept : s.teardown.swept = false := hswept
    obtain ⟨hlate, hends⟩ := h.before hswept
    refine ⟨?_, fun sub hsub => ?_⟩
    · change (if s.teardown.swept then s.late ++ [_] else s.late) = []
      rw [hswept]
      exact hlate
    · rcases hissued hsub with hold | rfl
      · rw [hqueue hold]
        exact (hends sub hold).imp_left fun hhas => Registry.has_add.2 (.inr hhas)
      · exact .inl (Registry.has_add.2 (.inl rfl))
  · have hswept : s.teardown.swept = true := hswept
    obtain ⟨hgathers, hends⟩ := h.after hswept
    refine ⟨hgathers, fun sub hsub => ?_⟩
    have hlate : (s.subscribe eventType).late = s.late ++ [⟨eventType, s.stream.made⟩] := if_pos hswept
    rw [hlate, List.mem_append, List.mem_singleton]
    rcases hissued hsub with hold | rfl
    · rw [hqueue hold, or_iff_left (hne hold)]
      exact hends sub hold
    · -- the queue is new, and nobody has left it
      refine ⟨fun hleft => ?_, fun _ _ => Function.update_self _ _ _⟩
      rcases hleft with hno | hleft
      · exact absurd (.inr rfl) hno
      · exact absurd (h.left _ hleft) hnew

/-- Before the sweep, something is offered. -/
theorem Inv.of_keeps (h : s.Inv) (hswept : s.teardown.swept = false) {stream : UserDataStream}
    (hkeeps : s.stream.Keeps stream) : Inv { s with stream } where
  wellFormed := hkeeps.subs ▸ h.wellFormed
  known sub hhas := h.known sub (hkeeps.subs ▸ hhas)
  fresh sub hsub := hkeeps.made ▸ h.fresh sub hsub
  left := h.left
  late := h.late
  unbegun := h.unbegun
  begun symbolType hbegun := hkeeps.conns ▸ h.begun symbolType hbegun
  ended symbolType sup hsup := h.ended symbolType sup (hkeeps.conns ▸ hsup)
  before _ := by
    obtain ⟨hlate, hends⟩ := h.before hswept
    refine ⟨hlate, fun sub hsub => ?_⟩
    dsimp only
    rw [hkeeps.subs]
    exact hkeeps.ends sub (hends sub hsub)
  after hswept' := absurd (hswept.symm.trans hswept') Bool.false_ne_true

/-- A connection whose `aclose` does not wait for its socket goes on. -/
theorem Inv.withConnection (h : s.Inv) (hswept : s.teardown.swept = false) {symbolType : SymbolType}
    (hclose : s.closes symbolType = .unbegun ∨ s.closes symbolType = .awaiting)
    (sup : SupervisedConnection) :
    Inv { s with stream := s.stream.withConnection symbolType sup } where
  wellFormed := h.wellFormed
  known := h.known
  fresh := h.fresh
  left := h.left
  late := h.late
  unbegun := h.unbegun
  begun symbolType' hbegun := UserDataStream.isSome_withConnection (.inr (h.begun symbolType' hbegun))
  ended symbolType' sup' hsup hover := by
    by_cases heq : symbolType' = symbolType
    · subst heq
      rcases hclose with hclose | hclose <;> rcases hover with hover | hover <;>
      · cases hclose.symm.trans hover
    · exact h.ended symbolType' sup' ((Function.update_of_ne heq _ _).symm.trans hsup) hover
  before := h.before
  after hswept' := absurd (hswept.symm.trans hswept') Bool.false_ne_true

/-- A consumer takes an item. -/
theorem Inv.next (h : s.Inv) {sub : Subscription} {item : StreamItem UserFrame}
    {queue : SubscriptionQueue UserFrame} (hnext : (s.stream.queues sub).next = some (item, queue)) :
    Inv { s with stream.queues := Function.update s.stream.queues sub queue } where
  wellFormed := h.wellFormed
  known := h.known
  fresh := h.fresh
  left := h.left
  late := h.late
  unbegun := h.unbegun
  begun := h.begun
  ended := h.ended
  before hswept := by
    obtain ⟨hlate, hends⟩ := h.before hswept
    exact ⟨hlate, fun sub' hsub' => (hends sub' hsub').imp_right fun hend =>
      Queues.hasEnd_next hend hnext⟩
  after hswept := by
    obtain ⟨hgathers, hends⟩ := h.after hswept
    refine ⟨hgathers, fun sub' hsub' => ?_⟩
    obtain ⟨hend, hempty⟩ := hends sub' hsub'
    refine ⟨fun hleft => Queues.hasEnd_next (hend hleft) hnext, fun hlate hstays => ?_⟩
    -- there is nothing to take
    have hne : sub' ≠ sub := by
      rintro rfl
      rw [hempty hlate hstays] at hnext
      cases hnext
    exact (Function.update_of_ne hne _ _).trans (hempty hlate hstays)

theorem Inv.unsubscribe (h : s.Inv) {sub : Subscription} (hsub : sub ∈ s.issued) :
    Inv { s with stream := s.stream.unsubscribe sub, left := s.left ++ [sub] } where
  wellFormed := h.wellFormed.remove sub
  known sub' hhas := h.known sub' hhas.of_remove
  fresh := h.fresh
  left sub' hsub' := by
    rcases List.mem_append.1 hsub' with hleft | hnew
    · exact h.left sub' hleft
    · rwa [List.mem_singleton.1 hnew]
  late := h.late
  unbegun := h.unbegun
  begun := h.begun
  ended := h.ended
  before hswept := by
    obtain ⟨hlate, hends⟩ := h.before hswept
    refine ⟨hlate, fun sub' hsub' => ?_⟩
    by_cases heq : sub' = sub
    · exact .inr (Queues.hasEnd_offerTo rfl _ _ (.inl heq))
    · exact (hends sub' hsub').imp (fun hhas => hhas.remove heq) fun hend =>
        Queues.hasEnd_offerTo rfl _ _ (.inr hend)
  after hswept := by
    obtain ⟨hgathers, hends⟩ := h.after hswept
    refine ⟨hgathers, fun sub' hsub' => ?_⟩
    obtain ⟨hend, hempty⟩ := hends sub' hsub'
    by_cases heq : sub' = sub
    · refine ⟨fun _ => Queues.hasEnd_offerTo rfl _ _ (.inl heq), fun _ hstays => ?_⟩
      exact absurd (List.mem_append_right _ (List.mem_singleton.2 heq)) hstays
    · have hleft : sub' ∈ s.left ++ [sub] ↔ sub' ∈ s.left := by simp [heq]
      dsimp only
      rw [hleft]
      exact ⟨fun hover => Queues.hasEnd_offerTo rfl _ _ (.inr (hend hover)),
        fun hlate hstays => (Function.update_of_ne heq _ _).trans (hempty hlate hstays)⟩

/-- The first connections, before `aclose`. -/
theorem Inv.ensureStarted (h : s.Inv) (hclosing : s.closing = false) (keys : ListenKeys) :
    Inv { s with stream := s.stream.ensureStarted keys } := by
  unfold UserDataStream.ensureStarted
  split
  · exact h
  · have hunbegun := h.unbegun hclosing
    refine ⟨h.wellFormed, h.known, h.fresh, h.left, h.late, h.unbegun,
      fun symbolType hbegun => absurd (hunbegun symbolType) hbegun,
      fun symbolType sup _ hover => ?_, h.before, fun hswept => ?_⟩
    · rcases hover with hover | hover <;>
      · cases (hunbegun symbolType).symm.trans hover
    · exact absurd ((swept_of_closing hclosing).symm.trans hswept) Bool.false_ne_true

/-- **A step of the client.** -/
theorem Inv.stepStream (h : s.Inv) {l : UserDataLabel}
    (hstep : s.stepStream autoReconnect l = some s') : s'.Inv := by
  cases l with
  | call eventType =>
    simp only [ClosableUserData.stepStream] at hstep
    split at hstep
    · obtain rfl := Option.some.inj hstep
      exact h.subscribe eventType
    · obtain rfl := Option.some.inj hstep
      exact ⟨h.wellFormed, h.known, h.fresh, h.left, h.late, h.unbegun, h.begun, h.ended, h.before,
        h.after⟩
  | created i keys =>
    obtain ⟨eventType, -, hstep⟩ := Option.bind_eq_some_iff.1 hstep
    obtain rfl := Option.some.inj hstep
    refine Inv.subscribe ?_ eventType
    have hcalls : Inv { s with stream.calls := s.stream.calls.eraseIdx i } :=
      ⟨h.wellFormed, h.known, h.fresh, h.left, h.late, h.unbegun, h.begun, h.ended, h.before,
        h.after⟩
    split
    · exact hcalls
    · next hopen => exact hcalls.ensureStarted (Bool.not_eq_true _ ▸ hopen) keys
  | createFailed i =>
    obtain ⟨stream, hstream, rfl⟩ := Option.map_eq_some_iff.1 hstep
    obtain ⟨eventType, -, hstream⟩ := Option.bind_eq_some_iff.1 hstream
    obtain rfl := Option.some.inj hstream
    exact ⟨h.wellFormed, h.known, h.fresh, h.left, h.late, h.unbegun, h.begun, h.ended, h.before,
        h.after⟩
  | connection symbolType event =>
    obtain ⟨hclose, hstep⟩ := Option.ite_none_right_eq_some.1 hstep
    obtain ⟨stream, hstream, rfl⟩ := Option.map_eq_some_iff.1 hstep
    obtain ⟨sup, hsup, hstream⟩ := Option.bind_eq_some_iff.1 hstream
    obtain ⟨⟨conn, items⟩, -, hstream⟩ := Option.bind_eq_some_iff.1 hstream
    obtain rfl := Option.some.inj hstream
    have hclose : s.closes symbolType = .unbegun ∨ s.closes symbolType = .awaiting :=
      hclose.imp_right And.left
    have hswept : s.teardown.swept = false := by
      by_contra hswept
      obtain ⟨hdone, -⟩ := h.phase_ended (Bool.eq_true_of_not_eq_false hswept) hsup
      rw [hdone] at hclose
      rcases hclose with hclose | hclose <;> cases hclose
    have hconn := h.withConnection hswept hclose (sup.follow conn)
    exact hconn.of_keeps hswept (UserDataStream.keeps_offerItems items _ hconn.wellFormed)
  | frame symbolType eventType data =>
    obtain ⟨stream, hstream, rfl⟩ := Option.map_eq_some_iff.1 hstep
    obtain ⟨sup, hsup, hstream⟩ := Option.bind_eq_some_iff.1 hstream
    obtain ⟨hconnected, hstream⟩ := Option.ite_none_right_eq_some.1 hstream
    obtain rfl := Option.some.inj hstream
    have hswept : s.teardown.swept = false := by
      by_contra hswept
      obtain ⟨-, hended⟩ := h.phase_ended (Bool.eq_true_of_not_eq_false hswept) hsup
      simp [UserDataConnection.isConnected, hended] at hconnected
    exact h.of_keeps hswept (UserDataStream.keeps_offerAll h.wellFormed eventType _)
  | unsubscribe sub =>
    obtain ⟨hsub, hstep⟩ := Option.ite_none_right_eq_some.1 hstep
    obtain rfl := Option.some.inj hstep
    exact h.unsubscribe hsub
  | next sub =>
    obtain ⟨stream, hstream, rfl⟩ := Option.map_eq_some_iff.1 hstep
    obtain ⟨⟨item, queue⟩, hnext, rfl⟩ := Option.map_eq_some_iff.1 hstream
    exact h.next hnext

/-! ## The steps of `aclose` -/

theorem Inv.sweep (h : s.Inv) (hswept : s.teardown.swept = false) (hgathers : s.gathers = false) :
    s.sweep.Inv where
  wellFormed := Registry.wellFormed_empty
  known _ hhas := absurd hhas Registry.not_has_empty
  fresh := h.fresh
  left := h.left
  late := h.late
  unbegun hclosing := by cases hclosing
  begun := h.begun
  ended := h.ended
  before hswept' := by cases hswept'
  after _ := by
    obtain ⟨hlate, hends⟩ := h.before hswept
    refine ⟨hgathers, fun sub hsub => ⟨fun _ => ?_, fun hmem => ?_⟩⟩
    · exact Queues.hasEnd_offerAll rfl _ _ ((hends sub hsub).imp_left fun hhas => hhas.mem_all)
    · have hmem : sub ∈ s.late := hmem
      rw [hlate] at hmem
      exact absurd hmem List.not_mem_nil

/-- The `aclose` of a connection goes on, while that of the client awaits it. -/
theorem Inv.withClose (h : s.Inv) (hclosing : s.closing = true) (hswept : s.teardown.swept = false)
    {symbolType : SymbolType} {close : ConnectionClose}
    (hsome : (s.stream.conns symbolType).isSome = true)
    (hended : close = .closingSocket ∨ close = .done → ∀ sup,
      s.stream.conns symbolType = some sup → sup.conn.phase = .ended) :
    (s.withClose symbolType close).Inv where
  wellFormed := h.wellFormed
  known := h.known
  fresh := h.fresh
  left := h.left
  late := h.late
  unbegun hopen := absurd (hopen.symm.trans hclosing) Bool.false_ne_true
  begun symbolType' hbegun := by
    by_cases heq : symbolType' = symbolType
    · rw [heq]
      exact hsome
    · refine h.begun symbolType' fun hunbegun => hbegun ?_
      exact (Function.update_of_ne heq _ _).trans hunbegun
  ended symbolType' sup hsup hover := by
    change Function.update s.closes symbolType close symbolType' = _ ∨
      Function.update s.closes symbolType close symbolType' = _ at hover
    by_cases heq : symbolType' = symbolType
    · subst heq
      rw [Function.update_self] at hover
      exact hended hover sup hsup
    · rw [Function.update_of_ne heq] at hover
      exact h.ended symbolType' sup hsup hover
  before := h.before
  after hswept' := absurd (hswept.symm.trans hswept') Bool.false_ne_true

/-- A connection whose `aclose` is in progress is awaited. -/
theorem Inv.not_swept (h : s.Inv) {symbolType : SymbolType} {sup : SupervisedConnection}
    (hsup : s.stream.conns symbolType = some sup) (hclose : s.closes symbolType ≠ .done) :
    s.teardown.swept = false := by
  by_contra hswept
  exact hclose (h.phase_ended (Bool.eq_true_of_not_eq_false hswept) hsup).1

theorem Inv.closing_of_begun (h : s.Inv) {symbolType : SymbolType}
    (hclose : s.closes symbolType ≠ .unbegun) : s.closing = true := by
  by_contra hclosing
  exact hclose (h.unbegun (Bool.eq_false_of_not_eq_true hclosing) symbolType)

/-- **One step.** -/
theorem inv_step (h : s.Inv) (hstep : s.step autoReconnect l = some s') : s'.Inv := by
  cases l with
  | stream l => exact h.stepStream hstep
  | aclose =>
    simp only [step] at hstep
    split at hstep
    · obtain rfl := Option.some.inj hstep
      exact h
    · next hopen =>
      have hclosing : s.closing = false := Bool.eq_false_of_not_eq_true hopen
      have hswept := swept_of_closing hclosing
      split at hstep
      · obtain rfl := Option.some.inj hstep
        exact ⟨h.wellFormed, h.known, h.fresh, h.left, h.late, fun hno => (by cases hno), h.begun,
          h.ended, fun _ => h.before hswept, fun hno => (by cases hno)⟩
      · next hgathers =>
        obtain rfl := Option.some.inj hstep
        exact h.sweep hswept (Bool.eq_false_of_not_eq_true hgathers)
  | closeBegun symbolType =>
    obtain ⟨sup, hsup, hstep⟩ := Option.bind_eq_some_iff.1 hstep
    obtain ⟨⟨hteardown, -⟩, hstep⟩ := Option.ite_none_right_eq_some.1 hstep
    obtain rfl := Option.some.inj hstep
    have hclosing : s.closing = true := by simp [closing, hteardown]
    have hswept : s.teardown.swept = false := by rw [hteardown]; rfl
    refine h.withClose hclosing hswept (by rw [hsup]; rfl) fun hover sup' hsup' => ?_
    obtain rfl := Option.some.inj (hsup.symm.trans hsup')
    split at hover
    · assumption
    · rcases hover with hover | hover <;> cases hover
  | supervisorEnded symbolType taken =>
    obtain ⟨sup, hsup, hstep⟩ := Option.bind_eq_some_iff.1 hstep
    obtain ⟨⟨hclose, -⟩, hstep⟩ := Option.ite_none_right_eq_some.1 hstep
    obtain rfl := Option.some.inj hstep
    have hswept := h.not_swept hsup (by rw [hclose]; simp)
    have hbegun : s.closes symbolType ≠ .unbegun := by rw [hclose]; simp
    have hclosing := h.closing_of_begun hbegun
    refine Inv.withClose (h.withConnection hswept (.inr hclose)
      { sup with conn := { sup.conn with phase := .ended } }) hclosing hswept
      (UserDataStream.isSome_withConnection (.inl rfl)) fun _ sup' hsup' => ?_
    obtain rfl := Option.some.inj ((Function.update_self symbolType _ _).symm.trans hsup')
    rfl
  | socketClosed symbolType =>
    obtain ⟨hclose, hstep⟩ := Option.ite_none_right_eq_some.1 hstep
    obtain rfl := Option.some.inj hstep
    have hbegun : s.closes symbolType ≠ .unbegun := by rw [hclose]; simp
    have hsome := h.begun symbolType hbegun
    obtain ⟨sup, hsup⟩ := Option.isSome_iff_exists.1 hsome
    have hswept := h.not_swept hsup (by rw [hclose]; simp)
    exact h.withClose (h.closing_of_begun hbegun) hswept hsome fun _ sup hsup =>
      h.ended symbolType sup hsup (.inl hclose)
  | gathered =>
    obtain ⟨⟨hteardown, hgathers⟩, hstep⟩ := Option.ite_none_right_eq_some.1 hstep
    obtain rfl := Option.some.inj hstep
    exact h.sweep (by rw [hteardown]; rfl) hgathers
  | keysClosed =>
    obtain ⟨hteardown, hstep⟩ := Option.ite_none_right_eq_some.1 hstep
    obtain rfl := Option.some.inj hstep
    have hswept : s.teardown.swept = true := by rw [hteardown]; rfl
    exact ⟨h.wellFormed, h.known, h.fresh, h.left, h.late, fun hno => (by cases hno), h.begun,
      h.ended, fun hno => (by cases hno), fun _ => h.after hswept⟩

/-! ## The steps that are left -/

/-- A step of a teardown. -/
def isTeardown : ClosableUserLabel → Bool
  | .stream _ | .aclose => false
  | _ => true

/-- How many steps of a teardown there can still be. -/
def remaining (s : ClosableUserData) : ℕ :=
  let left : ConnectionClose → ℕ
    | .unbegun => 3
    | .awaiting => 2
    | .closingSocket => 1
    | .done => 0
  match s.teardown with
  | .unbegun | .gathering => left (s.closes .global) + left (s.closes .site) + 2
  | .deleting => 1
  | .done => 0

theorem remaining_le (s : ClosableUserData) : s.remaining ≤ 8 := by
  unfold remaining
  cases s.teardown <;> cases s.closes .global <;> cases s.closes .site <;> decide

theorem remaining_withClose {symbolType : SymbolType} {close : ConnectionClose}
    (hswept : s.teardown.swept = false)
    (hnext : s.closes symbolType = .unbegun ∧ close ≠ .unbegun ∨
      s.closes symbolType = .awaiting ∧ (close = .closingSocket ∨ close = .done) ∨
      s.closes symbolType = .closingSocket ∧ close = .done) :
    (s.withClose symbolType close).remaining + 1 ≤ s.remaining := by
  unfold remaining withClose
  cases hteardown : s.teardown with
  | deleting | done =>
    rw [hteardown] at hswept
    cases hswept
  | unbegun | gathering =>
    cases symbolType <;>
    · simp only [Function.update_self, ne_eq, reduceCtorEq, not_false_eq_true,
        Function.update_of_ne]
      rcases hnext with ⟨hclose, hne⟩ | ⟨hclose, rfl | rfl⟩ | ⟨hclose, rfl⟩ <;> rw [hclose]
      · cases close with
        | unbegun => exact absurd rfl hne
        | awaiting | closingSocket | done =>
          dsimp only
          omega
      all_goals
        dsimp only
        omega

theorem remaining_sweep (hswept : s.teardown.swept = false) :
    s.sweep.remaining + 1 ≤ s.remaining := by
  unfold remaining
  cases hteardown : s.teardown with
  | deleting | done =>
    rw [hteardown] at hswept
    cases hswept
  | unbegun | gathering => exact Nat.le_add_left 2 _

/-- A step of the client is none of `aclose`. -/
theorem stepStream_frame {l : UserDataLabel} (h : s.stepStream autoReconnect l = some s') :
    s'.teardown = s.teardown ∧ s'.closes = s.closes := by
  cases l with
  | call eventType =>
    simp only [stepStream] at h
    split at h <;>
    · obtain rfl := Option.some.inj h
      exact ⟨rfl, rfl⟩
  | created i keys =>
    obtain ⟨eventType, -, h⟩ := Option.bind_eq_some_iff.1 h
    obtain rfl := Option.some.inj h
    exact ⟨rfl, rfl⟩
  | connection symbolType event =>
    obtain ⟨-, h⟩ := Option.ite_none_right_eq_some.1 h
    obtain ⟨stream, -, rfl⟩ := Option.map_eq_some_iff.1 h
    exact ⟨rfl, rfl⟩
  | unsubscribe sub =>
    obtain ⟨-, h⟩ := Option.ite_none_right_eq_some.1 h
    obtain rfl := Option.some.inj h
    exact ⟨rfl, rfl⟩
  | createFailed | frame | next =>
    obtain ⟨stream, -, rfl⟩ := Option.map_eq_some_iff.1 h
    exact ⟨rfl, rfl⟩

/-- **One step of a teardown less.** -/
theorem remaining_step (h : s.Inv) (hclosing : s.closing = true)
    (hstep : s.step autoReconnect l = some s') :
    s'.closing = true ∧ s'.remaining + (isTeardown l).toNat ≤ s.remaining := by
  cases l with
  | stream l =>
    obtain ⟨hteardown, hcloses⟩ := stepStream_frame hstep
    unfold closing remaining
    rw [hteardown, hcloses]
    exact ⟨hclosing, le_rfl⟩
  | aclose =>
    simp only [step, hclosing, if_true] at hstep
    obtain rfl := Option.some.inj hstep
    exact ⟨hclosing, le_rfl⟩
  | closeBegun symbolType =>
    obtain ⟨sup, -, hstep⟩ := Option.bind_eq_some_iff.1 hstep
    obtain ⟨⟨hteardown, hclose⟩, hstep⟩ := Option.ite_none_right_eq_some.1 hstep
    obtain rfl := Option.some.inj hstep
    refine ⟨hclosing, remaining_withClose (by rw [hteardown]; rfl) (.inl ⟨hclose, ?_⟩)⟩
    split <;> simp
  | supervisorEnded symbolType taken =>
    obtain ⟨sup, hsup, hstep⟩ := Option.bind_eq_some_iff.1 hstep
    obtain ⟨⟨hclose, -⟩, hstep⟩ := Option.ite_none_right_eq_some.1 hstep
    obtain rfl := Option.some.inj hstep
    have hswept := h.not_swept hsup (by rw [hclose]; simp)
    refine ⟨hclosing, remaining_withClose hswept (.inr (.inl ⟨hclose, ?_⟩))⟩
    split <;> simp
  | socketClosed symbolType =>
    obtain ⟨hclose, hstep⟩ := Option.ite_none_right_eq_some.1 hstep
    obtain rfl := Option.some.inj hstep
    obtain ⟨sup, hsup⟩ := Option.isSome_iff_exists.1 (h.begun symbolType (by rw [hclose]; simp))
    have hswept := h.not_swept hsup (by rw [hclose]; simp)
    exact ⟨hclosing, remaining_withClose hswept (.inr (.inr ⟨hclose, rfl⟩))⟩
  | gathered =>
    obtain ⟨⟨hteardown, -⟩, hstep⟩ := Option.ite_none_right_eq_some.1 hstep
    obtain rfl := Option.some.inj hstep
    exact ⟨rfl, remaining_sweep (by rw [hteardown]; rfl)⟩
  | keysClosed =>
    obtain ⟨hteardown, hstep⟩ := Option.ite_none_right_eq_some.1 hstep
    obtain rfl := Option.some.inj hstep
    refine ⟨rfl, ?_⟩
    unfold remaining
    rw [hteardown]
    exact le_rfl

/-- A teardown never waits for what does not come. -/
theorem exists_teardown (autoReconnect : Bool) (hclosing : s.closing = true)
    (hnot : s.teardown ≠ .done) :
    ∃ l, isTeardown l = true ∧ (s.step autoReconnect l).isSome = true := by
  cases hteardown : s.teardown with
  | unbegun => simp [closing, hteardown] at hclosing
  | done => exact absurd hteardown hnot
  | deleting => exact ⟨.keysClosed, rfl, by simp [step, hteardown]⟩
  | gathering =>
    cases hgathers : s.gathers with
    | false => exact ⟨.gathered, rfl, by simp [step, hteardown, hgathers]⟩
    | true =>
      -- the connection whose `aclose` is not over
      obtain ⟨symbolType, -, hopen⟩ := List.any_eq_true.1 hgathers
      obtain ⟨hsome, hclose⟩ := Bool.and_eq_true_iff.1 hopen
      obtain ⟨sup, hsup⟩ := Option.isSome_iff_exists.1 hsome
      cases hcloses : s.closes symbolType with
      | unbegun =>
        exact ⟨.closeBegun symbolType, rfl, by simp [step, hsup, hteardown, hcloses]⟩
      | awaiting =>
        exact ⟨.supervisorEnded symbolType false, rfl, by simp [step, hsup, hcloses]⟩
      | closingSocket => exact ⟨.socketClosed symbolType, rfl, by simp [step, hcloses]⟩
      | done => simp [hcloses] at hclose

/-! ## Runs -/

theorem inv_of_run (hrun : (system autoReconnect).run new ls = some s) : s.Inv :=
  System.run_invariant (M := system autoReconnect) (C := fun _ _ => True)
    (fun _ _ _ h _ hstep => inv_step h hstep) ls inv_new
    (System.guarded_of_forall (P := fun _ => True) ls (fun _ _ => trivial) _) hrun

/-- **The end of a client.** Once the subscriptions are swept, in every run, every supervisor has ended
and the `aclose` of its connection is over. A subscription has its end if it was made before the
sweep, or its consumer has left; any other waits for ever. -/
theorem run_tornDown (hrun : (system autoReconnect).run new ls = some t)
    (hswept : t.teardown.swept = true) :
    (∀ symbolType sup, t.stream.conns symbolType = some sup →
      t.closes symbolType = .done ∧ sup.conn.phase = .ended) ∧
    ∀ sub ∈ t.issued, (t.stream.queues sub).HasEnd ↔ sub ∉ t.late ∨ sub ∈ t.left := by
  have hinv := inv_of_run hrun
  refine ⟨fun symbolType sup hsup => hinv.phase_ended hswept hsup, fun sub hsub => ?_⟩
  obtain ⟨hends, hempty⟩ := (hinv.after hswept).2 sub hsub
  refine ⟨fun hend => ?_, hends⟩
  by_contra hnot
  rw [not_or, not_not] at hnot
  rw [hempty hnot.1 hnot.2] at hend
  exact SubscriptionQueue.not_hasEnd_nil rfl rfl hend

/-- **The teardown.** After a call of `aclose`, every run has at most eight more steps of it, and
there is a next one until it is done. -/
theorem run_teardown (hrun : (system autoReconnect).run new ls = some s) (hclosing : s.closing = true)
    (hrun' : (system autoReconnect).run s ls' = some t) :
    ls'.countP isTeardown ≤ 8 ∧ (t.teardown ≠ .done →
      ∃ l, isTeardown l = true ∧ ((system autoReconnect).step t l).isSome = true) := by
  have hstep : ∀ s l s', s.Inv ∧ s.closing = true → True →
      (system autoReconnect).step s l = some s' →
      (s'.Inv ∧ s'.closing = true) ∧ s'.remaining + (isTeardown l).toNat ≤ s.remaining := by
    intro s l s' h _ hstep
    obtain ⟨hclosing', hless⟩ := remaining_step h.1 h.2 hstep
    exact ⟨⟨inv_step h.1 hstep, hclosing'⟩, hless⟩
  have hguarded : (system autoReconnect).Guarded (fun _ _ => True) s ls' :=
    System.guarded_of_forall (P := fun _ => True) ls' (fun _ _ => trivial) s
  have hstart := And.intro (inv_of_run hrun) hclosing
  constructor
  · have hcount := System.add_count_le (P := fun _ => isTeardown) (Q := fun _ _ => false) remaining
      hstep ls' hstart hguarded hrun'
    have hnone : ls'.countP (fun _ => false) = 0 := List.countP_eq_zero.2 (by simp)
    rw [System.count_eq_countP ls' hrun', System.count_eq_countP ls' hrun', hnone] at hcount
    have hle := s.remaining_le
    omega
  · intro hnot
    have hend := System.run_invariant (fun s l s' h hC hs => (hstep s l s' h hC hs).1) ls' hstart
      hguarded hrun'
    exact exists_teardown autoReconnect hend.2 hnot

/-- A client with one connection is closed, while a call waits in `_ensure_started`. -/
def closedWhileStarting : List ClosableUserLabel :=
  [.stream (.call orderEvent), .stream (.call "balanceUpdate"),
    .stream (.created 0 fun symbolType => if symbolType = .site then some "key" else none),
    .stream (.connection .site (.created (some "key"))), .stream (.connection .site .connected),
    .aclose, .closeBegun .site, .supervisorEnded .site false, .socketClosed .site, .gathered,
    .stream (.created 0 fun _ => some "key"), .keysClosed]

/-- The second subscription comes after the sweep. -/
theorem run_tornDown_whileStarting :
    ∃ t, (system true).run new closedWhileStarting = some t ∧
      (t.stream.queues ⟨orderEvent, 0⟩).HasEnd ∧ ¬ (t.stream.queues ⟨"balanceUpdate", 1⟩).HasEnd := by
  obtain ⟨t, hrun, hswept, hissued, hlate, hleft⟩ : ∃ t,
      (system true).run new closedWhileStarting = some t ∧ t.teardown.swept = true ∧
        t.issued = [⟨orderEvent, 0⟩, ⟨"balanceUpdate", 1⟩] ∧ t.late = [⟨"balanceUpdate", 1⟩] ∧
        t.left = [] := ⟨_, rfl, rfl, rfl, rfl, rfl⟩
  obtain ⟨-, hends⟩ := run_tornDown hrun hswept
  rw [hissued, hlate, hleft] at hends
  refine ⟨t, hrun, (hends _ (by simp)).2 (by decide), fun hend => ?_⟩
  exact absurd ((hends _ (by simp)).1 hend) (by decide)

/-- The call of `aclose` takes five steps here. -/
theorem run_teardown_whileStarting :
    ∃ s t, (system true).run new (closedWhileStarting.take 6) = some s ∧
      (system true).run s (closedWhileStarting.drop 6) = some t ∧ s.closing = true ∧
      (closedWhileStarting.drop 6).countP isTeardown = 5 ∧ 5 ≤ 8 := by
  obtain ⟨s, t, hrun, hclosing, hrun'⟩ : ∃ s t,
      (system true).run new (closedWhileStarting.take 6) = some s ∧ s.closing = true ∧
        (system true).run s (closedWhileStarting.drop 6) = some t := ⟨_, _, rfl, rfl, rfl⟩
  exact ⟨s, t, hrun, hrun', hclosing, rfl, (run_teardown hrun hclosing hrun').1⟩

end ClosableUserData

end BinanceTh
