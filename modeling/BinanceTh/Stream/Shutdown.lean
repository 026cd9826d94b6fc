import BinanceTh.Stream.Fanout
import BinanceTh.Stream.Orphans

/-!
# The end of a client

Once `StreamClient.aclose` has returned, every supervisor has ended and every subscription has got
its end, unless somebody subscribed after the call, a second call returned before the first, or a
supervisor has ended with an error of its backoff (`ClosableClient.run_final`). A subscription made
after the call may have a supervisor that runs on (`ClosableClient.not_run_final_lookup`).
-/

namespace BinanceTh

open Transition

namespace Connection

variable {config : StreamConfig} {s s' : Connection} {l : ConnectionLabel}

/-- Only a running supervisor makes steps. -/
theorem supervised_of_step (hl : l.isSupervisor = true) (h : s.step config l = some s') :
    s.phase.supervised = true := by
  cases l with
  | subscribe | unsubscribe | returned | dropped => cases hl
  | started | slept | cancelled | woken =>
    obtain ⟨hphase, -⟩ := Option.ite_none_right_eq_some.1 h
    rw [hphase]
    rfl
  | connected | connectFailed | closed =>
    simp only [step] at h
    split at h
    · next hphase =>
      rw [hphase]
      rfl
    · cases h

/-- It comes to its sleep by an error. -/
theorem retries_of_sleeping (hl : l.isSupervisor = true) (h : s.step config l = some s')
    (hsleeping : s'.phase = .sleeping) : s.retries config l = true := by
  have herror (hl : l = .connectFailed ∨ l = .closed) : s.retries config l = true := by
    obtain ⟨-, hended | ⟨-, hretries⟩⟩ := step_of_error hl h
    · rw [hsleeping] at hended
      cases hended
    · exact hretries hsleeping
  cases l with
  | subscribe | unsubscribe | returned | dropped => cases hl
  | connectFailed => exact herror (.inl rfl)
  | closed => exact herror (.inr rfl)
  | started | slept | cancelled =>
    obtain ⟨-, h⟩ := Option.ite_none_right_eq_some.1 h
    obtain rfl := Option.some.inj h
    cases hsleeping
  | woken timedOut =>
    obtain ⟨-, h⟩ := Option.ite_none_right_eq_some.1 h
    split at h <;>
    · obtain rfl := Option.some.inj h
      cases hsleeping
  | connected =>
    simp only [step] at h
    split at h
    · obtain rfl := Option.some.inj h
      cases hsleeping
    · cases h

end Connection

namespace ClosableConnection

variable {config : StreamConfig} {s s' : ClosableConnection} {l : ClosableLabel}

/-- A subscription that was made is still registered, or has its end. -/
structure Tracked (s : ClosableConnection) : Prop where
  registry : s.stream.conn.RegistryInv
  issued : ∀ sub ∈ s.issued, sub.id < s.stream.conn.made
  ends : ∀ sub ∈ s.issued,
    Registry.Has s.stream.conn.subs sub ∨ (s.stream.queues sub).HasEnd

theorem tracked_new (host : String) : (new host).Tracked where
  registry := Connection.registryInv_new host
  issued _ hsub := absurd hsub List.not_mem_nil
  ends _ hsub := absurd hsub List.not_mem_nil

/-- A step that issues nothing, keeps the registry, and takes no end away. -/
theorem Tracked.of_keeps (h : s.Tracked) (hissued : s'.issued = s.issued)
    (hkeeps : s.KeepsRegistry s')
    (hends : ∀ sub, Registry.Has s.stream.conn.subs sub ∨ (s.stream.queues sub).HasEnd →
      Registry.Has s.stream.conn.subs sub ∨ (s'.stream.queues sub).HasEnd) : s'.Tracked where
  registry := hkeeps.inv h.registry
  issued sub hsub := by
    rw [hkeeps.2.2]
    exact h.issued sub (hissued ▸ hsub)
  ends sub hsub := by
    rw [hkeeps.1]
    exact hends sub (h.ends sub (hissued ▸ hsub))

theorem Tracked.of_eq (h : s.Tracked) (hstream : s'.stream = s.stream)
    (hissued : s'.issued = s.issued) : s'.Tracked := by
  refine h.of_keeps hissued ?_ ?_
  · unfold KeepsRegistry
    rw [hstream]
    exact ⟨rfl, rfl, rfl⟩
  · rw [hstream]
    exact fun _ hsub => hsub

theorem tracked_endAll (h : s.Tracked) : s.endAll.Tracked where
  registry := ClearsRegistry.inv ⟨rfl, rfl⟩
  issued := h.issued
  ends sub hsub := by
    refine .inr (Queues.hasEnd_offerAll rfl _ _ ?_)
    exact (h.ends sub hsub).imp_left fun hhas => hhas.mem_all

/-! ### The calls of `aclose` -/

theorem tracked_closeSocket (h : s.Tracked) : s.closeSocket.1.Tracked := by
  unfold closeSocket
  split
  · exact h.of_keeps rfl ⟨rfl, rfl, rfl⟩ fun _ hsub => hsub
  · exact tracked_endAll h

theorem tracked_join (h : s.Tracked) (supervisor : SupervisorRef) :
    (s.join supervisor).1.Tracked := by
  unfold join
  split
  · exact h
  · exact tracked_closeSocket h

theorem tracked_aclose (h : s.Tracked) : s.aclose.Tracked := by
  have henter : s.enter.1.Tracked := by
    have hclosing : Tracked { s with closing := true, supervisor := none } := h.of_eq rfl rfl
    unfold enter
    split
    · exact tracked_closeSocket hclosing
    · next supervisor _ =>
      have hcancel : (cancel { s with closing := true, supervisor := none } supervisor).Tracked := by
        unfold cancel
        split
        · exact hclosing.of_eq rfl rfl
        · exact hclosing
      dsimp only
      split
      · exact tracked_join hcancel supervisor
      · exact hcancel
  exact henter.of_eq rfl rfl

/-! ### The subscribers -/

theorem subscribe_frame (config : StreamConfig) (s : ClosableConnection) (stream : String) :
    (s.subscribe config stream).issued = s.issued ++ [⟨stream, s.stream.conn.made⟩] ∧
    (s.subscribe config stream).stream.conn.made = s.stream.conn.made + 1 ∧
    (s.subscribe config stream).stream.conn.subs =
      Registry.add s.stream.conn.subs ⟨stream, s.stream.conn.made⟩ ∧
    (s.subscribe config stream).stream.queues =
      Function.update s.stream.queues ⟨stream, s.stream.conn.made⟩ {} := by
  unfold subscribe
  dsimp only
  split
  · unfold spawn
    split <;> exact ⟨rfl, rfl, rfl, rfl⟩
  · split
    · obtain ⟨hsubs, -, -⟩ :=
        (s.stream.conn.register stream).applyStream_frame config stream .subscribe
      exact ⟨rfl, (s.stream.conn.register stream).made_applyStream config stream _, hsubs, rfl⟩
    · exact ⟨rfl, rfl, rfl, rfl⟩

theorem Tracked.subscribe (h : s.Tracked) (config : StreamConfig) (stream : String) :
    (s.subscribe config stream).Tracked := by
  obtain ⟨hissued, hmade, hsubs, hqueues⟩ := subscribe_frame config s stream
  refine ⟨registryInv_subscribe h.registry config stream, fun sub hsub => ?_, fun sub hsub => ?_⟩
  · rw [hmade]
    rw [hissued] at hsub
    rcases List.mem_append.1 hsub with hold | hnew
    · exact Nat.lt_succ_of_lt (h.issued sub hold)
    · rw [List.mem_singleton.1 hnew]
      exact Nat.lt_succ_self _
  · rw [hsubs, hqueues]
    rw [hissued] at hsub
    rcases List.mem_append.1 hsub with hold | hnew
    · -- the new queue is not an old one
      have hne : sub ≠ ⟨stream, s.stream.conn.made⟩ := by
        rintro rfl
        exact Nat.lt_irrefl _ (h.issued _ hold)
      rw [Function.update_of_ne hne]
      exact (h.ends sub hold).imp_left fun hhas => Registry.has_add.2 (.inr hhas)
    · exact .inl (Registry.has_add.2 (.inl (List.mem_singleton.1 hnew)))

theorem Tracked.unsubscribe (h : s.Tracked) (config : StreamConfig) (sub : Subscription) :
    Tracked { s with
      stream.conn := s.stream.conn.unsubscribe config sub
      stream.queues := s.stream.queues.offerTo sub .closed } := by
  obtain ⟨hsubs, -⟩ := s.stream.conn.unsubscribe_frame config sub
  refine ⟨h.registry.unsubscribe config sub, fun x hx => ?_, fun x hx => ?_⟩
  · change x.id < (s.stream.conn.unsubscribe config sub).made
    rw [Connection.made_unsubscribe]
    exact h.issued x hx
  · change Registry.Has (s.stream.conn.unsubscribe config sub).subs x ∨ _
    rw [hsubs]
    by_cases heq : x = sub
    · exact .inr (Queues.hasEnd_offerTo rfl _ _ (.inl heq))
    · refine (h.ends x hx).imp (fun hhas => hhas.remove heq) fun hend => ?_
      exact Queues.hasEnd_offerTo rfl _ _ (.inr hend)

/-- A supervisor offers nothing but faults. -/
theorem hasEnd_supervise {l : ConnectionLabel} {exc : String} {sub : Subscription}
    (h : s.supervise config l exc = some s') (hend : (s.stream.queues sub).HasEnd) :
    (s'.stream.queues sub).HasEnd := by
  obtain ⟨hl, h⟩ := Option.ite_none_right_eq_some.1 h
  obtain ⟨conn, -, rfl⟩ := Option.map_eq_some_iff.1 h
  have hfault (message : String) :
      (s.stream.queues.offerAll (Registry.all conn.subs) (.fault message) sub).HasEnd :=
    Queues.hasEnd_offerAll rfl _ _ (.inr hend)
  have hgoOn (message : String) : ((s.stream.goOn conn message).queues sub).HasEnd := by
    unfold StreamConnection.goOn
    split
    · unfold StreamConnection.sleep
      split <;> exact hend
    · exact hfault message
    · exact hend
  split
  · cases l with
    | connectFailed => exact hfault _
    | _ => exact hend
  · cases l with
    | connectFailed | closed => exact hgoOn _
    | subscribe | unsubscribe | returned | dropped => cases hl
    | _ => exact hend

theorem Tracked.message {raw : Json} (h : s.Tracked) (hstep : s.step config (.message raw) = some s') :
    s'.Tracked := by
  cases hdemux : demux raw with
  | none =>
    obtain ⟨-, hstep⟩ := Option.ite_none_right_eq_some.1 hstep
    rw [hdemux] at hstep
    obtain rfl := Option.some.inj hstep
    exact h
  | some frame =>
    have hoffers := message_offers h.registry hdemux hstep
    obtain ⟨-, hstep⟩ := Option.ite_none_right_eq_some.1 hstep
    rw [hdemux] at hstep
    obtain ⟨stream, hstream, rfl⟩ := Option.map_eq_some_iff.1 hstep
    obtain ⟨-, hstream⟩ := Option.ite_none_right_eq_some.1 hstream
    obtain rfl := Option.some.inj hstream
    refine h.of_keeps rfl ⟨rfl, rfl, rfl⟩ fun sub hsub => ?_
    by_cases hmem : sub ∈ Registry.ofStream s.stream.conn.subs frame.1
    · exact .inl (h.registry.registered.wellFormed.has_of_mem hmem)
    · refine hsub.imp_right fun hend => ?_
      rw [hoffers sub, if_neg hmem]
      exact hend

/-- **One step.** -/
theorem tracked_step (h : s.Tracked) (hstep : s.step config l = some s') : s'.Tracked := by
  cases l with
  | subscribe stream =>
    obtain rfl := Option.some.inj hstep
    exact h.subscribe config stream
  | unsubscribe sub =>
    obtain rfl := Option.some.inj hstep
    exact h.unsubscribe config sub
  | returned =>
    obtain rfl := step_returned hstep
    exact h.of_keeps rfl ⟨rfl, rfl, rfl⟩ fun _ hsub => hsub
  | dropped =>
    obtain rfl := Option.some.inj hstep
    exact h.of_keeps rfl ⟨rfl, rfl, rfl⟩ fun _ hsub => hsub
  | supervise l exc =>
    have hissued : s'.issued = s.issued := by
      obtain ⟨-, hstep⟩ := Option.ite_none_right_eq_some.1 hstep
      obtain ⟨conn, -, rfl⟩ := Option.map_eq_some_iff.1 hstep
      split <;> rfl
    exact h.of_keeps hissued (keepsRegistry_supervise hstep) fun sub hsub =>
      hsub.imp_right (hasEnd_supervise hstep)
  | aborted =>
    obtain ⟨-, hstep⟩ := Option.ite_none_right_eq_some.1 hstep
    obtain rfl := Option.some.inj hstep
    exact h.of_keeps rfl ⟨rfl, rfl, rfl⟩ fun _ hsub => hsub
  | lateEnded i =>
    obtain ⟨-, rfl⟩ := step_lateEnded hstep
    exact h.of_eq rfl rfl
  | message raw => exact h.message hstep
  | next sub =>
    obtain ⟨item, queue, hnext, rfl⟩ := step_next hstep
    exact h.of_keeps rfl ⟨rfl, rfl, rfl⟩ fun _ hsub =>
      hsub.imp_right fun hend => Queues.hasEnd_next hend hnext
  | aclose =>
    obtain rfl := Option.some.inj hstep
    exact tracked_aclose h
  | joined i =>
    obtain ⟨supervisor, -, -, rfl⟩ := step_joined hstep
    exact (tracked_join h supervisor).of_eq rfl rfl
  | socketClosed i =>
    obtain ⟨-, rfl⟩ := step_socketClosed hstep
    exact (tracked_endAll h).of_eq rfl rfl

/-! ### The call of `aclose` -/

/-- The backoff of a supervisor that goes on has a delay for the error. -/
def CanSleep (config : StreamConfig) (s : ClosableConnection) : ClosableLabel → Prop
  | .supervise l _ =>
    s.closing = false → s.stream.conn.retries config l = true → s.stream.backoff.n < 1024
  | _ => True

/-- There was no call yet. -/
structure BeforeClose (s : ClosableConnection) : Prop where
  closing : s.closing = false
  supervisor : s.supervisor = some .first
  failed : s.failed = false
  late : s.late = []
  closes : s.closes = []

/-- There was one call, and no subscription since. -/
structure InClose (s : ClosableConnection) : Prop where
  closing : s.closing = true
  failed : s.failed = false
  late : s.late = []
  closes : s.closes = [.awaiting .first] ∨
    s.closes = [.closingSocket] ∧ s.stream.conn.phase.supervised = false ∨
    s.closes = [.returned] ∧ s.stream.conn.phase.supervised = false ∧ s.stream.conn.subs = ∅

/-- No supervisor runs, and every subscription has its end. -/
def Over (s : ClosableConnection) : Prop :=
  s.stream.conn.phase.supervised = false ∧ (∀ ended ∈ s.late, ended = true) ∧
    ∀ sub ∈ s.issued, (s.stream.queues sub).HasEnd

theorem InClose.over (h : s.InClose) (htracked : s.Tracked)
    (hfinished : s.closes.all AclosePhase.finished = true) : s.Over := by
  rcases h.closes with hcloses | ⟨hcloses, -⟩ | ⟨-, hphase, hsubs⟩
  · rw [hcloses] at hfinished
    cases hfinished
  · rw [hcloses] at hfinished
    cases hfinished
  · refine ⟨hphase, by simp [h.late], fun sub hsub => ?_⟩
    refine (htracked.ends sub hsub).resolve_left fun hhas => ?_
    rw [hsubs] at hhas
    exact Registry.not_has_empty hhas

/-- What the steps between the awaits of `aclose` leave as it is. -/
structure Framed (s s' : ClosableConnection) : Prop where
  closing : s'.closing = s.closing
  supervisor : s'.supervisor = s.supervisor
  closes : s'.closes = s.closes
  late : s'.late = []
  failed : s.failed = false → s'.failed = false
  ended : s.stream.conn.phase.supervised = false → s'.stream.conn.phase.supervised = false
  empty : s.stream.conn.subs = ∅ → s'.stream.conn.subs = ∅

theorem framed_unsubscribe (hlate : s.late = []) {sub : Subscription}
    (h : s.step config (.unsubscribe sub) = some s') : Framed s s' := by
  obtain rfl := Option.some.inj h
  obtain ⟨hsubs, hphase⟩ := s.stream.conn.unsubscribe_frame config sub
  refine ⟨rfl, rfl, rfl, hlate, id, fun hended => ?_, fun hempty => ?_⟩
  · change (s.stream.conn.unsubscribe config sub).phase.supervised = false
    rw [hphase]
    exact hended
  · change (s.stream.conn.unsubscribe config sub).subs = ∅
    rw [hsubs, hempty]
    rfl

/-- A step of the supervisor, which has not ended then. -/
theorem framed_supervise {l : ConnectionLabel} {exc : String} (hlate : s.late = [])
    (hsleep : s.CanSleep config (.supervise l exc))
    (h : s.step config (.supervise l exc) = some s') : Framed s s' := by
  have hkeeps := keepsRegistry_supervise h
  obtain ⟨hl, h⟩ := Option.ite_none_right_eq_some.1 h
  obtain ⟨conn, hconn, rfl⟩ := Option.map_eq_some_iff.1 h
  rw [Bool.and_eq_true] at hl
  have hrunning := Connection.supervised_of_step hl.1 hconn
  have hno (hended : s.stream.conn.phase.supervised = false) : False := by
    rw [hrunning] at hended
    cases hended
  have hsubs (hempty : s.stream.conn.subs = ∅) := hkeeps.1.trans hempty
  split
  · exact ⟨rfl, rfl, rfl, hlate, id, fun hended => (hno hended).elim, by simpa [*] using hsubs⟩
  · next hopen =>
    rw [Bool.not_eq_true] at hopen
    refine ⟨rfl, rfl, rfl, hlate, fun hfailed => ?_, fun hended => (hno hended).elim,
      by simpa [*] using hsubs⟩
    change (s.failed || raises s.stream conn) = false
    rw [hfailed, Bool.false_or, raises, Bool.and_eq_false_iff, decide_eq_false_iff_not]
    by_cases hphase : conn.phase = .sleeping
    · have hlt := hsleep hopen (Connection.retries_of_sleeping hl.1 hconn hphase)
      rw [Backoff.next_of_lt hlt]
      exact .inr (by simp [Except.isOk, Except.toBool])
    · exact .inl hphase

theorem own_frame (hown : ClosableClient.isOwn l = true) (hlate : s.late = [])
    (hjoined : ∀ i, l ≠ .joined i) (hclosed : ∀ i, l ≠ .socketClosed i)
    (hsleep : s.CanSleep config l) (h : s.step config l = some s') : Framed s s' := by
  cases l with
  | subscribe | aclose => cases hown
  | joined i => exact absurd rfl (hjoined i)
  | socketClosed i => exact absurd rfl (hclosed i)
  | unsubscribe sub => exact framed_unsubscribe hlate h
  | supervise l exc => exact framed_supervise hlate hsleep h
  | returned =>
    obtain rfl := step_returned h
    exact ⟨rfl, rfl, rfl, hlate, id, id, id⟩
  | dropped =>
    obtain rfl := Option.some.inj h
    exact ⟨rfl, rfl, rfl, hlate, id, id, id⟩
  | aborted =>
    obtain ⟨-, h⟩ := Option.ite_none_right_eq_some.1 h
    obtain rfl := Option.some.inj h
    exact ⟨rfl, rfl, rfl, hlate, id, fun _ => rfl, id⟩
  | lateEnded i =>
    obtain ⟨hi, -⟩ := step_lateEnded h
    rw [hlate] at hi
    cases hi
  | message raw =>
    obtain ⟨queues, rfl⟩ := step_message h
    exact ⟨rfl, rfl, rfl, hlate, id, id, id⟩
  | next sub =>
    obtain ⟨item, queue, -, rfl⟩ := step_next h
    exact ⟨rfl, rfl, rfl, hlate, id, id, id⟩

theorem BeforeClose.own (h : s.BeforeClose) (hown : ClosableClient.isOwn l = true)
    (hsleep : s.CanSleep config l) (hstep : s.step config l = some s') : s'.BeforeClose := by
  have hno (i : ℕ) : s.closes[i]? = none := by rw [h.closes]; rfl
  have hjoined : ∀ i, l ≠ .joined i := by
    rintro i rfl
    simp only [step, hno] at hstep
    cases hstep
  have hclosed : ∀ i, l ≠ .socketClosed i := by
    rintro i rfl
    simp only [step, hno] at hstep
    cases hstep
  obtain ⟨hclosing, hsupervisor, hcloses, hlate, hfailed, -, -⟩ :=
    own_frame hown h.late hjoined hclosed hsleep hstep
  exact ⟨hclosing.trans h.closing, hsupervisor.trans h.supervisor, hfailed h.failed, hlate,
    hcloses.trans h.closes⟩

theorem BeforeClose.subscribe (h : s.BeforeClose) (config : StreamConfig) (stream : String) :
    (s.subscribe config stream).BeforeClose := by
  unfold ClosableConnection.subscribe
  rw [h.supervisor]
  dsimp only
  split <;> exact ⟨h.closing, rfl, h.failed, h.late, h.closes⟩

/-- A new connection with its first subscription. -/
theorem beforeClose_subscribe_new (config : StreamConfig) (host stream : String) :
    ((new host).subscribe config stream).BeforeClose := ⟨rfl, rfl, rfl, rfl, rfl⟩

/-- After the await of the supervisor. -/
theorem inClose_join (hclosing : s.closing = true) (hfailed : s.failed = false)
    (hlate : s.late = []) (hphase : s.stream.conn.phase.supervised = false) :
    InClose { (s.join .first).1 with closes := [(s.join .first).2] } := by
  have hjoin : s.join .first = s.closeSocket := by
    unfold join
    rw [hfailed]
    exact if_neg (by simp)
  rw [hjoin]
  unfold closeSocket
  split
  · exact ⟨hclosing, hfailed, hlate, .inr (.inl ⟨rfl, hphase⟩)⟩
  · exact ⟨hclosing, hfailed, hlate, .inr (.inr ⟨rfl, hphase, rfl⟩)⟩

theorem hasEnded_first (h : s.hasEnded .first = true) : s.stream.conn.phase.supervised = false := by
  simpa [hasEnded] using h

theorem BeforeClose.aclose (h : s.BeforeClose) : s.aclose.InClose := by
  have hcloses : s.closes ++ [s.enter.2] = [s.enter.2] := by rw [h.closes, List.nil_append]
  unfold ClosableConnection.aclose
  rw [hcloses]
  unfold enter
  rw [h.supervisor]
  dsimp only
  have hcancel : (cancel { s with closing := true, supervisor := none } .first).closing = true ∧
      (cancel { s with closing := true, supervisor := none } .first).failed = false ∧
      (cancel { s with closing := true, supervisor := none } .first).late = [] := by
    unfold cancel
    split <;> exact ⟨rfl, h.failed, h.late⟩
  obtain ⟨hclosing, hfailed, hlate⟩ := hcancel
  split
  · next hended => exact inClose_join hclosing hfailed hlate (hasEnded_first hended)
  · exact ⟨hclosing, hfailed, hlate, .inl rfl⟩

theorem InClose.own (h : s.InClose) (hown : ClosableClient.isOwn l = true)
    (hsleep : s.CanSleep config l) (hstep : s.step config l = some s') : s'.InClose := by
  have hone {i : ℕ} {p p' : AclosePhase} (hcloses : s.closes = [p])
      (hi : s.closes[i]? = some p') : i = 0 ∧ p = p' := by
    rw [hcloses] at hi
    cases i with
    | zero => exact ⟨rfl, Option.some.inj hi⟩
    | succ i => cases hi
  cases l with
  | joined i =>
    obtain ⟨supervisor, hi, hended, rfl⟩ := step_joined hstep
    rcases h.closes with hcloses | ⟨hcloses, -⟩ | ⟨hcloses, -⟩
    · obtain ⟨rfl, hsupervisor⟩ := hone hcloses hi
      obtain rfl := AclosePhase.awaiting.inj hsupervisor
      unfold resume
      rw [hcloses]
      exact inClose_join h.closing h.failed h.late (hasEnded_first hended)
    · obtain ⟨-, hno⟩ := hone hcloses hi
      cases hno
    · obtain ⟨-, hno⟩ := hone hcloses hi
      cases hno
  | socketClosed i =>
    obtain ⟨hi, rfl⟩ := step_socketClosed hstep
    rcases h.closes with hcloses | ⟨hcloses, hphase⟩ | ⟨hcloses, -⟩
    · obtain ⟨-, hno⟩ := hone hcloses hi
      cases hno
    · obtain ⟨rfl, -⟩ := hone hcloses hi
      refine ⟨h.closing, h.failed, h.late, .inr (.inr ⟨?_, hphase, rfl⟩)⟩
      unfold resume
      rw [hcloses]
      rfl
    · obtain ⟨-, hno⟩ := hone hcloses hi
      cases hno
  | _ =>
    obtain ⟨hclosing, -, hcloses, hlate, hfailed, hphase, hsubs⟩ :=
      own_frame hown h.late (by simp) (by simp) hsleep hstep
    refine ⟨hclosing.trans h.closing, hfailed h.failed, hlate, ?_⟩
    rw [hcloses]
    exact h.closes.imp_right (.imp (.imp_right hphase) (.imp_right (.imp hphase hsubs)))

/-- A call that has finished makes no more steps. -/
theorem InClose.finished_own (h : s.InClose) (hown : ClosableClient.isOwn l = true)
    (hsleep : s.CanSleep config l) (hfinished : s.closes.all AclosePhase.finished = true)
    (hstep : s.step config l = some s') : s'.closes.all AclosePhase.finished = true := by
  have hno {i : ℕ} {p : AclosePhase} (hi : s.closes[i]? = some p) : p.finished = true :=
    List.all_eq_true.1 hfinished p (List.mem_of_getElem? hi)
  have hjoined : ∀ i, l ≠ .joined i := by
    rintro i rfl
    simp only [step] at hstep
    split at hstep
    · next hi => cases hno hi
    · cases hstep
  have hclosed : ∀ i, l ≠ .socketClosed i := by
    rintro i rfl
    obtain ⟨hi, -⟩ := Option.ite_none_right_eq_some.1 hstep
    cases hno hi
  obtain ⟨-, -, hcloses, -⟩ := own_frame hown h.late hjoined hclosed hsleep hstep
  rw [hcloses]
  exact hfinished

end ClosableConnection

namespace ClosableClient

variable {config : StreamConfig} {router : StreamRouter} {s s' : ClosableClient}
  {l : ClosableClientLabel} {ls : List ClosableClientLabel}

/-- No call of `_subscribe` or `unsubscribe` is pending. -/
def Quiet (s : ClosableClient) : Prop :=
  s.lookups = [] ∧ ∀ conn ∈ s.connections, conn.stream.conn.pending = 0

/-- Once a call of `aclose` has returned and nobody is subscribing any more, nothing runs. -/
def Final (s : ClosableClient) : Prop :=
  s.returned = true → s.Quiet → s.conns = [] ∧ ∀ conn ∈ s.connections, conn.Over

/-- A subscription at the host comes before the call of `aclose`, or before the `aclose` of the
connection that the host has. -/
def Admits (router : StreamRouter) (s : ClosableClient) (symbolType : SymbolType) : Prop :=
  match s.teardown with
  | .none => True
  | .gathering _ scheduled => ∃ i ∈ scheduled, Dict.get? s.conns (router.hostFor symbolType) = some i
  | .done => False

/-- Nobody subscribes too late, no `aclose` is called while another is in progress, and no backoff
overflows. -/
def Orderly (config : StreamConfig) (router : StreamRouter) (s : ClosableClient) :
    ClosableClientLabel → Prop
  | .call call =>
    ∀ symbolType ∈ Dict.get? s.typeCache (router.upper call.symbol), s.Admits router symbolType
  | .lookedUp i infos =>
    ∀ call : StreamCall, s.lookups[i]? = some call →
      s.Admits router (router.typeOf call.symbol infos)
  | .aclose => ∀ gathered scheduled, s.teardown ≠ .gathering gathered scheduled
  | .connection i l => ∀ conn, s.connections[i]? = some conn → conn.CanSleep config l
  | _ => True

/-- How far the closing of a connection is. -/
def Stage (teardown : Teardown) (i : ℕ) (conn : ClosableConnection) : Prop :=
  match teardown with
  | .none => conn.BeforeClose
  | .gathering _ scheduled => if i ∈ scheduled then conn.BeforeClose else conn.InClose
  | .done => conn.InClose ∧ conn.closes.all AclosePhase.finished = true

/-- The connections that a client has are all that it made, until they are closed. -/
def Known (s : ClosableClient) : Prop :=
  match s.teardown with
  | .none => s.conns.map Prod.snd = List.range s.connections.length
  | .gathering gathered scheduled =>
    s.conns.map Prod.snd = List.range s.connections.length ∧
      gathered = List.range s.connections.length ∧ scheduled.Nodup
  | .done => s.conns = []

structure Inv (s : ClosableClient) : Prop where
  tracked : ∀ conn ∈ s.connections, conn.Tracked
  stage : ∀ i conn, s.connections[i]? = some conn → Stage s.teardown i conn
  known : s.Known
  returned : s.returned = true → s.teardown = .done

theorem inv_new : new.Inv where
  tracked _ h := absurd h List.not_mem_nil
  stage _ _ h := by cases h
  known := rfl
  returned h := by cases h

/-- One connection goes on. -/
theorem Inv.modify (h : s.Inv) {i : ℕ} {f : ClosableConnection → ClosableConnection}
    (hconn : ∀ conn, s.connections[i]? = some conn →
      (f conn).Tracked ∧ Stage s.teardown i (f conn)) :
    Inv { s with connections := s.connections.modify i f } where
  tracked x hx := by
    obtain ⟨j, hj⟩ := List.mem_iff_getElem?.1 hx
    rw [List.getElem?_modify] at hj
    obtain ⟨conn, hget, rfl⟩ := Option.map_eq_some_iff.1 hj
    split
    · next heq => exact (hconn conn (heq ▸ hget)).1
    · exact h.tracked conn (List.mem_of_getElem? hget)
  stage j x hx := by
    rw [List.getElem?_modify] at hx
    obtain ⟨conn, hget, rfl⟩ := Option.map_eq_some_iff.1 hx
    split
    · next heq =>
      subst heq
      exact (hconn conn hget).2
    · exact h.stage j conn hget
  known := by
    have hknown := h.known
    unfold Known at hknown ⊢
    rw [List.length_modify]
    exact hknown
  returned := h.returned

/-- A subscription at a host without a connection: the client makes one. -/
theorem Inv.add (h : s.Inv) (hopen : s.teardown = .none) {host : String}
    (hnone : Dict.get? s.conns host = none) {conn : ClosableConnection} (htracked : conn.Tracked)
    (hbefore : conn.BeforeClose) :
    Inv { s with
      connections := s.connections ++ [conn]
      conns := s.conns.set host s.connections.length } where
  tracked x hx := by
    rcases List.mem_append.1 hx with hx | hx
    · exact h.tracked x hx
    · rw [List.mem_singleton.1 hx]
      exact htracked
  stage j x hx := by
    have hx : (s.connections ++ [conn])[j]? = some x := hx
    have hall := h.stage
    rw [hopen] at hall
    change Stage s.teardown j x
    rw [hopen]
    rcases List.mem_append.1 (List.mem_of_getElem? hx) with hmem | hmem
    · obtain ⟨k, hk⟩ := List.mem_iff_getElem?.1 hmem
      exact hall k x hk
    · rw [List.mem_singleton.1 hmem]
      exact hbefore
  known := by
    have hknown := h.known
    unfold Known at hknown ⊢
    rw [hopen] at hknown ⊢
    have hset : s.conns.set host s.connections.length = s.conns ++ [(host, s.connections.length)] := by
      unfold Dict.set Dict.contains
      rw [hnone]
      rfl
    change (s.conns.set host s.connections.length).map Prod.snd = _
    rw [hset, List.map_append, hknown, List.length_append, List.length_singleton, List.range_succ]
    rfl
  returned := h.returned

theorem Inv.subscribe (h : s.Inv) (config : StreamConfig) (call : StreamCall)
    {symbolType : SymbolType} (hadmits : s.Admits router symbolType) :
    (s.subscribe config router call symbolType).Inv := by
  unfold ClosableClient.subscribe
  dsimp only
  unfold Admits at hadmits
  split
  · next i hget =>
    refine h.modify fun conn hconn => ?_
    have htracked := h.tracked conn (List.mem_of_getElem? hconn)
    have hstage := h.stage i conn hconn
    refine ⟨htracked.subscribe config _, ?_⟩
    split at hadmits
    · next hopen =>
      rw [hopen] at hstage ⊢
      exact ClosableConnection.BeforeClose.subscribe hstage config _
    · next gathered scheduled hgathering =>
      obtain ⟨j, hj, hget'⟩ := hadmits
      obtain rfl := Option.some.inj (hget.symm.trans hget')
      have hbefore : conn.BeforeClose := by
        rw [hgathering, Stage, if_pos hj] at hstage
        exact hstage
      rw [hgathering, Stage, if_pos hj]
      exact hbefore.subscribe config _
    · exact hadmits.elim
  · next hget =>
    split at hadmits
    · next hopen =>
      exact h.add hopen hget ((ClosableConnection.tracked_new _).subscribe config _)
        (ClosableConnection.beforeClose_subscribe_new config _ _)
    · obtain ⟨j, -, hget'⟩ := hadmits
      rw [hget] at hget'
      cases hget'
    · exact hadmits.elim

theorem Inv.finish (h : s.Inv)
    (hclosed : ∀ (i : ℕ) (conn : ClosableConnection), s.connections[i]? = some conn →
      conn.InClose ∧ conn.closes.all AclosePhase.finished = true) : s.finish.Inv where
  tracked := h.tracked
  stage := hclosed
  known := rfl
  returned _ := rfl

theorem Inv.aclose (h : s.Inv) (hidle : ∀ gathered scheduled, s.teardown ≠ .gathering gathered scheduled) :
    s.aclose.Inv := by
  unfold ClosableClient.aclose
  split
  · next hopen =>
    have hknown : s.conns.map Prod.snd = List.range s.connections.length := by
      have hknown := h.known
      rw [Known, hopen] at hknown
      exact hknown
    dsimp only
    rw [hknown]
    split
    · next hempty =>
      refine h.finish fun i conn hget => ?_
      rw [List.eq_nil_of_length_eq_zero (List.range_eq_nil.1 hempty)] at hget
      cases hget
    · refine ⟨h.tracked, fun i conn hget => ?_, ⟨hknown, rfl, List.nodup_range⟩, fun hreturned => ?_⟩
      · have hbefore := h.stage i conn hget
        rw [hopen] at hbefore
        have hi := List.mem_range.2 (List.getElem?_eq_some_iff.1 hget).1
        rw [Stage, if_pos hi]
        exact hbefore
      · have hdone := h.returned hreturned
        rw [hopen] at hdone
        cases hdone
  · next hnone =>
    have hdone : s.teardown = .done := by
      cases hteardown : s.teardown with
      | none => exact absurd hteardown hnone
      | gathering gathered scheduled => exact absurd hteardown (hidle gathered scheduled)
      | done => rfl
    exact ⟨h.tracked, h.stage, h.known, fun _ => hdone⟩

/-- A step of one connection. -/
theorem Inv.own (h : s.Inv) {i : ℕ} {conn conn' : ClosableConnection} {l : ClosableLabel}
    (hget : s.connections[i]? = some conn) (hown : isOwn l = true) (hsleep : conn.CanSleep config l)
    (hstep : conn.step config l = some conn') :
    Inv { s with connections := s.connections.set i conn' } := by
  rw [List.set_eq_modify]
  refine h.modify fun x hx => ?_
  obtain rfl := Option.some.inj (hget.symm.trans hx)
  have htracked := h.tracked conn (List.mem_of_getElem? hget)
  refine ⟨ClosableConnection.tracked_step htracked hstep, ?_⟩
  have hstage := h.stage i conn hget
  unfold Stage at hstage ⊢
  split at hstage
  · exact ClosableConnection.BeforeClose.own hstage hown hsleep hstep
  · split at hstage
    · next hi =>
      rw [if_pos hi]
      exact ClosableConnection.BeforeClose.own hstage hown hsleep hstep
    · next hi =>
      rw [if_neg hi]
      exact ClosableConnection.InClose.own hstage hown hsleep hstep
  · exact ⟨hstage.1.own hown hsleep hstep, hstage.1.finished_own hown hsleep hstage.2 hstep⟩

theorem Inv.closeBegun (h : s.Inv) {gathered scheduled : List ℕ} {i : ℕ}
    (hgathering : s.teardown = .gathering gathered scheduled) (hi : i ∈ scheduled) :
    Inv { s with
      connections := s.connections.modify i ClosableConnection.aclose
      teardown := .gathering gathered (scheduled.erase i) } := by
  have hknown := h.known
  rw [Known, hgathering] at hknown
  obtain ⟨hconns, hgathered, hnodup⟩ := hknown
  refine ⟨fun x hx => ?_, fun j x hx => ?_, ?_, fun hreturned => ?_⟩
  · obtain ⟨j, hj⟩ := List.mem_iff_getElem?.1 hx
    rw [List.getElem?_modify] at hj
    obtain ⟨conn, hget, rfl⟩ := Option.map_eq_some_iff.1 hj
    have htracked := h.tracked conn (List.mem_of_getElem? hget)
    split
    · exact ClosableConnection.tracked_aclose htracked
    · exact htracked
  · change (s.connections.modify i ClosableConnection.aclose)[j]? = some x at hx
    rw [List.getElem?_modify] at hx
    obtain ⟨conn, hget, rfl⟩ := Option.map_eq_some_iff.1 hx
    have hstage := h.stage j conn hget
    rw [hgathering, Stage] at hstage
    rw [Stage]
    by_cases heq : i = j
    · subst heq
      rw [if_pos hi] at hstage
      rw [if_pos rfl, if_neg hnodup.not_mem_erase]
      exact hstage.aclose
    · rw [if_neg heq]
      simp only [List.mem_erase_of_ne (Ne.symm heq)]
      exact hstage
  · unfold Known
    dsimp only
    rw [List.length_modify]
    exact ⟨hconns, hgathered, hnodup.erase i⟩
  · have hdone := h.returned hreturned
    rw [hgathering] at hdone
    cases hdone

/-- **One step of a client.** -/
theorem inv_step (h : s.Inv) (horderly : s.Orderly config router l)
    (hstep : s.step config router l = some s') : s'.Inv := by
  cases l with
  | call call =>
    simp only [step] at hstep
    split at hstep
    · next symbolType hcache =>
      obtain rfl := Option.some.inj hstep
      exact h.subscribe config call (horderly symbolType hcache)
    · obtain rfl := Option.some.inj hstep
      exact ⟨h.tracked, h.stage, h.known, h.returned⟩
  | lookedUp i infos =>
    obtain ⟨call, hget, hstep⟩ := Option.bind_eq_some_iff.1 hstep
    obtain rfl := Option.some.inj hstep
    have hinv : Inv { s with
        typeCache := s.typeCache.set (router.upper call.symbol) (router.typeOf call.symbol infos)
        lookups := s.lookups.eraseIdx i } := ⟨h.tracked, h.stage, h.known, h.returned⟩
    exact hinv.subscribe config call (horderly call hget)
  | lookupFailed i =>
    obtain ⟨call, hget, hstep⟩ := Option.bind_eq_some_iff.1 hstep
    obtain rfl := Option.some.inj hstep
    exact ⟨h.tracked, h.stage, h.known, h.returned⟩
  | connection i l =>
    obtain ⟨hown, hstep⟩ := Option.ite_none_right_eq_some.1 hstep
    obtain ⟨conn, hget, hstep⟩ := Option.bind_eq_some_iff.1 hstep
    obtain ⟨conn', hconn, hstep⟩ := Option.bind_eq_some_iff.1 hstep
    obtain rfl := Option.some.inj hstep
    exact h.own hget hown (horderly conn hget) hconn
  | aclose =>
    obtain rfl := Option.some.inj hstep
    exact h.aclose horderly
  | closeBegun i =>
    simp only [step] at hstep
    split at hstep
    · next gathered scheduled hgathering =>
      obtain ⟨hi, hstep⟩ := Option.ite_none_right_eq_some.1 hstep
      obtain rfl := Option.some.inj hstep
      exact h.closeBegun hgathering hi
    · cases hstep
  | gathered =>
    simp only [step] at hstep
    split at hstep
    · next gathered hgathering =>
      obtain ⟨hclosed, hstep⟩ := Option.ite_none_right_eq_some.1 hstep
      obtain rfl := Option.some.inj hstep
      have hknown := h.known
      rw [Known, hgathering] at hknown
      refine h.finish fun i conn hget => ?_
      have hin := h.stage i conn hget
      rw [hgathering, Stage, if_neg List.not_mem_nil] at hin
      refine ⟨hin, ?_⟩
      have hi : i ∈ gathered := by
        rw [hknown.2.1]
        exact List.mem_range.2 (List.getElem?_eq_some_iff.1 hget).1
      have hconn := List.all_eq_true.1 hclosed i hi
      rwa [closed, hget] at hconn
    · cases hstep

/-- **The end of a client.** In every run in which nobody subscribes too late, no `aclose` overlaps
another and no backoff overflows: once a call of `aclose` has returned, every supervisor has ended,
no connection is left, and every subscription has got its end. -/
theorem run_final (horderly : (system config router).Guarded (Orderly config router) new ls)
    (hrun : (system config router).run new ls = some s) : s.Final := by
  have hinv : s.Inv := by
    refine System.run_invariant (M := system config router) (C := Orderly config router) ?_ ls
      inv_new horderly hrun
    intro s l s' h horderly hstep
    exact inv_step h horderly hstep
  intro hreturned _
  have hdone := hinv.returned hreturned
  have hknown := hinv.known
  rw [Known, hdone] at hknown
  refine ⟨hknown, fun conn hconn => ?_⟩
  obtain ⟨i, hget⟩ := List.mem_iff_getElem?.1 hconn
  have hstage := hinv.stage i conn hget
  rw [hdone] at hstage
  exact hstage.1.over (hinv.tracked conn hconn) hstage.2

/-- A client with one live socket is closed. -/
def closedAfterTrades : List ClosableClientLabel :=
  [.call tradesCall, .lookedUp 0 [], .connection 0 (.supervise .started ""),
    .connection 0 (.supervise .connected ""), .aclose, .closeBegun 0, .connection 0 .aborted,
    .connection 0 (.joined 0), .connection 0 (.socketClosed 0), .gathered]

theorem run_final_closed :
    ∃ s, (system ⟨true, true⟩ sampleRouter).run new closedAfterTrades = some s ∧
      s.returned = true ∧ s.Quiet ∧ s.Final := by
  have horderly : (system ⟨true, true⟩ sampleRouter).Guarded (Orderly ⟨true, true⟩ sampleRouter) new
      closedAfterTrades := by
    refine System.guarded_cons (fun _ _ => ?_) rfl <| System.guarded_cons (fun _ _ => ?_) rfl <|
      System.guarded_cons (fun conn hget => ?_) rfl <| System.guarded_cons (fun conn hget => ?_) rfl <|
      System.guarded_cons (fun gathered scheduled hno => ?_) rfl <| System.guarded_cons trivial rfl <|
      System.guarded_cons (fun _ _ => trivial) rfl <|
      System.guarded_cons (fun _ _ => trivial) rfl <|
      System.guarded_cons (fun _ _ => trivial) rfl <| System.guarded_cons trivial rfl trivial
    · trivial
    · trivial
    · intro _ hretries
      cases hretries
    · intro _ hretries
      cases hretries
    · cases hno
  obtain ⟨s, hrun, hreturned, hquiet⟩ : ∃ s, (system ⟨true, true⟩ sampleRouter).run new
      closedAfterTrades = some s ∧ s.returned = true ∧ s.Quiet := by
    refine ⟨_, rfl, rfl, rfl, fun conn hconn => ?_⟩
    rw [List.mem_singleton.1 hconn]
    rfl
  exact ⟨s, hrun, hreturned, hquiet, run_final horderly hrun⟩

/-- The lookup of a symbol's type is in flight when the client is closed. -/
theorem not_run_final_lookup :
    ¬ ∀ ls s, (system ⟨true, true⟩ sampleRouter).run new ls = some s → s.Final := by
  intro h
  have hfinal := h [.call tradesCall, .aclose, .lookedUp 0 [],
    .connection 0 (.supervise .started ""), .connection 0 (.supervise .connected "")] _ rfl rfl
    ⟨rfl, fun conn hconn => by rw [List.mem_singleton.1 hconn]; rfl⟩
  cases hfinal.1

end ClosableClient

end BinanceTh
