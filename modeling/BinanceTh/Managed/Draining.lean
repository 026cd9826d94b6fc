import BinanceTh.Lib.Draining
import BinanceTh.OrderBook.Live
import BinanceTh.OrderTracker.Live

/-!
# Managed objects whose stream is closed

Closing the streams of a client ends the subscriptions of its order books and order trackers, but
not their tasks: each reads what is left in its queue up to the end, and may ask for snapshots or
listings on the way. It does not take long: the number of its steps and of its requests is bounded
by the length of the queue, and until it has ended there is a next step (`LiveBook.run_drains`,
`LiveTracker.run_finishes`).
-/

namespace BinanceTh

open Draining Transition

/-! ## The order book -/

def BookPhase.isFetching {ε : Type} : BookPhase ε → Bool
  | .fetching _ _ => true
  | _ => false

def LiveBookLabel.isOffer {α ε : Type} : LiveBookLabel α ε → Bool
  | .offer _ => true
  | _ => false

namespace LiveBook

variable {α ε : Type} (validate : α → Except ε DepthUpdateEvent) (webSocketError : String → ε)

/-- The task asks for a snapshot. -/
def asksSnapshot (s : LiveBook α ε) : LiveBookLabel α ε → Bool
  | .began => true
  | .pull => (s.step validate webSocketError .pull).any fun s' => s'.phase.isFetching
  | _ => false

def stage (s : LiveBook α ε) : Stage :=
  match s.phase with
  | .scheduled => .unbegun s.queue.items.length
  | .fetching _ _ => .waiting 0 s.queue.items.length
  | .reading _ => .reading s.queue.items.length
  | .ended _ => .ended

/-- While the task runs, the end of its queue is still to come. -/
def Closed (s : LiveBook α ε) : Prop :=
  s.stage ≠ .ended → ∃ item ∈ s.queue.items, item.isEnd = true

variable {validate} {webSocketError} {symbol : String} {queue : SubscriptionQueue α}
  {s s' t : LiveBook α ε} {label : LiveBookLabel α ε} {labels : List (LiveBookLabel α ε)}

theorem stage_eq_ended (h : s.stage = .ended) : ∃ outcome, s.phase = .ended outcome := by
  unfold stage at h
  split at h
  · cases h
  · cases h
  · cases h
  · next outcome hphase => exact ⟨outcome, hphase⟩

theorem moves_pull (h : s.Closed) (hstep : s.step validate webSocketError .pull = some s') :
    s'.Closed ∧ Moves 0 (s.asksSnapshot validate webSocketError .pull) s.stage s'.stage := by
  have hasks : s.asksSnapshot validate webSocketError .pull = s'.phase.isFetching := by
    rw [asksSnapshot, hstep]
    rfl
  obtain ⟨st, item, items, hphase, hitems, rfl⟩ := step_pull hstep
  have hstage : s.stage = .reading (items.length + 1) := by
    rw [stage, hphase, hitems, List.length_cons]
  obtain ⟨last, hlast, hend⟩ := h (by simp [hstage])
  rw [hasks, hstage]
  cases item with
  | closed => exact ⟨fun hrunning => absurd rfl hrunning, .stop (by simp)⟩
  | fault message => exact ⟨fun hrunning => absurd rfl hrunning, .stop (by simp)⟩
  | payload a =>
    -- the end is behind it
    rw [hitems] at hlast
    have hlater : last ∈ items := by
      refine (List.mem_cons.1 hlast).resolve_left ?_
      rintro rfl
      cases hend
    rw [consume]
    cases validate a with
    | error e => exact ⟨fun hrunning => absurd rfl hrunning, .stop (by simp)⟩
    | ok delta =>
      dsimp only
      unfold LiveBook.onDelta
      split
      · refine ⟨fun _ => ⟨last, hlater, hend⟩, ?_⟩
        simp only [stage, hphase, BookPhase.isFetching]
        exact .take
      · split
        · exact ⟨fun _ => ⟨last, hlater, hend⟩, .ask⟩
        · exact ⟨fun _ => ⟨last, hlater, hend⟩, .take⟩

/-- **One step** of a task whose queue is closed. -/
theorem moves_step (h : s.Closed) (hoffer : label.isOffer = false)
    (hstep : s.step validate webSocketError label = some s') :
    s'.Closed ∧ Moves 0 (s.asksSnapshot validate webSocketError label) s.stage s'.stage := by
  cases label with
  | offer item => cases hoffer
  | began =>
    rw [step] at hstep
    split at hstep
    · next hphase =>
      obtain rfl := Option.some.inj hstep
      have hstage : s.stage = .unbegun s.queue.items.length := by rw [stage, hphase]
      rw [hstage]
      exact ⟨fun _ => h (by simp [hstage]), .start⟩
    · cases hstep
  | answered reply =>
    obtain ⟨fetched, gap, hphase, ⟨e, -, rfl⟩ | ⟨snapshot, -, rfl⟩⟩ := step_answered hstep
    all_goals have hstage : s.stage = .waiting 0 s.queue.items.length := by rw [stage, hphase]
    all_goals rw [hstage]
    · exact ⟨fun hrunning => absurd rfl hrunning, .stop (by simp)⟩
    · exact ⟨fun _ => h (by simp [hstage]), .answered⟩
  | pull => exact moves_pull h hstep
  | cancelled =>
    rw [step] at hstep
    split at hstep
    · cases hstep
    · next hrunning =>
      obtain rfl := Option.some.inj hstep
      refine ⟨fun hrunning => absurd rfl hrunning, .stop fun hended => ?_⟩
      obtain ⟨outcome, hphase⟩ := stage_eq_ended hended
      exact hrunning outcome hphase

/-- Until the task has ended, it has a next step. -/
theorem Closed.enabled (h : s.Closed) (hrunning : s.stage ≠ .ended) :
    ∃ label, label.isOffer = false ∧ label ≠ .cancelled ∧
      (s.step validate webSocketError label).isSome = true := by
  obtain ⟨last, hlast, -⟩ := h hrunning
  cases hphase : s.phase with
  | scheduled => exact ⟨.began, rfl, by simp, by simp [step, hphase]⟩
  | fetching fetched gap =>
    exact ⟨.answered (.ok ⟨0, [], []⟩), rfl, by simp, by simp [step, hphase]⟩
  | reading st =>
    obtain ⟨item, items, hitems⟩ := List.exists_cons_of_ne_nil (List.ne_nil_of_mem hlast)
    exact ⟨.pull, rfl, by simp, by simp [step, hphase, SubscriptionQueue.next, hitems]⟩
  | ended outcome => exact absurd (by rw [stage, hphase]) hrunning

/-- **A closed order book ends.** Once the end of its subscription is queued and nothing more is
offered, the task makes at most two steps for each item of the queue and three more, and asks for
one snapshot for each and one more; until it has ended there is a next step. -/
theorem run_drains (hclosed : ∃ item ∈ s.queue.items, item.isEnd = true)
    (hoffers : ∀ label ∈ labels, label.isOffer = false)
    (hrun : (system validate webSocketError symbol queue).run s labels = some t) :
    labels.length ≤ 2 * s.queue.items.length + 3 ∧
      (system validate webSocketError symbol queue).count (asksSnapshot validate webSocketError) s
        labels ≤ s.queue.items.length + 1 ∧
      ((∀ outcome, t.phase ≠ .ended outcome) → ∃ label, label.isOffer = false ∧
        label ≠ .cancelled ∧ (t.step validate webSocketError label).isSome = true) := by
  have hguarded := System.guarded_of_forall (M := system validate webSocketError symbol queue)
    labels hoffers s
  have hstart : s.Closed := fun _ => hclosed
  obtain ⟨hsteps, hasks⟩ := Draining.count_le 0 stage (fun label => !label.isOffer)
    (asksSnapshot validate webSocketError)
    (fun s label s' hI hoffer hs => (moves_step hI hoffer hs).imp_right fun hmoves =>
      .inl ⟨by rw [hoffer]; rfl, hmoves⟩) labels hstart hguarded hrun
  have htask : labels.countP (fun label => !label.isOffer) = labels.length :=
    List.countP_eq_length.2 fun label hlabel => by rw [hoffers label hlabel]; rfl
  have hend : t.Closed := System.run_invariant (I := Closed)
    (fun _ _ _ hI hoffer hs => (moves_step hI hoffer hs).1) labels hstart hguarded hrun
  have hlength : s.stage.steps 0 ≤ 2 * s.queue.items.length + 3 ∧
      s.stage.waits ≤ s.queue.items.length + 1 := by
    unfold stage
    split <;> simp only [Stage.steps, Stage.waits] <;> omega
  refine ⟨by omega, by omega, fun hrunning => hend.enabled fun hended => ?_⟩
  obtain ⟨outcome, hphase⟩ := stage_eq_ended hended
  exact hrunning outcome hphase

/-- A delta that leaves a gap, and the end. -/
def closedBehindGap : List (LiveBookLabel DepthUpdateEvent String) :=
  [.began, .answered (.ok ⟨100, [⟨10, 1⟩], []⟩), .offer (.payload ⟨102, 102, [], []⟩),
    .offer .closed]

def toTheEnd : List (LiveBookLabel DepthUpdateEvent String) :=
  [.pull, .answered (.ok ⟨102, [⟨10, 2⟩], []⟩), .pull]

/-- The task takes a snapshot for it, after the streams are closed. -/
theorem run_drains_behindGap :
    ∃ s t : LiveBook DepthUpdateEvent String,
      (system .ok id "BTCTHB" {}).run (new "BTCTHB" {}) closedBehindGap = some s ∧
        (system .ok id "BTCTHB" {}).run s toTheEnd = some t ∧
        (system .ok id "BTCTHB" {}).count (asksSnapshot .ok id) s toTheEnd = 1 ∧
        toTheEnd.length ≤ 2 * 2 + 3 ∧ 1 ≤ 2 + 1 := by
  obtain ⟨s, t, hrun, hrun', hlength, hclosed, hasks⟩ :
      ∃ s t : LiveBook DepthUpdateEvent String,
        (system .ok id "BTCTHB" {}).run (new "BTCTHB" {}) closedBehindGap = some s ∧
          (system .ok id "BTCTHB" {}).run s toTheEnd = some t ∧ s.queue.items.length = 2 ∧
          (∃ item ∈ s.queue.items, item.isEnd = true) ∧
          (system .ok id "BTCTHB" {}).count (asksSnapshot .ok id) s toTheEnd = 1 :=
    ⟨_, _, rfl, rfl, rfl, ⟨.closed, List.mem_cons_of_mem _ List.mem_cons_self, rfl⟩, rfl⟩
  obtain ⟨hsteps, hcount, -⟩ := run_drains hclosed (by simp [toTheEnd, LiveBookLabel.isOffer]) hrun'
  rw [hlength] at hsteps hcount
  rw [hasks] at hcount
  exact ⟨s, t, hrun, hrun', hasks, hsteps, hcount⟩

end LiveBook

/-! ## The order tracker -/

def LiveTrackerPhase.isFetching {ε : Type} : LiveTrackerPhase ε → Bool
  | .fetching => true
  | _ => false

def LiveTrackerLabel.isOffer {α ε : Type} : LiveTrackerLabel α ε → Bool
  | .offer _ => true
  | _ => false

/-- It is no step of the exchange or of a connection; the answer to a request counts. -/
def LiveTrackerLabel.ofTask {α ε : Type} : LiveTrackerLabel α ε → Bool
  | .change _ | .offer _ => false
  | _ => true

namespace LiveTracker

variable {α ε : Type} (validate : α → Except ε ExecutionReportEvent) (webSocketError : String → ε)

/-- The task asks for the open orders. -/
def asksListing (s : LiveTracker α ε) : LiveTrackerLabel α ε → Bool
  | .began => true
  | .pull => (s.step validate webSocketError .pull).any fun s' => s'.phase.isFetching
  | _ => false

def stage (s : LiveTracker α ε) : Stage :=
  match s.phase with
  | .scheduled => .unbegun s.queue.items.length
  | .fetching => .waiting 1 s.queue.items.length
  | .answered _ => .waiting 0 s.queue.items.length
  | .reading => .reading s.queue.items.length
  | .ended _ => .ended

/-- While the task runs, the end of its queue is still to come. -/
def Closed (s : LiveTracker α ε) : Prop :=
  s.stage ≠ .ended → ∃ item ∈ s.queue.items, item.isEnd = true

variable {validate} {webSocketError} {orders : Table Order.orderId}
  {queue : SubscriptionQueue (LiveTrackerFrame α)} {s s' t : LiveTracker α ε}
  {label : LiveTrackerLabel α ε} {labels : List (LiveTrackerLabel α ε)}

theorem stage_eq_ended (h : s.stage = .ended) : ∃ outcome, s.phase = .ended outcome := by
  unfold stage at h
  split at h
  · cases h
  · cases h
  · cases h
  · cases h
  · next outcome hphase => exact ⟨outcome, hphase⟩

theorem moves_pull (h : s.Closed) (hstep : s.step validate webSocketError .pull = some s') :
    s'.Closed ∧ Moves 1 (s.asksListing validate webSocketError .pull) s.stage s'.stage := by
  have hasks : s.asksListing validate webSocketError .pull = s'.phase.isFetching := by
    rw [asksListing, hstep]
    rfl
  rw [hasks]
  rw [step] at hstep
  split at hstep
  · next item queue hphase hnext =>
    obtain rfl := Option.some.inj hstep
    unfold SubscriptionQueue.next at hnext
    split at hnext
    · cases hnext
    · next head items hitems =>
      obtain ⟨rfl, rfl⟩ := Prod.mk.inj (Option.some.inj hnext)
      have hstage : s.stage = .reading (items.length + 1) := by
        rw [stage, hphase, hitems, List.length_cons]
      obtain ⟨last, hlast, hend⟩ := h (by simp [hstage])
      rw [hstage]
      cases head with
      | closed => exact ⟨fun hrunning => absurd rfl hrunning, .stop (by simp)⟩
      | fault message => exact ⟨fun hrunning => absurd rfl hrunning, .stop (by simp)⟩
      | payload frame =>
        -- the end is behind it
        rw [hitems] at hlast
        have hlater : last ∈ items := by
          refine (List.mem_cons.1 hlast).resolve_left ?_
          rintro rfl
          cases hend
        cases frame with
        | reconnected => exact ⟨fun _ => ⟨last, hlater, hend⟩, .ask⟩
        | frame raw =>
          rw [consume]
          cases validate raw with
          | error e => exact ⟨fun hrunning => absurd rfl hrunning, .stop (by simp)⟩
          | ok event =>
            refine ⟨fun _ => ⟨last, hlater, hend⟩, ?_⟩
            simp only [onReport, stage, hphase, LiveTrackerPhase.isFetching]
            exact .take
  · cases hstep

/-- **One step** of a task whose queue is closed, or of the exchange. -/
theorem moves_step (h : s.Closed) (hoffer : label.isOffer = false)
    (hstep : s.step validate webSocketError label = some s') :
    s'.Closed ∧ (label.ofTask = true ∧
        Moves 1 (s.asksListing validate webSocketError label) s.stage s'.stage ∨
      label.ofTask = false ∧ s.asksListing validate webSocketError label = false ∧
        s'.stage = s.stage) := by
  have hstop (hrunning : ∀ outcome, s.phase ≠ .ended outcome) : s.stage ≠ .ended := by
    intro hended
    obtain ⟨outcome, hphase⟩ := stage_eq_ended hended
    exact hrunning outcome hphase
  cases label with
  | offer item => cases hoffer
  | change order =>
    obtain ⟨-, hstep⟩ := Option.ite_none_right_eq_some.1 hstep
    obtain rfl := Option.some.inj hstep
    exact ⟨h, .inr ⟨rfl, rfl, rfl⟩⟩
  | began =>
    rw [step] at hstep
    split at hstep
    · next hphase =>
      obtain rfl := Option.some.inj hstep
      have hstage : s.stage = .unbegun s.queue.items.length := by rw [stage, hphase]
      rw [hstage]
      exact ⟨fun _ => h (by simp [hstage]), .inl ⟨rfl, .start⟩⟩
    · cases hstep
  | served orders =>
    rw [step] at hstep
    split at hstep
    · next hphase =>
      obtain ⟨-, hstep⟩ := Option.ite_none_right_eq_some.1 hstep
      obtain rfl := Option.some.inj hstep
      have hstage : s.stage = .waiting 1 s.queue.items.length := by rw [stage, hphase]
      rw [hstage]
      exact ⟨fun _ => h (by simp [hstage]), .inl ⟨rfl, .wait⟩⟩
    · cases hstep
  | replied =>
    rw [step] at hstep
    split at hstep
    · next orders hphase =>
      obtain rfl := Option.some.inj hstep
      have hstage : s.stage = .waiting 0 s.queue.items.length := by rw [stage, hphase]
      rw [hstage]
      exact ⟨fun _ => h (by simp [hstage]), .inl ⟨rfl, .answered⟩⟩
    · cases hstep
  | failed e =>
    rw [step] at hstep
    split at hstep
    · next hphase =>
      obtain rfl := Option.some.inj hstep
      exact ⟨fun hrunning => absurd rfl hrunning, .inl ⟨rfl, .stop (hstop (by simp [hphase]))⟩⟩
    · next hphase =>
      obtain rfl := Option.some.inj hstep
      exact ⟨fun hrunning => absurd rfl hrunning, .inl ⟨rfl, .stop (hstop (by simp [hphase]))⟩⟩
    · cases hstep
  | pull => exact (moves_pull h hstep).imp_right fun hmoves => .inl ⟨rfl, hmoves⟩
  | cancelled =>
    rw [step] at hstep
    split at hstep
    · cases hstep
    · next hrunning =>
      obtain rfl := Option.some.inj hstep
      exact ⟨fun hrunning => absurd rfl hrunning, .inl ⟨rfl, .stop (hstop hrunning)⟩⟩

/-- Until the task has ended, it has a next step. -/
theorem Closed.enabled (h : s.Closed) (hrunning : s.stage ≠ .ended) :
    ∃ label, label.ofTask = true ∧ label ≠ .cancelled ∧ (∀ e, label ≠ .failed e) ∧
      (s.step validate webSocketError label).isSome = true := by
  obtain ⟨last, hlast, -⟩ := h hrunning
  cases hphase : s.phase with
  | scheduled => exact ⟨.began, rfl, by simp, by simp, by simp [step, hphase]⟩
  | fetching => exact ⟨.served s.activeOrders, rfl, by simp, by simp, by simp [step, hphase]⟩
  | answered orders => exact ⟨.replied, rfl, by simp, by simp, by simp [step, hphase]⟩
  | reading =>
    obtain ⟨item, items, hitems⟩ := List.exists_cons_of_ne_nil (List.ne_nil_of_mem hlast)
    exact ⟨.pull, rfl, by simp, by simp, by simp [step, hphase, SubscriptionQueue.next, hitems]⟩
  | ended outcome => exact absurd (by rw [stage, hphase]) hrunning

/-- **A closed order tracker ends.** Once the end of its subscription is queued and nothing more is
offered, whatever the exchange does, the task makes at most three steps for each item of the queue
and four more, and asks for the open orders once for each and once more; until it has ended there is
a next step. -/
theorem run_finishes (hclosed : ∃ item ∈ s.queue.items, item.isEnd = true)
    (hoffers : ∀ label ∈ labels, label.isOffer = false)
    (hrun : (system validate webSocketError orders queue).run s labels = some t) :
    labels.countP LiveTrackerLabel.ofTask ≤ 3 * s.queue.items.length + 4 ∧
      (system validate webSocketError orders queue).count (asksListing validate webSocketError) s
        labels ≤ s.queue.items.length + 1 ∧
      ((∀ outcome, t.phase ≠ .ended outcome) → ∃ label, label.ofTask = true ∧
        label ≠ .cancelled ∧ (∀ e, label ≠ .failed e) ∧
          (t.step validate webSocketError label).isSome = true) := by
  have hguarded := System.guarded_of_forall (M := system validate webSocketError orders queue)
    labels hoffers s
  have hstart : s.Closed := fun _ => hclosed
  obtain ⟨hsteps, hasks⟩ := Draining.count_le 1 stage LiveTrackerLabel.ofTask
    (asksListing validate webSocketError)
    (fun _ _ _ hI hoffer hs => moves_step hI hoffer hs) labels hstart hguarded hrun
  have hend : t.Closed := System.run_invariant (I := Closed)
    (fun _ _ _ hI hoffer hs => (moves_step hI hoffer hs).1) labels hstart hguarded hrun
  have hlength : s.stage.steps 1 ≤ 3 * s.queue.items.length + 4 ∧
      s.stage.waits ≤ s.queue.items.length + 1 := by
    unfold stage
    split <;> simp only [Stage.steps, Stage.waits] <;> omega
  refine ⟨by omega, by omega, fun hrunning => hend.enabled fun hended => ?_⟩
  obtain ⟨outcome, hphase⟩ := stage_eq_ended hended
  exact hrunning outcome hphase

/-- A reconnect marker, and the end. -/
def closedBehindMarker : List (LiveTrackerLabel ExecutionReportEvent String) :=
  [.began, .served [], .replied, .offer (.payload .reconnected), .offer .closed]

def toTheEnd : List (LiveTrackerLabel ExecutionReportEvent String) :=
  [.pull, .served [], .replied, .pull]

/-- The task asks for the open orders, after the streams are closed. -/
theorem run_finishes_behindMarker :
    ∃ s t : LiveTracker ExecutionReportEvent String,
      (system .ok id Table.empty {}).run (new Table.empty {}) closedBehindMarker = some s ∧
        (system .ok id Table.empty {}).run s toTheEnd = some t ∧
        (system .ok id Table.empty {}).count (asksListing .ok id) s toTheEnd = 1 ∧
        toTheEnd.countP LiveTrackerLabel.ofTask ≤ 3 * 2 + 4 ∧ 1 ≤ 2 + 1 := by
  obtain ⟨s, t, hrun, hrun', hlength, hclosed, hasks⟩ :
      ∃ s t : LiveTracker ExecutionReportEvent String,
        (system .ok id Table.empty {}).run (new Table.empty {}) closedBehindMarker = some s ∧
          (system .ok id Table.empty {}).run s toTheEnd = some t ∧ s.queue.items.length = 2 ∧
          (∃ item ∈ s.queue.items, item.isEnd = true) ∧
          (system .ok id Table.empty {}).count (asksListing .ok id) s toTheEnd = 1 :=
    ⟨_, _, rfl, rfl, rfl, ⟨.closed, List.mem_cons_of_mem _ List.mem_cons_self, rfl⟩, rfl⟩
  obtain ⟨hsteps, hcount, -⟩ :=
    run_finishes hclosed (by simp [toTheEnd, LiveTrackerLabel.isOffer]) hrun'
  rw [hlength] at hsteps hcount
  rw [hasks] at hcount
  exact ⟨s, t, hrun, hrun', hasks, hsteps, hcount⟩

end LiveTracker

end BinanceTh
