import BinanceTh.Lib.Transition
import BinanceTh.OrderTracker
import BinanceTh.Stream.Queue

/-!
# Reconnect signals of an order tracker

The subscription of an order tracker, between the connections that offer to it and the tracker that
reads it. A reconnect signal is an item like the reports: it waits in the queue, and a full queue
drops its oldest item. While a signal is not answered by a fetch of `openOrders`, it must be in the
queue (`Pending`), and only an offer to a full queue can take the last one out; without such an
offer the tracker fetches again before its queue is empty (`run_reseeds`). With one it may not
(`lost_of_drops`).
-/

namespace BinanceTh

open Transition

/-- What the connections offer to a tracker's subscription. -/
inductive TrackerFrame where
  | report (event : ExecutionReportEvent)
  /-- `_RECONNECTED`. -/
  | reconnected

def TrackerFrame.isSignal : TrackerFrame → Bool
  | .report _ => false
  | .reconnected => true

def isSignalItem : StreamItem TrackerFrame → Bool
  | .payload frame => frame.isSignal
  | _ => false

/-- The item as the tracker gets it; `none` if the queue is closed. -/
def toItem : StreamItem TrackerFrame → Option Item
  | .payload (.report event) => some (.report event)
  | .payload .reconnected => some .reconnected
  | .fault message => some (.fault message)
  | .closed => none

structure TrackerSubscription where
  queue : SubscriptionQueue TrackerFrame
  tracker : OrderTracker
  /-- How often the tracker has called `open_orders`. -/
  fetches : ℕ
  /-- How often it had when the last reconnect signal was offered. -/
  signalled : Option ℕ

inductive TrackerSubscriptionLabel where
  /-- The tracker's task runs for the first time. -/
  | start
  | offer (frame : TrackerFrame)
  /-- The reply to `open_orders`. -/
  | reply (orders : List Order)
  | consume

namespace TrackerSubscription

def new : TrackerSubscription := ⟨{}, ⟨.unstarted, none⟩, 0, none⟩

/-- The top of the tracker's loop. -/
def fetch (s : TrackerSubscription) : TrackerSubscription :=
  { s with tracker := { s.tracker with phase := .awaiting }, fetches := s.fetches + 1 }

def offer (s : TrackerSubscription) (frame : TrackerFrame) : TrackerSubscription :=
  { s with
    queue := s.queue.offer (.payload frame)
    signalled := if frame.isSignal then some s.fetches else s.signalled }

/-- The tracker's next item; a closed queue ends it. -/
def consume (s : TrackerSubscription) (item : Option Item) : TrackerSubscription :=
  match item with
  | some .reconnected => s.fetch
  | some item => { s with tracker := s.tracker.consume item }
  | none => { s with tracker := { s.tracker with phase := .ended } }

def step (s : TrackerSubscription) : TrackerSubscriptionLabel → Option TrackerSubscription
  | .start => if s.tracker.phase = .unstarted then some s.fetch else none
  | .offer frame => some (s.offer frame)
  | .reply orders =>
    if s.tracker.phase = .awaiting then some { s with tracker := s.tracker.seeded orders } else none
  | .consume =>
    if s.tracker.phase = .reading then
      s.queue.next.map fun (item, queue) => { s with queue }.consume (toItem item)
    else none

def system : System TrackerSubscription TrackerSubscriptionLabel where
  init := new
  step := step

/-- Since the last signal was offered, a fetch has been started. -/
def Reseeded (s : TrackerSubscription) : Prop := ∀ n, s.signalled = some n → n < s.fetches

instance (s : TrackerSubscription) : Decidable s.Reseeded :=
  decidable_of_iff (s.signalled.all fun n => n < s.fetches) (by
    unfold Reseeded
    cases s.signalled <;> simp)

/-- The last signal waits in the full queue, is the oldest item and its only signal, and the
started tracker has not answered it. -/
def LastSignalFirst (s : TrackerSubscription) : Prop :=
  s.tracker.phase ≠ .unstarted ∧ ¬ s.Reseeded ∧ s.queue.full = true ∧
    s.queue.items.tail.all (fun item => !isSignalItem item) = true

/-- No report is offered that drops it. -/
def KeepsSignal (s : TrackerSubscription) : TrackerSubscriptionLabel → Prop
  | .offer frame => frame.isSignal = false → ¬ s.LastSignalFirst
  | _ => True

/-- A signal without an answer is in the queue, or the tracker's first fetch is still to come. -/
def Pending (s : TrackerSubscription) : Prop :=
  s.Reseeded ∨ (∃ item ∈ s.queue.items, isSignalItem item = true) ∨
    s.tracker.phase = .unstarted ∧ s.queue.items ≠ []

variable {s s' : TrackerSubscription} {l : TrackerSubscriptionLabel}

theorem Pending.reseeded (h : s.Pending) (hempty : s.queue.items = []) : s.Reseeded := by
  rcases h with h | ⟨item, hitem, -⟩ | ⟨-, hne⟩
  · exact h
  · rw [hempty] at hitem
    cases hitem
  · exact absurd hempty hne

/-! ## The queue -/

/-- A signal stays in the queue, unless it is the oldest item of a full one. -/
theorem signal_offer {q : SubscriptionQueue TrackerFrame} {item : StreamItem TrackerFrame}
    (h : ∃ x ∈ q.items, isSignalItem x = true)
    (hkept : q.full = true → ∃ x ∈ q.items.tail, isSignalItem x = true) :
    ∃ x ∈ (q.offer item).items, isSignalItem x = true := by
  rw [SubscriptionQueue.items_offer]
  split
  · next hfull =>
    obtain ⟨x, hx, hsignal⟩ := hkept hfull
    exact ⟨x, List.mem_append_left _ hx, hsignal⟩
  · obtain ⟨x, hx, hsignal⟩ := h
    exact ⟨x, List.mem_append_left _ hx, hsignal⟩

theorem reseeded_fetch (h : ∀ n, s.signalled = some n → n ≤ s.fetches) : s.fetch.Reseeded := by
  intro n hn
  have hle := h n hn
  change n < s.fetches + 1
  omega

/-! ## The steps -/

/-- What is true of every reachable state. -/
structure Inv (s : TrackerSubscription) : Prop where
  pending : s.Pending
  signalled_le : ∀ n, s.signalled = some n → n ≤ s.fetches

theorem Inv.fetch (h : s.Inv) : s.fetch.Inv where
  pending := .inl (reseeded_fetch h.signalled_le)
  signalled_le n hn := Nat.le_succ_of_le (h.signalled_le n hn)

theorem Inv.offer {frame : TrackerFrame} (h : s.Inv) (hkeeps : s.KeepsSignal (.offer frame)) :
    (s.offer frame).Inv := by
  have hmem : StreamItem.payload frame ∈ (s.offer frame).queue.items :=
    SubscriptionQueue.mem_offer _ _
  cases hsignal : frame.isSignal with
  | true =>
    have hsignalled : (s.offer frame).signalled = some s.fetches := if_pos hsignal
    refine ⟨.inr (.inl ⟨_, hmem, hsignal⟩), fun n hn => ?_⟩
    obtain rfl := Option.some.inj (hsignalled.symm.trans hn)
    exact Nat.le_refl _
  | false =>
    have hsignalled : (s.offer frame).signalled = s.signalled := if_neg (by simp [hsignal])
    have hkept := hkeeps hsignal
    refine ⟨?_, fun n hn => h.signalled_le n (hsignalled ▸ hn)⟩
    by_cases hreseeded : s.Reseeded
    · refine .inl fun n hn => hreseeded n ?_
      rw [← hsignalled]
      exact hn
    · by_cases hphase : s.tracker.phase = .unstarted
      · exact .inr (.inr ⟨hphase, List.ne_nil_of_mem hmem⟩)
      · -- the signal is not in front, or another one follows
        refine .inr (.inl (signal_offer ?_ fun hfull => ?_))
        · exact (h.pending.resolve_left hreseeded).resolve_right fun hno => hphase hno.1
        · by_contra hnone
          refine hkept ⟨hphase, hreseeded, hfull, List.all_eq_true.2 fun x hx => ?_⟩
          cases hx' : isSignalItem x with
          | false => rfl
          | true => exact absurd ⟨x, hx, hx'⟩ hnone

/-- An item that is no signal leaves the signals in the queue. -/
theorem Inv.consume {item : StreamItem TrackerFrame} {queue : SubscriptionQueue TrackerFrame}
    (h : s.Inv) (hphase : s.tracker.phase = .reading) (hnext : s.queue.next = some (item, queue)) :
    (({ s with queue } : TrackerSubscription).consume (toItem item)).Inv := by
  have hitems : s.queue.items = item :: queue.items := by
    unfold SubscriptionQueue.next at hnext
    split at hnext
    · cases hnext
    · next hitems =>
      cases hnext
      exact hitems
  have hother (hitem : isSignalItem item = false) (tracker : OrderTracker) :
      ({ s with queue, tracker } : TrackerSubscription).Inv := by
    refine ⟨?_, h.signalled_le⟩
    rcases h.pending with hreseeded | ⟨x, hx, hsignal⟩ | ⟨hno, -⟩
    · exact .inl hreseeded
    · rw [hitems] at hx
      rcases List.mem_cons.1 hx with rfl | hx
      · rw [hitem] at hsignal
        cases hsignal
      · exact .inr (.inl ⟨x, hx, hsignal⟩)
    · rw [hphase] at hno
      cases hno
  cases item with
  | payload frame =>
    cases frame with
    | report event => exact hother rfl _
    | reconnected =>
      refine ⟨.inl (reseeded_fetch h.signalled_le), fun n hn => ?_⟩
      exact Nat.le_succ_of_le (h.signalled_le n hn)
  | closed => exact hother rfl _
  | fault message => exact hother rfl _

theorem Inv.step (h : s.Inv) (hkeeps : s.KeepsSignal l) (hstep : s.step l = some s') : s'.Inv := by
  cases l with
  | start =>
    obtain ⟨-, hstep⟩ := Option.ite_none_right_eq_some.1 hstep
    obtain rfl := Option.some.inj hstep
    exact h.fetch
  | offer frame =>
    obtain rfl := Option.some.inj hstep
    exact h.offer hkeeps
  | reply orders =>
    obtain ⟨hphase, hstep⟩ := Option.ite_none_right_eq_some.1 hstep
    obtain rfl := Option.some.inj hstep
    refine ⟨?_, h.signalled_le⟩
    rcases h.pending with hreseeded | hsignal | ⟨hno, -⟩
    · exact .inl hreseeded
    · exact .inr (.inl hsignal)
    · rw [hphase] at hno
      cases hno
  | consume =>
    obtain ⟨hphase, hstep⟩ := Option.ite_none_right_eq_some.1 hstep
    obtain ⟨⟨item, queue⟩, hnext, rfl⟩ := Option.map_eq_some_iff.1 hstep
    exact h.consume hphase hnext

/-- **Signals are answered.** In every run in which no report drops the last signal, the tracker has
fetched since the last signal whenever its queue is empty. -/
theorem run_reseeds {ls : List TrackerSubscriptionLabel}
    (hkeeps : system.Guarded KeepsSignal new ls) (hrun : system.run new ls = some s)
    (hempty : s.queue.items = []) : s.Reseeded := by
  have hnew : new.Inv := by
    refine ⟨.inl ?_, ?_⟩ <;>
    · intro n hn
      cases hn
  have hinv : s.Inv := by
    refine System.run_invariant (M := system) (C := KeepsSignal) ?_ ls hnew hkeeps hrun
    intro s l s' h hkeeps hstep
    exact h.step hkeeps hstep
  exact hinv.pending.reseeded hempty

/-- A fill of order 7. -/
def fillReport : ExecutionReportEvent where
  eventTime := 1
  symbol := "BTCUSDT"
  clientOrderId := "c"
  side := "BUY"
  orderType := "LIMIT"
  timeInForce := "GTC"
  origQty := ⟨1, 0⟩
  price := ⟨1, 0⟩
  stopPrice := none
  currentOrderStatus := "PARTIALLY_FILLED"
  orderId := 7
  orderListId := none
  cumulativeFilledQty := ⟨1, -1⟩
  transactionTime := none
  isOnBook := none
  orderCreationTime := none
  cumulativeQuoteQty := none
  quoteOrderQty := none

def signalWhileFetching : List TrackerSubscriptionLabel :=
  [.start, .offer .reconnected, .offer (.report fillReport), .reply [], .consume, .reply [],
    .consume]

/-- A signal and a report arrive while the first fetch is on its way. -/
theorem run_reseeds_fetching :
    ∃ s, system.run new signalWhileFetching = some s ∧ s.queue.items = [] ∧ s.Reseeded := by
  have hkeeps : system.Guarded KeepsSignal new signalWhileFetching := by
    refine System.guarded_cons trivial rfl <| System.guarded_cons (fun h => by cases h) rfl <|
      System.guarded_cons (fun _ hfirst => ?_) rfl <| System.guarded_cons trivial rfl <|
      System.guarded_cons trivial rfl <| System.guarded_cons trivial rfl <|
      System.guarded_cons trivial rfl trivial
    -- the queue of one item is not full
    exact absurd hfirst.2.2.1 (by decide)
  obtain ⟨s, hrun, hempty⟩ : ∃ s, system.run new signalWhileFetching = some s ∧
      s.queue.items = [] := ⟨_, rfl, rfl⟩
  exact ⟨s, hrun, hempty, run_reseeds hkeeps hrun hempty⟩

/-! ## Lost signals -/

variable (event : ExecutionReportEvent)

/-- Reports for which there is room wait behind the items of the queue. -/
theorem run_burst (k : ℕ) :
    ∀ {s : TrackerSubscription}, s.queue.items.length + k ≤ s.queue.maxsize →
      ∃ t, system.run s (List.replicate k (.offer (.report event))) = some t ∧
        t.queue.items = s.queue.items ++ List.replicate k (.payload (.report event)) ∧
        t.queue.maxsize = s.queue.maxsize ∧ t.tracker = s.tracker ∧ t.fetches = s.fetches ∧
        t.signalled = s.signalled := by
  induction k with
  | zero =>
    intro s _
    exact ⟨s, rfl, (List.append_nil _).symm, rfl, rfl, rfl, rfl⟩
  | succ k ih =>
    intro s hroom
    have hnotFull : s.queue.full = false := by
      simp only [SubscriptionQueue.full, Bool.and_eq_false_iff, decide_eq_false_iff_not]
      omega
    have hqueue : s.queue.offer (.payload (.report event)) =
        { s.queue with items := s.queue.items ++ [.payload (.report event)] } := by
      rw [SubscriptionQueue.offer, if_neg (by simp [hnotFull])]
    have hitems : (s.offer (.report event)).queue.items =
        s.queue.items ++ [.payload (.report event)] := congrArg (·.items) hqueue
    have hmaxsize : (s.offer (.report event)).queue.maxsize = s.queue.maxsize :=
      congrArg (·.maxsize) hqueue
    obtain ⟨t, hrun, ht, hmax, htracker, hfetches, hsignalled⟩ :=
      ih (s := s.offer (.report event)) (by
        rw [hitems, hmaxsize, List.length_append, List.length_singleton]
        omega)
    refine ⟨t, System.run_cons_iff.2 ⟨_, rfl, hrun⟩, ?_, hmax.trans hmaxsize, htracker, hfetches,
      hsignalled⟩
    rw [ht, hitems, List.append_assoc, List.singleton_append, List.replicate_succ]

/-- A reading tracker takes reports out of its queue and does nothing else. -/
theorem run_drain (items : List (StreamItem TrackerFrame)) :
    ∀ {s : TrackerSubscription}, s.tracker.phase = .reading → s.queue.items = items →
      (∀ item ∈ items, ∃ event, item = .payload (.report event)) →
      ∃ t, system.run s (List.replicate items.length .consume) = some t ∧ t.queue.items = [] ∧
        t.fetches = s.fetches ∧ t.signalled = s.signalled := by
  induction items with
  | nil =>
    intro s _ hitems _
    exact ⟨s, rfl, hitems, rfl, rfl⟩
  | cons item items ih =>
    intro s hphase hitems hreports
    obtain ⟨⟨event, rfl⟩, hrest⟩ := List.forall_mem_cons.1 hreports
    have hnext : s.queue.next = some (.payload (.report event),
        { s.queue with items, ended := s.queue.ended || false }) := by
      simp [SubscriptionQueue.next, hitems, StreamItem.isEnd]
    have hstep : system.step s .consume = some { s with
        queue := { s.queue with items, ended := s.queue.ended || false }
        tracker := s.tracker.consume (.report event) } := by
      change s.step .consume = _
      rw [step, if_pos hphase, hnext]
      rfl
    obtain ⟨t, hrun, hempty, hfetches, hsignalled⟩ := ih (s := { s with
        queue := { s.queue with items, ended := s.queue.ended || false }
        tracker := s.tracker.consume (.report event) }) hphase rfl hrest
    refine ⟨t, ?_, hempty, hfetches, hsignalled⟩
    rw [List.length_cons, List.replicate_succ]
    exact System.run_cons_iff.2 ⟨_, hstep, hrun⟩

/-- Where a report drops the last signal, the tracker may come to the end of its queue without
another fetch. -/
theorem lost_of_drops (hfirst : s.LastSignalFirst)
    (hphase : s.tracker.phase = .awaiting ∨ s.tracker.phase = .reading)
    (hframes : ∀ item ∈ s.queue.items, ∃ frame, item = .payload frame) :
    ∃ ls t, system.run s (.offer (.report event) :: ls) = some t ∧ t.queue.items = [] ∧
      ¬ t.Reseeded := by
  obtain ⟨-, howed, hfull, htail⟩ := hfirst
  have hitems : (s.offer (.report event)).queue.items =
      s.queue.items.tail ++ [.payload (.report event)] := by
    change (s.queue.offer _).items = _
    rw [SubscriptionQueue.items_offer, if_pos hfull]
  have hreports : ∀ item ∈ (s.offer (.report event)).queue.items,
      ∃ event, item = .payload (.report event) := by
    intro item hitem
    rw [hitems] at hitem
    rcases List.mem_append.1 hitem with hitem | hitem
    · obtain ⟨frame, rfl⟩ := hframes item (List.mem_of_mem_tail hitem)
      cases frame with
      | report event => exact ⟨event, rfl⟩
      | reconnected =>
        have hno := List.all_eq_true.1 htail _ hitem
        cases hno
    · exact ⟨event, List.mem_singleton.1 hitem⟩
  -- the fetch that is on its way was started before the signal
  obtain ⟨s₁, ls₁, hrun₁, hphase₁, hqueue₁, hfetches₁, hsignalled₁⟩ : ∃ s₁ ls₁,
      system.run (s.offer (.report event)) ls₁ = some s₁ ∧ s₁.tracker.phase = .reading ∧
        s₁.queue = (s.offer (.report event)).queue ∧ s₁.fetches = s.fetches ∧
        s₁.signalled = s.signalled := by
    rcases hphase with hphase | hphase
    · refine ⟨{ s.offer (.report event) with tracker := s.tracker.seeded [] }, [.reply []], ?_, rfl,
        rfl, rfl, rfl⟩
      refine System.run_cons_iff.2 ⟨_, ?_, rfl⟩
      exact if_pos hphase
    · exact ⟨_, [], rfl, hphase, rfl, rfl, rfl⟩
  obtain ⟨t, hrun, hempty, hfetches, hsignalled⟩ :=
    run_drain _ hphase₁ (congrArg _ hqueue₁) hreports
  refine ⟨ls₁ ++ List.replicate (s.offer (.report event)).queue.items.length .consume, t, ?_,
    hempty, fun hreseeded => howed fun n hn => ?_⟩
  · refine System.run_cons_iff.2 ⟨_, rfl, ?_⟩
    rw [System.run_append, hrun₁]
    exact hrun
  · have hlater := hreseeded n (by rw [hsignalled, hsignalled₁, hn])
    rwa [hfetches, hfetches₁] at hlater

/-- The signal comes while the first fetch is on its way, and 1024 reports before its reply. -/
theorem not_run_reseeds_burst :
    ¬ ∀ ls s, system.run new ls = some s → s.queue.items = [] → s.Reseeded := by
  intro h
  have hstart : system.run new [.start, .offer .reconnected] = some (new.fetch.offer .reconnected) :=
    rfl
  obtain ⟨s, hburst, hitems, hmaxsize, htracker, hfetches, hsignalled⟩ :=
    run_burst fillReport (queueMaxsize - 1) (s := new.fetch.offer .reconnected)
      (by decide)
  have hitems : s.queue.items = .payload .reconnected ::
      List.replicate (queueMaxsize - 1) (.payload (.report fillReport)) := hitems
  have hphase : s.tracker.phase = .awaiting := by rw [htracker]; rfl
  have hfirst : s.LastSignalFirst := by
    refine ⟨by simp [hphase], fun hreseeded => ?_, ?_, ?_⟩
    · have hlater := hreseeded 1 hsignalled
      rw [hfetches] at hlater
      exact Nat.lt_irrefl _ hlater
    · rw [SubscriptionQueue.full, hmaxsize, hitems, List.length_cons, List.length_replicate]
      decide
    · rw [hitems, List.tail_cons]
      refine List.all_eq_true.2 fun item hitem => ?_
      rw [List.eq_of_mem_replicate hitem]
      rfl
  obtain ⟨ls, t, hlost, hempty, hnot⟩ := lost_of_drops fillReport hfirst (.inl hphase)
    (by
      intro item hitem
      rw [hitems] at hitem
      rcases List.mem_cons.1 hitem with rfl | hitem
      · exact ⟨_, rfl⟩
      · exact ⟨_, List.eq_of_mem_replicate hitem⟩)
  refine hnot (h ([.start, .offer .reconnected] ++ (List.replicate (queueMaxsize - 1)
    (.offer (.report fillReport)) ++ .offer (.report fillReport) :: ls)) t ?_ hempty)
  rw [System.run_append, hstart, Option.bind_some, System.run_append, hburst]
  exact hlost

end TrackerSubscription

end BinanceTh
