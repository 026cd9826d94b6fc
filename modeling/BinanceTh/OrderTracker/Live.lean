import BinanceTh.Lib.Counting
import BinanceTh.Lib.Tasks
import BinanceTh.OrderTracker.Confluence
import BinanceTh.Stream.Queue

/-!
# The live order tracker

The task of an `OrderTracker` (`ordertracker.py`) over the queue of its subscription, step by step:
`_decode_reports` of `userstream.py` feeds `OrderTrackerSynchronizer.run`, and the view that it
yields is the one that the reads see. The task awaits in two places, the listing of the open orders
and the next item of the queue. Beside it are the exchange, whose orders change, and whoever offers
to the queue: what is offered may lag behind the exchange, skip states or come again, and the queue
drops its oldest item when it is full.

Whatever is lost on the way, what the tracker shows of an order was its state at some time, and it
does not go back until the next listing (`run_genuine`, `run_forward`); where the last state of an
order has been listed or read, it is the one that is shown (`run_current`).
-/

namespace BinanceTh

open Tasks Transition Versioned

/-- What is offered to the subscription of a tracker, beside its end. -/
inductive LiveTrackerFrame (α : Type) where
  /-- `_RECONNECTED`. -/
  | reconnected
  | frame (raw : α)

/-- Where the task stands. -/
inductive LiveTrackerPhase (ε : Type) where
  /-- Its first step is still to come. -/
  | scheduled
  /-- Its `open_orders` request is on its way. -/
  | fetching
  /-- The request is served, the reply on its way. -/
  | answered (orders : List Order)
  /-- It awaits the next item of the queue. -/
  | reading
  | ended (outcome : Outcome Unit ε)

structure LiveTracker (α ε : Type) where
  /-- The exchange's orders in their current state, and all the states that they have had. -/
  orders : Table Order.orderId
  history : List Order
  queue : SubscriptionQueue (LiveTrackerFrame α)
  phase : LiveTrackerPhase ε
  /-- `_view`. -/
  view : Option LocalOrderView
  /-- The listing that the view was seeded with. -/
  listing : List Order
  /-- The states that were offered to the queue, and those that were read from it. -/
  offered : List Order
  pulled : List Order

inductive LiveTrackerLabel (α ε : Type) where
  /-- An order of the exchange changes. -/
  | change (order : Order)
  /-- A connection offers a frame, a marker, a close or a fault. -/
  | offer (item : StreamItem (LiveTrackerFrame α))
  /-- The first step of the task. -/
  | began
  /-- The exchange serves `openOrders`. -/
  | served (orders : List Order)
  | replied
  /-- The request for the open orders raises. -/
  | failed (e : ε)
  /-- The queue's `get` returns. -/
  | pull
  /-- `aclose` cancels the task. -/
  | cancelled

namespace LiveTracker

variable {α ε : Type} (validate : α → Except ε ExecutionReportEvent) (webSocketError : String → ε)

/-- `order_tracker()`: the subscription and the task are made, over an exchange with `orders`. -/
def new (orders : Table Order.orderId) (queue : SubscriptionQueue (LiveTrackerFrame α)) :
    LiveTracker α ε :=
  { orders, history := orders.values, queue, phase := .scheduled, view := none, listing := [],
    offered := [], pulled := [] }

/-- `synced`. -/
def synced (s : LiveTracker α ε) : Bool := s.view.isSome

/-- `open`. -/
def openOrders (s : LiveTracker α ε) : List Order :=
  (s.view.map LocalOrderView.openOrders).getD []

def get (s : LiveTracker α ε) (orderId : ℤ) : Option Order :=
  s.view.bind fun view => view.get orderId

/-- The state that an item reports (`ExecutionReportEvent.model_validate`). -/
def orderOf : StreamItem (LiveTrackerFrame α) → Option Order
  | .payload (.frame raw) => (validate raw).toOption.map orderFromExecutionReport
  | .payload .reconnected | .closed | .fault _ => none

/-- Every change of an order has a newer update time. -/
def Supersedes (s : LiveTracker α ε) (order : Order) : Prop :=
  ∀ prev ∈ s.orders.lookup order.orderId, prev.updateTime < order.updateTime

instance (s : LiveTracker α ε) (order : Order) : Decidable (s.Supersedes order) := by
  unfold Supersedes
  infer_instance

/-- The exchange's open orders. -/
def activeOrders (s : LiveTracker α ε) : List Order := s.orders.values.filter Order.isActive

/-- The body of the loop over the events. -/
def onReport (s : LiveTracker α ε) (event : ExecutionReportEvent) : LiveTracker α ε :=
  { s with
    view := s.view.map (·.apply event), pulled := s.pulled ++ [orderFromExecutionReport event] }

/-- What the task does with an item. -/
def consume (s : LiveTracker α ε) : StreamItem (LiveTrackerFrame α) → LiveTracker α ε
  | .closed => { s with phase := .ended (.returned ()) }
  | .fault message => { s with phase := .ended (.raised (webSocketError message)) }
  | .payload .reconnected => { s with phase := .fetching }
  | .payload (.frame raw) =>
    match validate raw with
    | .error e => { s with phase := .ended (.raised e) }
    | .ok event => s.onReport event

def step (s : LiveTracker α ε) : LiveTrackerLabel α ε → Option (LiveTracker α ε)
  | .change order =>
    if s.Supersedes order then
      some { s with orders := s.orders.insert order, history := s.history ++ [order] }
    else none
  | .offer item => some { s with
      queue := s.queue.offer item, offered := s.offered ++ (orderOf validate item).toList }
  | .began =>
    match s.phase with
    | .scheduled => some { s with phase := .fetching }
    | _ => none
  | .served orders =>
    match s.phase with
    | .fetching =>
      if orders ⊆ s.activeOrders ∧ s.activeOrders ⊆ orders then
        some { s with phase := .answered orders }
      else none
    | _ => none
  | .replied =>
    match s.phase with
    | .answered orders =>
      some { s with phase := .reading, view := some (.seed orders), listing := orders }
    | _ => none
  | .failed e =>
    match s.phase with
    | .fetching | .answered _ => some { s with phase := .ended (.raised e) }
    | _ => none
  | .pull =>
    match s.phase, s.queue.next with
    | .reading, some (item, queue) => some ({ s with queue }.consume validate webSocketError item)
    | _, _ => none
  | .cancelled =>
    match s.phase with
    | .ended _ => none
    | _ => some { s with phase := .ended .cancelled }

def system (orders : Table Order.orderId) (queue : SubscriptionQueue (LiveTrackerFrame α)) :
    System (LiveTracker α ε) (LiveTrackerLabel α ε) where
  init := new orders queue
  step := step validate webSocketError

/-- What is reported has been the order's state. -/
def Truthful (s : LiveTracker α ε) : LiveTrackerLabel α ε → Prop
  | .offer item => ∀ order ∈ orderOf validate item, order ∈ s.history
  | _ => True

instance (s : LiveTracker α ε) : ∀ label, Decidable (s.Truthful validate label)
  | .offer item => inferInstanceAs (Decidable (∀ order ∈ orderOf validate item, order ∈ s.history))
  | .change _ | .began | .served _ | .replied | .failed _ | .pull | .cancelled => isTrue trivial

/-- What is reported has been the order's state, and the reports of one order do not go back. -/
def Honest (s : LiveTracker α ε) : LiveTrackerLabel α ε → Prop
  | .offer item => ∀ order ∈ orderOf validate item, order ∈ s.history ∧
      ∀ o ∈ s.offered, o.orderId = order.orderId → o.updateTime ≤ order.updateTime
  | _ => True

instance (s : LiveTracker α ε) : ∀ label, Decidable (s.Honest validate label)
  | .offer item => inferInstanceAs (Decidable (∀ order ∈ orderOf validate item, order ∈ s.history ∧
      ∀ o ∈ s.offered, o.orderId = order.orderId → o.updateTime ≤ order.updateTime))
  | .change _ | .began | .served _ | .replied | .failed _ | .pull | .cancelled => isTrue trivial

/-! ## The invariant -/

/-- The states of one order do not go back. -/
def Forward (states : List Order) : Prop :=
  states.Pairwise fun o o' => o.orderId = o'.orderId → o.updateTime ≤ o'.updateTime

/-- Where `view` has been told the last state of an order, it has kept that. -/
def Knows (s : LiveTracker α ε) (get : ℤ → Option Order) (told : List Order) : Prop :=
  ∀ orderId latest, s.orders.lookup orderId = some latest → latest ∈ told →
    get orderId = LocalOrderView.reading.keep latest

/-- All that the tracker has comes from the exchange. -/
structure Genuine (s : LiveTracker α ε) : Prop where
  current : ∀ orderId latest, s.orders.lookup orderId = some latest → latest ∈ s.history
  newest : ∀ order ∈ s.history, ∃ latest, s.orders.lookup order.orderId = some latest ∧
    LocalOrderView.reading.IsLatest latest order
  /-- What was read and what is queued was offered in this order. -/
  fed : (s.pulled ++ s.queue.items.filterMap (orderOf validate)).Sublist s.offered
  offered : s.offered ⊆ s.history
  shown : ∀ order ∈ s.openOrders, order ∈ s.history ∧ order.isActive = true
  listed : ∀ order ∈ s.listing, order ∈ s.history ∧ order.isActive = true
  seeded : s.phase = .reading → s.view.isSome = true
  answered : ∀ orders, s.phase = .answered orders →
    ∀ order ∈ orders, order ∈ s.history ∧ order.isActive = true

/-- Where the reports of an order do not go back, the views also know what they have been told. -/
structure Inv (s : LiveTracker α ε) : Prop extends s.Genuine validate where
  forward : Forward s.offered
  knows : s.Knows s.get (s.listing ++ s.pulled)
  reseeds : ∀ orders, s.phase = .answered orders →
    s.Knows (LocalOrderView.seed orders).get (orders ++ s.pulled)

variable {validate} {webSocketError} {s s' t : LiveTracker α ε} {label : LiveTrackerLabel α ε}
  {labels : List (LiveTrackerLabel α ε)} {orders : Table Order.orderId}
  {queue : SubscriptionQueue (LiveTrackerFrame α)} {order : Order}

theorem mem_openOrders_iff : order ∈ s.openOrders ↔ s.get order.orderId = some order := by
  unfold openOrders get
  cases s.view with
  | none => simp
  | some view => exact LocalOrderView.mem_openOrders_iff

theorem mem_activeOrders_iff : order ∈ s.activeOrders ↔
    s.orders.lookup order.orderId = some order ∧ order.isActive = true := by
  unfold activeOrders
  rw [List.mem_filter, Table.mem_values_iff]

theorem genuine_new (hqueue : queue.items = []) :
    (new orders queue : LiveTracker α ε).Genuine validate where
  current orderId latest hlatest := by
    have hid : latest.orderId = orderId := Table.key_of_lookup hlatest
    subst hid
    exact Table.mem_values_iff.2 hlatest
  newest order horder := ⟨order, Table.mem_values_iff.1 horder, .refl⟩
  fed := by simp [new, hqueue]
  offered := List.nil_subset _
  shown _ horder := absurd horder List.not_mem_nil
  listed _ horder := absurd horder List.not_mem_nil
  seeded hphase := by cases hphase
  answered _ hphase := by cases hphase

theorem inv_new (hqueue : queue.items = []) :
    (new orders queue : LiveTracker α ε).Inv validate where
  toGenuine := genuine_new hqueue
  forward := .nil
  knows _ _ _ htold := absurd htold List.not_mem_nil
  reseeds _ hphase := by cases hphase

/-! ### The exchange -/

/-- What an order has become is not what it has been. -/
theorem Genuine.not_mem_history (h : s.Genuine validate) (hsup : s.Supersedes order) :
    order ∉ s.history := by
  intro horder
  obtain ⟨latest, hlatest, hle, -⟩ := h.newest order horder
  exact absurd (hsup latest hlatest) (not_lt.2 hle)

/-- A change tells nobody anything. -/
theorem Knows.change {get : ℤ → Option Order} {told : List Order} (h : s.Knows get told)
    (htold : order ∉ told) {history : List Order} :
    Knows { s with orders := s.orders.insert order, history } get told := by
  intro orderId latest hlatest hmem
  have hlookup : (s.orders.insert order).lookup orderId = some latest := hlatest
  rw [Table.lookup_insert] at hlookup
  split at hlookup
  · obtain rfl := Option.some.inj hlookup
    exact absurd hmem htold
  · exact h orderId latest hlookup hmem

theorem Genuine.pulled (h : s.Genuine validate) : s.pulled ⊆ s.history :=
  List.Subset.trans ((List.sublist_append_left _ _).trans h.fed).subset h.offered

theorem Genuine.change (h : s.Genuine validate) (hsup : s.Supersedes order) :
    Genuine validate
      { s with orders := s.orders.insert order, history := s.history ++ [order] } := by
  have hold : s.history ⊆ s.history ++ [order] := List.subset_append_left _ _
  have hlookup (orderId : ℤ) : (s.orders.insert order).lookup orderId =
      if order.orderId = orderId then some order else s.orders.lookup orderId := Table.lookup_insert
  refine ⟨fun orderId latest hlatest => ?_, fun o ho => ?_, h.fed, List.Subset.trans h.offered hold,
    fun o ho => (h.shown o ho).imp_left fun hmem => hold hmem,
    fun o ho => (h.listed o ho).imp_left fun hmem => hold hmem, h.seeded,
    fun orders hphase o ho => (h.answered orders hphase o ho).imp_left fun hmem => hold hmem⟩
  · have hlatest : (s.orders.insert order).lookup orderId = some latest := hlatest
    rw [hlookup] at hlatest
    split at hlatest
    · obtain rfl := Option.some.inj hlatest
      exact List.mem_append_right _ (List.mem_singleton_self _)
    · exact hold (h.current orderId latest hlatest)
  · dsimp only
    rw [hlookup]
    rcases List.mem_append.1 ho with ho | ho
    · obtain ⟨latest, hlatest, hle⟩ := h.newest o ho
      split
      · next hid =>
        rw [← hid] at hlatest
        exact ⟨order, rfl, hle.of_lt (hsup latest hlatest)⟩
      · exact ⟨latest, hlatest, hle⟩
    · obtain rfl := List.mem_singleton.1 ho
      rw [if_pos rfl]
      exact ⟨o, rfl, .refl⟩

theorem Inv.change (h : s.Inv validate) (hsup : s.Supersedes order) :
    Inv validate { s with orders := s.orders.insert order, history := s.history ++ [order] } := by
  have hnew := h.not_mem_history hsup
  have hpulled : order ∉ s.pulled := fun hmem => hnew (h.pulled hmem)
  refine ⟨h.toGenuine.change hsup, h.forward, h.knows.change ?_, fun orders hphase =>
    (h.reseeds orders hphase).change ?_⟩
  · exact List.not_mem_append (fun hmem => hnew (h.listed order hmem).1) hpulled
  · exact List.not_mem_append (fun hmem => hnew (h.answered orders hphase order hmem).1) hpulled

theorem Genuine.offer {item : StreamItem (LiveTrackerFrame α)} (h : s.Genuine validate)
    (htruthful : s.Truthful validate (.offer item)) :
    Genuine validate { s with
      queue := s.queue.offer item, offered := s.offered ++ (orderOf validate item).toList } where
  current := h.current
  newest := h.newest
  fed := by
    have hitem : [item].filterMap (orderOf validate) = (orderOf validate item).toList := by
      cases hitem : orderOf validate item <;> simp [hitem]
    dsimp only
    rw [SubscriptionQueue.items_offer, List.filterMap_append, hitem, ← List.append_assoc]
    refine List.Sublist.append ?_ (List.Sublist.refl _)
    split
    · -- the oldest item is dropped
      exact ((List.Sublist.refl _).append ((List.tail_sublist _).filterMap _)).trans h.fed
    · exact h.fed
  offered := List.append_subset.2
    ⟨h.offered, fun o ho => htruthful o (Option.mem_toList.1 ho)⟩
  shown := h.shown
  listed := h.listed
  seeded := h.seeded
  answered := h.answered

theorem Inv.offer {item : StreamItem (LiveTrackerFrame α)} (h : s.Inv validate)
    (hhonest : s.Honest validate (.offer item)) :
    Inv validate { s with
      queue := s.queue.offer item, offered := s.offered ++ (orderOf validate item).toList } where
  toGenuine := h.toGenuine.offer fun o ho => (hhonest o ho).1
  forward := by
    refine List.pairwise_append.2 ⟨h.forward, ?_, fun o ho o' ho' => ?_⟩
    · cases orderOf validate item <;> simp
    · exact (hhonest o' (Option.mem_toList.1 ho')).2 o ho
  knows := h.knows
  reseeds := h.reseeds

/-! ### The task -/

theorem Genuine.served {orders : List Order} (h : s.Genuine validate)
    (hsound : orders ⊆ s.activeOrders) : Genuine validate { s with phase := .answered orders } where
  current := h.current
  newest := h.newest
  fed := h.fed
  offered := h.offered
  shown := h.shown
  listed := h.listed
  seeded hphase := by cases hphase
  answered := by
    rintro _ ⟨⟩ order horder
    obtain ⟨hlookup, hactive⟩ := mem_activeOrders_iff.1 (hsound horder)
    exact ⟨h.current _ _ hlookup, hactive⟩

theorem Inv.served {orders : List Order} (h : s.Inv validate) (hsound : orders ⊆ s.activeOrders)
    (hall : s.activeOrders ⊆ orders) : Inv validate { s with phase := .answered orders } where
  toGenuine := h.toGenuine.served hsound
  forward := h.forward
  knows := h.knows
  reseeds := by
    rintro _ ⟨⟩ orderId latest hlatest _
    have hlatest : s.orders.lookup orderId = some latest := hlatest
    change (LocalOrderView.seed orders).get orderId =
      (some latest).bind LocalOrderView.reading.keep
    refine LocalOrderView.get_seed (fun order horder hid => ?_) fun order horder => ?_
    · rw [← hlatest, ← hid]
      exact (mem_activeOrders_iff.1 (hsound horder)).1
    · obtain rfl := Option.some.inj horder
      have hid : latest.orderId = orderId := Table.key_of_lookup hlatest
      subst hid
      exact ⟨rfl, fun hactive => hall (mem_activeOrders_iff.2 ⟨hlatest, hactive⟩)⟩

theorem Genuine.replied {orders : List Order} (h : s.Genuine validate)
    (hphase : s.phase = .answered orders) : Genuine validate
      { s with phase := .reading, view := some (.seed orders), listing := orders } where
  current := h.current
  newest := h.newest
  fed := h.fed
  offered := h.offered
  shown order horder := by
    obtain ⟨hmem, -⟩ := LocalOrderView.mem_of_get_seed (mem_openOrders_iff.1 horder)
    exact h.answered orders hphase order (List.mem_of_mem_filter hmem)
  listed := h.answered orders hphase
  seeded _ := rfl
  answered _ hphase := by cases hphase

theorem Inv.replied {orders : List Order} (h : s.Inv validate)
    (hphase : s.phase = .answered orders) : Inv validate
      { s with phase := .reading, view := some (.seed orders), listing := orders } where
  toGenuine := h.toGenuine.replied hphase
  forward := h.forward
  knows := h.reseeds orders hphase
  reseeds _ hphase := by cases hphase

/-- The task goes on without a look at the view; what is left of the queue was there before. -/
theorem Genuine.moved {queue : SubscriptionQueue (LiveTrackerFrame α)} {phase : LiveTrackerPhase ε}
    (h : s.Genuine validate) (hqueue : queue.items.Sublist s.queue.items)
    (hreading : phase ≠ .reading) (hanswered : ∀ orders, phase ≠ .answered orders) :
    Genuine validate { s with queue, phase } where
  current := h.current
  newest := h.newest
  fed := ((List.Sublist.refl _).append (hqueue.filterMap _)).trans h.fed
  offered := h.offered
  shown := h.shown
  listed := h.listed
  seeded hphase := absurd hphase hreading
  answered orders hphase := absurd hphase (hanswered orders)

theorem Inv.moved {queue : SubscriptionQueue (LiveTrackerFrame α)} {phase : LiveTrackerPhase ε}
    (h : s.Inv validate) (hqueue : queue.items.Sublist s.queue.items)
    (hreading : phase ≠ .reading) (hanswered : ∀ orders, phase ≠ .answered orders) :
    Inv validate { s with queue, phase } where
  toGenuine := h.toGenuine.moved hqueue hreading hanswered
  forward := h.forward
  knows := h.knows
  reseeds orders hphase := absurd hphase (hanswered orders)

/-! ### A report -/

/-- The report at the head of the queue. -/
structure Next (s : LiveTracker α ε) (event : ExecutionReportEvent) (rest : List Order) : Prop where
  phase : s.phase = .reading
  fed : (s.pulled ++ orderFromExecutionReport event :: rest).Sublist s.offered

theorem Next.mem_offered {event : ExecutionReportEvent} {rest : List Order}
    (h : s.Next event rest) : orderFromExecutionReport event ∈ s.offered :=
  h.fed.subset (List.mem_append_right _ List.mem_cons_self)

/-- What was read of the order before is not newer. -/
theorem Inv.le_next {event : ExecutionReportEvent} {rest : List Order} (h : s.Inv validate)
    (hnext : s.Next event rest) (hpulled : order ∈ s.pulled)
    (hid : order.orderId = (orderFromExecutionReport event).orderId) :
    order.updateTime ≤ (orderFromExecutionReport event).updateTime := by
  have hforward := h.forward.sublist hnext.fed
  exact (List.pairwise_append.1 hforward).2.2 order hpulled _ List.mem_cons_self hid

theorem get_onReport (h : s.view.isSome = true) (event : ExecutionReportEvent) (orderId : ℤ) :
    (s.onReport event).get orderId = if (orderFromExecutionReport event).orderId = orderId then
      LocalOrderView.reading.absorb (s.get orderId) (orderFromExecutionReport event)
      else s.get orderId := by
  obtain ⟨view, hview⟩ := Option.isSome_iff_exists.1 h
  unfold get onReport
  rw [hview]
  exact LocalOrderView.get_apply view event orderId

theorem orderId_of_get {orderId : ℤ} (h : s.get orderId = some order) :
    order.orderId = orderId := by
  obtain ⟨view, -, hview⟩ := Option.bind_eq_some_iff.1 h
  exact Table.key_of_lookup hview

/-- No state has been newer than the current one. -/
theorem Genuine.le_current {orderId : ℤ} {latest : Order} (h : s.Genuine validate)
    (hlatest : s.orders.lookup orderId = some latest) (horder : order ∈ s.history)
    (hid : order.orderId = orderId) : order.updateTime ≤ latest.updateTime := by
  obtain ⟨latest', hlatest', hle, -⟩ := h.newest order horder
  rw [hid, hlatest] at hlatest'
  obtain rfl := Option.some.inj hlatest'
  exact hle

/-- A view that knows the current state of the order, or reads it now, knows it after the report. -/
theorem Inv.absorb_next {event : ExecutionReportEvent} {rest : List Order} {orderId : ℤ}
    {latest : Order} (h : s.Inv validate) (hnext : s.Next event rest)
    (hid : (orderFromExecutionReport event).orderId = orderId)
    (hlatest : s.orders.lookup orderId = some latest)
    (htold : latest ∈ s.listing ++ s.pulled ∨ latest = orderFromExecutionReport event) :
    LocalOrderView.reading.absorb (s.get orderId) (orderFromExecutionReport event) =
      LocalOrderView.reading.keep latest := by
  have hlatestId : latest.orderId = orderId := Table.key_of_lookup hlatest
  obtain ⟨latest', hlatest', hle⟩ := h.newest _ (h.offered hnext.mem_offered)
  rw [hid, hlatest] at hlatest'
  obtain rfl := Option.some.inj hlatest'
  by_cases hsame : latest = orderFromExecutionReport event
  · rw [← hsame]
    refine Reading.absorb_of_le fun p hp => ?_
    have hpId := orderId_of_get hp
    obtain ⟨hpast, -⟩ := h.shown p (mem_openOrders_iff.2 (by rw [hpId]; exact hp))
    exact h.le_current hlatest hpast hpId
  · have htold := htold.resolve_right hsame
    have hknown : s.get orderId = LocalOrderView.reading.keep latest :=
      h.knows orderId latest hlatest htold
    -- a final state would have been read before a newer one
    have hactive : LocalOrderView.reading.isFinal latest = false := by
      rcases List.mem_append.1 htold with hlisted | hpulled
      · have hactive := (h.listed latest hlisted).2
        rwa [Order.isActive_eq, Bool.not_eq_true'] at hactive
      · have hlate := h.le_next hnext hpulled (hlatestId.trans hid.symm)
        exact absurd (hle.eq_of_eq (hle.le.antisymm hlate)) (Ne.symm hsame)
    have hkeep : LocalOrderView.reading.keep latest = some latest :=
      (Reading.keep_eq_some_iff LocalOrderView.reading).2 ⟨hactive, rfl⟩
    have hnewest : ∀ v ∈ [orderFromExecutionReport event],
        LocalOrderView.reading.IsLatest latest v := by simpa using hle
    change List.foldl LocalOrderView.reading.absorb (s.get orderId) [_] = _
    rw [hknown, hkeep]
    exact Reading.foldl_absorb_of_active hactive hnewest

theorem Genuine.onReport {event : ExecutionReportEvent}
    {queue : SubscriptionQueue (LiveTrackerFrame α)} (h : s.Genuine validate)
    (hnext : s.Next event (queue.items.filterMap (orderOf validate))) :
    Genuine validate ({ s with queue }.onReport event) := by
  have hview := h.seeded hnext.phase
  refine ⟨h.current, h.newest, ?_, h.offered, fun o ho => ?_, h.listed, fun _ => ?_,
    fun orders hphase => ?_⟩
  · have hfed := hnext.fed
    unfold LiveTracker.onReport
    dsimp only
    rwa [List.append_assoc]
  · -- what is shown
    have hshown := mem_openOrders_iff.1 ho
    rw [get_onReport (s := { s with queue }) hview] at hshown
    split at hshown
    · rcases Reading.absorb_cases hshown with ⟨hold, -⟩ | ⟨hactive, rfl⟩
      · exact h.shown o (mem_openOrders_iff.2 hold)
      · refine ⟨h.offered hnext.mem_offered, ?_⟩
        rw [Order.isActive_eq, Bool.not_eq_true']
        exact hactive
    · exact h.shown o (mem_openOrders_iff.2 hshown)
  · obtain ⟨view, hview⟩ := Option.isSome_iff_exists.1 hview
    unfold LiveTracker.onReport
    dsimp only
    rw [hview]
    rfl
  · have hphase : s.phase = .answered orders := hphase
    rw [hnext.phase] at hphase
    cases hphase

theorem Inv.onReport {event : ExecutionReportEvent} {queue : SubscriptionQueue (LiveTrackerFrame α)}
    (h : s.Inv validate)
    (hnext : s.Next event (queue.items.filterMap (orderOf validate))) :
    Inv validate ({ s with queue }.onReport event) := by
  refine ⟨h.toGenuine.onReport hnext, h.forward, fun orderId latest hlatest htold => ?_,
    fun orders hphase => ?_⟩
  · have hlatest : s.orders.lookup orderId = some latest := hlatest
    have htold : latest ∈ (s.listing ++ s.pulled) ∨ latest = orderFromExecutionReport event := by
      rw [← List.mem_singleton, ← List.mem_append, List.append_assoc]
      exact htold
    rw [get_onReport (s := { s with queue }) (h.seeded hnext.phase)]
    split
    · next hid => exact h.absorb_next hnext hid hlatest htold
    · next hid =>
      refine h.knows orderId latest hlatest (htold.resolve_right ?_)
      rintro rfl
      exact hid (Table.key_of_lookup hlatest)
  · have hphase : s.phase = .answered orders := hphase
    rw [hnext.phase] at hphase
    cases hphase

/-- What a step does. All that is neither of the exchange nor about the view moves the task on. -/
inductive Steps (validate : α → Except ε ExecutionReportEvent) (s : LiveTracker α ε) :
    LiveTrackerLabel α ε → LiveTracker α ε → Prop
  | change {order : Order} : s.Supersedes order → Steps validate s (.change order)
      { s with orders := s.orders.insert order, history := s.history ++ [order] }
  | offer (item : StreamItem (LiveTrackerFrame α)) : Steps validate s (.offer item)
      { s with
        queue := s.queue.offer item, offered := s.offered ++ (orderOf validate item).toList }
  | served {orders : List Order} : orders ⊆ s.activeOrders → s.activeOrders ⊆ orders →
      Steps validate s (.served orders) { s with phase := .answered orders }
  | replied {orders : List Order} : s.phase = .answered orders → Steps validate s .replied
      { s with phase := .reading, view := some (.seed orders), listing := orders }
  | moved {label : LiveTrackerLabel α ε} {queue : SubscriptionQueue (LiveTrackerFrame α)}
      {phase : LiveTrackerPhase ε} : queue.items.Sublist s.queue.items → phase ≠ .reading →
      (∀ orders, phase ≠ .answered orders) → Steps validate s label { s with queue, phase }
  | report {event : ExecutionReportEvent} {queue : SubscriptionQueue (LiveTrackerFrame α)} :
      s.phase = .reading → s.queue.items.filterMap (orderOf validate) =
        orderFromExecutionReport event :: queue.items.filterMap (orderOf validate) →
      Steps validate s .pull ({ s with queue }.onReport event)

theorem steps_pull (h : s.step validate webSocketError .pull = some s') :
    s.Steps validate .pull s' := by
  rw [step] at h
  split at h
  · next item queue hphase hnext =>
    obtain rfl := Option.some.inj h
    unfold SubscriptionQueue.next at hnext
    split at hnext
    · cases hnext
    · next head items hitems =>
      obtain ⟨rfl, rfl⟩ := Prod.mk.inj (Option.some.inj hnext)
      have hsub : items.Sublist s.queue.items := by
        rw [hitems]
        exact List.sublist_cons_self _ _
      cases head with
      | closed => exact .moved hsub (by simp) (by simp)
      | fault message => exact .moved hsub (by simp) (by simp)
      | payload frame =>
        cases frame with
        | reconnected => exact .moved hsub (by simp) (by simp)
        | frame raw =>
          rw [consume]
          cases hvalid : validate raw with
          | error e => exact .moved hsub (by simp) (by simp)
          | ok event =>
            have horder : orderOf validate (.payload (.frame raw)) =
                some (orderFromExecutionReport event) := by
              rw [orderOf, hvalid]
              rfl
            exact .report hphase (by rw [hitems, List.filterMap_cons_some horder])
  · cases h

/-- **One step** of the exchange, a connection or the task. -/
theorem steps_of_step (h : s.step validate webSocketError label = some s') :
    s.Steps validate label s' := by
  cases label with
  | change order =>
    obtain ⟨hsup, h⟩ := Option.ite_none_right_eq_some.1 h
    obtain rfl := Option.some.inj h
    exact .change hsup
  | offer item =>
    obtain rfl := Option.some.inj h
    exact .offer item
  | served orders =>
    rw [step] at h
    split at h
    · obtain ⟨⟨hsound, hall⟩, h⟩ := Option.ite_none_right_eq_some.1 h
      obtain rfl := Option.some.inj h
      exact .served hsound hall
    · cases h
  | replied =>
    rw [step] at h
    split at h
    · next orders hphase =>
      obtain rfl := Option.some.inj h
      exact .replied hphase
    · cases h
  | pull => exact steps_pull h
  | began | failed e | cancelled =>
    rw [step] at h
    split at h <;> cases h <;> exact .moved (.refl _) (by simp) (by simp)

theorem next_of_queue {event : ExecutionReportEvent} {rest : List Order} (h : s.Genuine validate)
    (hphase : s.phase = .reading) (hqueue : s.queue.items.filterMap (orderOf validate) =
      orderFromExecutionReport event :: rest) : s.Next event rest := by
  have hfed := h.fed
  rw [hqueue] at hfed
  exact ⟨hphase, hfed⟩

theorem Genuine.step (h : s.Genuine validate) (htruthful : s.Truthful validate label)
    (hstep : s.step validate webSocketError label = some s') : s'.Genuine validate := by
  cases steps_of_step hstep with
  | change hsup => exact h.change hsup
  | offer item => exact h.offer htruthful
  | served hsound _ => exact h.served hsound
  | replied hphase => exact h.replied hphase
  | moved hqueue hreading hanswered => exact h.moved hqueue hreading hanswered
  | report hphase hqueue => exact h.onReport (next_of_queue h hphase hqueue)

theorem Inv.step (h : s.Inv validate) (hhonest : s.Honest validate label)
    (hstep : s.step validate webSocketError label = some s') : s'.Inv validate := by
  cases steps_of_step hstep with
  | change hsup => exact h.change hsup
  | offer item => exact h.offer hhonest
  | served hsound hall => exact h.served hsound hall
  | replied hphase => exact h.replied hphase
  | moved hqueue hreading hanswered => exact h.moved hqueue hreading hanswered
  | report hphase hqueue => exact h.onReport (next_of_queue h.toGenuine hphase hqueue)

theorem inv_of_run (hqueue : queue.items = [])
    (hhonest : (system validate webSocketError orders queue).Guarded (Honest validate)
      (new orders queue) labels)
    (hrun : (system validate webSocketError orders queue).run (new orders queue) labels = some t) :
    t.Inv validate :=
  System.run_invariant (fun _ _ _ h hC hstep => h.step hC hstep) labels (inv_new hqueue) hhonest
    hrun

/-! ## What is shown of an order -/

/-- What is shown of the order, if it is shown, is as new as `time`, and so is what has been read of
it, if it is not shown. -/
structure AtLeast (s : LiveTracker α ε) (orderId time : ℤ) : Prop where
  shown : ∀ order, s.get orderId = some order → time ≤ order.updateTime
  hidden : s.get orderId = none →
    ∃ order ∈ s.pulled, order.orderId = orderId ∧ time ≤ order.updateTime

variable {orderId time : ℤ}

theorem AtLeast.onReport {event : ExecutionReportEvent}
    {queue : SubscriptionQueue (LiveTrackerFrame α)}
    (h : s.AtLeast orderId time) (hinv : s.Inv validate)
    (hnext : s.Next event (queue.items.filterMap (orderOf validate))) :
    AtLeast ({ s with queue }.onReport event) orderId time := by
  have hget : ({ s with queue }.onReport event).get orderId = _ :=
    get_onReport (s := { s with queue }) (hinv.seeded hnext.phase) event orderId
  have hold : s.pulled ⊆ s.pulled ++ [orderFromExecutionReport event] :=
    List.subset_append_left _ _
  split at hget
  · next hid =>
    -- either what is shown is newer than the report, or the report is as new
    have hnew : (∃ p, ({ s with queue }.onReport event).get orderId = some p ∧
        s.get orderId = some p) ∨ time ≤ (orderFromExecutionReport event).updateTime := by
      cases hshown : s.get orderId with
      | none =>
        obtain ⟨o, ho, hoid, hle⟩ := h.hidden hshown
        exact .inr (hle.trans (hinv.le_next hnext ho (hoid.trans hid.symm)))
      | some p =>
        by_cases hlt : (orderFromExecutionReport event).updateTime < p.updateTime
        · refine .inl ⟨p, ?_, rfl⟩
          rw [hget]
          change LocalOrderView.reading.absorb (s.get orderId) _ = _
          rw [hshown]
          exact Reading.absorb_of_lt hlt
        · exact .inr ((h.shown p hshown).trans (not_lt.1 hlt))
    rcases hnew with ⟨p, hp, hshown⟩ | hle
    · refine ⟨fun o ho => h.shown o (by rw [hshown, ← hp, ho]), fun hnone => ?_⟩
      rw [hp] at hnone
      cases hnone
    · refine ⟨fun o ho => ?_,
        fun _ => ⟨_, List.mem_append_right _ (List.mem_singleton_self _), hid, hle⟩⟩
      rw [hget] at ho
      rcases Reading.absorb_cases ho with ⟨hshown, -⟩ | ⟨-, rfl⟩
      · exact h.shown o hshown
      · exact hle
  · refine ⟨fun o ho => h.shown o (by rw [hget] at ho; exact ho), fun hnone => ?_⟩
    obtain ⟨o, ho, hoid, hle⟩ := h.hidden (by rw [hget] at hnone; exact hnone)
    exact ⟨o, hold ho, hoid, hle⟩

/-- Everything but a report and a new listing leaves the view alone. -/
theorem AtLeast.step (h : s.AtLeast orderId time) (hinv : s.Inv validate)
    (hlisted : label ≠ .replied) (hstep : s.step validate webSocketError label = some s') :
    s'.AtLeast orderId time := by
  cases steps_of_step hstep with
  | replied _ => exact absurd rfl hlisted
  | report hphase hqueue => exact h.onReport hinv (next_of_queue hinv.toGenuine hphase hqueue)
  | change _ | offer _ | served _ _ | moved _ _ _ => exact ⟨h.shown, h.hidden⟩

/-- **Nothing is invented.** Whatever is lost, delayed, repeated or dropped on the way: what the
tracker shows of an order has been the order's state at the exchange, and an open one. -/
theorem run_genuine (hqueue : queue.items = [])
    (htruthful : (system validate webSocketError orders queue).Guarded (Truthful validate)
      (new orders queue) labels)
    (hrun : (system validate webSocketError orders queue).run (new orders queue) labels = some t) :
    ∀ order ∈ t.openOrders, order ∈ t.history ∧ order.isActive = true ∧
      ∃ latest, t.orders.lookup order.orderId = some latest ∧
        order.updateTime ≤ latest.updateTime := by
  intro order horder
  have hgenuine : t.Genuine validate :=
    System.run_invariant (fun _ _ _ h hC hstep => h.step hC hstep) labels (genuine_new hqueue)
      htruthful hrun
  obtain ⟨hmem, hactive⟩ := hgenuine.shown order horder
  obtain ⟨latest, hlatest, hle, -⟩ := hgenuine.newest order hmem
  exact ⟨hmem, hactive, latest, hlatest, hle⟩

/-- **Between two listings** what is shown of an order does not go back, also if it was not shown in
between. -/
theorem run_forward {labels' : List (LiveTrackerLabel α ε)} (hqueue : queue.items = [])
    (hhonest : (system validate webSocketError orders queue).Guarded (Honest validate)
      (new orders queue) (labels ++ labels'))
    (hrun : (system validate webSocketError orders queue).run (new orders queue) labels = some s)
    (hrun' : (system validate webSocketError orders queue).run s labels' = some t)
    (hlisted : ∀ label ∈ labels', label ≠ .replied) :
    ∀ order ∈ s.openOrders, ∀ order' ∈ t.openOrders, order'.orderId = order.orderId →
      order.updateTime ≤ order'.updateTime := by
  intro order horder order' horder' hid
  obtain ⟨hhonest, hhonest'⟩ := (System.guarded_append_iff hrun).1 hhonest
  have hshown := mem_openOrders_iff.1 horder
  have hstart : s.AtLeast order.orderId order.updateTime := by
    refine ⟨fun o ho => ?_, fun hnone => ?_⟩
    · rw [hshown] at ho
      exact (congrArg Order.updateTime (Option.some.inj ho)).le
    · rw [hshown] at hnone
      cases hnone
  have hguarded := System.guarded_and labels' hhonest'
    (System.guarded_of_forall (P := (· ≠ .replied)) labels' hlisted s)
  obtain ⟨-, hend⟩ := System.run_invariant
    (I := fun t => t.Inv validate ∧ t.AtLeast order.orderId order.updateTime)
    (fun _ _ _ hI hC hstep => ⟨hI.1.step hC.1 hstep, hI.2.step hI.1 hC.2 hstep⟩) labels'
    ⟨inv_of_run hqueue hhonest hrun, hstart⟩ hguarded hrun'
  exact hend.shown order' (by rw [← hid]; exact mem_openOrders_iff.1 horder')

/-- **What it has been told it shows.** At any time, if the last state of an order is in the listing
that the view was seeded with or has been read since the task began, the view has that state, or not
the order if it is closed. -/
theorem run_current (hqueue : queue.items = [])
    (hhonest : (system validate webSocketError orders queue).Guarded (Honest validate)
      (new orders queue) labels)
    (hrun : (system validate webSocketError orders queue).run (new orders queue) labels = some t)
    {latest : Order} (hlatest : t.orders.lookup latest.orderId = some latest)
    (htold : latest ∈ t.listing ∨ latest ∈ t.pulled) :
    t.get latest.orderId = if latest.isActive then some latest else none := by
  have hknows := (inv_of_run hqueue hhonest hrun).knows _ latest hlatest (List.mem_append.2 htold)
  rw [hknows, Reading.keep, Order.isActive_eq]
  change (if latest.status.isTerminal then none else some latest) = _
  cases latest.status.isTerminal <;> rfl

/-- A queue of one place over an order that is new, filled in part and canceled: the second state is
dropped, and the reports of the first two come late. -/
def droppedReport : List (LiveTrackerLabel ExecutionReportEvent String) :=
  let report (status : String) (time : ℤ) := LocalOrderView.reportOn 1 status time
  let change (status : String) (time : ℤ) : LiveTrackerLabel ExecutionReportEvent String :=
    .change (orderFromExecutionReport (report status time))
  [.began, change "NEW" 1, .served [orderFromExecutionReport (report "NEW" 1)], .replied,
    change "PARTIALLY_FILLED" 2, change "CANCELED" 3, .offer (.payload (.frame (report "NEW" 1))),
    .pull, .offer (.payload (.frame (report "PARTIALLY_FILLED" 2))),
    .offer (.payload (.frame (report "CANCELED" 3))), .pull]

def smallQueue : SubscriptionQueue (LiveTrackerFrame ExecutionReportEvent) := { maxsize := 1 }

theorem honest_droppedReport : (system .ok id Table.empty smallQueue).Guarded (Honest .ok)
    (new Table.empty smallQueue) droppedReport := by
  decide +kernel

/-- An order is filled, and the report of its first state comes again after that of the last. -/
def repeatedReport : List (LiveTrackerLabel ExecutionReportEvent String) :=
  let report (status : String) (time : ℤ) := LocalOrderView.reportOn 1 status time
  let change (status : String) (time : ℤ) : LiveTrackerLabel ExecutionReportEvent String :=
    .change (orderFromExecutionReport (report status time))
  [.began, change "NEW" 1, .served [orderFromExecutionReport (report "NEW" 1)], .replied,
    change "FILLED" 2, .offer (.payload (.frame (report "FILLED" 2))), .pull,
    .offer (.payload (.frame (report "NEW" 1))), .pull]

/-- The order is filled, and shown as new. -/
theorem run_genuine_repeatedReport :
    ∃ (t : LiveTracker ExecutionReportEvent String) (order : Order),
      (system .ok id Table.empty smallQueue).run (new Table.empty smallQueue) repeatedReport =
          some t ∧ order ∈ t.openOrders ∧ order ∈ t.history ∧ order.isActive = true := by
  obtain ⟨t, order, hrun, horder⟩ : ∃ (t : LiveTracker ExecutionReportEvent String) (order : Order),
      (system .ok id Table.empty smallQueue).run (new Table.empty smallQueue) repeatedReport =
          some t ∧ order ∈ t.openOrders :=
    ⟨_, orderFromExecutionReport (LocalOrderView.reportOn 1 "NEW" 1), rfl, by decide +kernel⟩
  obtain ⟨hmem, hactive, -⟩ := run_genuine rfl (by decide +kernel) hrun order horder
  exact ⟨t, order, hrun, horder, hmem, hactive⟩

/-- The late report of the first state changes nothing, and the one of the second is read here. -/
theorem run_forward_droppedReport :
    ∃ (s t : LiveTracker ExecutionReportEvent String) (order order' : Order),
      (system .ok id Table.empty smallQueue).run (new Table.empty smallQueue)
          (droppedReport.take 4) = some s ∧
        (system .ok id Table.empty smallQueue).run s ((droppedReport.drop 4).take 5 ++ [.pull]) =
          some t ∧
        order ∈ s.openOrders ∧ order' ∈ t.openOrders ∧ order' ≠ order ∧
        order.updateTime ≤ order'.updateTime := by
  obtain ⟨s, t, order, order', hrun, hrun', horder, horder', hne, hid⟩ :
      ∃ (s t : LiveTracker ExecutionReportEvent String) (order order' : Order),
        (system .ok id Table.empty smallQueue).run (new Table.empty smallQueue)
            (droppedReport.take 4) = some s ∧
          (system .ok id Table.empty smallQueue).run s ((droppedReport.drop 4).take 5 ++ [.pull]) =
            some t ∧
          order ∈ s.openOrders ∧ order' ∈ t.openOrders ∧ order' ≠ order ∧
          order'.orderId = order.orderId :=
    ⟨_, _, orderFromExecutionReport (LocalOrderView.reportOn 1 "NEW" 1),
      orderFromExecutionReport (LocalOrderView.reportOn 1 "PARTIALLY_FILLED" 2), rfl, rfl,
      by decide +kernel, by decide +kernel, by decide +kernel, rfl⟩
  have hlisted : ∀ label ∈ (droppedReport.drop 4).take 5 ++ [.pull], label ≠ .replied := by
    simp [droppedReport]
  exact ⟨s, t, order, order', hrun, hrun', horder, horder', hne,
    run_forward rfl (by decide +kernel) hrun hrun' hlisted order horder order' horder' hid⟩

/-- The second state is never read, and the third one is. -/
theorem run_current_droppedReport :
    ∃ t : LiveTracker ExecutionReportEvent String,
      (system .ok id Table.empty smallQueue).run (new Table.empty smallQueue) droppedReport =
          some t ∧ t.get 1 = none := by
  obtain ⟨t, hrun, hlatest, htold⟩ : ∃ t : LiveTracker ExecutionReportEvent String,
      (system .ok id Table.empty smallQueue).run (new Table.empty smallQueue) droppedReport =
          some t ∧
        t.orders.lookup 1 = some (orderFromExecutionReport (LocalOrderView.reportOn 1 "CANCELED" 3)) ∧
        orderFromExecutionReport (LocalOrderView.reportOn 1 "CANCELED" 3) ∈ t.pulled :=
    ⟨_, rfl, by decide +kernel, by decide +kernel⟩
  exact ⟨t, hrun, run_current rfl honest_droppedReport hrun hlatest (.inr htold)⟩

end LiveTracker

end BinanceTh
