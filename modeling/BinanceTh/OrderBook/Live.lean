import BinanceTh.Lib.Tasks
import BinanceTh.Lib.Transition
import BinanceTh.OrderBook.Coverage
import BinanceTh.OrderBook.Ladder
import BinanceTh.Stream.Queue

/-!
# The managed order book

The task of a `ManagedOrderBook` (`orderbook.py`) over the queue of its depth subscription, step by
step: `_decode_depth` of `stream.py` feeds `OrderBookSynchronizer.run`, and each book that is yielded
becomes the one that the reads see. The task awaits in two places, the depth snapshot and the next
item of the queue, and the queue is offered items meanwhile.

At every moment the books yielded so far are those of the synchronizer on the deltas pulled and the
snapshots answered so far (`run_refines`).
-/

namespace BinanceTh

open Tasks Transition

/-- Where the task stands. -/
inductive BookPhase (ε : Type) where
  /-- Its first step is still to come. -/
  | scheduled
  /-- It awaits a snapshot, after `fetched` others; `gap` is the delta that has left a gap. -/
  | fetching (fetched : ℕ) (gap : Option DepthUpdateEvent)
  /-- It awaits the next item of the queue. -/
  | reading (st : SyncState)
  | ended (outcome : Outcome Unit ε)

structure LiveBook (α ε : Type) where
  symbol : String
  queue : SubscriptionQueue α
  phase : BookPhase ε
  /-- `_book`. -/
  book : Option LocalOrderBook
  /-- The snapshots answered, and what was yielded, so far. -/
  answers : List OrderBook
  yields : List Yield
  /-- The deltas that were offered to the queue, and those that were pulled from it. -/
  delivered : List DepthUpdateEvent
  pulled : List DepthUpdateEvent

inductive LiveBookLabel (α ε : Type) where
  /-- The connection offers a payload, a close or a fault. -/
  | offer (item : StreamItem α)
  /-- The first step of the task. -/
  | began
  /-- The depth provider answers or raises. -/
  | answered (reply : Except ε OrderBook)
  /-- The queue's `get` returns. -/
  | pull
  /-- `aclose` cancels the task. -/
  | cancelled

namespace LiveBook

variable {α ε : Type} (validate : α → Except ε DepthUpdateEvent) (webSocketError : String → ε)

/-- `order_book(symbol)`: the task is made, and the subscription. -/
def new (symbol : String) (queue : SubscriptionQueue α) : LiveBook α ε :=
  { symbol, queue, phase := .scheduled, book := none, answers := [], yields := [], delivered := [],
    pulled := [] }

/-- `synced`. -/
def synced (s : LiveBook α ε) : Bool := s.book.isSome

/-- `best_bid`. -/
def bestBid (s : LiveBook α ε) : Option LocalOrderBook.Level := s.book.bind LocalOrderBook.bestBid

/-- `best_ask`. -/
def bestAsk (s : LiveBook α ε) : Option LocalOrderBook.Level := s.book.bind LocalOrderBook.bestAsk

def bids (s : LiveBook α ε) (n : ℤ := 10) : List LocalOrderBook.Level :=
  (s.book.map fun book => book.bidsTop n).getD []

def asks (s : LiveBook α ε) (n : ℤ := 10) : List LocalOrderBook.Level :=
  (s.book.map fun book => book.asksTop n).getD []

/-- The delta that an item decodes to (`DepthUpdateEvent.model_validate`). -/
def deltaOf : StreamItem α → Option DepthUpdateEvent
  | .payload a => (validate a).toOption
  | .closed => none
  | .fault _ => none

/-- The body of `_run`. -/
def yielded (s : LiveBook α ε) (y : Yield) : LiveBook α ε :=
  { s with book := some y.book, yields := s.yields ++ [y] }

/-- The body of the loop over the deltas. -/
def onDelta (s : LiveBook α ε) (st : SyncState) (delta : DepthUpdateEvent) : LiveBook α ε :=
  if delta.finalUpdateId ≤ st.lastU then s
  else if OrderBookSynchronizer.isGap st delta then
    { s with phase := .fetching st.fetched (some delta) }
  else
    let book := st.book.apply delta
    { s.yielded (.applied delta book) with
      phase := .reading { st with book, lastU := book.lastAppliedU, first := false } }

/-- What the task does with an item. -/
def consume (s : LiveBook α ε) (st : SyncState) : StreamItem α → LiveBook α ε
  | .closed => { s with phase := .ended (.returned ()) }
  | .fault message => { s with phase := .ended (.raised (webSocketError message)) }
  | .payload a =>
    match validate a with
    | .error e => { s with phase := .ended (.raised e) }
    | .ok delta => { s with pulled := s.pulled ++ [delta] }.onDelta st delta

def step (s : LiveBook α ε) : LiveBookLabel α ε → Option (LiveBook α ε)
  | .offer item => some { s with
      queue := s.queue.offer item, delivered := s.delivered ++ (deltaOf validate item).toList }
  | .began =>
    match s.phase with
    | .scheduled => some { s with phase := .fetching 0 none }
    | _ => none
  | .answered reply =>
    match s.phase with
    | .fetching fetched _ => some <|
      match OrderBookSynchronizer.reseed s.symbol (fun _ => reply) fetched with
      | .error e => { s with phase := .ended (.raised e) }
      | .ok (snapshot, st) =>
        { s.yielded (.seeded snapshot st.book) with
          phase := .reading st, answers := s.answers ++ [snapshot] }
    | _ => none
  | .pull =>
    match s.phase, s.queue.next with
    | .reading st, some (item, queue) =>
      some ({ s with queue }.consume validate webSocketError st item)
    | _, _ => none
  | .cancelled =>
    match s.phase with
    | .ended _ => none
    | _ => some { s with phase := .ended .cancelled }

def system (symbol : String) (queue : SubscriptionQueue α) :
    System (LiveBook α ε) (LiveBookLabel α ε) where
  init := new symbol queue
  step := step validate webSocketError

/-- The depth provider that gives the answers so far. -/
def provider (answers : List OrderBook) (n : ℕ) : Except Unit OrderBook :=
  match answers[n]? with
  | some snapshot => .ok snapshot
  | none => .error ()

end LiveBook

/-! ## One more delta -/

namespace OrderBookSynchronizer

variable {ε : Type} {symbol : String} {depth depth' : ℕ → Except ε OrderBook}
  {deltas : List DepthUpdateEvent} {delta : DepthUpdateEvent} {ys : List Yield} {st st' : SyncState}
  {snapshot : OrderBook}

/-- `depth'` answers what `depth` does, and possibly more. -/
def Extends (depth depth' : ℕ → Except ε OrderBook) : Prop :=
  ∀ n s, depth n = .ok s → depth' n = .ok s

theorem Extends.reseed (h : Extends depth depth') {n : ℕ} {r : OrderBook × SyncState}
    (hr : OrderBookSynchronizer.reseed symbol depth n = .ok r) :
    OrderBookSynchronizer.reseed symbol depth' n = .ok r := by
  obtain ⟨s, st⟩ := r
  obtain ⟨hs, rfl⟩ := reseed_ok hr
  unfold OrderBookSynchronizer.reseed
  rw [h n s hs]
  rfl

theorem Extends.onDelta (h : Extends depth depth') {r : Option Yield × SyncState}
    (hr : OrderBookSynchronizer.onDelta symbol depth st delta = .ok r) :
    OrderBookSynchronizer.onDelta symbol depth' st delta = .ok r := by
  unfold OrderBookSynchronizer.onDelta at hr ⊢
  split
  · next hstale => rwa [if_pos hstale] at hr
  · next hfresh =>
    rw [if_neg hfresh] at hr
    split
    · next hgap =>
      rw [if_pos hgap] at hr
      obtain ⟨r', hr', hr⟩ := bind_eq_ok_iff.1 hr
      exact bind_eq_ok_iff.2 ⟨r', h.reseed hr', hr⟩
    · next hgap => rwa [if_neg hgap] at hr

theorem Extends.loop (h : Extends depth depth') :
    ∀ {deltas : List DepthUpdateEvent} {st : SyncState} {ys : List Yield},
      OrderBookSynchronizer.loop symbol depth st deltas = (ys, .ok ()) →
        OrderBookSynchronizer.loop symbol depth' st deltas = (ys, .ok ()) := by
  intro deltas
  induction deltas with
  | nil => exact fun hloop => hloop
  | cons delta deltas ih =>
    intro st ys hloop
    rw [OrderBookSynchronizer.loop] at hloop ⊢
    cases hr : OrderBookSynchronizer.onDelta symbol depth st delta with
    | error e =>
      rw [hr] at hloop
      cases (Prod.mk.inj hloop).2
    | ok r =>
      obtain ⟨y, st₁⟩ := r
      rw [hr] at hloop
      rw [h.onDelta hr]
      obtain ⟨rfl, hend⟩ := Prod.mk.inj hloop
      have hrest := ih (Prod.ext rfl hend)
      dsimp only
      rw [hrest]

theorem Extends.after (h : Extends depth depth') :
    ∀ {deltas : List DepthUpdateEvent} {st : SyncState},
      OrderBookSynchronizer.after symbol depth st deltas = .ok st' →
        OrderBookSynchronizer.after symbol depth' st deltas = .ok st' := by
  intro deltas
  induction deltas with
  | nil => exact fun hafter => hafter
  | cons delta deltas ih =>
    intro st hafter
    obtain ⟨y, st₁, hstep, hafter⟩ := after_cons_iff.1 hafter
    exact after_cons_iff.2 ⟨y, st₁, h.onDelta hstep, ih hafter⟩

/-- The synchronizer has read the deltas and stands in `st`. -/
structure Ran (symbol : String) (depth : ℕ → Except ε OrderBook) (deltas : List DepthUpdateEvent)
    (ys : List Yield) (st : SyncState) : Prop where
  run : OrderBookSynchronizer.run symbol depth deltas = (ys, .ok ())
  state : stateAfter symbol depth deltas = .ok st
  last : ys.getLast?.map Yield.book = some st.book
  lastU : st.lastU = st.book.lastAppliedU

theorem Ran.extends (h : Ran symbol depth deltas ys st) (hdepth : Extends depth depth') :
    Ran symbol depth' deltas ys st where
  run := by
    have hrun := h.run
    unfold OrderBookSynchronizer.run at hrun ⊢
    cases hr : reseed symbol depth 0 with
    | error e =>
      rw [hr] at hrun
      cases (Prod.mk.inj hrun).2
    | ok r =>
      obtain ⟨s, st₁⟩ := r
      rw [hr] at hrun
      rw [hdepth.reseed hr]
      obtain ⟨rfl, hend⟩ := Prod.mk.inj hrun
      have hrest := hdepth.loop (Prod.ext rfl hend)
      dsimp only
      rw [hrest]
  state := by
    obtain ⟨r, hr, hafter⟩ := bind_eq_ok_iff.1 h.state
    exact bind_eq_ok_iff.2 ⟨r, hdepth.reseed hr, hdepth.after hafter⟩
  last := h.last
  lastU := h.lastU

theorem ran_seed (hs : depth 0 = .ok snapshot) :
    Ran symbol depth [] [.seeded snapshot ((LocalOrderBook.new symbol).seed snapshot)]
      ⟨1, (LocalOrderBook.new symbol).seed snapshot, snapshot.lastUpdateId, true⟩ := by
  have hr : reseed symbol depth 0 = .ok (snapshot,
      ⟨1, (LocalOrderBook.new symbol).seed snapshot, snapshot.lastUpdateId, true⟩) := by
    unfold reseed
    rw [hs]
    rfl
  refine ⟨?_, bind_eq_ok_iff.2 ⟨_, hr, rfl⟩, rfl, rfl⟩
  unfold OrderBookSynchronizer.run
  rw [hr]
  rfl

/-- The loop with one more delta. -/
theorem loop_concat : ∀ {deltas : List DepthUpdateEvent} {st st' : SyncState} {ys : List Yield},
    loop symbol depth st deltas = (ys, .ok ()) → after symbol depth st deltas = .ok st' →
      loop symbol depth st (deltas ++ [delta]) =
        match onDelta symbol depth st' delta with
        | .error e => (ys, .error e)
        | .ok (y, _) => (ys ++ y.toList, .ok ()) := by
  intro deltas
  induction deltas with
  | nil =>
    intro st st' ys hloop hafter
    obtain ⟨rfl, -⟩ := Prod.mk.inj hloop
    obtain rfl := Except.ok.inj hafter
    rw [List.nil_append, loop]
    cases onDelta symbol depth st delta with
    | error e => rfl
    | ok r => simp [loop]
  | cons first deltas ih =>
    intro st st' ys hloop hafter
    obtain ⟨y, st₁, hstep, hafter⟩ := after_cons_iff.1 hafter
    rw [loop, hstep] at hloop
    rw [List.cons_append, loop, hstep]
    obtain ⟨rfl, hend⟩ := Prod.mk.inj hloop
    dsimp only
    rw [ih (Prod.ext rfl hend) hafter]
    cases onDelta symbol depth st' delta with
    | error e => rfl
    | ok r => simp only [List.append_assoc]

/-- A run with one more delta. -/
theorem Ran.concat (h : Ran symbol depth deltas ys st) (delta : DepthUpdateEvent) :
    OrderBookSynchronizer.run symbol depth (deltas ++ [delta]) =
        (match onDelta symbol depth st delta with
        | .error e => (ys, .error e)
        | .ok (y, _) => (ys ++ y.toList, .ok ())) ∧
      stateAfter symbol depth (deltas ++ [delta]) = (onDelta symbol depth st delta).map Prod.snd := by
  constructor
  · have hrun := h.run
    obtain ⟨r, hr, hafter⟩ := bind_eq_ok_iff.1 h.state
    unfold OrderBookSynchronizer.run at hrun ⊢
    obtain ⟨s, st₁⟩ := r
    rw [hr] at hrun ⊢
    obtain ⟨rfl, hend⟩ := Prod.mk.inj hrun
    dsimp only
    rw [loop_concat (Prod.ext rfl hend) hafter]
    cases onDelta symbol depth st delta <;> rfl
  · rw [stateAfter_append, h.state]
    change after symbol depth st [delta] = _
    rw [after]
    cases onDelta symbol depth st delta <;> rfl

theorem Ran.stale (h : Ran symbol depth deltas ys st) (hstale : delta.finalUpdateId ≤ st.lastU) :
    Ran symbol depth (deltas ++ [delta]) ys st := by
  have hstep : onDelta symbol depth st delta = .ok (none, st) := by
    unfold onDelta
    rw [if_pos hstale]
    rfl
  obtain ⟨hrun, hstate⟩ := h.concat delta
  rw [hstep] at hrun hstate
  exact ⟨by simpa using hrun, hstate, h.last, h.lastU⟩

theorem Ran.applied (h : Ran symbol depth deltas ys st) (hfresh : ¬ delta.finalUpdateId ≤ st.lastU)
    (hgap : ¬ isGap st delta = true) :
    Ran symbol depth (deltas ++ [delta]) (ys ++ [.applied delta (st.book.apply delta)])
      (OrderBookSynchronizer.applied st delta) := by
  have hstep : onDelta symbol depth st delta =
      .ok (some (.applied delta (st.book.apply delta)), OrderBookSynchronizer.applied st delta) := by
    unfold onDelta
    rw [if_neg hfresh, if_neg hgap]
    rfl
  obtain ⟨hrun, hstate⟩ := h.concat delta
  rw [hstep] at hrun hstate
  exact ⟨hrun, hstate, by rw [List.getLast?_concat]; rfl, rfl⟩

/-- A delta that leaves a gap, once the new snapshot is there. -/
theorem Ran.reseeded (h : Ran symbol depth deltas ys st)
    (hfresh : ¬ delta.finalUpdateId ≤ st.lastU) (hgap : isGap st delta = true)
    (hs : depth st.fetched = .ok snapshot) :
    Ran symbol depth (deltas ++ [delta])
      (ys ++ [.seeded snapshot ((LocalOrderBook.new symbol).seed snapshot)])
      ⟨st.fetched + 1, (LocalOrderBook.new symbol).seed snapshot, snapshot.lastUpdateId, true⟩ := by
  have hstep : onDelta symbol depth st delta =
      .ok (some (.seeded snapshot ((LocalOrderBook.new symbol).seed snapshot)),
        ⟨st.fetched + 1, (LocalOrderBook.new symbol).seed snapshot, snapshot.lastUpdateId, true⟩) := by
    unfold onDelta reseed
    rw [if_neg hfresh, if_pos hgap, hs]
    rfl
  obtain ⟨hrun, hstate⟩ := h.concat delta
  rw [hstep] at hrun hstate
  exact ⟨hrun, hstate, by rw [List.getLast?_concat]; rfl, rfl⟩

/-- The same before that. -/
theorem Ran.starved (h : Ran symbol depth deltas ys st) {e : ε}
    (hfresh : ¬ delta.finalUpdateId ≤ st.lastU) (hgap : isGap st delta = true)
    (he : depth st.fetched = .error e) :
    OrderBookSynchronizer.run symbol depth (deltas ++ [delta]) = (ys, .error e) := by
  have hstep : onDelta symbol depth st delta = .error e := by
    unfold onDelta reseed
    rw [if_neg hfresh, if_pos hgap, he]
    rfl
  rw [(h.concat delta).1, hstep]

end OrderBookSynchronizer

/-! ## The task against the synchronizer -/

namespace LiveBook

open OrderBookSynchronizer (Extends Ran ran_seed)

variable {α ε : Type} {validate : α → Except ε DepthUpdateEvent} {webSocketError : String → ε}
  {symbol : String} {queue : SubscriptionQueue α} {s s' t : LiveBook α ε}
  {label : LiveBookLabel α ε} {labels : List (LiveBookLabel α ε)} {answers : List OrderBook}

theorem step_answered {reply : Except ε OrderBook}
    (h : s.step validate webSocketError (.answered reply) = some s') :
    ∃ fetched gap, s.phase = .fetching fetched gap ∧
      ((∃ e, reply = .error e ∧ s' = { s with phase := .ended (.raised e) }) ∨
        ∃ snapshot, reply = .ok snapshot ∧
          s' = { s.yielded (.seeded snapshot ((LocalOrderBook.new s.symbol).seed snapshot)) with
            phase := .reading ⟨fetched + 1, (LocalOrderBook.new s.symbol).seed snapshot,
              snapshot.lastUpdateId, true⟩
            answers := s.answers ++ [snapshot] }) := by
  rw [step] at h
  split at h
  · next fetched gap hphase =>
    obtain rfl := Option.some.inj h
    refine ⟨fetched, gap, hphase, ?_⟩
    cases reply with
    | error e => exact .inl ⟨e, rfl, rfl⟩
    | ok snapshot => exact .inr ⟨snapshot, rfl, rfl⟩
  · cases h

theorem step_pull (h : s.step validate webSocketError .pull = some s') :
    ∃ st item items, s.phase = .reading st ∧ s.queue.items = item :: items ∧
      s' = { s with queue :=
        { s.queue with items, ended := s.queue.ended || item.isEnd } }.consume validate
          webSocketError st item := by
  rw [step] at h
  split at h
  · next st item queue hphase hnext =>
    obtain rfl := Option.some.inj h
    unfold SubscriptionQueue.next at hnext
    split at hnext
    · cases hnext
    · next head items hitems =>
      obtain ⟨rfl, rfl⟩ := Prod.mk.inj (Option.some.inj hnext)
      exact ⟨st, head, items, hphase, hitems, rfl⟩
  · cases h

theorem provider_concat (answers : List OrderBook) (snapshot : OrderBook) :
    Extends (provider answers) (provider (answers ++ [snapshot])) ∧
      provider (answers ++ [snapshot]) answers.length = .ok snapshot := by
  refine ⟨fun n s hs => ?_, ?_⟩
  · unfold provider at hs ⊢
    cases hget : answers[n]? with
    | none =>
      rw [hget] at hs
      cases hs
    | some s' =>
      obtain ⟨hlt, -⟩ := List.getElem?_eq_some_iff.1 hget
      rw [hget] at hs
      rwa [List.getElem?_append_left hlt, hget]
  · rw [provider, List.getElem?_concat_length]

/-- The next snapshot is not there yet. -/
theorem provider_length (answers : List OrderBook) :
    provider answers answers.length = .error () := by
  rw [provider, List.getElem?_eq_none le_rfl]

/-- No snapshot, and so nothing else. -/
def Blank (s : LiveBook α ε) : Prop := s.answers = [] ∧ s.pulled = [] ∧ s.yields = []

/-- The delta was pulled last and has left a gap. -/
def Gapped (s : LiveBook α ε) (delta : DepthUpdateEvent) : Prop :=
  ∃ before st, s.pulled = before ++ [delta] ∧
    Ran s.symbol (provider s.answers) before s.yields st ∧ st.fetched = s.answers.length ∧
    ¬ delta.finalUpdateId ≤ st.lastU ∧ OrderBookSynchronizer.isGap st delta = true

/-- Where the task stands, in terms of the synchronizer. -/
def Stands (s : LiveBook α ε) : Prop :=
  match s.phase with
  | .scheduled => s.Blank
  | .fetching fetched none => fetched = s.answers.length ∧ s.Blank
  | .fetching fetched (some delta) => fetched = s.answers.length ∧ s.Gapped delta
  | .reading st => Ran s.symbol (provider s.answers) s.pulled s.yields st ∧
      st.fetched = s.answers.length
  | .ended outcome =>
    (OrderBookSynchronizer.run s.symbol (provider s.answers) s.pulled).1 = s.yields ∧
      (outcome = .returned () →
        (OrderBookSynchronizer.run s.symbol (provider s.answers) s.pulled).2 = .ok ())

/-- What is kept from step to step. -/
structure Refines (s : LiveBook α ε) : Prop where
  stands : s.Stands
  book : s.book = s.yields.getLast?.map Yield.book

theorem refines_new (symbol : String) (queue : SubscriptionQueue α) :
    (new symbol queue : LiveBook α ε).Refines := ⟨⟨rfl, rfl, rfl⟩, rfl⟩

theorem Blank.run_eq (h : s.Blank) :
    OrderBookSynchronizer.run s.symbol (provider s.answers) s.pulled = (s.yields, .error ()) := by
  obtain ⟨hanswers, hpulled, hyields⟩ := h
  rw [hanswers, hpulled, hyields]
  rfl

theorem Gapped.run_eq {delta : DepthUpdateEvent} (h : s.Gapped delta) :
    OrderBookSynchronizer.run s.symbol (provider s.answers) s.pulled = (s.yields, .error ()) := by
  obtain ⟨before, st, hpulled, hran, hfetched, hfresh, hgap⟩ := h
  rw [hpulled]
  exact hran.starved hfresh hgap (by rw [hfetched, provider_length])

/-- **What was yielded** is what the synchronizer yields. -/
theorem Stands.yields_eq (h : s.Stands) :
    (OrderBookSynchronizer.run s.symbol (provider s.answers) s.pulled).1 = s.yields := by
  unfold Stands at h
  split at h
  · rw [h.run_eq]
  · rw [h.2.run_eq]
  · rw [h.2.run_eq]
  · rw [h.1.run]
  · exact h.1

/-- The task has failed, or is cancelled. -/
theorem Stands.ended (h : s.Stands) {outcome : Outcome Unit ε} (houtcome : outcome ≠ .returned ()) :
    Stands { s with phase := .ended outcome } :=
  ⟨h.yields_eq, fun heq => absurd heq houtcome⟩

theorem Refines.onDelta {st : SyncState} {delta : DepthUpdateEvent}
    (hbook : s.book = s.yields.getLast?.map Yield.book)
    (hphase : s.phase = .reading st) (hfetched : st.fetched = s.answers.length)
    (hran : Ran s.symbol (provider s.answers) s.pulled s.yields st) :
    Refines ({ s with pulled := s.pulled ++ [delta] }.onDelta st delta) := by
  unfold LiveBook.onDelta
  split
  · next hstale =>
    refine ⟨?_, hbook⟩
    unfold Stands
    dsimp only
    rw [hphase]
    exact ⟨hran.stale hstale, hfetched⟩
  · next hfresh =>
    split
    · next hgap =>
      exact ⟨⟨hfetched, s.pulled, st, rfl, hran, hfetched, hfresh, hgap⟩, hbook⟩
    · next hgap =>
      exact ⟨⟨hran.applied hfresh hgap, hfetched⟩, by simp [yielded]⟩

theorem Refines.answered {reply : Except ε OrderBook} (h : s.Refines)
    (hstep : s.step validate webSocketError (.answered reply) = some s') : s'.Refines := by
  have hstands := h.stands
  obtain ⟨fetched, gap, hphase, ⟨e, -, rfl⟩ | ⟨snapshot, -, rfl⟩⟩ := step_answered hstep
  · exact ⟨h.stands.ended (by simp), h.book⟩
  · unfold Stands at hstands
    rw [hphase] at hstands
    obtain ⟨hextends, hanswer⟩ := provider_concat s.answers snapshot
    refine ⟨?_, by simp [yielded]⟩
    cases gap with
    | none =>
      obtain ⟨rfl, hanswers, hpulled, hyields⟩ := hstands
      rw [hanswers] at hanswer
      refine ⟨?_, by simp⟩
      simp only [yielded, hanswers, hpulled, hyields]
      exact ran_seed hanswer
    | some delta =>
      obtain ⟨rfl, before, st, hpulled, hran, hfetched, hfresh, hgap⟩ := hstands
      refine ⟨?_, by simp⟩
      simp only [yielded, hpulled]
      rw [← hfetched] at hanswer ⊢
      exact (hran.extends hextends).reseeded hfresh hgap hanswer

theorem Refines.pull (h : s.Refines)
    (hstep : s.step validate webSocketError .pull = some s') : s'.Refines := by
  obtain ⟨st, item, items, hphase, -, rfl⟩ := step_pull hstep
  have hstands := h.stands
  unfold Stands at hstands
  rw [hphase] at hstands
  obtain ⟨hran, hfetched⟩ := hstands
  -- the queue alone has changed when the item is looked at
  generalize { s.queue with items, ended := s.queue.ended || item.isEnd } = queue
  have hover {outcome : Outcome Unit ε} (houtcome : outcome ≠ .returned ()) :
      Refines { s with queue, phase := .ended outcome } := ⟨h.stands.ended houtcome, h.book⟩
  cases item with
  | closed => exact ⟨⟨h.stands.yields_eq, fun _ => congrArg Prod.snd hran.run⟩, h.book⟩
  | fault message => exact hover (by simp)
  | payload a =>
    unfold consume
    dsimp only
    split
    · exact hover (by simp)
    · exact Refines.onDelta (s := { s with queue }) h.book hphase hfetched hran

/-- **One step** of the task or of its queue. -/
theorem Refines.step (h : s.Refines) (hstep : s.step validate webSocketError label = some s') :
    s'.Refines := by
  cases label with
  | offer item =>
    obtain rfl := Option.some.inj hstep
    exact ⟨h.stands, h.book⟩
  | began =>
    rw [LiveBook.step] at hstep
    split at hstep
    · next hphase =>
      obtain rfl := Option.some.inj hstep
      have hstands := h.stands
      unfold Stands at hstands
      rw [hphase] at hstands
      exact ⟨⟨by rw [hstands.1]; rfl, hstands⟩, h.book⟩
    · cases hstep
  | answered reply => exact h.answered hstep
  | pull => exact h.pull hstep
  | cancelled =>
    rw [LiveBook.step] at hstep
    split at hstep
    · cases hstep
    · obtain rfl := Option.some.inj hstep
      exact ⟨h.stands.ended (by simp), h.book⟩

theorem refines_of_run
    (hrun : (system validate webSocketError symbol queue).run (new symbol queue) labels = some t) :
    t.Refines :=
  System.run_invariant (C := fun _ _ => True) (fun _ _ _ hI _ hstep => hI.step hstep) labels
    (refines_new symbol queue)
    (System.guarded_of_forall (P := fun _ => True) labels (fun _ _ => trivial) _) hrun

/-! ### What is pulled -/

theorem consume_frame (validate : α → Except ε DepthUpdateEvent) (webSocketError : String → ε)
    (s : LiveBook α ε) (st : SyncState) (item : StreamItem α) :
    (s.consume validate webSocketError st item).queue = s.queue ∧
      (s.consume validate webSocketError st item).delivered = s.delivered ∧
      (s.consume validate webSocketError st item).answers = s.answers ∧
      (s.consume validate webSocketError st item).pulled =
        s.pulled ++ (deltaOf validate item).toList := by
  cases item with
  | closed => exact ⟨rfl, rfl, rfl, (List.append_nil _).symm⟩
  | fault message => exact ⟨rfl, rfl, rfl, (List.append_nil _).symm⟩
  | payload a =>
    rw [consume, deltaOf]
    cases validate a with
    | error e => exact ⟨rfl, rfl, rfl, (List.append_nil _).symm⟩
    | ok delta =>
      dsimp only
      unfold LiveBook.onDelta
      split
      · exact ⟨rfl, rfl, rfl, rfl⟩
      · split <;> exact ⟨rfl, rfl, rfl, rfl⟩

/-- The deltas pulled, and then those in the queue, were offered in this order. -/
def Fed (validate : α → Except ε DepthUpdateEvent) (s : LiveBook α ε) : Prop :=
  (s.pulled ++ s.queue.items.filterMap (deltaOf validate)).Sublist s.delivered

theorem Fed.step (h : s.Fed validate)
    (hstep : s.step validate webSocketError label = some s') : s'.Fed validate := by
  cases label with
  | offer item =>
    obtain rfl := Option.some.inj hstep
    have hitem : [item].filterMap (deltaOf validate) = (deltaOf validate item).toList := by
      cases hitem : deltaOf validate item <;> simp [hitem]
    unfold Fed at h ⊢
    rw [SubscriptionQueue.items_offer, List.filterMap_append, hitem, ← List.append_assoc]
    refine List.Sublist.append ?_ (List.Sublist.refl _)
    split
    · -- the oldest item is dropped
      exact ((List.Sublist.refl _).append ((List.tail_sublist _).filterMap _)).trans h
    · exact h
  | began =>
    rw [LiveBook.step] at hstep
    split at hstep
    · obtain rfl := Option.some.inj hstep
      exact h
    · cases hstep
  | answered reply =>
    obtain ⟨fetched, gap, -, ⟨e, -, rfl⟩ | ⟨snapshot, -, rfl⟩⟩ := step_answered hstep
    · exact h
    · exact h
  | pull =>
    obtain ⟨st, item, items, -, hitems, rfl⟩ := step_pull hstep
    obtain ⟨hqueue, hdelivered, -, hpulled⟩ := consume_frame validate webSocketError
      { s with queue := { s.queue with items, ended := s.queue.ended || item.isEnd } } st item
    unfold Fed at h ⊢
    rw [hqueue, hdelivered, hpulled]
    rw [hitems] at h
    cases hdelta : deltaOf validate item with
    | none =>
      rw [List.filterMap_cons_none hdelta] at h
      simpa using h
    | some delta =>
      rw [List.filterMap_cons_some hdelta] at h
      simpa using h
  | cancelled =>
    rw [LiveBook.step] at hstep
    split at hstep
    · cases hstep
    · obtain rfl := Option.some.inj hstep
      exact h

theorem fed_of_run
    (hrun : (system validate webSocketError symbol queue).run (new symbol queue) labels = some t)
    (hqueue : queue.items = []) : t.Fed validate := by
  refine System.run_invariant (C := fun _ _ => True) (fun _ _ _ hI _ hstep => hI.step hstep) labels ?_
    (System.guarded_of_forall (P := fun _ => True) labels (fun _ _ => trivial) _) hrun
  unfold Fed new
  rw [hqueue]
  exact List.Sublist.refl _

/-- **The task refines the synchronizer.** However the queue's offers, the depth provider's answers
and the task's steps interleave: what was pulled are deltas that were offered, in their order; what
was yielded is what `OrderBookSynchronizer.run` yields on them with the answers so far, and the reads
see the book yielded last. A task that waits for a delta stands where that run ends, one that waits
for a snapshot where it has no answer. -/
theorem run_refines (hqueue : queue.items = [])
    (hrun : (system validate webSocketError symbol queue).run (new symbol queue) labels = some t) :
    t.pulled.Sublist t.delivered ∧ t.book = t.yields.getLast?.map Yield.book ∧
      let batch := OrderBookSynchronizer.run t.symbol (provider t.answers) t.pulled
      batch.1 = t.yields ∧
      (t.phase = .ended (.returned ()) → batch.2 = .ok ()) ∧
      (∀ st, t.phase = .reading st → batch.2 = .ok () ∧
        OrderBookSynchronizer.stateAfter t.symbol (provider t.answers) t.pulled = .ok st) ∧
      ∀ fetched gap, t.phase = .fetching fetched gap →
        batch.2 = .error () ∧ fetched = t.answers.length := by
  have hrefines := refines_of_run hrun
  have hstands := hrefines.stands
  refine ⟨(List.sublist_append_left _ _).trans (fed_of_run hrun hqueue), hrefines.book,
    hstands.yields_eq, fun hphase => ?_, fun st hphase => ?_, fun fetched gap hphase => ?_⟩
  · unfold Stands at hstands
    rw [hphase] at hstands
    exact hstands.2 rfl
  · unfold Stands at hstands
    rw [hphase] at hstands
    exact ⟨congrArg Prod.snd hstands.1.run, hstands.1.state⟩
  · unfold Stands at hstands
    rw [hphase] at hstands
    cases gap with
    | none => exact ⟨congrArg Prod.snd hstands.2.run_eq, hstands.1⟩
    | some delta => exact ⟨congrArg Prod.snd hstands.2.run_eq, hstands.1⟩

/-- A queue of one place: the delta for 101 is dropped, and the one for 102 leaves a gap. -/
def droppedDelta : List (LiveBookLabel DepthUpdateEvent String) :=
  [.began, .answered (.ok ⟨100, [⟨10, 1⟩], []⟩), .offer (.payload ⟨101, 101, [⟨10, 2⟩], []⟩),
    .offer (.payload ⟨102, 102, [], []⟩), .pull, .answered (.ok ⟨102, [⟨10, 2⟩], []⟩)]

theorem run_refines_droppedDelta :
    ∃ t, (system .ok id "BTCTHB" { maxsize := 1 }).run (new "BTCTHB" { maxsize := 1 })
        droppedDelta = some t ∧
      (OrderBookSynchronizer.run t.symbol (provider t.answers) t.pulled).1 = t.yields ∧
      t.yields.length = 2 := by
  obtain ⟨t, hrun, hlength⟩ : ∃ t, (system .ok id "BTCTHB" { maxsize := 1 }).run
      (new "BTCTHB" { maxsize := 1 }) droppedDelta = some t ∧ t.yields.length = 2 := ⟨_, rfl, rfl⟩
  obtain ⟨-, -, hyields, -⟩ := run_refines rfl hrun
  exact ⟨t, hrun, hyields, hlength⟩

end LiveBook

end BinanceTh
