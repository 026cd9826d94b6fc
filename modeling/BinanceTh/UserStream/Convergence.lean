import BinanceTh.UserStream

/-!
# Convergence of the order tracker

Over the orders of one symbol type the tracker's view is a snapshot and the reports still queued,
and once it has read the queue it agrees with the exchange, if every change since the snapshot was
reported. A reconnect puts a marker into the queue for the changes it has missed. A first connect
does not, so that the orders of its symbol type must not have changed since the listing.
-/

namespace BinanceTh

open Transition Versioned LocalOrderView

/-! ## The reports of a queue -/

def Item.report? : Item → Option ExecutionReportEvent
  | .report event => some event
  | _ => none

theorem mem_of_mem_concat {queue : List Item} {x item : Item} (h : x ∈ queue ++ [item])
    (hne : x ≠ item) : x ∈ queue := by
  rcases List.mem_append.1 h with h | h
  · exact h
  · exact absurd (List.mem_singleton.1 h) hne

/-- The queued states of one order. -/
def queued (queue : List Item) (orderId : ℤ) : List Order :=
  statesOf orderId (queue.filterMap Item.report?)

theorem queued_append (queue₁ queue₂ : List Item) (orderId : ℤ) :
    queued (queue₁ ++ queue₂) orderId = queued queue₁ orderId ++ queued queue₂ orderId := by
  unfold queued statesOf
  rw [List.filterMap_append, List.map_append, List.filter_append]

theorem queued_report (event : ExecutionReportEvent) (orderId : ℤ) :
    queued [.report event] orderId =
      if (orderFromExecutionReport event).orderId = orderId then [orderFromExecutionReport event]
      else [] := by
  have hfilter : queued [.report event] orderId =
      [orderFromExecutionReport event].filter (·.orderId = orderId) := rfl
  rw [hfilter]
  split <;> simp [*]

theorem mem_queued {queue : List Item} {orderId : ℤ} {order : Order}
    (h : order ∈ queued queue orderId) :
    ∃ event, .report event ∈ queue ∧ orderFromExecutionReport event = order ∧
      event.orderId = orderId := by
  obtain ⟨hmem, hid⟩ := List.mem_filter.1 h
  obtain ⟨event, hevent, rfl⟩ := List.mem_map.1 hmem
  obtain ⟨item, hitem, hreport⟩ := List.mem_filterMap.1 hevent
  cases item with
  | report e =>
    cases hreport
    exact ⟨event, hitem, rfl, of_decide_eq_true hid⟩
  | reconnected => cases hreport
  | fault message => cases hreport

namespace UserStream

/-! ## The invariant -/

/-- The order as the exchange lists it, if it is open. -/
def current (s : UserStream) (orderId : ℤ) : Option Order :=
  (s.orders.lookup orderId).bind reading.keep

/-- What the queued reports will be applied to. -/
def base (s : UserStream) : LocalOrderView :=
  match s.tracker.phase with
  | .answered => seed s.listing
  | _ => s.tracker.view.getD Table.empty

/-- The tracker reads its queue over the last listing, and no marker is to come. -/
def ReliesOnListing (s : UserStream) : Prop :=
  (s.tracker.phase = .answered ∨ s.tracker.phase = .reading) ∧ .reconnected ∉ s.queue

/-- The event reports a state of an order of the exchange. -/
def Reports (s : UserStream) (event : ExecutionReportEvent) : Prop :=
  ∃ latest, s.orders.lookup event.orderId = some latest ∧ latest.symbol = event.symbol ∧
    reading.IsLatest latest (orderFromExecutionReport event)

/-- What is true of the symbol of the order with this id, if there is one. -/
def OfSymbol (s : UserStream) (orderId : ℤ) (P : String → Prop) : Prop :=
  ∀ order, s.orders.lookup orderId = some order → P order.symbol

variable (kindOf : String → SymbolType)

/-- The socket for the symbol. -/
def conn (s : UserStream) (symbol : String) : UserDataConnection := s.conns (kindOf symbol)

/-- What the queue tells of the exchange, whatever the tracker does with it. -/
structure QueueInv (s : UserStream) : Prop where
  first : ∀ k, (s.conns k).isConnected = true → (s.conns k).first = false
  listed : ∀ order ∈ s.listing, ∃ latest,
    s.orders.lookup order.orderId = some latest ∧ latest.symbol = order.symbol
  reports : ∀ event, .report event ∈ s.queue → s.Reports event
  /-- A socket that has never been connected has reported nothing. -/
  silent : ∀ event, .report event ∈ s.queue → (s.conn kindOf event.symbol).first = false
  /-- Since the last marker, a connected socket has reported every change. -/
  last : ∀ post, post <:+ s.queue → .reconnected ∉ post → ∀ orderId latest,
    s.orders.lookup orderId = some latest → (s.conn kindOf latest.symbol).isConnected = true →
    ∀ order ∈ (queued post orderId).getLast?, order = latest

structure Inv (s : UserStream) : Prop extends s.QueueInv kindOf where
  unstarted : s.tracker.phase = .unstarted → s.queue = []
  synced : s.tracker.phase = .reading → ∃ view, s.tracker.view = some view
  fault : (∃ message, .fault message ∈ s.queue) ∨ s.tracker.phase = .ended →
    ∃ k, (s.conns k).phase = .ended
  /-- The queue leads to the current state of the orders whose socket is connected. -/
  leads : s.ReliesOnListing → ∀ orderId,
    s.OfSymbol orderId (fun symbol => (s.conn kindOf symbol).isConnected = true) →
    (queued s.queue orderId).foldl reading.absorb (s.base.get orderId) = s.current orderId
  /-- The orders whose socket has never been connected are those of the listing. -/
  untouched : s.ReliesOnListing → ∀ orderId,
    s.OfSymbol orderId (fun symbol => (s.conn kindOf symbol).first = true) →
    s.base.get orderId = (seed s.listing).get orderId

variable {kindOf} {s : UserStream} {order : Order}

theorem ofSymbol_iff {orderId : ℤ} {P : String → Prop}
    (h : s.orders.lookup orderId = some order) : s.OfSymbol orderId P ↔ P order.symbol := by
  refine ⟨fun hall => hall order h, fun hP latest hlatest => ?_⟩
  obtain rfl := Option.some.inj (h.symm.trans hlatest)
  exact hP

theorem ofSymbol_of_none {orderId : ℤ} {P : String → Prop}
    (h : s.orders.lookup orderId = none) : s.OfSymbol orderId P := by
  intro latest hlatest
  cases h.symm.trans hlatest

theorem mem_openOrders_iff : order ∈ s.openOrders ↔
    s.orders.lookup order.orderId = some order ∧ order.isActive = true := by
  unfold openOrders
  rw [List.mem_filter, Table.mem_values_iff]

theorem current_eq_some_iff {orderId : ℤ} : s.current orderId = some order ↔
    s.orders.lookup orderId = some order ∧ order.isActive = true := by
  unfold current
  rw [Option.bind_eq_some_iff, Order.isActive_eq, Bool.not_eq_true']
  constructor
  · rintro ⟨latest, hlookup, hkeep⟩
    obtain ⟨hfinal, rfl⟩ := (Reading.keep_eq_some_iff reading).1 hkeep
    exact ⟨hlookup, hfinal⟩
  · rintro ⟨hlookup, hfinal⟩
    exact ⟨order, hlookup, (Reading.keep_eq_some_iff reading).2 ⟨hfinal, rfl⟩⟩

/-- A listing that has the open orders has the current state of each. -/
theorem get_seed_listing {orders : List Order} {orderId : ℤ}
    (horders : ∀ order ∈ orders, order.orderId = orderId → order ∈ s.openOrders)
    (hopen : ∀ order ∈ s.openOrders, order.orderId = orderId → order ∈ orders) :
    (seed orders).get orderId = s.current orderId := by
  refine get_seed (fun order hmem hid => ?_) fun order horder => ?_
  · rw [← hid]
    exact (mem_openOrders_iff.1 (horders order hmem hid)).1
  · have hid : order.orderId = orderId := Table.key_of_lookup horder
    refine ⟨hid, fun hactive => hopen order (mem_openOrders_iff.2 ⟨?_, hactive⟩) hid⟩
    rw [hid]
    exact horder

theorem ReliesOnListing.of_enqueue {items : List Item} (h : (s.enqueue items).ReliesOnListing) :
    s.ReliesOnListing := ⟨h.1, mt (List.mem_append_left items) h.2⟩

/-- There is no report of an order whose socket has never been connected. -/
theorem QueueInv.queued_eq_nil {orderId : ℤ} (h : s.QueueInv kindOf)
    (hfirst : s.OfSymbol orderId fun symbol => (s.conn kindOf symbol).first = true) :
    queued s.queue orderId = [] := by
  refine List.eq_nil_iff_forall_not_mem.2 fun order horder => ?_
  obtain ⟨event, hmem, -, rfl⟩ := mem_queued horder
  obtain ⟨latest, hlatest, hsymbol, -⟩ := h.reports event hmem
  have hnever := hfirst latest hlatest
  rw [hsymbol, h.silent event hmem] at hnever
  cases hnever

theorem QueueInv.of_suffix {queue : List Item} (h : s.QueueInv kindOf)
    (hqueue : queue <:+ s.queue) : QueueInv kindOf { s with queue } where
  first := h.first
  listed := h.listed
  reports event hevent := h.reports event (hqueue.subset hevent)
  silent event hevent := h.silent event (hqueue.subset hevent)
  last post hpost := h.last post (hpost.trans hqueue)

/-- Before there is a tracker there is nothing to say about its queue. -/
theorem Inv.of_unstarted (hphase : s.tracker.phase = .unstarted) (hqueue : s.queue = [])
    (hfirst : ∀ k, (s.conns k).isConnected = true → (s.conns k).first = false)
    (hlisted : ∀ order ∈ s.listing, ∃ latest,
      s.orders.lookup order.orderId = some latest ∧ latest.symbol = order.symbol) :
    s.Inv kindOf where
  first := hfirst
  unstarted _ := hqueue
  synced h := by rw [hphase] at h; cases h
  listed := hlisted
  reports event h := by rw [hqueue] at h; cases h
  silent event h := by rw [hqueue] at h; cases h
  last post hpost _ orderId latest _ _ order horder := by
    rw [hqueue, List.suffix_nil] at hpost
    subst hpost
    cases horder
  fault h := by
    rw [hqueue, hphase] at h
    rcases h with ⟨message, h⟩ | h <;> cases h
  leads h := by rcases h.1 with h | h <;> cases hphase.symm.trans h
  untouched h := by rcases h.1 with h | h <;> cases hphase.symm.trans h

/-! ## A change of an order -/

theorem lookup_changed {orderId : ℤ} : (s.changed order).orders.lookup orderId =
    if order.orderId = orderId then some order else s.orders.lookup orderId := Table.lookup_insert

/-- An order keeps its symbol. -/
theorem OfSymbol.of_changed {orderId : ℤ} {P : String → Prop} (hsup : s.Supersedes order)
    (h : (s.changed order).OfSymbol orderId P) : s.OfSymbol orderId P := by
  intro prev hprev
  by_cases hid : order.orderId = orderId
  · subst hid
    rw [(hsup prev hprev).2]
    exact h order (lookup_changed.trans (if_pos rfl))
  · exact h prev (lookup_changed.trans ((if_neg hid).trans hprev))

theorem Reports.changed {event : ExecutionReportEvent} (hsup : s.Supersedes order)
    (h : s.Reports event) : (s.changed order).Reports event := by
  obtain ⟨latest, hlookup, hsymbol, hlatest⟩ := h
  by_cases hid : order.orderId = event.orderId
  · rw [← hid] at hlookup
    obtain ⟨hnewer, hsame⟩ := hsup latest hlookup
    exact ⟨order, lookup_changed.trans (if_pos hid), hsame.symm.trans hsymbol,
      hlatest.of_lt hnewer⟩
  · exact ⟨latest, lookup_changed.trans ((if_neg hid).trans hlookup), hsymbol, hlatest⟩

theorem listed_changed (hsup : s.Supersedes order) (h : ∀ o ∈ s.listing, ∃ latest,
      s.orders.lookup o.orderId = some latest ∧ latest.symbol = o.symbol) :
    ∀ o ∈ s.listing, ∃ latest,
      (s.changed order).orders.lookup o.orderId = some latest ∧ latest.symbol = o.symbol := by
  intro o ho
  obtain ⟨latest, hlookup, hsymbol⟩ := h o ho
  by_cases hid : order.orderId = o.orderId
  · rw [← hid] at hlookup
    exact ⟨order, lookup_changed.trans (if_pos hid), (hsup latest hlookup).2.symm.trans hsymbol⟩
  · exact ⟨latest, lookup_changed.trans ((if_neg hid).trans hlookup), hsymbol⟩

/-- What the exchange has now, a replica that had what it had before absorbs. -/
theorem absorb_current (hsup : s.Supersedes order) :
    reading.absorb (s.current order.orderId) order = (s.changed order).current order.orderId := by
  have hnow : (s.changed order).current order.orderId = reading.keep order := by
    unfold current
    rw [lookup_changed, if_pos rfl]
    rfl
  rw [hnow]
  refine Reading.absorb_of_le fun prev hprev => ?_
  have hlt := (hsup prev (current_eq_some_iff.1 hprev).1).1
  exact hlt.le

theorem current_changed_of_ne {orderId : ℤ} (hid : order.orderId ≠ orderId) :
    (s.changed order).current orderId = s.current orderId := by
  unfold current
  rw [lookup_changed, if_neg hid]

/-- A change that no connected socket reports. -/
theorem Inv.changed (h : s.Inv kindOf) (hsup : s.Supersedes order)
    (hconn : (s.conn kindOf order.symbol).isConnected = false) :
    (s.changed order).Inv kindOf where
  first := h.first
  unstarted := h.unstarted
  synced := h.synced
  listed := listed_changed hsup h.listed
  reports event hevent := (h.reports event hevent).changed hsup
  silent := h.silent
  last post hpost hmarker orderId latest hlookup hconnected := by
    rw [lookup_changed] at hlookup
    split at hlookup
    · obtain rfl := Option.some.inj hlookup
      have hthis : (s.conn kindOf order.symbol).isConnected = true := hconnected
      rw [hconn] at hthis
      cases hthis
    · exact h.last post hpost hmarker orderId latest hlookup hconnected
  fault := h.fault
  leads hrelies orderId hsymbol := by
    by_cases hid : order.orderId = orderId
    · have hthis : (s.conn kindOf order.symbol).isConnected = true :=
        hsymbol order (lookup_changed.trans (if_pos hid))
      rw [hconn] at hthis
      cases hthis
    · rw [current_changed_of_ne hid]
      exact h.leads hrelies orderId (hsymbol.of_changed hsup)
  untouched hrelies orderId hsymbol := h.untouched hrelies orderId (hsymbol.of_changed hsup)

theorem QueueInv.reported {event : ExecutionReportEvent} (h : s.QueueInv kindOf)
    (hsup : s.Supersedes (orderFromExecutionReport event))
    (hconn : (s.conn kindOf event.symbol).isConnected = true) :
    ((s.changed (orderFromExecutionReport event)).enqueue [.report event]).QueueInv kindOf := by
  generalize horder : orderFromExecutionReport event = order at hsup ⊢
  have hid : order.orderId = event.orderId := by rw [← horder]; rfl
  have hsymbol : order.symbol = event.symbol := by rw [← horder]; rfl
  have hevent (e : ExecutionReportEvent) (he : Item.report e ∈ s.queue ++ [.report event]) :
      .report e ∈ s.queue ∨ e = event := by
    by_cases heq : e = event
    · exact .inr heq
    · exact .inl (mem_of_mem_concat he fun hitem => heq (Item.report.inj hitem))
  have hlookup (orderId : ℤ) : ((s.changed order).enqueue [.report event]).orders.lookup orderId =
      if order.orderId = orderId then some order else s.orders.lookup orderId := lookup_changed
  refine ⟨h.first, listed_changed hsup h.listed, ?_, ?_, ?_⟩
  · intro e he
    rcases hevent e he with he | rfl
    · exact (h.reports e he).changed hsup
    · refine ⟨order, (hlookup _).trans (if_pos hid), hsymbol, ?_⟩
      rw [horder]
      exact .refl
  · intro e he
    rcases hevent e he with he | rfl
    · exact h.silent e he
    · exact h.first _ hconn
  · intro post hpost hmarker orderId latest hlatest hconnected o ho
    rcases List.suffix_concat_iff.1 hpost with rfl | ⟨post, rfl, hsuffix⟩
    · cases ho
    · have hmarker' : .reconnected ∉ post := fun hmem => hmarker (List.mem_append_left _ hmem)
      rw [queued_append, queued_report, horder] at ho
      rw [hlookup] at hlatest
      by_cases hsame : order.orderId = orderId
      · rw [if_pos hsame, List.getLast?_concat] at ho
        rw [if_pos hsame] at hlatest
        exact (Option.mem_some_iff.1 ho).symm.trans (Option.some.inj hlatest)
      · rw [if_neg hsame, List.append_nil] at ho
        rw [if_neg hsame] at hlatest
        exact h.last post hsuffix hmarker' orderId latest hlatest hconnected o ho

/-- A change that is reported. -/
theorem Inv.reported {event : ExecutionReportEvent} (h : s.Inv kindOf)
    (hsup : s.Supersedes (orderFromExecutionReport event))
    (hconn : (s.conn kindOf event.symbol).isConnected = true)
    (hphase : s.tracker.phase ≠ .unstarted) :
    ((s.changed (orderFromExecutionReport event)).enqueue [.report event]).Inv kindOf := by
  have hqueue := h.toQueueInv.reported hsup hconn
  generalize horder : orderFromExecutionReport event = order at hsup hqueue ⊢
  have hrelies (hrelies : ((s.changed order).enqueue [.report event]).ReliesOnListing) :
      s.ReliesOnListing := ReliesOnListing.of_enqueue (s := s.changed order) hrelies
  refine
    { hqueue with
      unstarted := fun hun => absurd hun hphase
      synced := h.synced
      fault := ?_
      leads := ?_
      untouched := fun h' orderId hfirst =>
        h.untouched (hrelies h') orderId (OfSymbol.of_changed hsup hfirst) }
  · rintro (⟨message, hmem⟩ | hended)
    · exact h.fault (.inl ⟨message, mem_of_mem_concat hmem nofun⟩)
    · exact h.fault (.inr hended)
  · intro h' orderId hconnected
    have hleads := h.leads (hrelies h') orderId (OfSymbol.of_changed hsup hconnected)
    change (queued (s.queue ++ [.report event]) orderId).foldl reading.absorb (s.base.get orderId) =
      (s.changed order).current orderId
    rw [queued_append, List.foldl_append, hleads, queued_report, horder]
    by_cases hsame : order.orderId = orderId
    · rw [if_pos hsame, ← hsame, List.foldl_cons, List.foldl_nil]
      exact absorb_current hsup
    · rw [if_neg hsame, List.foldl_nil]
      exact (current_changed_of_ne hsame).symm

/-! ## A step of a connection -/

theorem conns_withConnection {k : SymbolType} {conn : UserDataConnection} (k' : SymbolType) :
    (s.withConnection k conn).conns k' = if k' = k then conn else s.conns k' :=
  Function.update_apply s.conns k conn k'

theorem first_withConnection {k : SymbolType} {conn : UserDataConnection}
    (h : ∀ k, (s.conns k).isConnected = true → (s.conns k).first = false)
    (hconn : conn.isConnected = true → conn.first = false) (k' : SymbolType) :
    ((s.withConnection k conn).conns k').isConnected = true →
      ((s.withConnection k conn).conns k').first = false := by
  rw [conns_withConnection]
  split
  · exact hconn
  · exact h k'

/-- A connection that has ended takes no step. -/
theorem ended_withConnection {k : SymbolType} {conn : UserDataConnection}
    (h : ∃ k, (s.conns k).phase = .ended) (hended : (s.conns k).phase ≠ .ended) :
    ∃ k', ((s.withConnection k conn).conns k').phase = .ended := by
  obtain ⟨k', hk'⟩ := h
  have hne : k' ≠ k := fun heq => hended (heq ▸ hk')
  refine ⟨k', ?_⟩
  rw [conns_withConnection, if_neg hne]
  exact hk'

/-- A step that leaves the socket closed, as far as the connections go. -/
theorem Inv.withConnection {k : SymbolType} {conn : UserDataConnection} {items : List Item}
    (h : s.Inv kindOf) (hdisc : (s.conns k).Disconnects conn items)
    (hended : (s.conns k).phase ≠ .ended) : (s.withConnection k conn).Inv kindOf := by
  have hconnected (k' : SymbolType)
      (hk' : ((s.withConnection k conn).conns k').isConnected = true) :
      (s.conns k').isConnected = true := by
    rw [conns_withConnection] at hk'
    split at hk'
    · rw [hdisc.isConnected_eq] at hk'
      cases hk'
    · exact hk'
  have hfirst (k' : SymbolType) :
      ((s.withConnection k conn).conns k').first = (s.conns k').first := by
    rw [conns_withConnection]
    split
    · next hk =>
      rw [hk, hdisc.first_eq]
    · rfl
  exact
    { h with
      first := fun k' hk' => (hfirst k').trans (h.first k' (hconnected k' hk'))
      silent := fun event hevent => (hfirst _).trans (h.silent event hevent)
      last := fun post hpost hmarker orderId latest hlatest hk' =>
        h.last post hpost hmarker orderId latest hlatest (hconnected _ hk')
      fault := fun hfault => ended_withConnection (h.fault hfault) hended
      leads := fun hrelies orderId hk' =>
        h.leads hrelies orderId fun order horder => hconnected _ (hk' order horder)
      untouched := fun hrelies orderId hk' =>
        h.untouched hrelies orderId fun order horder => (hfirst _).symm.trans (hk' order horder) }

/-- A fault in the queue tells of an ended connection. -/
theorem Inv.faulted {message : String} (h : s.Inv kindOf) (hphase : s.tracker.phase ≠ .unstarted)
    (hended : ∃ k, (s.conns k).phase = .ended) : (s.enqueue [.fault message]).Inv kindOf := by
  have hreport (e : ExecutionReportEvent) (he : Item.report e ∈ s.queue ++ [.fault message]) :
      .report e ∈ s.queue := mem_of_mem_concat he nofun
  have hqueued (queue : List Item) (orderId : ℤ) :
      queued (queue ++ [.fault message]) orderId = queued queue orderId := by
    rw [queued_append]
    exact List.append_nil _
  refine
    { first := h.first
      unstarted := fun hun => absurd hun hphase
      synced := h.synced
      listed := h.listed
      reports := fun e he => h.reports e (hreport e he)
      silent := fun e he => h.silent e (hreport e he)
      last := ?_
      fault := fun _ => hended
      leads := fun hrelies orderId hconnected => ?_
      untouched := fun hrelies => h.untouched hrelies.of_enqueue }
  · intro post hpost hmarker orderId latest hlatest hconnected o ho
    rcases List.suffix_concat_iff.1 hpost with rfl | ⟨post, rfl, hsuffix⟩
    · cases ho
    · rw [hqueued] at ho
      have hmarker' : .reconnected ∉ post := fun hmem => hmarker (List.mem_append_left _ hmem)
      exact h.last post hsuffix hmarker' orderId latest hlatest hconnected o ho
  · have hleads := h.leads hrelies.of_enqueue orderId hconnected
    change (queued (s.queue ++ [.fault message]) orderId).foldl reading.absorb
      (s.base.get orderId) = s.current orderId
    rw [hqueued, hleads]

/-- A reconnect: the tracker will be seeded again. -/
theorem Inv.reconnects {k : SymbolType} {conn : UserDataConnection} (h : s.Inv kindOf)
    (hphase : s.tracker.phase ≠ .unstarted) (hended : (s.conns k).phase ≠ .ended)
    (hconn : conn.first = false) :
    ((s.withConnection k conn).enqueue [.reconnected]).Inv kindOf := by
  have hmarker : Item.reconnected ∈ s.queue ++ [.reconnected] :=
    List.mem_append_right s.queue List.mem_cons_self
  have hreport (e : ExecutionReportEvent) (he : Item.report e ∈ s.queue ++ [.reconnected]) :
      .report e ∈ s.queue := mem_of_mem_concat he nofun
  have hfirst (k' : SymbolType) (hk' : (s.conns k').first = false) :
      ((s.withConnection k conn).conns k').first = false := by
    rw [conns_withConnection]
    split
    · exact hconn
    · exact hk'
  refine
    { first := first_withConnection h.first fun _ => hconn
      unstarted := fun hun => absurd hun hphase
      synced := h.synced
      listed := h.listed
      reports := fun e he => h.reports e (hreport e he)
      silent := fun e he => hfirst _ (h.silent e (hreport e he))
      last := ?_
      fault := ?_
      leads := fun hrelies => absurd hmarker hrelies.2
      untouched := fun hrelies => absurd hmarker hrelies.2 }
  · intro post hpost hmarker orderId latest _ _ o ho
    rcases List.suffix_concat_iff.1 hpost with rfl | ⟨post, rfl, -⟩
    · cases ho
    · exact absurd (List.mem_append_right post List.mem_cons_self) hmarker
  · rintro (⟨message, hmem⟩ | hphase)
    · have hfault := h.fault (.inl ⟨message, mem_of_mem_concat hmem nofun⟩)
      exact ended_withConnection hfault hended
    · exact ended_withConnection (h.fault (.inr hphase)) hended

variable (kindOf) in
/-- Of this symbol type, the open orders are those of the last listing. -/
def ListingCurrent (s : UserStream) (k : SymbolType) : Prop :=
  ∀ order, kindOf order.symbol = k → (order ∈ s.listing ↔ order ∈ s.openOrders)

theorem QueueInv.get_seed_of_current {k : SymbolType} {orderId : ℤ} (h : s.QueueInv kindOf)
    (hcurrent : s.ListingCurrent kindOf k) (horder : s.orders.lookup orderId = some order)
    (hk : kindOf order.symbol = k) : (seed s.listing).get orderId = s.current orderId := by
  refine get_seed_listing (fun o hmem hid => ?_) fun o hmem hid => ?_
  · obtain ⟨latest, hlatest, hsymbol⟩ := h.listed o hmem
    rw [hid, horder] at hlatest
    obtain rfl := Option.some.inj hlatest
    exact (hcurrent o (hsymbol ▸ hk)).1 hmem
  · have hlookup := (mem_openOrders_iff.1 hmem).1
    rw [hid, horder] at hlookup
    obtain rfl := Option.some.inj hlookup
    exact (hcurrent order hk).2 hmem

section FirstConnect

variable {k : SymbolType} {conn : UserDataConnection}

theorem first_of_withConnection {k' : SymbolType} (hconn : conn.first = false)
    (h : ((s.withConnection k conn).conns k').first = true) : (s.conns k').first = true := by
  rw [conns_withConnection] at h
  split at h
  · rw [hconn] at h
    cases h
  · exact h

/-- The socket has reported nothing yet, and that is the last of it. -/
theorem QueueInv.firstConnects (h : s.QueueInv kindOf) (hnever : (s.conns k).first = true)
    (hconn : conn.first = false) : (s.withConnection k conn).QueueInv kindOf := by
  refine ⟨first_withConnection h.first fun _ => hconn, h.listed, h.reports, ?_, ?_⟩
  · intro event hevent
    rw [UserStream.conn, conns_withConnection]
    split
    · exact hconn
    · exact h.silent event hevent
  · intro post hpost hmarker orderId latest hlatest hconnected order horder
    rw [UserStream.conn, conns_withConnection] at hconnected
    split at hconnected
    · next hk =>
      obtain ⟨pre, hpre⟩ := hpost
      have hsplit : s.queue = pre ++ post := hpre.symm
      have hnone : s.OfSymbol orderId fun symbol => (s.conn kindOf symbol).first = true := by
        refine (ofSymbol_iff (s := s) hlatest).2 ?_
        rw [UserStream.conn, hk]
        exact hnever
      have hnil := h.queued_eq_nil hnone
      rw [hsplit, queued_append, List.append_eq_nil_iff] at hnil
      rw [hnil.2] at horder
      cases horder
    · exact h.last post hpost hmarker orderId latest hlatest hconnected order horder

/-- A first connect: no marker, so that the listing has to be current. -/
theorem Inv.firstConnects (h : s.Inv kindOf) (hended : (s.conns k).phase ≠ .ended)
    (hnever : (s.conns k).first = true) (hconn : conn.first = false)
    (hok : s.ReliesOnListing → s.ListingCurrent kindOf k) :
    (s.withConnection k conn).Inv kindOf := by
  refine
    { h.toQueueInv.firstConnects hnever hconn with
      unstarted := h.unstarted
      synced := h.synced
      fault := fun hfault => ended_withConnection (h.fault hfault) hended
      leads := ?_
      untouched := fun hrelies orderId hfirst => h.untouched hrelies orderId fun order horder =>
        first_of_withConnection hconn (hfirst order horder) }
  intro hrelies orderId hconnected
  change (queued s.queue orderId).foldl reading.absorb (s.base.get orderId) = s.current orderId
  cases hlatest : s.orders.lookup orderId with
  | none => exact h.leads hrelies orderId (ofSymbol_of_none hlatest)
  | some latest =>
    have hthis : ((s.withConnection k conn).conn kindOf latest.symbol).isConnected = true :=
      hconnected latest hlatest
    rw [UserStream.conn, conns_withConnection] at hthis
    split at hthis
    · next hk =>
      have hnone : s.OfSymbol orderId fun symbol => (s.conn kindOf symbol).first = true := by
        refine (ofSymbol_iff (s := s) hlatest).2 ?_
        rw [UserStream.conn, hk]
        exact hnever
      rw [h.queued_eq_nil hnone, List.foldl_nil, h.untouched hrelies orderId hnone]
      exact h.get_seed_of_current (hok hrelies) hlatest hk
    · exact h.leads hrelies orderId ((ofSymbol_iff hlatest).2 hthis)

end FirstConnect

/-! ## A step of the tracker -/

theorem Inv.tracked (h : s.Inv kindOf) :
    Inv kindOf { s with tracker := ⟨.awaiting, none⟩, queue := [] } := by
  refine
    { h.of_suffix List.nil_suffix with
      unstarted := fun _ => rfl
      synced := fun hphase => by cases hphase
      fault := ?_
      leads := fun hrelies => by rcases hrelies.1 with hphase | hphase <;> cases hphase
      untouched := fun hrelies => by rcases hrelies.1 with hphase | hphase <;> cases hphase }
  rintro (⟨message, hmem⟩ | hphase)
  · cases hmem
  · cases hphase

/-- The listing has the current state of every order, and the queued reports change none of them
for good. -/
theorem Inv.served {orders : List Order} (h : s.Inv kindOf) (horders : orders ⊆ s.openOrders)
    (hopen : s.openOrders ⊆ orders) :
    Inv kindOf
      { s with listing := orders, tracker := { s.tracker with phase := .answered } } := by
  have hseed (orderId : ℤ) : (seed orders).get orderId = s.current orderId :=
    get_seed_listing (fun _ hmem _ => horders hmem) fun _ hmem _ => hopen hmem
  refine
    { first := h.first
      listed := fun order hmem => ⟨order, (mem_openOrders_iff.1 (horders hmem)).1, rfl⟩
      reports := h.reports
      silent := h.silent
      last := h.last
      unstarted := fun hphase => by cases hphase
      synced := fun hphase => by cases hphase
      fault := ?_
      leads := ?_
      untouched := fun _ _ _ => rfl }
  · rintro (hfault | hphase)
    · exact h.fault (.inl hfault)
    · cases hphase
  · intro hrelies orderId hconnected
    change (queued s.queue orderId).foldl reading.absorb ((seed orders).get orderId) =
      s.current orderId
    rw [hseed]
    cases hlatest : s.orders.lookup orderId with
    | none =>
      rw [h.queued_eq_nil (ofSymbol_of_none hlatest), List.foldl_nil]
    | some latest =>
      have hcurrent : s.current orderId = reading.keep latest := by
        unfold current
        rw [hlatest]
        rfl
      rw [hcurrent]
      refine Reading.foldl_absorb (fun order horder => ?_) fun order horder =>
        h.last s.queue List.suffix_rfl hrelies.2 orderId latest hlatest
          (hconnected latest hlatest) order horder
      obtain ⟨event, hmem, rfl, hid⟩ := mem_queued horder
      obtain ⟨latest', hlatest', -, hnewest⟩ := h.reports event hmem
      rw [hid, hlatest] at hlatest'
      obtain rfl := Option.some.inj hlatest'
      exact hnewest

/-- The reply: the tracker has the listing as its view. -/
theorem Inv.replied (h : s.Inv kindOf) (hphase : s.tracker.phase = .answered) :
    Inv kindOf { s with tracker := s.tracker.seeded s.listing } := by
  have hbase : s.base = seed s.listing := by unfold base; rw [hphase]
  refine
    { h.toQueueInv with
      unstarted := fun hun => by cases hun
      synced := fun _ => ⟨_, rfl⟩
      fault := ?_
      leads := fun hrelies orderId hconnected => ?_
      untouched := fun _ _ _ => rfl }
  · rintro (hfault | hphase)
    · exact h.fault (.inl hfault)
    · cases hphase
  · have hleads := h.leads ⟨.inl hphase, hrelies.2⟩ orderId hconnected
    rw [hbase] at hleads
    exact hleads

/-- A report read from the queue is one that the queue has led through. -/
theorem Inv.consumed_report {event : ExecutionReportEvent} {queue : List Item} (h : s.Inv kindOf)
    (hphase : s.tracker.phase = .reading) (hqueue : s.queue = .report event :: queue) :
    Inv kindOf { s with queue, tracker := s.tracker.consume (.report event) } := by
  generalize hs' : { s with queue, tracker := s.tracker.consume (.report event) } = s'
  have hsuffix : queue <:+ s.queue := hqueue ▸ List.suffix_cons _ queue
  obtain ⟨view, hview⟩ := h.synced hphase
  have hphase' : s'.tracker.phase = .reading := by rw [← hs']; exact hphase
  have hview' : s'.tracker.view = some (view.apply event) := by
    rw [← hs']
    exact congrArg (Option.map fun v => LocalOrderView.apply v event) hview
  have hbase : s.base = view := by unfold base; rw [hphase, hview]; rfl
  have hbase' (orderId : ℤ) : s'.base.get orderId =
      (queued [.report event] orderId).foldl reading.absorb (view.get orderId) := by
    have happly : s'.base = view.apply event := by unfold base; rw [hphase', hview']; rfl
    rw [happly]
    exact get_foldl_apply [event] view orderId
  have hsplit (orderId : ℤ) :
      queued s.queue orderId = queued [.report event] orderId ++ queued queue orderId := by
    rw [← queued_append, hqueue]
    rfl
  have hrelies (hrelies : s'.ReliesOnListing) : s.ReliesOnListing := by
    refine ⟨.inr hphase, fun hmarker => hrelies.2 ?_⟩
    rw [hqueue] at hmarker
    rw [← hs']
    rcases List.mem_cons.1 hmarker with heq | hmarker
    · cases heq
    · exact hmarker
  have hinv : s'.QueueInv kindOf := by rw [← hs']; exact { h.of_suffix hsuffix with }
  refine
    { hinv with
      unstarted := fun hun => absurd (hphase'.symm.trans hun) TrackerPhase.noConfusion
      synced := fun _ => ⟨_, hview'⟩
      fault := fun hfault => ?_
      leads := fun h' orderId hconnected => ?_
      untouched := fun h' orderId hfirst => ?_ }
  · rw [← hs'] at hfault ⊢
    exact h.fault (hfault.imp_left fun ⟨message, hmem⟩ => ⟨message, hsuffix.subset hmem⟩)
  · rw [← hs'] at hconnected
    have hleads := h.leads (hrelies h') orderId hconnected
    rw [hsplit, List.foldl_append, hbase, ← hbase'] at hleads
    rw [← hs'] at hleads ⊢
    exact hleads
  · rw [← hs'] at hfirst
    have huntouched := h.untouched (hrelies h') orderId hfirst
    have hnil := h.queued_eq_nil hfirst
    rw [hsplit, List.append_eq_nil_iff] at hnil
    rw [hbase', hnil.1, List.foldl_nil, ← hbase, huntouched, ← hs']

theorem Inv.consumed {item : Item} {queue : List Item} (h : s.Inv kindOf)
    (hphase : s.tracker.phase = .reading) (hqueue : s.queue = item :: queue) :
    Inv kindOf { s with queue, tracker := s.tracker.consume item } := by
  have hsuffix : queue <:+ s.queue := hqueue ▸ List.suffix_cons _ queue
  cases item with
  | report event => exact h.consumed_report hphase hqueue
  | reconnected =>
    refine
      { h.of_suffix hsuffix with
        unstarted := fun hun => by cases hun
        synced := fun hreading => by cases hreading
        fault := ?_
        leads := fun hrelies => by rcases hrelies.1 with hphase | hphase <;> cases hphase
        untouched := fun hrelies => by rcases hrelies.1 with hphase | hphase <;> cases hphase }
    rintro (⟨message, hmem⟩ | hphase)
    · exact h.fault (.inl ⟨message, hsuffix.subset hmem⟩)
    · cases hphase
  | fault message =>
    have hfault : ∃ k, (s.conns k).phase = .ended :=
      h.fault (.inl ⟨message, by rw [hqueue]; exact List.mem_cons_self⟩)
    exact
      { h.of_suffix hsuffix with
        unstarted := fun hun => by cases hun
        synced := fun hreading => by cases hreading
        fault := fun _ => hfault
        leads := fun hrelies => by rcases hrelies.1 with hphase | hphase <;> cases hphase
        untouched := fun hrelies => by rcases hrelies.1 with hphase | hphase <;> cases hphase }

/-! ## Runs -/

variable {autoReconnect : Bool} {s' : UserStream}

theorem offer_nil : s.offer [] = s := by
  unfold offer enqueue
  rw [List.append_nil]
  exact ite_self s

variable (kindOf) in
/-- A socket does not connect for the first time over a listing that is not current any more. -/
def FirstConnectCurrent (s : UserStream) (l : UserStreamLabel) : Prop :=
  ∀ k, l = .connection k .connected → (s.conns k).first = true → s.ReliesOnListing →
    s.ListingCurrent kindOf k

theorem Inv.stepChange {event : ExecutionReportEvent} (h : s.Inv kindOf)
    (hstep : s.step autoReconnect kindOf (.change event) = some s') : s'.Inv kindOf := by
  obtain ⟨hsup, hstep⟩ := Option.ite_none_right_eq_some.1 hstep
  split at hstep
  · next hconn =>
    cases hstep
    unfold offer
    split
    · next hphase =>
      exact .of_unstarted hphase (h.unstarted hphase) h.first (listed_changed hsup h.listed)
    · next hphase =>
      exact h.reported hsup hconn hphase
  · next hconn =>
    cases hstep
    exact h.changed hsup (Bool.eq_false_iff.2 hconn)

theorem Inv.stepConnection {k : SymbolType} {event : ConnectionEvent} (h : s.Inv kindOf)
    (hok : s.FirstConnectCurrent kindOf (.connection k event))
    (hstep : s.step autoReconnect kindOf (.connection k event) = some s') : s'.Inv kindOf := by
  obtain ⟨⟨conn, items⟩, hconn, hoffer⟩ := Option.map_eq_some_iff.1 hstep
  obtain rfl : (s.withConnection k conn).offer items = s' := hoffer
  have hended : (s.conns k).phase ≠ .ended := by
    intro hended
    rw [UserDataConnection.step_ended hended] at hconn
    cases hconn
  rcases UserDataConnection.step_cases hconn with ⟨rfl, -, hfirst, rfl⟩ | hdisc
  · cases hnever : (s.conns k).first with
    | true =>
      rw [if_pos rfl, offer_nil]
      exact h.firstConnects hended hnever hfirst (hok k rfl hnever)
    | false =>
      rw [if_neg Bool.false_ne_true, offer]
      split
      · next hphase =>
        exact .of_unstarted hphase (h.unstarted hphase)
          (first_withConnection h.first fun _ => hfirst) h.listed
      · next hphase =>
        exact h.reconnects hphase hended hfirst
  · have hinv := h.withConnection hdisc hended
    rcases hdisc.items_eq with rfl | ⟨hphase, message, rfl⟩
    · rw [offer_nil]
      exact hinv
    · rw [offer]
      split
      · exact hinv
      · next hstarted =>
        refine hinv.faulted hstarted ⟨k, ?_⟩
        rw [conns_withConnection, if_pos rfl]
        exact hphase

/-- **The invariant, step by step.** -/
theorem Inv.step {l : UserStreamLabel} (h : s.Inv kindOf) (hok : s.FirstConnectCurrent kindOf l)
    (hstep : s.step autoReconnect kindOf l = some s') : s'.Inv kindOf := by
  cases l with
  | change event => exact h.stepChange hstep
  | connection k event => exact h.stepConnection hok hstep
  | orderTracker =>
    obtain ⟨-, hstep⟩ := Option.ite_none_right_eq_some.1 hstep
    cases hstep
    exact h.tracked
  | serve orders =>
    obtain ⟨⟨-, horders, hopen⟩, hstep⟩ := Option.ite_none_right_eq_some.1 hstep
    cases hstep
    exact h.served horders hopen
  | reply =>
    obtain ⟨hphase, hstep⟩ := Option.ite_none_right_eq_some.1 hstep
    cases hstep
    exact h.replied hphase
  | consume =>
    simp only [UserStream.step] at hstep
    split at hstep
    · next hphase hqueue =>
      cases hstep
      exact h.consumed hphase hqueue
    · cases hstep

theorem inv_start (orders : Table Order.orderId) : (start orders).Inv kindOf :=
  .of_unstarted rfl rfl (fun k hk => by cases hk) fun order horder => by cases horder

/-- Both sockets are connected, and the tracker has neither a reply to wait for nor a report to
read. -/
def Quiet (s : UserStream) : Prop :=
  (∀ k, (s.conns k).isConnected = true) ∧ s.queue = [] ∧
    (s.tracker.phase = .reading ∨ s.tracker.phase = .ended)

/-- `OrderTracker.open()` is the exchange's open orders. -/
def Converged (s : UserStream) : Prop :=
  ∀ order, order ∈ s.tracker.openOrders ↔ order ∈ s.openOrders

theorem Inv.converged (h : s.Inv kindOf) (hquiet : s.Quiet) : s.Converged := by
  obtain ⟨hconnected, hqueue, hphase⟩ := hquiet
  have hreading : s.tracker.phase = .reading := by
    refine hphase.resolve_right fun hended => ?_
    obtain ⟨k, hk⟩ := h.fault (.inr hended)
    have hrunning := of_decide_eq_true (hconnected k)
    rw [hk] at hrunning
    cases hrunning
  obtain ⟨view, hview⟩ := h.synced hreading
  have hbase : s.base = view := by unfold base; rw [hreading, hview]; rfl
  have hmarker : .reconnected ∉ s.queue := by rw [hqueue]; exact List.not_mem_nil
  intro order
  have hleads := h.leads ⟨.inr hreading, hmarker⟩ order.orderId fun o _ => hconnected _
  have hnil : queued s.queue order.orderId = [] := by rw [hqueue]; rfl
  rw [hnil, hbase, List.foldl_nil] at hleads
  rw [OrderTracker.openOrders, hview, LocalOrderView.mem_openOrders_iff, hleads,
    current_eq_some_iff, mem_openOrders_iff]

/-- **Convergence.** Whenever the stream is quiet, the tracker's view is the exchange's open
orders, in every run whose first connects come over a current listing. -/
theorem run_converged {orders : Table Order.orderId} {ls : List UserStreamLabel}
    (hfirst : (system autoReconnect kindOf orders).Guarded (FirstConnectCurrent kindOf)
      (start orders) ls)
    (hrun : (system autoReconnect kindOf orders).run (start orders) ls = some s)
    (hquiet : s.Quiet) : s.Converged := by
  have hinv : s.Inv kindOf := System.run_invariant (I := fun s => s.Inv kindOf)
    (fun _ _ _ h hok hstep => h.step hok hstep) ls (inv_start orders) hfirst hrun
  exact hinv.converged hquiet

/-- A new order with id 7. -/
def newOrderReport : ExecutionReportEvent where
  eventTime := 1
  symbol := "BTCUSDT"
  clientOrderId := "c"
  side := "BUY"
  orderType := "LIMIT"
  timeInForce := "GTC"
  origQty := ⟨1, 0⟩
  price := ⟨1, 0⟩
  stopPrice := none
  currentOrderStatus := "NEW"
  orderId := 7
  orderListId := none
  cumulativeFilledQty := ⟨0, 0⟩
  transactionTime := none
  isOnBook := none
  orderCreationTime := none
  cumulativeQuoteQty := none
  quoteOrderQty := none

def connects (k : SymbolType) : List UserStreamLabel :=
  [.connection k (.created (some "key")), .connection k .connected]

/-- The order is filled in part. -/
def partlyFilledReport : ExecutionReportEvent :=
  { newOrderReport with eventTime := 2, currentOrderStatus := "PARTIALLY_FILLED" }

/-- Another order, with id 8. -/
def secondOrderReport : ExecutionReportEvent :=
  { newOrderReport with eventTime := 3, orderId := 8 }

/-- The first order is filled. -/
def filledReport : ExecutionReportEvent :=
  { newOrderReport with eventTime := 4, currentOrderStatus := "FILLED" }

/-- What the exchange has when the tracker lists its orders. -/
def oneOrder : Table Order.orderId := Table.empty.insert (orderFromExecutionReport newOrderReport)

/-- Both sockets connect over the listing. Then one drops and misses two changes; its marker makes
the tracker list again, and the next change is reported. -/
def changesWhileDropped : List UserStreamLabel :=
  [.orderTracker, .serve [orderFromExecutionReport newOrderReport], .reply] ++ connects .global ++
    connects .site ++ [.connection .global .dropped, .connection .global .woken,
      .change partlyFilledReport, .connection .global .closed, .connection .global .slept,
      .change secondOrderReport] ++ connects .global ++ [.consume, .serve
        [orderFromExecutionReport secondOrderReport, orderFromExecutionReport partlyFilledReport],
      .reply, .change filledReport, .consume]

/-- The second order alone is left. -/
theorem run_converged_dropped :
    ∃ s, (system true (fun _ => .global) oneOrder).run (start oneOrder) changesWhileDropped =
        some s ∧
      s.tracker.openOrders = [orderFromExecutionReport secondOrderReport] ∧ s.Converged := by
  have hfirst : (system true (fun _ => .global) oneOrder).Guarded
      (FirstConnectCurrent fun _ => .global) (start oneOrder) changesWhileDropped := by
    repeat' refine System.guarded_cons ?_ rfl ?_
    all_goals try trivial
    all_goals intro k hk hnever hrelies
    all_goals cases hk
    · exact fun order _ => Iff.rfl
    · exact fun order _ => Iff.rfl
    · cases hnever
  obtain ⟨s, hrun, hquiet, hopen⟩ : ∃ s, (system true (fun _ => .global) oneOrder).run
      (start oneOrder) changesWhileDropped = some s ∧ s.Quiet ∧
        s.tracker.openOrders = [orderFromExecutionReport secondOrderReport] :=
    ⟨_, rfl, ⟨fun k => by cases k <;> rfl, rfl, .inl rfl⟩, by decide⟩
  exact ⟨s, hrun, hopen, run_converged hfirst hrun hquiet⟩

/-- The order is placed after the listing and before the first connect. -/
theorem not_converged_before_first_connect :
    ¬ ∀ ls s, (system true (fun _ => .global) Table.empty).run (start Table.empty) ls = some s →
      s.Quiet → s.Converged := by
  intro h
  have hrun := h ([.orderTracker, .serve [], .change newOrderReport] ++ connects .global ++
    connects .site ++ [.reply]) _ rfl ⟨fun k => by cases k <;> rfl, rfl, .inl rfl⟩
  have hmissing := (hrun (orderFromExecutionReport newOrderReport)).2 (by decide)
  exact absurd hmissing (by decide)

end UserStream

end BinanceTh
