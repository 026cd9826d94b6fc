import BinanceTh.OrderTracker

/-!
# Reports in any order

A view is seeded with a listing, and reports are applied to it in some order, each any number of
times. The newest known state of an order is then in the view, if it is active. If it is terminal,
its report removes the order with the time that older reports are compared with, so that the order
stays away iff there is no active report of it that could come later (`confluent_iff`).
-/

namespace BinanceTh

open Versioned

namespace LocalOrderView

/-- What a listing and reports say of an order. -/
def knownStates (orders : List Order) (reports : List ExecutionReportEvent) (orderId : ℤ) :
    List Order :=
  orders.filter (·.orderId = orderId) ++ statesOf orderId reports

structure IsNewest (states : List Order) (order : Order) : Prop where
  mem : order ∈ states
  le : ∀ o ∈ states, o.updateTime ≤ order.updateTime

/-- No two states of one order have the same update time. -/
def DistinctTimes (orders : List Order) (reports : List ExecutionReportEvent) : Prop :=
  ∀ orderId, ∀ o ∈ knownStates orders reports orderId, ∀ o' ∈ knownStates orders reports orderId,
    o.updateTime = o'.updateTime → o = o'

/-- The reports, in any order and with any repetitions, lead to the view of the newest states that
are not terminal. -/
def Confluent (orders : List Order) (reports : List ExecutionReportEvent) : Prop :=
  ∀ events : List ExecutionReportEvent, (∀ event, event ∈ events ↔ event ∈ reports) →
    ∀ orderId order, (events.foldl apply (seed orders)).get orderId = some order ↔
      IsNewest (knownStates orders reports orderId) order ∧ order.status.isTerminal = false

/-- The newest state of an order reaches the view, or keeps the order out of it, whatever comes
last: a terminal one has no active report beside it and follows on what the listing left in the
view; an active one is reported, or it is what the listing left in the view. -/
structure Settled (orders : List Order) (reports : List ExecutionReportEvent) (orderId : ℤ)
    (newest : Order) : Prop where
  terminal : newest.status.isTerminal = true →
    (∀ o ∈ statesOf orderId reports, o.status.isTerminal = true) ∧
      ∀ o, (seed orders).get orderId = some o →
        ∃ o' ∈ statesOf orderId reports, o.updateTime < o'.updateTime
  active : newest.status.isTerminal = false →
    newest ∈ statesOf orderId reports ∨ (seed orders).get orderId = some newest

variable {orders : List Order} {reports events : List ExecutionReportEvent} {orderId : ℤ}
  {order newest : Order}

theorem mem_statesOf_iff :
    order ∈ statesOf orderId events ↔
      (∃ event ∈ events, orderFromExecutionReport event = order) ∧ order.orderId = orderId := by
  unfold statesOf
  rw [List.mem_filter, List.mem_map, decide_eq_true_iff]

theorem mem_statesOf_congr (h : ∀ event, event ∈ events ↔ event ∈ reports) :
    order ∈ statesOf orderId events ↔ order ∈ statesOf orderId reports := by
  simp only [mem_statesOf_iff, h]

theorem mem_of_get_seed (h : (seed orders).get orderId = some order) :
    order ∈ orders.filter (·.orderId = orderId) ∧ order.status.isTerminal = false := by
  have hid : order.orderId = orderId := Table.key_of_lookup h
  obtain ⟨hmem, hactive⟩ := List.mem_filter.1 (Table.mem_of_lookup_ofList h)
  rw [Order.isActive_eq, Bool.not_eq_true'] at hactive
  exact ⟨List.mem_filter.2 ⟨hmem, decide_eq_true hid⟩, hactive⟩

theorem mem_knownStates_of_seed (h : (seed orders).get orderId = some order) :
    order ∈ knownStates orders reports orderId := List.mem_append_left _ (mem_of_get_seed h).1

theorem mem_knownStates_of_report (h : order ∈ statesOf orderId reports) :
    order ∈ knownStates orders reports orderId := List.mem_append_right _ h

/-- What the view holds of an order is a known state of it. -/
theorem mem_knownStates_of_get (hsame : ∀ event, event ∈ events ↔ event ∈ reports)
    (h : (events.foldl apply (seed orders)).get orderId = some order) :
    (seed orders).get orderId = some order ∨ order ∈ statesOf orderId reports := by
  rw [get_foldl_apply] at h
  rcases Reading.mem_of_foldl_absorb h with hseed | hmem
  · exact .inl hseed
  · exact .inr ((mem_statesOf_congr hsame).1 hmem)

theorem IsNewest.isLatest (hdistinct : DistinctTimes orders reports)
    (h : IsNewest (knownStates orders reports orderId) newest)
    (hmem : order ∈ knownStates orders reports orderId) : reading.IsLatest newest order where
  le := h.le order hmem
  eq_of_eq := fun heq => hdistinct orderId order hmem newest h.mem heq

theorem IsNewest.unique (hdistinct : DistinctTimes orders reports)
    (h : IsNewest (knownStates orders reports orderId) newest)
    (h' : IsNewest (knownStates orders reports orderId) order) : order = newest :=
  hdistinct orderId order h'.mem newest h.mem ((h.le order h'.mem).antisymm (h'.le newest h.mem))

/-- An order that is known at all has a newest state. -/
theorem exists_isNewest {states : List Order} (h : states ≠ []) :
    ∃ newest, IsNewest states newest := by
  induction states with
  | nil => exact absurd rfl h
  | cons o states ih =>
    by_cases hnil : states = []
    · subst hnil
      exact ⟨o, List.mem_cons_self, fun o' ho' => by rw [List.mem_singleton.1 ho']⟩
    · obtain ⟨m, hm⟩ := ih hnil
      rcases le_total o.updateTime m.updateTime with hle | hle
      · refine ⟨m, List.mem_cons_of_mem o hm.mem, ?_⟩
        rintro o' (_ | ⟨_, ho'⟩)
        · exact hle
        · exact hm.le o' ho'
      · refine ⟨o, List.mem_cons_self, ?_⟩
        rintro o' (_ | ⟨_, ho'⟩)
        · exact le_rfl
        · exact (hm.le o' ho').trans hle

/-! ## What is enough -/

/-- Where the newest state is settled, the view holds it, or nothing if it is terminal. -/
theorem get_of_settled (hdistinct : DistinctTimes orders reports)
    (hnewest : IsNewest (knownStates orders reports orderId) newest)
    (hsettled : Settled orders reports orderId newest)
    (hsame : ∀ event, event ∈ events ↔ event ∈ reports) :
    (events.foldl apply (seed orders)).get orderId = reading.keep newest := by
  have hstates : ∀ o ∈ statesOf orderId events, reading.IsLatest newest o := fun o ho =>
    hnewest.isLatest hdistinct (mem_knownStates_of_report ((mem_statesOf_congr hsame).1 ho))
  have hseed : ∀ o, (seed orders).get orderId = some o → o.updateTime ≤ newest.updateTime :=
    fun o ho => hnewest.le o (mem_knownStates_of_seed ho)
  rw [get_foldl_apply]
  cases hfinal : newest.status.isTerminal with
  | true =>
    obtain ⟨hall, hfollows⟩ := hsettled.terminal hfinal
    have hkeep : reading.keep newest = none := if_pos hfinal
    rw [hkeep]
    refine (Reading.foldl_absorb_of_final ?_).2 fun o ho => ?_
    · exact fun o ho => hall o ((mem_statesOf_congr hsame).1 ho)
    · obtain ⟨o', ho', hlt⟩ := hfollows o ho
      exact ⟨o', (mem_statesOf_congr hsame).2 ho', hlt.le⟩
  | false =>
    have hkeep : reading.keep newest = some newest :=
      (Reading.keep_eq_some_iff reading).2 ⟨hfinal, rfl⟩
    rw [hkeep]
    rcases hsettled.active hfinal with hmem | hseeded
    · exact Reading.foldl_absorb_of_mem hfinal hseed hstates ((mem_statesOf_congr hsame).2 hmem)
    · rw [hseeded]
      exact Reading.foldl_absorb_of_active hfinal hstates

/-! ## What is needed -/

/-- After a report of an active state the view has the order. -/
theorem isSome_get_concat {event : ExecutionReportEvent}
    (hid : (orderFromExecutionReport event).orderId = orderId)
    (hactive : (orderFromExecutionReport event).status.isTerminal = false) :
    (((events ++ [event]).foldl apply (seed orders)).get orderId).isSome = true := by
  rw [List.foldl_append, List.foldl_cons, List.foldl_nil, get_apply, if_pos hid]
  exact Reading.isSome_absorb_of_active hactive

theorem settled_of_confluent (hdistinct : DistinctTimes orders reports)
    (hnewest : IsNewest (knownStates orders reports orderId) newest)
    (h : Confluent orders reports) : Settled orders reports orderId newest := by
  constructor
  · intro hfinal
    have hnone : ∀ events : List ExecutionReportEvent, (∀ e, e ∈ events ↔ e ∈ reports) →
        (events.foldl apply (seed orders)).get orderId = none := by
      intro events hsame
      refine Option.eq_none_iff_forall_ne_some.2 fun o ho => ?_
      obtain ⟨hnew, hactive⟩ := (h events hsame orderId o).1 ho
      rw [hnewest.unique hdistinct hnew, hfinal] at hactive
      cases hactive
    have hall : ∀ o ∈ statesOf orderId reports, o.status.isTerminal = true := by
      intro o ho
      obtain ⟨⟨event, hevent, rfl⟩, hid⟩ := mem_statesOf_iff.1 ho
      by_contra hactive
      rw [Bool.not_eq_true] at hactive
      -- the report once more, after all the others
      have hsame : ∀ e, e ∈ reports ++ [event] ↔ e ∈ reports := by
        intro e
        rw [List.mem_append, List.mem_singleton]
        exact ⟨fun he => he.elim id fun heq => heq ▸ hevent, .inl⟩
      have hsome : (((reports ++ [event]).foldl apply (seed orders)).get orderId).isSome = true :=
        isSome_get_concat hid hactive
      rw [hnone _ hsame] at hsome
      cases hsome
    refine ⟨hall, fun o ho => ?_⟩
    have hleft := hnone reports fun _ => Iff.rfl
    rw [get_foldl_apply] at hleft
    obtain ⟨o', ho', hle⟩ := (Reading.foldl_absorb_of_final hall).1 hleft o ho
    refine ⟨o', ho', lt_of_le_of_ne hle fun heq => ?_⟩
    obtain rfl := hdistinct orderId o (mem_knownStates_of_seed ho) o'
      (mem_knownStates_of_report ho') heq
    exact Bool.noConfusion ((mem_of_get_seed ho).2.symm.trans (hall o ho'))
  · intro hactive
    have hget := (h reports (fun _ => Iff.rfl) orderId newest).2 ⟨hnewest, hactive⟩
    exact (mem_knownStates_of_get (fun _ => Iff.rfl) hget).symm

/-- Reports in any order and with any repetitions give the view of the newest states iff the newest
state of each order is settled. -/
theorem confluent_iff (hdistinct : DistinctTimes orders reports) :
    Confluent orders reports ↔ ∀ orderId newest,
      IsNewest (knownStates orders reports orderId) newest →
        Settled orders reports orderId newest := by
  constructor
  · exact fun h orderId newest hnewest => settled_of_confluent hdistinct hnewest h
  · intro hsettled events hsame orderId order
    constructor
    · intro hget
      have hmem : order ∈ knownStates orders reports orderId :=
        (mem_knownStates_of_get hsame hget).elim mem_knownStates_of_seed mem_knownStates_of_report
      obtain ⟨newest, hnewest⟩ := exists_isNewest (List.ne_nil_of_mem hmem)
      rw [get_of_settled hdistinct hnewest (hsettled _ _ hnewest) hsame] at hget
      obtain ⟨hactive, rfl⟩ := (Reading.keep_eq_some_iff reading).1 hget
      exact ⟨hnewest, hactive⟩
    · rintro ⟨hnewest, hactive⟩
      rw [get_of_settled hdistinct hnewest (hsettled _ _ hnewest) hsame]
      exact (Reading.keep_eq_some_iff reading).2 ⟨hactive, rfl⟩

/-- A listing with one entry for each order needs no condition of its own: the newest state is
settled iff it is active or all reports of the order are terminal. -/
theorem settled_iff_of_once (honce : ∀ o ∈ orders, ∀ o' ∈ orders, o.orderId = o'.orderId → o = o')
    (hdistinct : DistinctTimes orders reports)
    (hnewest : IsNewest (knownStates orders reports orderId) newest) :
    Settled orders reports orderId newest ↔ (newest.status.isTerminal = true →
      ∀ o ∈ statesOf orderId reports, o.status.isTerminal = true) := by
  refine ⟨fun h hfinal => (h.terminal hfinal).1, fun hall => ⟨fun hfinal => ?_, fun hactive => ?_⟩⟩
  · refine ⟨hall hfinal, fun o ho => ?_⟩
    obtain ⟨hmem, hopen⟩ := mem_of_get_seed ho
    have hne : o ≠ newest := by
      rintro rfl
      exact Bool.noConfusion (hopen.symm.trans hfinal)
    rcases List.mem_append.1 hnewest.mem with hlisted | hreported
    · obtain ⟨horder, hid⟩ := List.mem_filter.1 hmem
      obtain ⟨hnew, hid'⟩ := List.mem_filter.1 hlisted
      refine absurd (honce o horder newest hnew ?_) hne
      rw [of_decide_eq_true hid, of_decide_eq_true hid']
    · refine ⟨newest, hreported, lt_of_le_of_ne (hnewest.le o (mem_knownStates_of_seed ho)) ?_⟩
      exact fun heq => hne (hdistinct orderId o (mem_knownStates_of_seed ho) newest hnewest.mem heq)
  · rcases List.mem_append.1 hnewest.mem with hlisted | hreported
    · right
      obtain ⟨hmem, hid⟩ := List.mem_filter.1 hlisted
      obtain rfl := of_decide_eq_true hid
      have hopen : newest ∈ orders.filter Order.isActive := by
        refine List.mem_filter.2 ⟨hmem, ?_⟩
        rw [Order.isActive_eq, hactive, Bool.not_false]
      refine Table.lookup_ofList_of_mem hopen fun o ho hsame => ?_
      exact honce o (List.mem_of_mem_filter ho) newest hmem hsame
    · exact .inl hreported

def reportOn (orderId : ℤ) (status : String) (transactionTime : ℤ) : ExecutionReportEvent :=
  { eventTime := transactionTime, symbol := "BTCTHB", clientOrderId := "c", side := "BUY",
    orderType := "LIMIT", timeInForce := "GTC", origQty := ⟨1, 0⟩, price := ⟨1, 0⟩,
    stopPrice := none, currentOrderStatus := status, orderId, orderListId := none,
    cumulativeFilledQty := ⟨0, 0⟩, transactionTime := some transactionTime, isOnBook := none,
    orderCreationTime := none, cumulativeQuoteQty := none, quoteOrderQty := none }

/-- Two open orders. -/
def twoListed : List Order :=
  [orderFromExecutionReport (reportOn 1 "NEW" 1), orderFromExecutionReport (reportOn 2 "NEW" 1)]

/-- The first is filled in part, twice, the second in full. -/
def threeReports : List ExecutionReportEvent :=
  [reportOn 1 "PARTIALLY_FILLED" 2, reportOn 1 "PARTIALLY_FILLED" 3, reportOn 2 "FILLED" 2]

theorem mem_known_twoListed (h : order ∈ knownStates twoListed threeReports orderId) :
    order ∈ twoListed ++ threeReports.map orderFromExecutionReport ∧ order.orderId = orderId := by
  rcases List.mem_append.1 h with hlisted | hreported
  · obtain ⟨hmem, hid⟩ := List.mem_filter.1 hlisted
    exact ⟨List.mem_append_left _ hmem, of_decide_eq_true hid⟩
  · obtain ⟨⟨event, hevent, rfl⟩, hid⟩ := mem_statesOf_iff.1 hreported
    exact ⟨List.mem_append_right _ (List.mem_map_of_mem hevent), hid⟩

/-- The newest report first, an older one after it, and the newest once more. -/
theorem confluent_threeReports :
    Confluent twoListed threeReports ∧
      ([reportOn 1 "PARTIALLY_FILLED" 3, reportOn 2 "FILLED" 2, reportOn 1 "PARTIALLY_FILLED" 2,
        reportOn 1 "PARTIALLY_FILLED" 3].foldl apply (seed twoListed)).get 1 =
          some (orderFromExecutionReport (reportOn 1 "PARTIALLY_FILLED" 3)) ∧
      ([reportOn 1 "PARTIALLY_FILLED" 3, reportOn 2 "FILLED" 2, reportOn 1 "PARTIALLY_FILLED" 2,
        reportOn 1 "PARTIALLY_FILLED" 3].foldl apply (seed twoListed)).get 2 = none := by
  have honce : ∀ o ∈ twoListed, ∀ o' ∈ twoListed, o.orderId = o'.orderId → o = o' := by
    decide +kernel
  have htimes : ∀ o ∈ twoListed ++ threeReports.map orderFromExecutionReport,
      ∀ o' ∈ twoListed ++ threeReports.map orderFromExecutionReport, o.orderId = o'.orderId →
        o.updateTime = o'.updateTime → o = o' := by decide +kernel
  have hclosed : ∀ o ∈ twoListed ++ threeReports.map orderFromExecutionReport,
      o.status.isTerminal = true → ∀ o' ∈ threeReports.map orderFromExecutionReport,
        o'.orderId = o.orderId → o'.status.isTerminal = true := by decide +kernel
  have hdistinct : DistinctTimes twoListed threeReports := by
    intro orderId o ho o' ho' htime
    obtain ⟨hmem, hid⟩ := mem_known_twoListed ho
    obtain ⟨hmem', hid'⟩ := mem_known_twoListed ho'
    exact htimes o hmem o' hmem' (hid.trans hid'.symm) htime
  have hconfluent : Confluent twoListed threeReports := by
    refine (confluent_iff hdistinct).2 fun orderId newest hnewest => ?_
    refine (settled_iff_of_once honce hdistinct hnewest).2 fun hfinal o ho => ?_
    obtain ⟨hmem, hid⟩ := mem_known_twoListed hnewest.mem
    obtain ⟨⟨event, hevent, rfl⟩, hid'⟩ := mem_statesOf_iff.1 ho
    exact hclosed newest hmem hfinal _ (List.mem_map_of_mem hevent) (hid'.trans hid.symm)
  have hsame : ∀ event, event ∈ [reportOn 1 "PARTIALLY_FILLED" 3, reportOn 2 "FILLED" 2,
      reportOn 1 "PARTIALLY_FILLED" 2, reportOn 1 "PARTIALLY_FILLED" 3] ↔
        event ∈ threeReports := by
    intro event
    simp only [threeReports, List.mem_cons, List.not_mem_nil, or_false]
    tauto
  refine ⟨hconfluent, (hconfluent _ hsame 1 _).2 ⟨⟨?_, ?_⟩, ?_⟩, ?_⟩
  · decide +kernel
  · decide +kernel
  · decide +kernel
  · refine Option.eq_none_iff_forall_ne_some.2 fun o ho => ?_
    obtain ⟨hnewest, hactive⟩ := (hconfluent _ hsame 2 o).1 ho
    have hfilled : orderFromExecutionReport (reportOn 2 "FILLED" 2) ∈
        knownStates twoListed threeReports 2 := by decide +kernel
    have hlast : ∀ o ∈ knownStates twoListed threeReports 2,
        (orderFromExecutionReport (reportOn 2 "FILLED" 2)).updateTime ≤ o.updateTime →
          o.status.isTerminal = true := by decide +kernel
    rw [hlast o hnewest.mem (hnewest.le _ hfilled)] at hactive
    cases hactive

/-- A report that the order 1 is filled and, after it, the older one that it is new: the order is
open in the view. -/
theorem not_confluent_resurrected :
    DistinctTimes [] [reportOn 1 "FILLED" 2, reportOn 1 "NEW" 1] ∧
      ¬ Confluent [] [reportOn 1 "FILLED" 2, reportOn 1 "NEW" 1] := by
  constructor
  · intro orderId o ho o' ho' htime
    obtain ⟨⟨event, hevent, rfl⟩, -⟩ := mem_statesOf_iff.1 ho
    obtain ⟨⟨event', hevent', rfl⟩, -⟩ := mem_statesOf_iff.1 ho'
    simp only [List.mem_cons, List.not_mem_nil, or_false] at hevent hevent'
    rcases hevent with rfl | rfl <;> rcases hevent' with rfl | rfl
    · rfl
    · exact absurd htime (by decide +kernel)
    · exact absurd htime (by decide +kernel)
    · rfl
  · intro h
    have hget : ([reportOn 1 "FILLED" 2, reportOn 1 "NEW" 1].foldl apply (seed [])).get 1 =
        some (orderFromExecutionReport (reportOn 1 "NEW" 1)) := by decide +kernel
    obtain ⟨hnewest, -⟩ := (h _ (fun _ => Iff.rfl) 1 _).1 hget
    have hfilled : orderFromExecutionReport (reportOn 1 "FILLED" 2) ∈
        knownStates [] [reportOn 1 "FILLED" 2, reportOn 1 "NEW" 1] 1 := by decide +kernel
    exact absurd (hnewest.le _ hfilled) (by decide +kernel)

end LocalOrderView

end BinanceTh
