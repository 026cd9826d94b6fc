import BinanceTh.Validation.Snapping

/-!
# What a validated order satisfies

An order that validation returns is snapped to the steps of the symbol's filters and within their
bounds (`MeetsFilter`), as far as validation looks at it. Rounding down is the cautious side for
the price of a buy order and for a quantity, and not for the price of a sell order
(`notMoreAggressive_iff`); the stop price is snapped and not checked (`meetsPriceFilter_iff`); a
market order is held to the lot filter for market orders alone, where the symbol has one
(`meetsLotFilter`); and the product of price and quantity is not checked of an order that has a
quote amount (`meetsMinNotional_iff`).
-/

namespace BinanceTh

open Multiples Decimal

/-- A positive number within bounds that is a multiple of the step. An absent step, bound or one of
0 does not limit. -/
structure MeetsFilter (step min max : Option Decimal) (v : Decimal) : Prop
    extends InRange min max v where
  multiple : ∀ s, step = some s → s.toRat ≠ 0 → IsMultiple s.toRat v.toRat

theorem meetsFilter_snap {step min max : Option Decimal} {v : Decimal}
    (h : InRange min max (snap v step)) : MeetsFilter step min max (snap v step) := by
  refine ⟨h, ?_⟩
  rintro s rfl hs
  exact isMultiple_snap hs v

/-- What a number has to satisfy for the one it snaps to to be in range: it reaches the first
multiple of the step, the first that is not below `min`, and not the first that is past `max`. -/
def SnapsInto (step min max : Option Decimal) (v : Decimal) : Prop :=
  (NoStep step → InRange min max v) ∧
    ∀ s, step = some s → 0 < s.toRat → s ≤ v ∧
      (∀ m, min = some m → m.toRat ≠ 0 → ⌈m.toRat / s.toRat⌉ * s.toRat ≤ v.toRat) ∧
      ∀ m, max = some m → m.toRat ≠ 0 → v.toRat < (⌊m.toRat / s.toRat⌋ + 1) * s.toRat

theorem inRange_snap_of_step {min max : Option Decimal} {s v : Decimal} (hs : 0 < s.toRat) :
    InRange min max (snap v (some s)) ↔ s ≤ v ∧
      (∀ m, min = some m → m.toRat ≠ 0 → ⌈m.toRat / s.toRat⌉ * s.toRat ≤ v.toRat) ∧
      ∀ m, max = some m → m.toRat ≠ 0 → v.toRat < (⌊m.toRat / s.toRat⌋ + 1) * s.toRat := by
  have hdown (hle : s ≤ v) : (snap v (some s)).toRat = down s.toRat v.toRat :=
    toRat_snap_of_nonneg hs (hs.le.trans hle)
  have hpos : zero < snap v (some s) ↔ s ≤ v := by
    rw [lt_iff, toRat_zero, snap_of_step hs.ne', truncate_pos_iff hs, le_iff]
  constructor
  · rintro ⟨h, hmin, hmax⟩
    have hle := hpos.1 h
    simp only [le_iff, hdown hle, le_down_iff_ceil hs, down_le_iff_floor hs] at hmin hmax
    exact ⟨hle, hmin, hmax⟩
  · rintro ⟨hle, hmin, hmax⟩
    refine ⟨hpos.2 hle, ?_, ?_⟩
    · simpa only [le_iff, hdown hle, le_down_iff_ceil hs] using hmin
    · simpa only [le_iff, hdown hle, down_le_iff_floor hs] using hmax

theorem inRange_snap_iff {step min max : Option Decimal} {v : Decimal}
    (hstep : ∀ s, step = some s → 0 ≤ s.toRat) :
    InRange min max (snap v step) ↔ SnapsInto step min max v := by
  obtain hno | ⟨s, rfl, hs⟩ := noStep_or step
  · rw [snap_of_noStep hno]
    exact ⟨fun h => ⟨fun _ => h, fun s heq hs => absurd (hno s heq) hs.ne'⟩, fun h => h.1 hno⟩
  · have hpos : 0 < s.toRat := (hstep s rfl).lt_of_ne' hs
    rw [inRange_snap_of_step hpos]
    constructor
    · intro h
      refine ⟨fun hno => absurd (hno s rfl) hs, ?_⟩
      rintro s' heq -
      cases heq
      exact h
    · exact fun h => h.2 s rfl hpos

variable {request order : OrderRequest} {info : SymbolInfo} {rules : Option SymbolExecutionRules}
  {filter : SymbolFilter}

/-! ## The direction of rounding -/

/-- The price `p'` is at least as cautious as `p`. -/
def OrderSide.Cautious : OrderSide → Decimal → Decimal → Prop
  | .buy, p', p => p' ≤ p
  | .sell, p', p => p ≤ p'

/-- An order that is neither more aggressive nor larger than the one requested. -/
structure NotMoreAggressive (request order : OrderRequest) : Prop where
  price : ∀ p, request.price = some p →
    ∃ p', order.price = some p' ∧ request.side.Cautious p' p
  quantity : ∀ q, request.quantity = some q → ∃ q', order.quantity = some q' ∧ q' ≤ q

/-- Of an accepted order the quantity has not grown. -/
theorem quantity_le (h : Passes info (snapped request info)) {q : Decimal}
    (hq : request.quantity = some q) :
    ∃ q', (snapped request info).quantity = some q' ∧ q' ≤ q :=
  ⟨_, snapped_quantity hq, snap_le_of_pos (h.quantity _ (snapped_quantity hq)).pos⟩

theorem cautious_snap_iff {side : OrderSide} {t p : Decimal} (ht : 0 < t.toRat)
    (hp : 0 ≤ p.toRat) :
    side.Cautious (snapPrice p (some t)) p ↔ (side = .sell → IsMultiple t.toRat p.toRat) := by
  have hsnap : (snapPrice p (some t)).toRat = down t.toRat p.toRat := toRat_snap_of_nonneg ht hp
  cases side with
  | buy =>
    refine iff_of_true ?_ (fun h => by cases h)
    rw [OrderSide.Cautious, le_iff, hsnap]
    exact down_le ht _
  | sell =>
    simp only [OrderSide.Cautious, forall_const, le_iff, hsnap]
    rw [← down_eq_self_iff ht, (down_le ht p.toRat).ge_iff_eq']
    exact eq_comm

/-- Snapping makes no accepted order with a price more aggressive, but for a sell order whose price
is between two ticks. -/
theorem notMoreAggressive_iff {t p : Decimal} (hfilter : info.getFilter .priceFilter = some filter)
    (htick : filter.tickSize = some t) (ht : 0 < t.toRat) (hprice : request.price = some p)
    (hp : 0 < p.toRat) (h : validateOrder request info rules = .ok order) :
    NotMoreAggressive request order ↔
      (request.side = .sell → IsMultiple t.toRat p.toRat) := by
  obtain ⟨rfl, hpass⟩ := validateOrder_eq_ok_iff.1 h
  have htick' : info.tick = some t := by rw [SymbolInfo.tick, hfilter, Option.bind_some, htick]
  have hsnapped : (snapped request info).price = some (snapPrice p (some t)) :=
    htick' ▸ snapped_price hprice
  rw [← cautious_snap_iff ht hp.le]
  constructor
  · intro hna
    obtain ⟨p', hp', hcautious⟩ := hna.price p hprice
    obtain rfl := Option.some.inj (hp'.symm.trans hsnapped)
    exact hcautious
  · intro hcautious
    refine ⟨fun p' hp' => ?_, fun q hq => quantity_le hpass hq⟩
    obtain rfl := Option.some.inj (hprice.symm.trans hp')
    exact ⟨_, hsnapped, hcautious⟩

def SymbolFilter.ofPrice (minPrice maxPrice tickSize : Option Decimal) : SymbolFilter :=
  ⟨.priceFilter, minPrice, maxPrice, tickSize, none, none, none, none⟩

def SymbolFilter.ofLot (filterType : FilterType) (minQty maxQty stepSize : Option Decimal) :
    SymbolFilter :=
  ⟨filterType, none, none, none, minQty, maxQty, stepSize, none⟩

def SymbolFilter.ofNotional (minNotional : Decimal) : SymbolFilter :=
  ⟨.minNotional, none, none, none, none, none, none, some minNotional⟩

/-- A symbol whose tick is a cent. -/
def centTicks : SymbolInfo :=
  { symbol := "BTCTHB", filters := [.ofPrice none none (some ⟨1, -2⟩)] }

def limitRequest (side : OrderSide) (price quantity : Decimal) : OrderRequest :=
  { symbol := "BTCTHB", side, orderType := .limit, timeInForce := some .gtc,
    quantity := some quantity, quoteOrderQty := none, price := some price,
    newClientOrderId := none, stopPrice := none, recvWindow := none }

/-- A request for the symbol of the examples that has the parameters of its type. -/
theorem accepted_btcthb {r : OrderRequest} (hsymbol : r.symbol = "BTCTHB")
    (hid : r.newClientOrderId = none)
    (hok : (r.recvWindow.all (· ≤ OrderRequest.maxRecvWindow) && r.validateOrderParams) = true) :
    r.Accepted := by
  refine OrderRequest.accepted_of ?_ (by rw [hid]; rfl) hok
  rw [hsymbol]
  decide +kernel

theorem accepted_limitRequest (side : OrderSide) (price quantity : Decimal) :
    (limitRequest side price quantity).Accepted :=
  accepted_btcthb rfl rfl rfl

/-- A sell order at a multiple of the tick. -/
theorem notMoreAggressive_sell_at_tick :
    ∃ order,
      validateOrder (limitRequest .sell ⟨5000003, -2⟩ ⟨1, 0⟩) centTicks none = .ok order ∧
        NotMoreAggressive (limitRequest .sell ⟨5000003, -2⟩ ⟨1, 0⟩) order := by
  have hrun : validateOrder (limitRequest .sell ⟨5000003, -2⟩ ⟨1, 0⟩) centTicks none =
      .ok (limitRequest .sell ⟨5000003, -2⟩ ⟨1, 0⟩) := ok_of_toOption (by decide +kernel)
  refine ⟨_, hrun, ?_⟩
  refine (notMoreAggressive_iff rfl rfl (by decide +kernel) rfl (by decide +kernel) hrun).2 ?_
  exact fun _ => ⟨5000003, by decide +kernel⟩

/-- A sell order at 50000.037 is returned with the price 50000.03. -/
theorem sell_price_lowered :
    ∃ order, (limitRequest .sell ⟨50000037, -3⟩ ⟨1, 0⟩).Accepted ∧
      validateOrder (limitRequest .sell ⟨50000037, -3⟩ ⟨1, 0⟩) centTicks none = .ok order ∧
      ¬ NotMoreAggressive (limitRequest .sell ⟨50000037, -3⟩ ⟨1, 0⟩) order := by
  refine ⟨limitRequest .sell ⟨5000003, -2⟩ ⟨1, 0⟩, accepted_limitRequest _ _ _, ?_, ?_⟩
  · exact ok_of_toOption (by decide +kernel)
  · intro h
    obtain ⟨p', hp', hle⟩ := h.price _ rfl
    obtain rfl := Option.some.inj hp'
    exact absurd (show (⟨50000037, -3⟩ : Decimal) ≤ ⟨5000003, -2⟩ from hle) (by decide +kernel)

/-! ## The price filter -/

/-- The price and the stop price of an order, where it has them, meet the price filter. -/
structure MeetsPriceFilter (filter : SymbolFilter) (order : OrderRequest) : Prop where
  price : ∀ p, order.price = some p →
    MeetsFilter filter.tickSize filter.minPrice filter.maxPrice p
  stopPrice : ∀ s, order.stopPrice = some s →
    MeetsFilter filter.tickSize filter.minPrice filter.maxPrice s

/-- The limit price of an accepted order meets the price filter. Its stop price does iff the
requested one snaps into the range, which validation does not check. -/
theorem meetsPriceFilter_iff (hfilter : info.getFilter .priceFilter = some filter)
    (htick : ∀ t, filter.tickSize = some t → 0 ≤ t.toRat)
    (h : validateOrder request info rules = .ok order) :
    MeetsPriceFilter filter order ↔ ∀ s, request.stopPrice = some s →
      SnapsInto filter.tickSize filter.minPrice filter.maxPrice s := by
  obtain ⟨rfl, hpass⟩ := validateOrder_eq_ok_iff.1 h
  have htick' : info.tick = filter.tickSize := by rw [SymbolInfo.tick, hfilter, Option.bind_some]
  have hprice : ∀ p, (snapped request info).price = some p →
      MeetsFilter filter.tickSize filter.minPrice filter.maxPrice p := by
    intro p hp
    have hrange := hpass.price p hp
    obtain ⟨p₀, -, rfl⟩ := Option.map_eq_some_iff.1 hp
    rw [hfilter, Option.bind_some, Option.bind_some, htick'] at hrange
    rw [htick']
    exact meetsFilter_snap hrange
  constructor
  · intro hmeets s hs
    have hsnapped : (snapped request info).stopPrice = some (snapPrice s filter.tickSize) :=
      htick' ▸ snapped_stopPrice hs
    exact (inRange_snap_iff htick).1 (hmeets.stopPrice _ hsnapped).toInRange
  · intro hinto
    refine ⟨hprice, fun s hs => ?_⟩
    obtain ⟨s₀, hs₀, rfl⟩ := Option.map_eq_some_iff.1 hs
    rw [htick']
    exact meetsFilter_snap ((inRange_snap_iff htick).2 (hinto s₀ hs₀))

/-- A stop-loss order with a limit price of 1 and a given stop price. -/
def stopRequest (stopPrice : Decimal) : OrderRequest :=
  { limitRequest .sell ⟨1, 0⟩ ⟨1, 0⟩ with
    orderType := .stopLossLimit, stopPrice := some stopPrice }

theorem accepted_stopRequest (stopPrice : Decimal) : (stopRequest stopPrice).Accepted :=
  accepted_btcthb rfl rfl rfl

theorem meetsPriceFilter_stopRequest :
    ∃ order, validateOrder (stopRequest ⟨15, -3⟩) centTicks none = .ok order ∧
      MeetsPriceFilter (.ofPrice none none (some ⟨1, -2⟩)) order := by
  have hrun : validateOrder (stopRequest ⟨15, -3⟩) centTicks none =
      .ok (stopRequest ⟨1, -2⟩) := ok_of_toOption (by decide +kernel)
  refine ⟨_, hrun, (meetsPriceFilter_iff rfl ?_ hrun).2 ?_⟩
  · rintro t ⟨⟩
    decide +kernel
  · rintro s ⟨⟩
    refine ⟨fun hno => absurd (hno _ rfl) (by decide +kernel), ?_⟩
    rintro t ⟨⟩ -
    refine ⟨by decide +kernel, ?_, ?_⟩
    · rintro m ⟨⟩
    · rintro m ⟨⟩

/-- A stop price of a tenth of the tick is returned as 0. -/
theorem stop_price_zero :
    ∃ order, (stopRequest ⟨1, -3⟩).Accepted ∧
      validateOrder (stopRequest ⟨1, -3⟩) centTicks none = .ok order ∧
      order.stopPrice = some ⟨0, -2⟩ ∧
      ¬ MeetsPriceFilter (.ofPrice none none (some ⟨1, -2⟩)) order := by
  refine ⟨stopRequest ⟨0, -2⟩, accepted_stopRequest _, ok_of_toOption (by decide +kernel), ?_, ?_⟩
  · rfl
  · intro h
    exact absurd (h.stopPrice _ rfl).pos (by decide +kernel)

/-! ## The lot filters -/

theorem lotFilter_of_market {request : OrderRequest} (hmarket : request.orderType = .market)
    (hfilter : info.getFilter .marketLotSize = some filter) :
    lotFilter request info = some filter := by
  rw [lotFilter, if_pos hmarket, hfilter, Option.some_or]

theorem lotFilter_of_not {request : OrderRequest}
    (hnot : request.orderType = .market → info.getFilter .marketLotSize = none) :
    lotFilter request info = info.getFilter .lotSize := by
  unfold lotFilter
  split
  · next hmarket => rw [hnot hmarket, Option.none_or]
  · rw [Option.none_or]

/-- The quantity of an accepted order is positive and meets the lot filter: for a market order its
own one, where the symbol has it. -/
theorem meetsLotFilter (h : validateOrder request info rules = .ok order) {q : Decimal}
    (hq : request.quantity = some q) :
    ∃ q', order.quantity = some q' ∧ zero < q' ∧
      (∀ f, info.getFilter .lotSize = some f →
        (request.orderType = .market → info.getFilter .marketLotSize = none) →
          MeetsFilter f.stepSize f.minQty f.maxQty q') ∧
      ∀ f, info.getFilter .marketLotSize = some f → request.orderType = .market →
        MeetsFilter f.stepSize f.minQty f.maxQty q' := by
  obtain ⟨rfl, hpass⟩ := validateOrder_eq_ok_iff.1 h
  have hsnapped := @snapped_quantity request info q hq
  have hrange := hpass.quantity _ hsnapped
  rw [lotFilter_snapped] at hrange
  have hmeets : ∀ f, lotFilter request info = some f →
      MeetsFilter f.stepSize f.minQty f.maxQty (snapQty q (lotStep request info)) := by
    intro f hf
    have hstep : lotStep request info = f.stepSize := by rw [lotStep, hf, Option.bind_some]
    rw [hf, Option.bind_some, Option.bind_some, hstep] at hrange
    rw [hstep]
    exact meetsFilter_snap hrange
  refine ⟨_, hsnapped, hrange.pos, ?_, ?_⟩
  · intro f hf hnot
    exact hmeets f ((lotFilter_of_not hnot).trans hf)
  · intro f hf hmarket
    exact hmeets f (lotFilter_of_market hmarket hf)

/-- A market order for 1.5. -/
def marketRequest : OrderRequest :=
  { limitRequest .buy ⟨1, 0⟩ ⟨15, -1⟩ with
    orderType := .market, timeInForce := none, price := none }

theorem meetsLotFilter_marketRequest :
    ∃ order, validateOrder marketRequest
        { symbol := "BTCTHB", filters := [.ofLot .lotSize none none (some ⟨1, 0⟩)] } none =
          .ok order ∧
      ∃ q', order.quantity = some q' ∧ MeetsFilter (some ⟨1, 0⟩) none none q' := by
  have hrun : validateOrder marketRequest
      { symbol := "BTCTHB", filters := [.ofLot .lotSize none none (some ⟨1, 0⟩)] } none =
        .ok { marketRequest with quantity := some ⟨1, 0⟩ } := ok_of_toOption (by decide +kernel)
  obtain ⟨q', hq', -, hlot, -⟩ := meetsLotFilter hrun rfl
  exact ⟨_, hrun, q', hq', hlot _ rfl fun _ => rfl⟩

/-- A market order for 1.5 is accepted under a lot filter with a step of 1, if the symbol has
another lot filter for market orders that does not limit. -/
theorem market_order_past_lotSize :
    ∃ order q', marketRequest.Accepted ∧ validateOrder marketRequest
        { symbol := "BTCTHB", filters :=
          [.ofLot .lotSize none none (some ⟨1, 0⟩), .ofLot .marketLotSize none none (some zero)] }
        none = .ok order ∧
      order.quantity = some q' ∧ ¬ MeetsFilter (some ⟨1, 0⟩) none none q' := by
  refine ⟨marketRequest, ⟨15, -1⟩, ?_, ok_of_toOption (by decide +kernel), rfl, ?_⟩
  · exact accepted_btcthb rfl rfl rfl
  · intro h
    have hmultiple := h.multiple ⟨1, 0⟩ rfl (by decide +kernel)
    exact absurd (down_of_isMultiple (by decide +kernel) hmultiple) (by decide +kernel)

/-! ## The smallest notional -/

/-- The product of price and quantity, where an order has both, and the quote amount of an order
without a price are not below `m`. -/
structure MeetsMinNotional (m : Decimal) (order : OrderRequest) : Prop where
  priced : ∀ p q, order.price = some p → order.quantity = some q → m.toRat ≤ p.toRat * q.toRat
  quoted : ∀ v, order.quoteOrderQty = some v → order.price = none → m ≤ v

/-- An accepted order meets the smallest notional, but for one with a price, a quantity and a quote
amount whose snapped price and quantity have a smaller product. -/
theorem meetsMinNotional_iff {m : Decimal} (hfilter : info.getFilter .minNotional = some filter)
    (hmin : filter.minNotional = some m) (hm : 0 < m.toRat)
    (h : validateOrder request info rules = .ok order) :
    MeetsMinNotional m order ↔ ∀ p q, request.price = some p → request.quantity = some q →
      request.quoteOrderQty ≠ none →
        m.toRat ≤ snappedValue info.tick p * snappedValue (lotStep request info) q := by
  obtain ⟨rfl, hpass⟩ := validateOrder_eq_ok_iff.1 h
  have hnotional : ∀ v, notional request (snapped request info).price
      (snapped request info).quantity = some v → m ≤ v := by
    intro v hv
    exact hpass.notional v hv m (by rw [hfilter, Option.bind_some, hmin]) hm.ne'
  simp only [← toRat_snap]
  constructor
  · intro hmeets p q hp hq _
    exact hmeets.priced _ _ (snapped_price hp) (snapped_quantity hq)
  · intro hproduct
    refine ⟨fun p' q' hp' hq' => ?_, fun v hv _ => hnotional v ?_⟩
    · obtain ⟨p, hp, hp₁⟩ := Option.map_eq_some_iff.1 hp'
      obtain ⟨q, hq, hq₁⟩ := Option.map_eq_some_iff.1 hq'
      cases hquote : request.quoteOrderQty with
      | some v =>
        rw [← hp₁, ← hq₁]
        exact hproduct p q hp hq (by rw [hquote]; exact Option.some_ne_none v)
      | none =>
        have hle := hnotional (p'.mul q') (by rw [hp', hq', notional_of_no_quote hquote])
        rwa [le_iff, toRat_mul] at hle
    · exact notional_of_quote hv _ _

/-- A limit order for one at a price of 1, with a quote amount of 100. -/
def quotedRequest : OrderRequest :=
  { limitRequest .buy ⟨1, 0⟩ ⟨1, 0⟩ with quoteOrderQty := some ⟨100, 0⟩ }

/-- A symbol whose smallest notional is `m`. -/
def notionalAtLeast (m : Decimal) : SymbolInfo :=
  { symbol := "BTCTHB", filters := [.ofNotional m] }

theorem meetsMinNotional_limitRequest :
    ∃ order, validateOrder (limitRequest .buy ⟨5, 0⟩ ⟨2, 0⟩) (notionalAtLeast ⟨10, 0⟩) none =
        .ok order ∧ MeetsMinNotional ⟨10, 0⟩ order := by
  have hrun : validateOrder (limitRequest .buy ⟨5, 0⟩ ⟨2, 0⟩) (notionalAtLeast ⟨10, 0⟩) none =
      .ok (limitRequest .buy ⟨5, 0⟩ ⟨2, 0⟩) := ok_of_toOption (by decide +kernel)
  refine ⟨_, hrun, (meetsMinNotional_iff rfl rfl (by decide +kernel) hrun).2 ?_⟩
  exact fun p q _ _ hquote => absurd rfl hquote

/-- An order for one at a price of 1 is accepted under a smallest notional of 10, if it has a quote
amount of 100. -/
theorem priced_order_below_minNotional :
    ∃ order, quotedRequest.Accepted ∧
      validateOrder quotedRequest (notionalAtLeast ⟨10, 0⟩) none = .ok order ∧
      ¬ MeetsMinNotional ⟨10, 0⟩ order := by
  refine ⟨quotedRequest, ?_, ok_of_toOption (by decide +kernel), ?_⟩
  · exact accepted_btcthb rfl rfl rfl
  · intro h
    exact absurd (h.priced ⟨1, 0⟩ ⟨1, 0⟩ rfl rfl) (by decide +kernel)

end BinanceTh
