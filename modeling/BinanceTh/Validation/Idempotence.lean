import BinanceTh.Validation.Filters

/-!
# Validating twice

Orders are compared as the code compares them: decimals by their number, the other fields as they
are (`SameAs`). The checks read numbers only, so that they hold of both of two such orders or of
neither (`Passes.of_sameAs`), and snapping an order whose numbers are multiples of their steps
returns the same order (`snapped_sameAs`). A snapped order is one, which is why validating twice is
validating once (`validateOrder_settles`).
-/

namespace BinanceTh

open Multiples Decimal

/-! ## Equal orders -/

/-- The equality of two order requests: that of the numbers of their decimals and of the rest. -/
structure OrderRequest.SameAs (r r' : OrderRequest) : Prop where
  rest : r = { r' with
    price := r.price, stopPrice := r.stopPrice, quantity := r.quantity,
    quoteOrderQty := r.quoteOrderQty }
  price : r.price.map toRat = r'.price.map toRat
  stopPrice : r.stopPrice.map toRat = r'.stopPrice.map toRat
  quantity : r.quantity.map toRat = r'.quantity.map toRat
  quoteOrderQty : r.quoteOrderQty.map toRat = r'.quoteOrderQty.map toRat

theorem exists_of_map_toRat_eq {x y : Option Decimal} (h : x.map toRat = y.map toRat)
    {v : Decimal} (hv : x = some v) : ∃ w, y = some w ∧ w.toRat = v.toRat := by
  rw [hv, Option.map_some] at h
  exact Option.map_eq_some_iff.1 h.symm

theorem InRange.of_toRat_eq {min max : Option Decimal} {v w : Decimal} (h : InRange min max v)
    (heq : w.toRat = v.toRat) : InRange min max w := by
  obtain ⟨hpos, hmin, hmax⟩ := h
  simp only [lt_iff, le_iff] at hpos hmin hmax
  constructor
  · rwa [lt_iff, heq]
  · intro m hm hne
    rw [le_iff, heq]
    exact hmin m hm hne
  · intro m hm hne
    rw [le_iff, heq]
    exact hmax m hm hne

variable {r r' request order : OrderRequest} {info : SymbolInfo}
  {rules : Option SymbolExecutionRules}

theorem OrderRequest.SameAs.lotFilter_eq (h : r.SameAs r') :
    lotFilter r info = lotFilter r' info := by
  have htype : r.orderType = r'.orderType := by rw [h.rest]
  unfold lotFilter
  rw [htype]

theorem map_toRat_notional (request : OrderRequest) (price quantity : Option Decimal) :
    (notional request price quantity).map toRat =
      (request.quoteOrderQty.map toRat).or
        ((price.map toRat).bind fun p => (quantity.map toRat).map (p * ·)) := by
  cases hquote : request.quoteOrderQty with
  | some v => rw [notional_of_quote hquote, Option.map_some, Option.some_or]
  | none =>
    rw [Option.map_none, Option.none_or]
    simp only [notional, hquote]
    cases price with
    | none => rfl
    | some p =>
      cases quantity with
      | none => rfl
      | some q => exact congrArg some (toRat_mul p q)

/-- Equal orders have the same notional. -/
theorem OrderRequest.SameAs.notional_eq (h : r.SameAs r') :
    (notional r r.price r.quantity).map toRat = (notional r' r'.price r'.quantity).map toRat := by
  rw [map_toRat_notional, map_toRat_notional, h.quoteOrderQty, h.price, h.quantity]

/-- The checks do not tell equal orders apart. -/
theorem Passes.of_sameAs (h : Passes info r') (hsame : r.SameAs r') : Passes info r := by
  constructor
  · intro p hp
    obtain ⟨p', hp', heq⟩ := exists_of_map_toRat_eq hsame.price hp
    exact (h.price p' hp').of_toRat_eq heq.symm
  · intro q hq
    obtain ⟨q', hq', heq⟩ := exists_of_map_toRat_eq hsame.quantity hq
    rw [hsame.lotFilter_eq]
    exact (h.quantity q' hq').of_toRat_eq heq.symm
  · intro v hv m hm hne
    obtain ⟨v', hv', heq⟩ := exists_of_map_toRat_eq hsame.notional_eq hv
    have hle := h.notional v' hv' m hm hne
    rw [le_iff] at hle ⊢
    rwa [← heq]

/-! ## Snapping a snapped order -/

/-- A number that is a multiple of the step, where that is not 0. -/
def OnStep (step : Option Decimal) (v : Decimal) : Prop :=
  ∀ s, step = some s → s.toRat ≠ 0 → IsMultiple s.toRat v.toRat

theorem onStep_snap (step : Option Decimal) (v : Decimal) : OnStep step (snap v step) := by
  rintro s rfl hs
  exact isMultiple_snap hs v

theorem toRat_snap_of_onStep {step : Option Decimal} {v : Decimal} (h : OnStep step v) :
    (snap v step).toRat = v.toRat := by
  obtain hno | ⟨s, rfl, hs⟩ := noStep_or step
  · rw [snap_of_noStep hno]
  · rw [snap_of_step hs, truncate_of_isMultiple hs (h s rfl hs)]

/-- The numbers of an order are multiples of their steps. -/
structure OnSteps (info : SymbolInfo) (order : OrderRequest) : Prop where
  price : ∀ p, order.price = some p → OnStep info.tick p
  stopPrice : ∀ s, order.stopPrice = some s → OnStep info.tick s
  quantity : ∀ q, order.quantity = some q → OnStep (lotStep order info) q

theorem onSteps_snapped (request : OrderRequest) (info : SymbolInfo) :
    OnSteps info (snapped request info) := by
  constructor
  · intro p hp
    obtain ⟨p₀, -, rfl⟩ := Option.map_eq_some_iff.1 hp
    exact onStep_snap _ _
  · intro s hs
    obtain ⟨s₀, -, rfl⟩ := Option.map_eq_some_iff.1 hs
    exact onStep_snap _ _
  · intro q hq
    obtain ⟨q₀, -, rfl⟩ := Option.map_eq_some_iff.1 hq
    exact onStep_snap _ _

theorem map_snap_of_onStep {step value : Option Decimal} (h : ∀ v, value = some v → OnStep step v) :
    (value.map (snap · step)).map toRat = value.map toRat := by
  cases value with
  | none => rfl
  | some v => exact congrArg some (toRat_snap_of_onStep (h v rfl))

theorem snapped_sameAs (h : OnSteps info request) : (snapped request info).SameAs request where
  rest := rfl
  price := map_snap_of_onStep h.price
  stopPrice := map_snap_of_onStep h.stopPrice
  quantity := map_snap_of_onStep h.quantity
  quoteOrderQty := rfl

/-- An accepted order is accepted again, and returned as it is. -/
theorem validateOrder_again (h : validateOrder request info rules = .ok order) :
    ∃ again, validateOrder order info rules = .ok again ∧ again.SameAs order := by
  obtain ⟨rfl, hpass⟩ := validateOrder_eq_ok_iff.1 h
  have hsame := snapped_sameAs (onSteps_snapped request info)
  exact ⟨_, validateOrder_eq_ok_iff.2 ⟨rfl, hpass.of_sameAs hsame⟩, hsame⟩

/-! ## How far a number moves -/

/-- The value is unchanged, or lowered by less than one step. -/
def LoweredWithin (step before after : Option Decimal) : Prop :=
  after = before ∨ ∃ s v v', step = some s ∧ before = some v ∧ after = some v' ∧
    v' ≤ v ∧ v.toRat - v'.toRat < s.toRat

theorem loweredWithin_snap {step value : Option Decimal}
    (hstep : ∀ s, step = some s → 0 ≤ s.toRat) (hvalue : ∀ v, value = some v → 0 ≤ v.toRat) :
    LoweredWithin step value (value.map (snap · step)) := by
  cases value with
  | none => exact .inl rfl
  | some v =>
    obtain hno | ⟨s, rfl, hs⟩ := noStep_or step
    · left
      rw [Option.map_some, snap_of_noStep hno]
    · right
      have hpos : 0 < s.toRat := (hstep s rfl).lt_of_ne' hs
      have hsnap := toRat_snap_of_nonneg hpos (hvalue v rfl)
      refine ⟨s, v, _, rfl, rfl, rfl, ?_, ?_⟩
      · rw [le_iff, hsnap]
        exact down_le hpos _
      · rw [hsnap]
        exact sub_down_lt hpos _

/-- The numbers of a request that are snapped are not negative. -/
structure OrderRequest.NonNeg (request : OrderRequest) : Prop where
  price : ∀ p, request.price = some p → 0 ≤ p.toRat
  stopPrice : ∀ s, request.stopPrice = some s → 0 ≤ s.toRat
  quantity : ∀ q, request.quantity = some q → 0 ≤ q.toRat

/-- Validation is idempotent, changes at most the three numbers it snaps, and lowers each by less
than a step. A request whose numbers are multiples of their steps is returned as it is. -/
theorem validateOrder_settles (hrequest : request.NonNeg)
    (htick : ∀ t, info.tick = some t → 0 ≤ t.toRat)
    (hstep : ∀ s, lotStep request info = some s → 0 ≤ s.toRat)
    (h : validateOrder request info rules = .ok order) :
    (∃ again, validateOrder order info rules = .ok again ∧ again.SameAs order) ∧
      order = { request with
        price := order.price, stopPrice := order.stopPrice, quantity := order.quantity } ∧
      LoweredWithin info.tick request.price order.price ∧
      LoweredWithin info.tick request.stopPrice order.stopPrice ∧
      LoweredWithin (lotStep request info) request.quantity order.quantity ∧
      (OnSteps info request → order.SameAs request) := by
  refine ⟨validateOrder_again h, validateOrder_frame h, ?_⟩
  obtain ⟨rfl, -⟩ := validateOrder_eq_ok_iff.1 h
  exact ⟨loweredWithin_snap htick hrequest.price, loweredWithin_snap htick hrequest.stopPrice,
    loweredWithin_snap hstep hrequest.quantity, snapped_sameAs⟩

/-- A buy order at 50000.037, with a tick of 0.01. -/
theorem validateOrder_settles_between_ticks :
    ∃ order, validateOrder (limitRequest .buy ⟨50000037, -3⟩ ⟨1, 0⟩) centTicks none = .ok order ∧
      (∃ again, validateOrder order centTicks none = .ok again ∧ again.SameAs order) ∧
      LoweredWithin (some ⟨1, -2⟩) (some ⟨50000037, -3⟩) order.price := by
  have hrun : validateOrder (limitRequest .buy ⟨50000037, -3⟩ ⟨1, 0⟩) centTicks none =
      .ok (limitRequest .buy ⟨5000003, -2⟩ ⟨1, 0⟩) := ok_of_toOption (by decide +kernel)
  have hrequest : (limitRequest .buy ⟨50000037, -3⟩ ⟨1, 0⟩).NonNeg := by
    constructor
    · rintro p ⟨⟩
      decide +kernel
    · rintro s ⟨⟩
    · rintro q ⟨⟩
      decide +kernel
  have htick : ∀ t, centTicks.tick = some t → 0 ≤ t.toRat := by
    rintro t ⟨⟩
    decide +kernel
  obtain ⟨hagain, -, hprice, -⟩ :=
    validateOrder_settles hrequest htick (fun s hs => by cases hs) hrun
  exact ⟨_, hrun, hagain, hprice⟩

end BinanceTh
