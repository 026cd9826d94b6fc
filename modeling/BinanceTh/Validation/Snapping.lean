import BinanceTh.Lib.Multiples
import BinanceTh.Validation

/-!
# What validation returns

The number that `snap` returns is the truncation of its argument to a multiple of the step
(`snap_of_step`). With that, `validateOrder` returns the snapped request (`snapped`) or nothing, and
it returns it iff the snapped request passes the checks (`validateOrder_eq_ok_iff`).
-/

namespace BinanceTh

open Multiples

namespace Decimal

theorem lt_iff {x y : Decimal} : x < y ↔ x.toRat < y.toRat := Iff.rfl

theorem le_iff {x y : Decimal} : x ≤ y ↔ x.toRat ≤ y.toRat := Iff.rfl

@[simp] theorem toRat_zero : zero.toRat = 0 := by simp [toRat, zero]

theorem toRat_mul (x y : Decimal) : (x.mul y).toRat = x.toRat * y.toRat := by
  have hpow : (10 : ℚ) ^ (x.exp + y.exp) = 10 ^ x.exp * 10 ^ y.exp := zpow_add₀ (by norm_num) _ _
  unfold toRat mul
  rw [hpow, Int.cast_mul]
  exact mul_mul_mul_comm _ _ _ _

theorem isZero_iff {x : Decimal} : x.isZero = true ↔ x.toRat = 0 := by
  have hpow : (10 : ℚ) ^ x.exp ≠ 0 := zpow_ne_zero _ (by norm_num)
  simp [isZero, toRat, hpow]

/-- Moving zeros into the exponent does not change the number. -/
theorem toRat_moveZeros (n : ℕ) (coeff exp : ℤ) :
    (moveZeros n coeff exp).toRat = coeff * (10 : ℚ) ^ exp := by
  induction n generalizing coeff exp with
  | zero => rfl
  | succ n ih =>
    rw [moveZeros]
    split
    · next hdvd =>
      have hcoeff : (coeff : ℚ) = (coeff / 10 : ℤ) * 10 := by
        exact_mod_cast (Int.ediv_mul_cancel (Int.dvd_of_emod_eq_zero hdvd)).symm
      rw [ih, zpow_add_one₀ (by norm_num), hcoeff]
      ring
    · rfl

theorem toRat_truncDiv (x y : Decimal) :
    (truncDiv x y).toRat =
      (if x.toRat / y.toRat < 0 then ⌈x.toRat / y.toRat⌉ else ⌊x.toRat / y.toRat⌋ : ℤ) := by
  unfold truncDiv
  dsimp only
  generalize (if x.toRat / y.toRat < 0 then ⌈x.toRat / y.toRat⌉ else ⌊x.toRat / y.toRat⌋) = n
  split
  · rw [toRat_moveZeros]
    simp
  · simp [toRat]

/-- A step that rounds nothing: there is none, or it is 0. -/
def NoStep (step : Option Decimal) : Prop := ∀ s, step = some s → s.toRat = 0

end Decimal

open Decimal

/-! ## Snapping -/

theorem snap_of_noStep {step : Option Decimal} (h : NoStep step) (v : Decimal) :
    snap v step = v := by
  cases step with
  | none => rfl
  | some s => exact if_pos (isZero_iff.2 (h s rfl))

/-- The number of a snapped value is the truncation of its number. -/
theorem snap_of_step {s : Decimal} (h : s.toRat ≠ 0) (v : Decimal) :
    (snap v (some s)).toRat = truncate s.toRat v.toRat := by
  have hzero : ¬ s.isZero = true := fun hz => h (isZero_iff.1 hz)
  rw [snap, if_neg hzero, toRat_mul, toRat_truncDiv]
  rfl

theorem toRat_snap_of_nonneg {s v : Decimal} (hs : 0 < s.toRat) (hv : 0 ≤ v.toRat) :
    (snap v (some s)).toRat = down s.toRat v.toRat := by
  rw [snap_of_step hs.ne', truncate_of_nonneg hs hv]

theorem isMultiple_snap {s : Decimal} (h : s.toRat ≠ 0) (v : Decimal) :
    IsMultiple s.toRat (snap v (some s)).toRat := by
  rw [snap_of_step h]
  exact isMultiple_truncate _ _

/-- A step rounds nothing, or it is a number other than 0. -/
theorem noStep_or (step : Option Decimal) :
    NoStep step ∨ ∃ s, step = some s ∧ s.toRat ≠ 0 := by
  by_cases h : NoStep step
  · exact .inl h
  · simp only [NoStep, not_forall] at h
    obtain ⟨s, hs, hne⟩ := h
    exact .inr ⟨s, hs, hne⟩

/-- The number that a value snaps to, for a step of any sign. -/
def snappedValue (step : Option Decimal) (v : Decimal) : ℚ :=
  match step with
  | none => v.toRat
  | some s => if s.toRat = 0 then v.toRat else truncate s.toRat v.toRat

theorem toRat_snap (step : Option Decimal) (v : Decimal) :
    (snap v step).toRat = snappedValue step v := by
  cases step with
  | none => rfl
  | some s =>
    unfold snappedValue
    by_cases hs : s.toRat = 0
    · rw [snap, if_pos (isZero_iff.2 hs)]
      exact (if_pos hs).symm
    · rw [snap_of_step hs]
      exact (if_neg hs).symm

/-- Only a positive number snaps to a positive one, and it does not grow. -/
theorem snap_le_of_pos {v : Decimal} {step : Option Decimal} (h : zero < snap v step) :
    snap v step ≤ v := by
  obtain hno | ⟨s, rfl, hs⟩ := noStep_or step
  · rw [snap_of_noStep hno]
    exact le_iff.2 le_rfl
  · rw [lt_iff, toRat_zero, snap_of_step hs] at h
    rw [le_iff, snap_of_step hs]
    exact truncate_le (pos_of_truncate_pos h).le

/-! ## The checks -/

theorem violates_eq_false_iff {bound : Option Decimal} {p : Decimal → Bool} :
    violates bound p = false ↔ ∀ b, bound = some b → b.toRat ≠ 0 → p b = false := by
  cases bound with
  | none => simp [violates]
  | some b => simp [violates, ← isZero_iff]

/-- A value that the checks of its field pass, where an absent bound and one of 0 do not limit. -/
structure InRange (min max : Option Decimal) (v : Decimal) : Prop where
  pos : zero < v
  min_le : ∀ m, min = some m → m.toRat ≠ 0 → m ≤ v
  le_max : ∀ m, max = some m → m.toRat ≠ 0 → v ≤ m

theorem inRange_iff {min max : Option Decimal} {v : Decimal} :
    InRange min max v ↔ ¬ v ≤ zero ∧ violates min (v < ·) = false ∧
      violates max (· < v) = false := by
  simp only [violates_eq_false_iff, decide_eq_false_iff_not, lt_iff, le_iff, not_lt, not_le]
  constructor
  · rintro ⟨hpos, hmin, hmax⟩
    exact ⟨hpos, hmin, hmax⟩
  · rintro ⟨hpos, hmin, hmax⟩
    exact ⟨hpos, hmin, hmax⟩

theorem checkRange_eq_ok_iff {field nonpositive below above : String} {value : Option Decimal}
    {bounds : Option (Option Decimal × Option Decimal)} :
    checkRange field nonpositive below above value bounds = .ok () ↔
      ∀ v, value = some v → InRange (bounds.bind (·.1)) (bounds.bind (·.2)) v := by
  cases value with
  | none => simp [checkRange, pure, Except.pure]
  | some v =>
    simp only [Option.some.injEq, forall_eq', inRange_iff, checkRange]
    obtain _ | ⟨min, max⟩ := bounds
    · split <;> simp_all [violates, pure, Except.pure]
    · split
      · simp_all
      · split <;> [skip; split] <;> simp_all [pure, Except.pure]

theorem checkNotional_eq_ok_iff {filter : Option SymbolFilter} {value : Option Decimal} :
    checkNotional filter value = .ok () ↔
      ∀ v, value = some v → ∀ m, filter.bind (·.minNotional) = some m → m.toRat ≠ 0 → m ≤ v := by
  cases value with
  | none => simp [checkNotional, pure, Except.pure]
  | some v =>
    have hnot : violates (filter.bind (·.minNotional)) (v < ·) = false ↔
        ∀ m, filter.bind (·.minNotional) = some m → m.toRat ≠ 0 → m ≤ v := by
      simp only [violates_eq_false_iff, decide_eq_false_iff_not, lt_iff, le_iff, not_lt]
    simp only [Option.some.injEq, forall_eq', ← hnot, checkNotional]
    split <;> simp_all [pure, Except.pure]

/-! ## The order that is returned -/

/-- The tick of a symbol, which prices are snapped to. -/
def SymbolInfo.tick (info : SymbolInfo) : Option Decimal :=
  (info.getFilter .priceFilter).bind (·.tickSize)

/-- The step of the lot filter in force, which the quantity is snapped to. -/
def lotStep (request : OrderRequest) (info : SymbolInfo) : Option Decimal :=
  (lotFilter request info).bind (·.stepSize)

def snapped (request : OrderRequest) (info : SymbolInfo) : OrderRequest :=
  { request with
    price := request.price.map (snapPrice · info.tick)
    stopPrice := request.stopPrice.map (snapPrice · info.tick)
    quantity := request.quantity.map (snapQty · (lotStep request info)) }

/-- What is checked of a snapped order. -/
structure Passes (info : SymbolInfo) (order : OrderRequest) : Prop where
  price : ∀ p, order.price = some p →
    InRange ((info.getFilter .priceFilter).bind (·.minPrice))
      ((info.getFilter .priceFilter).bind (·.maxPrice)) p
  quantity : ∀ q, order.quantity = some q →
    InRange ((lotFilter order info).bind (·.minQty)) ((lotFilter order info).bind (·.maxQty)) q
  notional : ∀ v, notional order order.price order.quantity = some v →
    ∀ m, (info.getFilter .minNotional).bind (·.minNotional) = some m → m.toRat ≠ 0 → m ≤ v

variable {request order : OrderRequest} {info : SymbolInfo} {rules : Option SymbolExecutionRules}

theorem snapped_price {p : Decimal} (h : request.price = some p) :
    (snapped request info).price = some (snapPrice p info.tick) := by
  rw [snapped, h, Option.map_some]

theorem snapped_stopPrice {p : Decimal} (h : request.stopPrice = some p) :
    (snapped request info).stopPrice = some (snapPrice p info.tick) := by
  rw [snapped, h, Option.map_some]

theorem snapped_quantity {q : Decimal} (h : request.quantity = some q) :
    (snapped request info).quantity = some (snapQty q (lotStep request info)) := by
  rw [snapped, h, Option.map_some]

theorem lotFilter_snapped (request : OrderRequest) (info info' : SymbolInfo) :
    lotFilter (snapped request info) info' = lotFilter request info' := rfl

theorem notional_of_quote {v : Decimal} (h : request.quoteOrderQty = some v)
    (price quantity : Option Decimal) : notional request price quantity = some v := by
  simp only [notional, h]

theorem notional_of_no_quote (h : request.quoteOrderQty = none) (p q : Decimal) :
    notional request (some p) (some q) = some (p.mul q) := by
  simp only [notional, h]

/-- Validation returns the snapped request, where that passes the checks. -/
theorem validateOrder_eq_ok_iff :
    validateOrder request info rules = .ok order ↔
      order = snapped request info ∧ Passes info (snapped request info) := by
  have hpass : Passes info (snapped request info) ↔
      checkPrice (snapped request info).price
          ((info.getFilter .priceFilter).map fun f => (f.minPrice, f.maxPrice)) = .ok () ∧
        checkQuantity (snapped request info).quantity
          ((lotFilter request info).map fun f => (f.minQty, f.maxQty)) = .ok () ∧
        checkNotional (info.getFilter .minNotional)
          (notional request (snapped request info).price (snapped request info).quantity) =
            .ok () := by
    rw [checkPrice, checkQuantity, checkRange_eq_ok_iff, checkRange_eq_ok_iff,
      checkNotional_eq_ok_iff]
    simp only [Option.bind_map, Function.comp_def]
    exact ⟨fun h => ⟨h.price, h.quantity, h.notional⟩, fun h => ⟨h.1, h.2.1, h.2.2⟩⟩
  rw [hpass]
  unfold validateOrder
  simp only [bind_eq_ok_iff]
  constructor
  · rintro ⟨_, hprice, _, hquantity, _, hnotional, -, -, h⟩
    cases h
    exact ⟨rfl, hprice, hquantity, hnotional⟩
  · rintro ⟨rfl, hprice, hquantity, hnotional⟩
    exact ⟨_, hprice, _, hquantity, _, hnotional, _, rfl, rfl⟩

theorem ok_of_toOption {ε α : Type} {x : Except ε α} {a : α} (h : x.toOption = some a) :
    x = .ok a := by
  cases x with
  | error e => cases h
  | ok b => rw [Option.some.inj h]

/-- The construction accepts a request that has its parameters and no space around its strings. -/
theorem OrderRequest.accepted_of {r : OrderRequest} (hsymbol : strip isSpace r.symbol = r.symbol)
    (hid : r.newClientOrderId.map (strip isSpace) = r.newClientOrderId)
    (hok : (r.recvWindow.all (· ≤ maxRecvWindow) && r.validateOrderParams) = true) :
    r.Accepted := by
  refine ⟨r, ?_⟩
  unfold construct
  rw [hsymbol, hid]
  exact if_pos hok

end BinanceTh
