import BinanceTh.Models

/-!
# Pre-trade validation

`validate_order`: prices and quantities are rounded down to the symbol's steps, then the bounds and
the smallest notional are checked. A bound of 0, like an absent one, does not limit.
-/

namespace BinanceTh

namespace Decimal

instance : LT Decimal := ⟨fun x y => x.toRat < y.toRat⟩

instance (x y : Decimal) : Decidable (x < y) := inferInstanceAs (Decidable (x.toRat < y.toRat))

instance : LE Decimal := ⟨fun x y => x.toRat ≤ y.toRat⟩

instance (x y : Decimal) : Decidable (x ≤ y) := inferInstanceAs (Decidable (x.toRat ≤ y.toRat))

def zero : Decimal := ⟨0, 0⟩

end Decimal

/-- `snap_price` and `snap_qty`, which are one computation. -/
def snap (value : Decimal) (step : Option Decimal) : Decimal :=
  match step with
  | none => value
  | some step => if step.isZero then value else (value.truncDiv step).mul step

def snapPrice (price : Decimal) (tick : Option Decimal) : Decimal := snap price tick

def snapQty (qty : Decimal) (step : Option Decimal) : Decimal := snap qty step

/-- `bound and p bound`: a bound that is absent or 0 does not hold against anything. -/
def violates (bound : Option Decimal) (p : Decimal → Bool) : Bool :=
  bound.any fun b => !b.isZero && p b

/-- The checks of a price or a quantity, where there is one: positive, and within the bounds of its
filter. -/
def checkRange (field nonpositive below above : String) (value : Option Decimal)
    (bounds : Option (Option Decimal × Option Decimal)) : Except Exc Unit :=
  match value with
  | none => pure ()
  | some v =>
    if v ≤ Decimal.zero then .error (.validationError nonpositive field (.decimal v))
    else match bounds with
      | none => pure ()
      | some (min, max) =>
        if violates min (v < ·) then .error (.validationError below field (.decimal v))
        else if violates max (· < v) then .error (.validationError above field (.decimal v))
        else pure ()

def checkPrice : Option Decimal → Option (Option Decimal × Option Decimal) → Except Exc Unit :=
  checkRange "price" "price must be positive" "price below minPrice" "price above maxPrice"

def checkQuantity : Option Decimal → Option (Option Decimal × Option Decimal) → Except Exc Unit :=
  checkRange "quantity" "quantity snapped to zero (below stepSize)" "quantity below minQty"
    "quantity above maxQty"

/-- The notional that `MIN_NOTIONAL` is about: the quote amount of the request, else the product. -/
def notional (request : OrderRequest) (price quantity : Option Decimal) : Option Decimal :=
  match request.quoteOrderQty with
  | some q => some q
  | none => match price, quantity with
    | some p, some q => some (p.mul q)
    | _, _ => none

def checkNotional (filter : Option SymbolFilter) (value : Option Decimal) : Except Exc Unit :=
  match value with
  | none => pure ()
  | some v =>
    if violates (filter.bind (·.minNotional)) (v < ·) then
      .error (.validationError "notional below minNotional" "notional" (.decimal v))
    else pure ()

/-- `_check_price_range`: dormant, nothing is enforced. -/
def checkPriceRange (_executionRules : Option SymbolExecutionRules) : Except Exc Unit := pure ()

/-- The lot filter in force: for a market order its own one, where the symbol has it. -/
def lotFilter (request : OrderRequest) (info : SymbolInfo) : Option SymbolFilter :=
  (if request.orderType = .market then info.getFilter .marketLotSize else none).or
    (info.getFilter .lotSize)

def validateOrder (request : OrderRequest) (symbolInfo : SymbolInfo)
    (executionRules : Option SymbolExecutionRules) : Except Exc OrderRequest := do
  let priceFilter := symbolInfo.getFilter .priceFilter
  let lot := lotFilter request symbolInfo
  let tick := priceFilter.bind (·.tickSize)
  let price := request.price.map (snapPrice · tick)
  checkPrice price (priceFilter.map fun f => (f.minPrice, f.maxPrice))
  let stopPrice := request.stopPrice.map (snapPrice · tick)
  let quantity := request.quantity.map (snapQty · (lot.bind (·.stepSize)))
  checkQuantity quantity (lot.map fun f => (f.minQty, f.maxQty))
  checkNotional (symbolInfo.getFilter .minNotional) (notional request price quantity)
  checkPriceRange executionRules
  pure { request with price, stopPrice, quantity }

/-- Validation changes nothing but the three numbers it snaps. -/
theorem validateOrder_frame {request order : OrderRequest} {info : SymbolInfo}
    {rules : Option SymbolExecutionRules} (h : validateOrder request info rules = .ok order) :
    order = { request with
      price := order.price, stopPrice := order.stopPrice, quantity := order.quantity } := by
  unfold validateOrder at h
  simp only [bind_eq_ok_iff] at h
  obtain ⟨-, -, -, -, -, -, -, -, h⟩ := h
  cases h
  rfl

end BinanceTh
