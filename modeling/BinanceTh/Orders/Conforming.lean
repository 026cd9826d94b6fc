import BinanceTh.Lib.Hoare
import BinanceTh.Orders.Wire
import BinanceTh.Validation.Filters

/-!
# Orders that conform on the wire

What the exchange reads of a validated order, with its numbers printed, signed, encoded and
sent, conforms to the filters that the exchange itself had announced: in every run of `create_order`
with validation, each POST is read as an order whose limit price, quantity and quote amount pass the
filters of its symbol in an exchange info fetched in that run (`createOrder_conforms`). The stop
price is snapped, and not checked.
-/

namespace BinanceTh

open Interaction Multiples Decimal

/-- The exchange's own check of a number: as `MeetsFilter`, of what the number is. -/
structure PassesFilter (step min max : Option Decimal) (x : ℚ) : Prop where
  pos : 0 < x
  min_le : ∀ m, min = some m → m.toRat ≠ 0 → m.toRat ≤ x
  le_max : ∀ m, max = some m → m.toRat ≠ 0 → x ≤ m.toRat
  multiple : ∀ s, step = some s → s.toRat ≠ 0 → IsMultiple s.toRat x

theorem MeetsFilter.toRat {step min max : Option Decimal} {v : Decimal}
    (h : MeetsFilter step min max v) : PassesFilter step min max v.toRat where
  pos := by
    have hpos := h.pos
    rwa [lt_iff, toRat_zero] at hpos
  min_le := h.min_le
  le_max := h.le_max
  multiple := h.multiple

namespace WireOrder

/-- The lot filter in force: for a market order its own one, where the symbol has it. -/
def lotFilter (order : WireOrder) (info : SymbolInfo) : Option SymbolFilter :=
  (if order.orderType = .market then info.getFilter .marketLotSize else none).or
    (info.getFilter .lotSize)

/-- The amount that `MIN_NOTIONAL` is about. -/
def notional (order : WireOrder) : Option ℚ :=
  match order.quoteOrderQty with
  | some amount => some amount
  | none => match order.price, order.quantity with
    | some price, some quantity => some (price * quantity)
    | _, _ => none

/-- The order passes the filters of the symbol, apart from its stop price. -/
structure Conforms (info : SymbolInfo) (order : WireOrder) : Prop where
  symbol : order.symbol = info.symbol
  price : ∀ p, order.price = some p →
    PassesFilter info.tick ((info.getFilter .priceFilter).bind (·.minPrice))
      ((info.getFilter .priceFilter).bind (·.maxPrice)) p
  quantity : ∀ q, order.quantity = some q →
    PassesFilter ((order.lotFilter info).bind (·.stepSize)) ((order.lotFilter info).bind (·.minQty))
      ((order.lotFilter info).bind (·.maxQty)) q
  notional : ∀ v, order.notional = some v →
    ∀ m, (info.getFilter .minNotional).bind (·.minNotional) = some m → m.toRat ≠ 0 → m.toRat ≤ v

end WireOrder

variable {request order : OrderRequest} {info : SymbolInfo} {rules : Option SymbolExecutionRules}

theorem OrderRequest.notional_exact (order : OrderRequest) : order.exact.notional =
    (BinanceTh.notional order order.price order.quantity).map Decimal.toRat := by
  unfold WireOrder.notional BinanceTh.notional OrderRequest.exact
  cases order.quoteOrderQty with
  | some amount => rfl
  | none =>
    cases order.price with
    | none => rfl
    | some p =>
      cases order.quantity with
      | none => rfl
      | some q => exact congrArg some (toRat_mul p q).symm

/-- **A validated order conforms**, with its numbers as they are. -/
theorem conforms_of_validateOrder (hsymbol : info.symbol = request.symbol)
    (h : validateOrder request info rules = .ok order) : order.exact.Conforms info := by
  obtain ⟨rfl, hpass⟩ := validateOrder_eq_ok_iff.1 h
  have hlot : (snapped request info).exact.lotFilter info = lotFilter request info := by
    unfold WireOrder.lotFilter lotFilter
    rfl
  refine ⟨hsymbol.symm, fun x hx => ?_, fun x hx => ?_, fun x hx m hm hne => ?_⟩
  · obtain ⟨p, hp, rfl⟩ := Option.map_eq_some_iff.1 hx
    have hrange := hpass.price p hp
    obtain ⟨p₀, -, rfl⟩ := Option.map_eq_some_iff.1 hp
    exact (meetsFilter_snap hrange).toRat
  · obtain ⟨q, hq, rfl⟩ := Option.map_eq_some_iff.1 hx
    have hrange := hpass.quantity q hq
    obtain ⟨q₀, -, rfl⟩ := Option.map_eq_some_iff.1 hq
    rw [hlot]
    exact (meetsFilter_snap hrange).toRat
  · rw [OrderRequest.notional_exact] at hx
    obtain ⟨v, hv, rfl⟩ := Option.map_eq_some_iff.1 hx
    exact hpass.notional v hv m hm hne

/-! ## Validating in a run -/

/-- An exchange info that was fetched says this of the symbol. -/
def Announced (tr : List Ev) (symbol : String) (info : SymbolInfo) : Prop :=
  ∃ force exchangeInfo, ⟨.exchangeInfo force, .ok exchangeInfo⟩ ∈ tr ∧
    exchangeInfo.getSymbol symbol = some info

theorem Announced.symbol {tr : List Ev} {symbol : String} (h : Announced tr symbol info) :
    info.symbol = symbol := by
  obtain ⟨-, exchangeInfo, -, hfound⟩ := h
  simpa using List.find?_some hfound

theorem keeps_announced {α : Type} (c : M α) (symbol : String) (info : SymbolInfo) :
    Keeps Recording (fun tr _ => Announced tr symbol info) c := by
  intro past s tr r s' tr' ⟨force, exchangeInfo, hmem, hfound⟩ hrun hadm
  have hstays : Announced tr' symbol info := by
    have hends := keeps_mem_recording c _ past s tr r s' tr' hmem hrun hadm
    cases r <;> exact ⟨force, exchangeInfo, hends, hfound⟩
  cases r <;> exact hstays

namespace OrdersClient

variable {C : OrdersClient} {args : CreateOrderArgs}

theorem triple_fetchExchangeInfo (force : Bool) (symbol : String) :
    Triple Recording (fun _ _ => True) (fetchExchangeInfo force)
      (fun exchangeInfo tr _ => ∀ info, exchangeInfo.getSymbol symbol = some info →
        Announced tr symbol info) fun _ _ _ => True := by
  refine Triple.bind (Q := fun answer tr _ => ⟨.exchangeInfo force, answer⟩ ∈ tr) (.perform ?_)
    fun answer => .raiseOr fun tr s hmem => ?_
  · rintro tr s answer _ - rfl
    exact List.mem_append_right tr List.mem_cons_self
  · cases answer with
    | ok exchangeInfo => exact fun info hfound => ⟨force, exchangeInfo, hmem, hfound⟩
    | error e => trivial

theorem triple_symbolInfo (symbol : String) :
    Triple Recording (fun _ _ => True) (symbolInfo symbol)
      (fun found tr _ => ∀ info, found = some info → Announced tr symbol info)
      fun _ _ _ => True := by
  refine (triple_fetchExchangeInfo false symbol).bind fun exchangeInfo => ?_
  split
  · next info hfound =>
    refine .pure fun tr s h info' hinfo => ?_
    obtain rfl := Option.some.inj hinfo
    exact h info hfound
  · refine Triple.bind ((triple_fetchExchangeInfo true symbol).pre fun _ _ _ => trivial)
      fun exchangeInfo => .pure fun tr s h => h

/-- Validation uses an announced info of the order's symbol. -/
theorem triple_validate (request : OrderRequest) :
    Triple Recording (fun _ _ => True) (C.validate request)
      (fun order tr _ => ∃ info rules, Announced tr request.symbol info ∧
        validateOrder request info rules = .ok order) fun _ _ _ => True := by
  refine (triple_symbolInfo request.symbol).bind fun found => ?_
  cases found with
  | none => exact .throw fun _ _ _ => trivial
  | some info =>
    refine Triple.bind (Q := fun _ tr _ => Announced tr request.symbol info) ?_ fun rules => ?_
    · exact (keeps_announced (C.symbolRules request.symbol) request.symbol info).conseq
        (fun _ _ h => h info rfl) (fun _ _ _ h => h) fun _ _ _ _ => trivial
    · refine (Keeps.raiseOr_eq _).conseq (fun _ _ h => h) (fun order tr s h => ?_)
        fun _ _ _ _ => trivial
      exact ⟨info, rules, h.1, h.2⟩

/-- What `prepare` hands on has been validated. -/
theorem triple_prepare_validated (hvalidate : args.validate = true) :
    Triple Recording (fun _ _ => True) (C.prepare args)
      (fun prepared tr _ => ∃ info, Announced tr info.symbol info ∧
        prepared.1.exact.Conforms info) fun _ _ _ => True := by
  have hany {α : Type} (c : M α) : Triple Recording (fun _ _ => True) c (fun _ _ _ => True)
      fun _ _ _ => True := fun _ _ _ r _ _ _ _ _ => by cases r <;> trivial
  refine (hany _).bind fun order₀ => ?_
  split
  · refine (hany _).bind fun id => ?_
    unfold validateIf
    rw [if_pos hvalidate]
    refine (triple_validate _).bind fun order => .pure ?_
    rintro tr s ⟨info, rules, hannounced, hok⟩
    have hsymbol := hannounced.symbol
    exact ⟨info, hsymbol ▸ hannounced, conforms_of_validateOrder hsymbol hok⟩
  · exact .throw fun _ _ _ => trivial

/-- **Orders conform on the wire.** In every run of `create_order` with validation, whatever the
replies, each POST is read by the exchange as an order that passes the filters of its symbol, as an
exchange info fetched before says them. -/
theorem createOrder_conforms (codec : QueryCodec) {s s' : TimeSync} {tr : List Ev}
    {r : Except Exc Order} (hvalidate : args.validate = true) (h : Runs (C.createOrder args) s tr r s') :
    sends tr = [] ∨ ∃ info, Announced tr info.symbol info ∧
      ∀ x ∈ sends tr, x.1.isOrderPost = true → ∃ order,
        (codec.readQuery (codec.writeQuery x.1.params)).bind WireOrder.ofParams = some order ∧
          order.Conforms info := by
  rcases posts_of_runs h with hnone | ⟨hsign, order, id, tr₁, tr₂, rfl, hprepare, hposts⟩
  · exact .inl hnone
  · obtain ⟨info, ⟨force, exchangeInfo, hmem, hfound⟩, hconforms⟩ :=
      triple_prepare_validated hvalidate [] _ _ _ _ tr₁ trivial hprepare
        (admits_recording_iff.2 rfl)
    refine .inr ⟨info, ⟨force, exchangeInfo, List.mem_append_left tr₂ hmem, hfound⟩,
      fun x hx hpost => ⟨order.exact, ?_, hconforms⟩⟩
    obtain ⟨s₁, clock, hrequest⟩ := hposts x hx hpost
    rw [hrequest]
    exact ofParams_postCall codec hsign order s₁ clock

/-- A limit order whose price is between two ticks. -/
def betweenTicks : CreateOrderArgs :=
  { sampleArgs none with price := some ⟨1005, -3⟩, validate := true }

/-- The environment of `scripted`, where the exchange has one symbol. -/
def listing (info : SymbolInfo) (replies : List NetResult) (past : List Ev) : (op : Op) → Ans op
  | .exchangeInfo _ => .ok { symbols := [info] }
  | op => scripted replies past op

def conformingRun : List Ev × Except Exc Order × TimeSync :=
  (sampleOrders.createOrder betweenTicks).play (listing centTicks [unavailable, notFound]) ⟨0, true⟩

/-- Its POST says the tick below. -/
theorem createOrder_conforms_betweenTicks :
    ∃ x ∈ sends conformingRun.1, x.1.isOrderPost = true ∧
      Dict.get? x.1.params "price" = some (.str "1.00") ∧ ∃ info order,
        (QueryCodec.form.readQuery (QueryCodec.form.writeQuery x.1.params)).bind
            WireOrder.ofParams = some order ∧
          order.Conforms info := by
  obtain ⟨x, hx, hpost, hprice⟩ : ∃ x ∈ sends conformingRun.1, x.1.isOrderPost = true ∧
      Dict.get? x.1.params "price" = some (.str "1.00") := by
    have hany : ((sends conformingRun.1).any fun x => x.1.isOrderPost &&
        decide (Dict.get? x.1.params "price" = some (.str "1.00"))) = true := by decide +kernel
    obtain ⟨x, hx, hpost⟩ := List.any_eq_true.1 hany
    rw [Bool.and_eq_true, decide_eq_true_eq] at hpost
    exact ⟨x, hx, hpost⟩
  refine ⟨x, hx, hpost, hprice, ?_⟩
  have hvalidate : betweenTicks.validate = true := rfl
  rcases createOrder_conforms .form hvalidate (Comp.runs_play _ _ _).1 with hnone | ⟨info, -, hconforms⟩
  · have hx : x ∈ [] := hnone ▸ hx
    cases hx
  · obtain ⟨order, hread, hmeets⟩ := hconforms x hx hpost
    exact ⟨info, order, hread, hmeets⟩

end OrdersClient

end BinanceTh
