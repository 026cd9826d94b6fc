import BinanceTh.Lib.FixedPoint
import BinanceTh.Lib.PercentDecoding
import BinanceTh.Orders.Placing
import BinanceTh.Redaction.Query
import BinanceTh.Transport.SignedQuery

/-!
# The order on the wire

What the exchange gets by `create_order`: the query of each POST is split at `&` and `=` and decoded,
and its numbers are read. How the HTTP client encodes a text is a parameter, a `QueryCodec`. The order
read is the order that was validated, in all its fields and with its exact numbers
(`OrdersClient.createOrder_readsBack`).
-/

namespace BinanceTh

open Interaction

/-! ## Numbers -/

namespace Decimal

/-- `format` without the sign. -/
def unsignedChars (d : Decimal) : List Char :=
  let digits := Nat.toDigits 10 d.coeff.natAbs
  if 0 ≤ d.exp then
    if d.coeff = 0 then digits else digits ++ List.replicate d.exp.toNat '0'
  else
    let places := (-d.exp).toNat
    let padded := List.replicate (places + 1 - digits.length) '0' ++ digits
    padded.take (padded.length - places) ++ '.' :: padded.drop (padded.length - places)

theorem format_eq (d : Decimal) : d.format =
    String.ofList ((if d.coeff < 0 then ['-'] else []) ++ d.unsignedChars) := by
  unfold format unsignedChars
  dsimp only
  split
  · rfl
  · rw [List.append_assoc]

theorem isDigit_of_mem_replicate {n : ℕ} {c : Char} (h : c ∈ List.replicate n '0') :
    c.isDigit = true := by
  rw [(List.mem_replicate.1 h).2]
  rfl

/-- Leading zeros, and the digits of `n`. -/
theorem ofDigitChars_padded (k n : ℕ) :
    Nat.ofDigitChars 10 (List.replicate k '0' ++ Nat.toDigits 10 n) 0 = n := by
  rw [Nat.ofDigitChars_append, Nat.ofDigitChars_replicate_zero, Nat.mul_zero,
    Nat.ofDigitChars_ten_toDigits]

/-- Nonempty digits are read as their value. -/
theorem unsigned_digits {cs : List Char} (hne : cs ≠ []) (hdigits : ∀ c ∈ cs, c.isDigit = true) :
    FixedPoint.unsigned cs = some (Nat.ofDigitChars 10 cs 0 : ℚ) ∧
      ∃ c cs', cs = c :: cs' ∧ c.isDigit = true := by
  obtain ⟨c, cs', rfl⟩ := List.exists_cons_of_ne_nil hne
  exact ⟨FixedPoint.unsigned_whole hne hdigits, c, cs', rfl, hdigits c List.mem_cons_self⟩

/-- Digits with a point before the last `places` of them. -/
theorem unsigned_pointed {cs : List Char} {places : ℕ} (hplaces : 0 < places)
    (hlength : places < cs.length) (hdigits : ∀ c ∈ cs, c.isDigit = true) :
    FixedPoint.unsigned (cs.take (cs.length - places) ++ '.' :: cs.drop (cs.length - places)) =
        some ((Nat.ofDigitChars 10 cs 0 : ℚ) / 10 ^ places) ∧
      ∃ c cs', cs.take (cs.length - places) ++ '.' :: cs.drop (cs.length - places) = c :: cs' ∧
        c.isDigit = true := by
  have hwhole : cs.take (cs.length - places) ≠ [] := by
    refine List.ne_nil_of_length_pos ?_
    rw [List.length_take]
    omega
  have hfraction : (cs.drop (cs.length - places)).length = places := by
    rw [List.length_drop]
    omega
  obtain ⟨c, cs', hcons⟩ := List.exists_cons_of_ne_nil hwhole
  constructor
  · rw [FixedPoint.unsigned_point hwhole (fun c hc => hdigits c (List.mem_of_mem_take hc))
      (List.ne_nil_of_length_pos (by rw [hfraction]; exact hplaces))
      fun c hc => hdigits c (List.mem_of_mem_drop hc), List.take_append_drop, hfraction]
  · have hmem : c ∈ cs.take (cs.length - places) := by
      rw [hcons]
      exact List.mem_cons_self
    exact ⟨c, _, by rw [hcons, List.cons_append], hdigits c (List.mem_of_mem_take hmem)⟩

/-- The digits are read as the magnitude. -/
theorem unsigned_unsignedChars (d : Decimal) :
    FixedPoint.unsigned d.unsignedChars = some ((d.coeff.natAbs : ℚ) * 10 ^ d.exp) ∧
      ∃ c cs, d.unsignedChars = c :: cs ∧ c.isDigit = true := by
  have hdigits : ∀ c ∈ Nat.toDigits 10 d.coeff.natAbs, c.isDigit = true := fun c hc =>
    Nat.isDigit_of_mem_toDigits (by omega) (by omega) hc
  have hne : Nat.toDigits 10 d.coeff.natAbs ≠ [] := Nat.toDigits_ne_nil
  unfold unsignedChars
  dsimp only
  split
  · next hexp =>
    split
    · next hzero =>
      obtain ⟨hvalue, hcons⟩ := unsigned_digits hne hdigits
      rw [hvalue, Nat.ofDigitChars_ten_toDigits, hzero]
      exact ⟨by simp, hzero ▸ hcons⟩
    · have hall : ∀ c ∈ Nat.toDigits 10 d.coeff.natAbs ++ List.replicate d.exp.toNat '0',
          c.isDigit = true := fun c hc => (List.mem_append.1 hc).elim (hdigits c)
        isDigit_of_mem_replicate
      obtain ⟨hvalue, hcons⟩ := unsigned_digits (by simp [hne]) hall
      refine ⟨?_, hcons⟩
      rw [hvalue, Nat.ofDigitChars_append, Nat.ofDigitChars_ten_toDigits,
        Nat.ofDigitChars_replicate_zero, Nat.cast_mul, Nat.cast_pow, mul_comm]
      congr 2
      rw [← zpow_natCast, Int.toNat_of_nonneg hexp]
      rfl
  · next hexp =>
    have hplaces : 0 < (-d.exp).toNat := by omega
    have hall : ∀ c ∈ List.replicate ((-d.exp).toNat + 1 -
        (Nat.toDigits 10 d.coeff.natAbs).length) '0' ++ Nat.toDigits 10 d.coeff.natAbs,
        c.isDigit = true := fun c hc => (List.mem_append.1 hc).elim isDigit_of_mem_replicate
      (hdigits c)
    obtain ⟨hvalue, hcons⟩ := unsigned_pointed hplaces
      (by rw [List.length_append, List.length_replicate]; omega) hall
    refine ⟨?_, hcons⟩
    rw [hvalue, ofDigitChars_padded, div_eq_mul_inv, ← zpow_natCast, ← zpow_neg]
    congr 3
    omega

/-- **A number is read as it was written.** -/
theorem read_format (d : Decimal) : FixedPoint.read d.format = some d.toRat := by
  obtain ⟨hvalue, c, cs, hcons, hdigit⟩ := d.unsigned_unsignedChars
  rw [format_eq]
  by_cases hneg : d.coeff < 0
  · have habs : (d.coeff.natAbs : ℚ) = -d.coeff := by
      rw [← Int.cast_natCast, Int.ofNat_natAbs_of_nonpos hneg.le, Int.cast_neg]
    rw [if_pos hneg, List.singleton_append, FixedPoint.read_neg, hvalue, Option.map_some, habs,
      neg_mul, neg_neg]
    rfl
  · have habs : (d.coeff.natAbs : ℚ) = d.coeff := by
      rw [← Int.cast_natCast, Int.natAbs_of_nonneg (not_lt.1 hneg)]
    rw [if_neg hneg, List.nil_append, hcons, FixedPoint.read_of_isDigit hdigit, ← hcons, hvalue, habs]
    rfl

example : format ⟨-5, -3⟩ = "-0.005" := by decide

end Decimal

/-! ## Queries -/

/-- How the HTTP client writes a text into a query, and how the exchange reads it: no text loses
anything, and none has a separator in it. -/
structure QueryCodec where
  encode : String → String
  decode : String → Option String
  decode_encode : ∀ text, decode (encode text) = some text
  amp_notMem : ∀ text, '&' ∉ (encode text).toList
  eq_notMem : ∀ text, '=' ∉ (encode text).toList

namespace QueryCodec

variable (codec : QueryCodec)

def encodePair (kv : String × String) : String × String := (codec.encode kv.1, codec.encode kv.2)

/-- The query of a request. -/
def writeQuery (params : Params) : String :=
  Percent.query ((params.map fun kv => (kv.1, kv.2.toStr)).map codec.encodePair)

/-- The pair of a piece, which is split at its first `=`. -/
def readPair (piece : List Char) : Option (String × String) := do
  let key ← codec.decode (String.ofList (piece.takeWhile (· ≠ '=')))
  let value ← codec.decode (String.ofList ((piece.dropWhile (· ≠ '=')).drop 1))
  some (key, value)

/-- The parameters of a query. -/
def readQuery (query : String) : Option (Dict String) :=
  (query.toList.splitOn '&').mapM codec.readPair

theorem readPair_encodePair (kv : String × String) :
    codec.readPair (pairChars (codec.encodePair kv)) = some kv := by
  have hkey : ∀ c ∈ (codec.encode kv.1).toList, decide (c ≠ '=') = true :=
    fun c hc => decide_eq_true fun heq => codec.eq_notMem kv.1 (heq ▸ hc)
  unfold readPair pairChars encodePair
  dsimp only
  rw [List.takeWhile_append_of_pos hkey, List.dropWhile_append_of_pos hkey,
    List.takeWhile_cons_of_neg (by decide), List.dropWhile_cons_of_neg (by decide), List.append_nil,
    List.drop_one, List.tail_cons, String.ofList_toList, String.ofList_toList, codec.decode_encode,
    codec.decode_encode]
  rfl

theorem mapM_readPair (pairs : List (String × String)) :
    (pairs.map fun kv => pairChars (codec.encodePair kv)).mapM codec.readPair = some pairs := by
  induction pairs with
  | nil => rfl
  | cons kv pairs ih =>
    rw [List.map_cons, List.mapM_cons, readPair_encodePair, ih]
    rfl

/-- **A query is read as the parameters that were sent**, whatever their texts. -/
theorem readQuery_writeQuery {params : Params} (hne : params ≠ []) :
    codec.readQuery (codec.writeQuery params) = some (params.map fun kv => (kv.1, kv.2.toStr)) := by
  have hpairs : ∀ kv ∈ (params.map fun kv => (kv.1, kv.2.toStr)).map codec.encodePair,
      '&' ∉ pairChars kv := by
    intro kv hkv
    obtain ⟨kv', -, rfl⟩ := List.mem_map.1 hkv
    simp [pairChars, encodePair, codec.amp_notMem]
  unfold readQuery writeQuery
  rw [splitOn_query (by simpa using hne) hpairs, List.map_map]
  exact codec.mapM_readPair _

/-- The encoding of forms. -/
def form : QueryCodec where
  encode := Percent.encodeForm
  decode := Percent.decode
  decode_encode := Percent.decode_encodeForm
  amp_notMem := Percent.not_mem_encodeForm (by decide) (by decide) (by decide)
  eq_notMem := Percent.not_mem_encodeForm (by decide) (by decide) (by decide)

example : form.encode "a b&c=ก" = "a+b%26c%3D%E0%B8%81" := by decide +kernel

end QueryCodec

/-! ## Orders -/

/-- An order as the exchange reads it: its numbers are exact. -/
structure WireOrder where
  symbol : String
  side : OrderSide
  orderType : OrderType
  timeInForce : Option TimeInForce
  quantity : Option ℚ
  quoteOrderQty : Option ℚ
  price : Option ℚ
  newClientOrderId : Option String
  stopPrice : Option ℚ
  deriving DecidableEq

def OrderRequest.exact (r : OrderRequest) : WireOrder where
  symbol := r.symbol
  side := r.side
  orderType := r.orderType
  timeInForce := r.timeInForce
  quantity := r.quantity.map Decimal.toRat
  quoteOrderQty := r.quoteOrderQty.map Decimal.toRat
  price := r.price.map Decimal.toRat
  newClientOrderId := r.newClientOrderId
  stopPrice := r.stopPrice.map Decimal.toRat

namespace WireOrder

/-- A parameter that may be missing. -/
def optional {α : Type} (read : String → Option α) (value : Option String) : Option (Option α) :=
  match value with
  | none => some none
  | some text => (read text).map some

theorem optional_map {α β : Type} {read : String → Option β} {write : α → String} {f : α → β}
    (h : ∀ a, read (write a) = some (f a)) (value : Option α) :
    optional read (value.map write) = some (value.map f) := by
  cases value with
  | none => rfl
  | some a => simp [optional, h]

/-- The order that the parameters say. -/
def ofParams (params : Dict String) : Option WireOrder := do
  let symbol ← Dict.get? params "symbol"
  let side ← (Dict.get? params "side").bind OrderSide.ofValue?
  let orderType ← (Dict.get? params "type").bind OrderType.ofValue?
  let timeInForce ← optional TimeInForce.ofValue? (Dict.get? params "timeInForce")
  let quantity ← optional FixedPoint.read (Dict.get? params "quantity")
  let quoteOrderQty ← optional FixedPoint.read (Dict.get? params "quoteOrderQty")
  let price ← optional FixedPoint.read (Dict.get? params "price")
  let stopPrice ← optional FixedPoint.read (Dict.get? params "stopPrice")
  some {
    symbol, side, orderType, timeInForce, quantity, quoteOrderQty, price
    newClientOrderId := Dict.get? params "newClientOrderId"
    stopPrice }

end WireOrder

/-- The fields of an order request, as texts. -/
theorem OrderRequest.get?_params (r : OrderRequest) {key : String} {v : Option String}
    (hmem : (key, v) ∈ [("symbol", some r.symbol), ("side", some r.side.value),
      ("type", some r.orderType.value), ("timeInForce", r.timeInForce.map (·.value)),
      ("quantity", r.quantity.map (·.format)), ("quoteOrderQty", r.quoteOrderQty.map (·.format)),
      ("price", r.price.map (·.format)), ("newClientOrderId", r.newClientOrderId),
      ("stopPrice", r.stopPrice.map (·.format)), ("recvWindow", r.recvWindow.map toString)]) :
    (Dict.get? r.params key).map (·.toStr) = v := by
  unfold OrderRequest.params
  rw [get?_paramsOf (by simp) hmem]
  cases v <;> rfl

/-- **The parameters of an order say the order.** Others may be among them. -/
theorem OrderRequest.ofParams_eq (r : OrderRequest) {params : Dict String}
    (h : ∀ key, key ≠ "recvWindow" → key ≠ "timestamp" → key ≠ "signature" →
      Dict.get? params key = (Dict.get? r.params key).map (·.toStr)) :
    WireOrder.ofParams params = some r.exact := by
  have hside : (some r.side.value).bind OrderSide.ofValue? = some r.side := by
    cases r.side <;> rfl
  have htype : (some r.orderType.value).bind OrderType.ofValue? = some r.orderType := by
    cases r.orderType <;> rfl
  have htimeInForce (t : TimeInForce) : TimeInForce.ofValue? t.value = some (id t) := by
    cases t <;> rfl
  have hget (key : String) (v : Option String)
      (hkey : key ≠ "recvWindow" ∧ key ≠ "timestamp" ∧ key ≠ "signature")
      (hv : (Dict.get? r.params key).map (·.toStr) = v) : Dict.get? params key = v :=
    (h key hkey.1 hkey.2.1 hkey.2.2).trans hv
  unfold WireOrder.ofParams
  rw [hget "symbol" (some r.symbol) (by decide) (r.get?_params (by simp)),
    hget "side" (some r.side.value) (by decide) (r.get?_params (by simp)),
    hget "type" (some r.orderType.value) (by decide) (r.get?_params (by simp)),
    hget "timeInForce" (r.timeInForce.map (·.value)) (by decide) (r.get?_params (by simp)),
    hget "quantity" (r.quantity.map (·.format)) (by decide) (r.get?_params (by simp)),
    hget "quoteOrderQty" (r.quoteOrderQty.map (·.format)) (by decide) (r.get?_params (by simp)),
    hget "price" (r.price.map (·.format)) (by decide) (r.get?_params (by simp)),
    hget "stopPrice" (r.stopPrice.map (·.format)) (by decide) (r.get?_params (by simp)),
    hget "newClientOrderId" r.newClientOrderId (by decide) (r.get?_params (by simp)),
    hside, htype, WireOrder.optional_map htimeInForce, WireOrder.optional_map Decimal.read_format,
    WireOrder.optional_map Decimal.read_format, WireOrder.optional_map Decimal.read_format,
    WireOrder.optional_map Decimal.read_format, Option.map_id]
  rfl

namespace OrdersClient

variable {C : OrdersClient} {args : CreateOrderArgs} {s s' : TimeSync} {tr : List Ev}
  {r : Except Exc Order} (codec : QueryCodec)

/-- A request of the call for an order is read as the order. -/
theorem ofParams_postCall (hsign : C.transport.canSign = true) (order : OrderRequest) (s : TimeSync)
    (clock : ℤ) :
    (codec.readQuery (codec.writeQuery (C.transport.paramsAt (postCall order) s clock))).bind
      WireOrder.ofParams = some order.exact := by
  obtain ⟨signer, hsigner⟩ := Option.isSome_iff_exists.1 (Transport.signer_of_canSign hsign)
  have hparams : C.transport.paramsAt (postCall order) s clock =
      signer.sentParams order.params (s.nowMs clock) C.transport.config.recvWindow := by
    rw [Transport.paramsAt, if_pos (show (postCall order).signed = true from rfl), hsigner]
    rfl
  have hne : signer.sentParams order.params (s.nowMs clock) C.transport.config.recvWindow ≠ [] := by
    intro hnil
    have hkeys : (signer.sentParams order.params (s.nowMs clock)
          C.transport.config.recvWindow).map (·.1) =
        (signer.signedParams order.params (s.nowMs clock) C.transport.config.recvWindow).map (·.1) :=
      Signer.keys_sentParams
    rw [hnil, Signer.signedParams_eq, Dict.keys_set] at hkeys
    split at hkeys
    · next hmem =>
      rw [← hkeys] at hmem
      cases hmem
    · exact List.append_ne_nil_of_right_ne_nil _ (List.cons_ne_nil _ _) hkeys.symm
  have htexts : ((signer.sentParams order.params (s.nowMs clock)
      C.transport.config.recvWindow).map fun kv => (kv.1, kv.2.toStr)) =
      signer.signedParams order.params (s.nowMs clock) C.transport.config.recvWindow := by
    simp [Signer.sentParams, ParamValue.toStr, Function.comp_def]
  rw [hparams, codec.readQuery_writeQuery hne, htexts]
  exact order.ofParams_eq fun key hwindow htime hsignature =>
    Signer.get?_signedParams hwindow htime hsignature

/-- The POSTs of a run of `create_order` are all of one order, which `prepare` has handed on. -/
theorem posts_of_runs (h : Runs (C.createOrder args) s tr r s') :
    sends tr = [] ∨ C.transport.canSign = true ∧ ∃ order id tr₁ tr₂, tr = tr₁ ++ tr₂ ∧
      Runs (C.prepare args) s tr₁ (.ok (order, id)) s ∧ ∀ x ∈ sends tr, x.1.isOrderPost = true →
        ∃ s₁ clock, x.1 = C.transport.httpRequest (postCall order)
          (C.transport.paramsAt (postCall order) s₁ clock) := by
  have hpost {order : OrderRequest} {x : Exchange} (hx : C.transport.Origin (postCall order) x)
      (hpost : x.1.isOrderPost = true) : ∃ s₁ clock, x.1 = C.transport.httpRequest (postCall order)
        (C.transport.paramsAt (postCall order) s₁ clock) := by
    cases hx with
    | time _ htime =>
      rw [htime] at hpost
      cases hpost
    | own s₁ clock hown => exact ⟨s₁, clock, hown⟩
  unfold createOrder at h
  rcases runs_bind_iff.1 h with ⟨e, rfl, h₁⟩ | ⟨⟨order, id⟩, tr₁, s₁, tr₂, rfl, h₁, h₂⟩
  · exact .inl (silent_prepare args _ _ _ _ h₁).2.1
  obtain ⟨rfl, hsends, -, -⟩ := silent_prepare args _ _ _ _ h₁
  have hsign := (runs_prepare h₁).canSign
  refine .inr ⟨hsign, order, id, tr₁, tr₂, rfl, h₁, ?_⟩
  rw [sends_append, hsends, List.nil_append]
  rcases runs_tryCatch_iff.1 h₂ with ⟨o, rfl, h₃⟩ | ⟨e, tr₃, s₃, tr₄, rfl, h₃, h₄⟩
  · exact fun x hx => hpost (origin_submit hsign h₃ hx)
  · rw [sends_append]
    intro x hx hx'
    rcases List.mem_append.1 hx with hx | hx
    · exact hpost (origin_submit hsign h₃ hx) hx'
    · split at h₄
      · -- the reconciliation only queries
        rw [isOrderPost_of_query (origin_reconcile hsign h₄ hx)] at hx'
        cases hx'
      · obtain ⟨rfl, -, -⟩ := runs_throw_iff.1 h₄
        cases hx

/-- **The order on the wire.** In every run of `create_order`, whatever the arguments, the exchange
rules and the replies, each POST is read by the exchange as the one order that `prepare` has handed
on: the validated order with its client order id, with every number as it is. -/
theorem createOrder_readsBack (h : Runs (C.createOrder args) s tr r s') :
    sends tr = [] ∨ ∃ order id tr₁ tr₂, tr = tr₁ ++ tr₂ ∧
      Runs (C.prepare args) s tr₁ (.ok (order, id)) s ∧ ∀ x ∈ sends tr, x.1.isOrderPost = true →
        (codec.readQuery (codec.writeQuery x.1.params)).bind WireOrder.ofParams =
          some order.exact := by
  rcases posts_of_runs h with hnone | ⟨hsign, order, id, tr₁, tr₂, htr, hprepare, hposts⟩
  · exact .inl hnone
  · refine .inr ⟨order, id, tr₁, tr₂, htr, hprepare, fun x hx hpost => ?_⟩
    obtain ⟨s₁, clock, hreq⟩ := hposts x hx hpost
    rw [hreq]
    exact ofParams_postCall codec hsign order s₁ clock

/-- The POST of the sample order, whose reply is lost, encoded as a form. -/
theorem createOrder_readsBack_sample :
    ∃ x ∈ sends (sampleRun (some "a b&c=ก") [unavailable, notFound]).1, x.1.isOrderPost = true ∧
      ∃ order : OrderRequest,
        (QueryCodec.form.readQuery (QueryCodec.form.writeQuery x.1.params)).bind
          WireOrder.ofParams = some order.exact := by
  obtain ⟨x, hx, hpost⟩ : ∃ x ∈ sends (sampleRun (some "a b&c=ก") [unavailable, notFound]).1,
      x.1.isOrderPost = true := ⟨_, List.mem_cons_self, rfl⟩
  refine ⟨x, hx, hpost, ?_⟩
  rcases createOrder_readsBack .form (runs_sampleRun (some "a b&c=ก") [unavailable, notFound]) with
    hnone | ⟨order, -, -, -, -, -, hreads⟩
  · rw [hnone] at hx
    cases hx
  · exact ⟨order, hreads x hx hpost⟩

end OrdersClient

end BinanceTh
