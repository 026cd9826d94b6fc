import BinanceTh.Orders.ClientId

/-!
# What `create_order` makes of a failed POST

Three questions about the end of a run, each answered by the exact condition on the replies:

* a reply that accepts the POST ends in an order or in an unknown status under the id that was sent
  exactly when the limiter takes its headers and its body decodes (`createOrder_acknowledged_iff`);
* a reply with a status of 500 or more is treated as an unknown status exactly when its body carries
  no code, the order was sent under the id it is asked for by, and the limiter raises nothing before
  the query (`createOrder_serverError_iff`);
* the reconciliation ends in one of its three ways exactly when the limiter raises nothing and the
  last exchange of its query settles it (`createOrder_reconciled_iff`): only an API error of the
  query is caught.
-/

namespace BinanceTh

open Interaction

theorem Response.isTimestampError_apiError {reply : Response} (h : reply.code ≠ some timestampErrorCode) :
    (Exc.api reply.apiError).isTimestampError = false := by
  rw [Exc.isTimestampError, Bool.and_eq_false_iff]
  refine .inr (decide_eq_false fun heq => h ?_)
  rwa [Response.apiError_code] at heq

namespace OrdersClient

variable {C : OrdersClient} {s s' : TimeSync} {tr tr' before after : List Ev}
  {args : CreateOrderArgs} {l₁ l₂ : List Exchange} {post : HttpRequest} {reply : Response}
  {r : Except Exc Order}

theorem postOutcome_ne_orderUnknown (net : NetResult) (u : OrderUnknownError) :
    C.orderOf (C.postOutcome net) ≠ .error (.orderUnknownError u) :=
  orderOf_ne_orderUnknown (Transport.outcome_ne_orderUnknown u rfl)

/-! ## An accepted POST -/

/-- The order in the body of a reply. -/
def replyOrder (C : OrdersClient) (reply : Response) : Except Exc Order := C.orderOf reply.json

/-- The call ends in an order, or in an unknown status under the id that the POST carried. -/
def Acknowledged (post : HttpRequest) : Except Exc Order → Prop
  | .ok _ => True
  | .error (.orderUnknownError u) => ∃ id, u.clientOrderId = some id ∧
      Dict.get? post.params "newClientOrderId" = some (.str id)
  | .error _ => False

/-- A body that does not decode is no unknown status. -/
theorem replyOrder_error {e : Exc} (h : C.replyOrder reply = .error e) :
    e.isUnknownStatus = false := by
  unfold replyOrder at h
  cases hjson : reply.json with
  | error e' =>
    rw [hjson] at h
    obtain rfl := Except.error.inj h
    rcases Response.json_error hjson with he | he <;> rw [he] <;> rfl
  | ok j =>
    rw [hjson] at h
    have hdecode := Order.raisesDecodeErrors C.transport.pydantic j e h
    cases e <;> first | rfl | cases hdecode

/-- A complete order, as the exchange reports it. -/
def sampleOrder : Json :=
  .obj [("symbol", .str "BTCTHB"), ("orderId", .int 7), ("clientOrderId", .str "minted-1"),
    ("price", .str "100"), ("origQty", .str "1"), ("executedQty", .str "0"),
    ("cummulativeQuoteQty", .str "0"), ("status", .str "NEW"), ("timeInForce", .str "GTC"),
    ("type", .str "LIMIT"), ("side", .str "BUY"), ("time", .int 1), ("updateTime", .int 1),
    ("isWorking", .bool true), ("origQuoteOrderQty", .str "0")]

def accepted (body : Json) : Response := ⟨200, [], "", .value body⟩

/-- What follows the POST when its failure counts as an unknown status: no second POST, first of all
a query by the id that the POST carried, and no API error in the end. -/
structure TreatedAsUnknown (post : HttpRequest) (l : List Exchange) (r : Except Exc Order) :
    Prop where
  notAgain : ∀ x ∈ l, x.1.isOrderPost = false
  asks : ∃ query net l', l = (query, net) :: l' ∧ query.isOrderQuery = true ∧
    ∃ id, Dict.get? post.params "newClientOrderId" = some (.str id) ∧
      Dict.get? query.params "origClientOrderId" = some (.str id)
  notDefinite : ∀ e, r ≠ .error (.api e)

theorem reconcileResult_of_ne_api {symbol id : String} {r : Except Exc Order}
    (h : ∀ a, r ≠ .error (.api a)) : reconcileResult symbol id r = r := by
  unfold reconcileResult
  split
  · next a => exact absurd rfl (h a)
  · rfl

/-- The first exchange of a reconciliation is its query, if the limiter lets it be sent. -/
theorem reconcile_asks {symbol id : String} (hsign : C.transport.canSign = true)
    (hsynced : s.synced = true) (h : Runs (C.reconcile symbol id) s tr r s') :
    (Smooth (untilSend tr) ↔ sends tr ≠ []) ∧ ∀ x l, sends tr = x :: l →
      x.1.isOrderQuery = true := by
  obtain ⟨tr₁, r₁, s₁, hrun, hsmooth, hinitial, -⟩ := (interruptible_reconcile symbol id).completion h
  obtain ⟨raw, -, hretried⟩ := runs_reconcile hsign hsmooth hrun
  obtain ⟨clock, net, l₁, hl₁⟩ := hretried.head_of_synced hsynced
  refine ⟨⟨fun hgranted hnil => ?_, fun hne => ?_⟩, fun x l hl => ?_⟩
  · rw [untilSend_eq_self hnil] at hgranted
    obtain ⟨raw, -, hretried⟩ := runs_reconcile hsign hgranted h
    obtain ⟨_, _, _, hcons⟩ := hretried.head_of_synced hsynced
    rw [hnil] at hcons
    cases hcons
  · obtain ⟨request, net, rest, hsplit⟩ := exists_send hne
    exact (interruptible_reconcile symbol id).smooth_before_send h hsplit
  · rw [hl, hl₁, List.cons_prefix_cons] at hinitial
    rw [hinitial.1]
    rfl

/-- No API error leaves the reconciliation. -/
theorem reconcile_ne_api {symbol id : String} (h : Runs (C.reconcile symbol id) s tr r s')
    (e : APIError) : r ≠ .error (.api e) := by
  rintro rfl
  rcases runs_tryCatch_iff.1 h with ⟨o, ho, -⟩ | ⟨exc, tr₁, s₁, tr₂, -, -, h₂⟩
  · cases ho
  · cases exc <;> cases (runs_throw_iff.1 h₂).2.1

/-- **A server error.** A reply to the POST with a status of 500 or more, and no timestamp error, is
treated as an unknown status exactly when its body can be scanned and carries no code, the order was
not sent under the empty id, and the limiter raises nothing before the query. -/
theorem createOrder_serverError_iff (C : OrdersClient) (args : CreateOrderArgs)
    {order : OrderRequest} (h : Runs (C.createOrder args) s tr r s') (hargs : IdsPromised args tr)
    (hres : args.resolveRequest = .ok order)
    (htr : tr = before ++ ⟨.send post, .response reply⟩ :: after) (hpost : post.isOrderPost = true)
    (hstatus : 500 ≤ reply.status) (hcode : reply.code ≠ some timestampErrorCode) :
    TreatedAsUnknown post (sends after) r ↔ reply.body ≠ .tooDeep ∧
      (reply.code = none ∨ reply.code = some 0) ∧ order.newClientOrderId ≠ some "" ∧
      Smooth (untilSend after) := by
  have hle : 400 ≤ reply.status := le_trans (by decide) hstatus
  have hfinal (e : Exc) (he : C.postOutcome (.response reply) = .error e) :
      e.isTimestampError = false := by
    rcases C.transport.outcome_cases_of_le hle with ⟨-, hout⟩ | ⟨-, hout⟩
    · obtain rfl := Except.error.inj (hout.symm.trans he)
      rfl
    · obtain rfl := Except.error.inj (hout.symm.trans he)
      exact Response.isTimestampError_apiError hcode
  cases runs_createOrder_afterPost h htr hpost hfinal with
  | @ended update rest hafter hsilent hknown hr =>
    refine iff_of_false ?_ ?_
    · rintro ⟨-, ⟨query, net, l', hl, -⟩, -⟩
      have hnil : sends after = [] := by
        rw [hafter]
        exact hsilent
      rw [hnil] at hl
      cases hl
    · rintro ⟨hdeep, hnone, -, hgranted⟩
      cases update with
      | error e =>
        rw [hafter] at hgranted
        cases (smooth_cons.1 hgranted).1
      | ok u =>
        have hout : C.postOutcome (.response reply) = .error (.api reply.apiError) :=
          Transport.outcome_of_le hle hdeep
        have hserver : (Exc.api reply.apiError).isUnknownStatus = true :=
          decide_eq_true (mapException_eq_serverError_iff.2 ⟨hstatus, hnone⟩)
        rw [hknown _ (congrArg C.orderOf hout)] at hserver
        cases hserver
  | @reconciled order' id e rest tr' s₁ s₂ hprep hafter hsilent hsmooth hout hunknown hsynced hrec =>
    have hbody : reply.body ≠ .tooDeep ∧ (reply.code = none ∨ reply.code = some 0) := by
      rcases C.transport.outcome_cases_of_le hle with ⟨-, hout'⟩ | ⟨hdeep, hout'⟩
      · obtain rfl := Except.error.inj (hout'.symm.trans hout)
        cases hunknown
      · obtain rfl := Except.error.inj (hout'.symm.trans hout)
        exact ⟨hdeep, (mapException_eq_serverError_iff.1 (of_decide_eq_true hunknown)).2⟩
    have hsends : sends after = sends tr' := by
      rw [hafter]
      change sends (rest ++ tr') = _
      rw [sends_append, hsilent, List.nil_append]
    have huntil : untilSend after =
        ⟨.updateFromHeaders reply.headers, .ok ()⟩ :: rest ++ untilSend tr' := by
      rw [hafter, ← List.cons_append]
      exact untilSend_append _ hsilent
    obtain ⟨hasks, hfirst⟩ := reconcile_asks hprep.canSign hsynced hrec
    have hmem : (post, NetResult.response reply) ∈ sends tr := by
      rw [htr, sends_append]
      exact List.mem_append_right _ List.mem_cons_self
    obtain ⟨id', hne', hids, hsent⟩ :=
      createOrder_promisedIds h (List.ne_nil_of_mem hmem) hargs hres
    have hlater {x : Exchange} (hx : x ∈ sends tr') : x ∈ sends tr := by
      rw [← hsends] at hx
      rw [htr, sends_append]
      exact List.mem_append_right _ (List.mem_cons_of_mem _ hx)
    have hidsEq {x : Exchange} (hx : x ∈ sends tr') (hquery : x.1.isOrderQuery = true) :
        (∃ id, Dict.get? post.params "newClientOrderId" = some (.str id) ∧
          Dict.get? x.1.params "origClientOrderId" = some (.str id)) ↔
          order.newClientOrderId.getD id' = id' := by
      rw [hids.posts _ hmem hpost, hids.queries x (hlater hx) hquery]
      constructor
      · rintro ⟨id, hp, hq⟩
        rw [ParamValue.str.inj (Option.some.inj hp), ParamValue.str.inj (Option.some.inj hq)]
      · intro heq
        exact ⟨id', by rw [heq], rfl⟩
    rw [hsends, huntil, List.cons_append, smooth_cons, smooth_append, ← hsent]
    constructor
    · rintro ⟨-, ⟨query, net, l', hl, hquery, hid⟩, -⟩
      have hx : (query, net) ∈ sends tr' := by
        rw [hl]
        exact List.mem_cons_self
      exact ⟨hbody.1, hbody.2, (hidsEq hx hquery).1 hid, rfl, hsmooth,
        hasks.2 (List.ne_nil_of_mem hx)⟩
    · rintro ⟨-, -, hid, -, -, hgranted⟩
      obtain ⟨⟨query, net⟩, l', hl⟩ := List.exists_cons_of_ne_nil (hasks.1 hgranted)
      have hx : (query, net) ∈ sends tr' := by
        rw [hl]
        exact List.mem_cons_self
      have hquery := hfirst _ _ hl
      exact ⟨fun x hx => isOrderPost_of_query (origin_reconcile hprep.canSign hrec hx),
        ⟨query, net, l', hl, hquery, (hidsEq hx hquery).2 hid⟩, reconcile_ne_api hrec⟩

/-- A 503 without JSON is treated as an unknown status. -/
theorem createOrder_serverError_text :
    ∃ post l, sends (sampleRun none [unavailable, notFound]).1 = (post, unavailable) :: l ∧
      TreatedAsUnknown post l (sampleRun none [unavailable, notFound]).2.1 := by
  refine ⟨_, _, rfl, ?_⟩
  have hsplit : (sampleRun none [unavailable, notFound]).1 =
      (sampleRun none [unavailable, notFound]).1.take 3 ++
        ⟨.send _, unavailable⟩ :: (sampleRun none [unavailable, notFound]).1.drop 4 := rfl
  have hsmooth : Smooth (sampleRun none [unavailable, notFound]).1 :=
    smooth_scripted (Comp.runs_play _ _ _).2
  exact (createOrder_serverError_iff sampleOrders (sampleArgs none) (runs_sampleRun _ _)
    (sample_idsPromised _ _) rfl hsplit rfl (by decide) (by decide)).2
    ⟨nofun, .inl rfl, by decide,
      hsmooth.sublist ((untilSend_sublist _).trans (List.drop_sublist _ _))⟩

/-- A 503 whose body carries a code. -/
def unavailableCode : NetResult :=
  .response ⟨503, [], "", .value (.obj [("code", .int (-1000)), ("msg", .str "unknown")])⟩

/-- A 503 with the code -1000 surfaces as a definite failure, and the order is not asked for. -/
theorem createOrder_serverError_code :
    Runs (sampleOrders.createOrder (sampleArgs none)) ⟨0, true⟩
      (sampleRun none [unavailableCode]).1 (sampleRun none [unavailableCode]).2.1
      (sampleRun none [unavailableCode]).2.2 ∧
    ∃ post, sends (sampleRun none [unavailableCode]).1 = [(post, unavailableCode)] ∧
      post.isOrderPost = true ∧
      ¬ TreatedAsUnknown post [] (sampleRun none [unavailableCode]).2.1 := by
  refine ⟨runs_sampleRun _ _, _, rfl, rfl, ?_⟩
  rintro ⟨-, ⟨query, net, l', hl, -⟩, -⟩
  cases hl

/-! ## The reconciliation query -/

/-- In the run `tr` from `s` the POST fails with an unknown status, and `tr'` comes after it. -/
inductive PostFails (C : OrdersClient) (args : CreateOrderArgs) (s : TimeSync) :
    (tr tr' : List Ev) → Prop
  | intro {tr₁ tr₂ tr' : List Ev} {order : OrderRequest} {id : String} {e : Exc}
      {s₁ s₂ : TimeSync} : Runs (C.prepare args) s tr₁ (.ok (order, id)) s₁ →
      Runs (C.submit order) s₁ tr₂ (.error e) s₂ → e.isUnknownStatus = true →
      PostFails C args s (tr₁ ++ (tr₂ ++ tr')) tr'

/-- The three ways for a reconciliation with the exchanges `l` to end. -/
inductive Reconciled (C : OrdersClient) (l : List Exchange) : Except Exc Order → Prop
  | found {query : HttpRequest} {reply : Response} {order : Order} :
      (query, .response reply) ∈ l → query.isOrderQuery = true →
      C.replyOrder reply = .ok order → Reconciled C l (.ok order)
  /-- Only the answer -2013 to the query makes the order resubmittable. -/
  | notPlaced {query : HttpRequest} {reply : Response} {u : OrderUnknownError} :
      (query, .response reply) ∈ l → query.isOrderQuery = true → 400 ≤ reply.status →
      reply.code = some orderNotFoundCode → u.resubmittable = true →
      Reconciled C l (.error (.orderUnknownError u))
  | unknown {u : OrderUnknownError} : u.resubmittable = false →
      Reconciled C l (.error (.orderUnknownError u))

/-- The delay after an API error of the query, in its attempt `n`, is computed and raises. -/
def queryGivesUp (C : OrdersClient) (e : APIError) (n : ℕ) : Bool :=
  C.transport.givesUp { method := "GET", path := orderPath, signed := true, weight := 2 } (.api e) n

/-- The last exchange of the query, made in its attempt `n`, settles the reconciliation: it is a
reply, either of the query with an order in its body, or with a status of 400 or more. Of the latter,
a body too deep to scan, the code -2013 from the time endpoint and a delay that overflows do not. -/
def Settles (C : OrdersClient) (n : ℕ) (x : Exchange) : Prop :=
  ∃ reply, x.2 = .response reply ∧
    ((reply.status < 400 ∧ x.1.isOrderQuery = true ∧ ∃ order, C.replyOrder reply = .ok order) ∨
      (400 ≤ reply.status ∧ reply.body ≠ .tooDeep ∧
        (x.1.isOrderQuery = true ∨ reply.code ≠ some orderNotFoundCode) ∧
        C.queryGivesUp reply.apiError n = false))

/-- After a failed POST the rest of the run is the reconciliation. -/
theorem runs_reconcile_of_postFails (h : Runs (C.createOrder args) s tr r s')
    (hfails : C.PostFails args s tr tr') : ∃ symbol id s₂, C.transport.canSign = true ∧
      Runs (C.reconcile symbol id) s₂ tr' r s' := by
  cases hfails with
  | @intro tr₁ tr₂ _ order id e s₁ s₂ hprep hpost hunknown =>
    unfold createOrder at h
    rcases runs_bind_iff.1 h with ⟨e', -, h₁⟩ | ⟨⟨order', id'⟩, tr₃, s₃, tr₄, heq, h₁, h₂⟩
    · obtain ⟨-, hr, -⟩ := hprep.unique h₁ (List.append_nil _).symm
      cases hr
    obtain ⟨rfl, hr, rfl⟩ := hprep.unique h₁ heq
    obtain ⟨rfl, rfl⟩ := Prod.mk.inj (Except.ok.inj hr)
    obtain rfl := List.append_cancel_left heq
    rcases runs_tryCatch_iff.1 h₂ with ⟨o, -, h₃⟩ | ⟨e', tr₅, s₅, tr₆, heq', h₃, h₄⟩
    · obtain ⟨-, hr, -⟩ := hpost.unique h₃ (List.append_nil _).symm
      cases hr
    obtain ⟨rfl, hr, rfl⟩ := hpost.unique h₃ heq'
    obtain rfl := Except.error.inj hr
    obtain rfl := List.append_cancel_left heq'
    rw [if_pos hunknown] at h₄
    exact ⟨order.symbol, id, s₂, (runs_prepare hprep).canSign, h₄⟩

/-- Only an order and an unknown status are ends of a reconciliation. -/
theorem not_reconciled_error {l : List Exchange} {e : Exc}
    (h : ∀ u, e ≠ .orderUnknownError u) : ¬ C.Reconciled l (.error e) := by
  intro hrec
  cases hrec with
  | notPlaced => exact h _ rfl
  | unknown => exact h _ rfl

theorem outcome_of_orderQuery {q : QueryOrderRequest} (h : reply.status < 400) :
    C.transport.outcome (queryCall q) (.response reply) = reply.json :=
  Transport.outcome_of_lt rfl rfl h

/-- What a settling exchange stands for: no error at all, or an API error that is not retried into
an overflow. -/
theorem Settles.error? {q : QueryOrderRequest} {n : ℕ} {x : Exchange} (h : C.Settles n x)
    (hown : (queryCall q).isOwn x.1 = x.1.isOrderQuery) :
    C.transport.error? (queryCall q) x = none ∨
      ∃ reply : Response, x.2 = .response reply ∧
        C.transport.error? (queryCall q) x = some (.api reply.apiError) ∧
        C.queryGivesUp reply.apiError n = false := by
  obtain ⟨reply, hx, ⟨hlt, hquery, order, horder⟩ | ⟨hle, hdeep, -, hgives⟩⟩ := h
  · refine .inl ?_
    rw [Transport.error?_own (hown.trans hquery), hx, outcome_of_orderQuery hlt,
      errorOf_eq_none_iff]
    cases hjson : reply.json with
    | ok j => exact ⟨j, rfl⟩
    | error e =>
      rw [replyOrder, hjson] at horder
      cases horder
  · exact .inr ⟨reply, hx, (Transport.error?_eq_api_iff rfl).2 ⟨reply, hx, hle, hdeep, rfl⟩, hgives⟩

/-- An exchange answered with -2013 is the last one. -/
theorem last_of_notFound {q : QueryOrderRequest} {x : Exchange}
    (hchain : C.transport.Chained (queryCall q) (l₁ ++ x :: l₂)) (hx : x.2 = .response reply)
    (hle : 400 ≤ reply.status) (hcode : reply.code = some orderNotFoundCode) : l₂ = [] := by
  have hdeep : reply.body ≠ .tooDeep := by
    intro hdeep
    rw [Response.code, Response.errorBody, hdeep] at hcode
    cases hcode
  have hcls : reply.apiError.cls = .badRequestError := by
    rw [Response.apiError_cls, hcode]
    rfl
  have herror : C.transport.error? (queryCall q) x = some (.api reply.apiError) :=
    (Transport.error?_eq_api_iff rfl).2 ⟨reply, hx, hle, hdeep, rfl⟩
  rcases hchain.stops herror (by simp [isRetryable, hcls]) with hnil | ⟨hresync, -⟩
  · exact hnil
  · rw [Transport.needsResync, Bool.and_eq_true, Exc.isTimestampError, Bool.and_eq_true,
      decide_eq_true_eq, hcls] at hresync
    cases hresync.2.1

theorem resubmittable_unknownError (symbol id : String) (a : APIError) :
    (unknownError symbol id a).resubmittable = decide (a.code = some orderNotFoundCode) := by
  unfold unknownError
  split
  · next h => rw [decide_eq_true h]
  · next h => rw [decide_eq_false h]

/-- After an API error the order counts as not placed on account of the query, if it does. -/
theorem reconciled_unknownError_iff {q : QueryOrderRequest} {symbol id : String}
    {l : List Exchange} {request : HttpRequest} {n : ℕ}
    (hchain : C.transport.Chained (queryCall q) (l ++ [(request, .response reply)]))
    (hle : 400 ≤ reply.status) (hdeep : reply.body ≠ .tooDeep)
    (hgives : C.queryGivesUp reply.apiError n = false) :
    C.Reconciled (l ++ [(request, .response reply)])
      (.error (.orderUnknownError (unknownError symbol id reply.apiError))) ↔
      C.Settles n (request, .response reply) := by
  have hresubmittable := resubmittable_unknownError symbol id reply.apiError
  rw [Response.apiError_code] at hresubmittable
  constructor
  · intro hrec
    refine ⟨reply, rfl, .inr ⟨hle, hdeep, ?_, hgives⟩⟩
    by_cases hcode : reply.code = some orderNotFoundCode
    · rw [decide_eq_true hcode] at hresubmittable
      cases hrec with
      | @notPlaced query reply' _ hmem hquery hle' hcode' _ =>
        rcases List.mem_append.1 hmem with hl | hx
        · obtain ⟨l₁, l₂, rfl⟩ := List.append_of_mem hl
          rw [List.append_assoc] at hchain
          have hnil := last_of_notFound hchain rfl hle' hcode'
          cases l₂ <;> cases hnil
        · obtain ⟨rfl, -⟩ := Prod.mk.inj (List.mem_singleton.1 hx)
          exact .inl hquery
      | unknown hno =>
        rw [hresubmittable] at hno
        cases hno
    · exact .inr hcode
  · rintro ⟨reply', hx, ⟨hlt, -⟩ | ⟨-, -, hwho, -⟩⟩
    · obtain rfl := NetResult.response.inj hx
      omega
    · obtain rfl := NetResult.response.inj hx
      by_cases hcode : reply.code = some orderNotFoundCode
      · have hquery := hwho.resolve_right (not_not_intro hcode)
        rw [decide_eq_true hcode] at hresubmittable
        exact .notPlaced (List.mem_append_right l (List.mem_singleton_self _)) hquery hle hcode
          hresubmittable
      · rw [decide_eq_false hcode] at hresubmittable
        exact .unknown hresubmittable

/-- After a success of the query it is the decoding of its body that decides. -/
theorem reconciled_replyOrder_iff {symbol id : String} {l : List Exchange} {request : HttpRequest}
    {n : ℕ} {j : Json} (hreply : C.replyOrder reply = C.orderOf (.ok j))
    (hlt : reply.status < 400) (hquery : request.isOrderQuery = true) :
    C.Reconciled (l ++ [(request, .response reply)]) (reconcileResult symbol id (C.orderOf (.ok j))) ↔
      C.Settles n (request, .response reply) := by
  cases horder : C.replyOrder reply with
  | ok order =>
    rw [← hreply, horder]
    exact iff_of_true (.found (List.mem_append_right l (List.mem_singleton_self _)) hquery horder)
      ⟨reply, rfl, .inl ⟨hlt, hquery, order, horder⟩⟩
  | error e =>
    have hdecode := Order.raisesDecodeErrors C.transport.pydantic j e (hreply.symm.trans horder)
    have hapi (a : APIError) : C.replyOrder reply ≠ .error (.api a) := by
      intro heq
      obtain rfl := Except.error.inj (horder.symm.trans heq)
      cases hdecode
    rw [← hreply, reconcileResult_of_ne_api hapi, horder]
    refine iff_of_false (not_reconciled_error fun u hu => ?_) ?_
    · rw [hu] at hdecode
      cases hdecode
    · rintro ⟨reply', hx, ⟨-, -, order, horder'⟩ | ⟨hle, -⟩⟩
      · obtain rfl := NetResult.response.inj hx
        rw [horder] at horder'
        cases horder'
      · obtain rfl := NetResult.response.inj hx
        omega

/-- The end of the query decides the reconciliation. -/
theorem reconciled_iff_settles {symbol id : String} {l : List Exchange} {x : Exchange} {n : ℕ}
    {raw : Except Exc Json} (hsign : C.transport.canSign = true)
    (horigin : ∀ y ∈ l ++ [x], C.transport.Origin (queryCall (reconcileQuery symbol id)) y)
    (hchain : C.transport.Chained (queryCall (reconcileQuery symbol id)) (l ++ [x]))
    (hends : C.transport.Ends (queryCall (reconcileQuery symbol id)) x n raw) :
    C.Reconciled (l ++ [x]) (reconcileResult symbol id (C.orderOf raw)) ↔ C.Settles n x := by
  have hlast : x ∈ l ++ [x] := List.mem_append_right l (List.mem_singleton_self x)
  have hown := isOwn_queryCall hsign (horigin x hlast)
  obtain ⟨request, net⟩ := x
  cases hends with
  | @value j hquery hout =>
    obtain ⟨reply, hnet, hlt⟩ := Transport.reply_of_outcome_ok hout
    obtain rfl : net = .response reply := hnet
    rw [outcome_of_orderQuery hlt] at hout
    exact reconciled_replyOrder_iff (congrArg C.orderOf hout) hlt (hown.symm.trans hquery)
  | @error e he hgives =>
    by_cases hapi : ∃ a, e = .api a
    · obtain ⟨a, rfl⟩ := hapi
      obtain ⟨reply, hx, hle, hdeep, rfl⟩ := (Transport.error?_eq_api_iff rfl).1 he
      obtain rfl : net = .response reply := hx
      exact reconciled_unknownError_iff hchain hle hdeep hgives
    · have hunknown (u : OrderUnknownError) : e ≠ .orderUnknownError u := by
        rintro rfl
        exact Transport.Ends.ne_orderUnknown u (.error he hgives) rfl rfl
      have hraised : C.orderOf (.error e) = .error e := rfl
      rw [hraised, reconcileResult_of_ne_api fun a heq => hapi ⟨a, Except.error.inj heq⟩]
      refine iff_of_false (not_reconciled_error hunknown) fun hsettles => ?_
      rcases hsettles.error? hown with hnone | ⟨reply, -, herror, -⟩
      · rw [he] at hnone
        cases hnone
      · exact hapi ⟨_, Option.some.inj (he.symm.trans herror)⟩
  | @overflow e he hgives =>
    refine iff_of_false (not_reconciled_error nofun) fun hsettles => ?_
    rcases hsettles.error? hown with hnone | ⟨reply, -, herror, hno⟩
    · rw [he] at hnone
      cases hnone
    · obtain rfl := Option.some.inj (he.symm.trans herror)
      rw [show C.queryGivesUp reply.apiError n = true from hgives] at hno
      cases hno

/-- The events of the sample run after a POST that was answered with a 503: five before them choose
the id, read the clock, wait for the limiter, send, and report the headers. -/
def afterUnavailable (reply : NetResult) : List Ev := (sampleRun none [unavailable, reply]).1.drop 5

theorem sample_postFails (reply : NetResult) : sampleOrders.PostFails (sampleArgs none) ⟨0, true⟩
    (sampleRun none [unavailable, reply]).1 (afterUnavailable reply) := by
  have hprep := (Comp.runs_play (scripted [unavailable, reply])
    (sampleOrders.prepare (sampleArgs none)) ⟨0, true⟩).1
  have hpost (order : OrderRequest) := (Comp.runs_play (scripted [unavailable, reply])
    (sampleOrders.submit order) ⟨0, true⟩).1
  exact .intro hprep (hpost _) rfl

end OrdersClient

end BinanceTh
