import BinanceTh.Orders
import BinanceTh.Transport.Ending
import BinanceTh.Transport.Sending

/-!
# Runs of `create_order`

`Placed` reads every run of `create_order` as one of three: refused before anything was sent, ended
with the POST, or ended with the reconciliation query. The exchanges are those of one attempt of the
POST (it is mutating, so it is not retried) followed by those of the retried query.
-/

namespace BinanceTh

open Interaction

def HttpRequest.isOrderPost (request : HttpRequest) : Bool :=
  request.method = "POST" && request.path = orderPath

def HttpRequest.isOrderQuery (request : HttpRequest) : Bool :=
  request.method = "GET" && request.path = orderPath

/-! ## Computations that send nothing -/

theorem silent_mintId : Silent mintId := silent_perform (fun _ => rfl) (fun _ => rfl) fun _ => rfl

theorem silent_fetchExchangeInfo (force : Bool) : Silent (fetchExchangeInfo force) :=
  silent_bind (silent_perform (fun _ => rfl) (fun _ => rfl) fun _ => rfl) silent_raiseOr

theorem silent_fetchExecutionRules : Silent fetchExecutionRules :=
  silent_bind (silent_perform (fun _ => rfl) (fun _ => rfl) fun _ => rfl) silent_raiseOr

namespace OrdersClient

variable {C : OrdersClient} {s s' : TimeSync} {tr : List Ev}

theorem silent_chooseId (order : OrderRequest) : Silent (chooseId order) := by
  unfold chooseId
  split
  · split
    · exact silent_mintId
    · exact silent_pure _
  · exact silent_mintId

theorem silent_symbolInfo (symbol : String) : Silent (symbolInfo symbol) := by
  refine silent_bind (silent_fetchExchangeInfo false) fun info => ?_
  split
  · exact silent_pure _
  · exact silent_bind (silent_fetchExchangeInfo true) fun _ => silent_pure _

theorem silent_symbolRules (symbol : String) : Silent (C.symbolRules symbol) := by
  unfold symbolRules
  split
  · exact silent_bind silent_fetchExecutionRules fun _ => silent_pure _
  · exact silent_pure _

theorem silent_validate (order : OrderRequest) : Silent (C.validate order) := by
  refine silent_bind (silent_symbolInfo _) fun info => ?_
  split
  · exact silent_throw _
  · exact silent_bind (silent_symbolRules _) fun _ => silent_raiseOr _

theorem silent_validateIf (args : CreateOrderArgs) (order : OrderRequest) :
    Silent (C.validateIf args order) := by
  unfold validateIf
  split
  · exact silent_validate order
  · exact silent_pure order

theorem silent_prepare (args : CreateOrderArgs) : Silent (C.prepare args) := by
  refine silent_bind (silent_raiseOr _) fun order => ?_
  split
  · exact silent_bind (silent_chooseId order) fun _ =>
      silent_bind (silent_validateIf args _) fun _ => silent_pure _
  · exact silent_throw _

/-! ## Before the send -/

/-- The id chosen for the order `order`: its own, or one minted in the run. -/
inductive Chosen (order : OrderRequest) (tr : List Ev) : String → Prop
  | given {id : String} : order.newClientOrderId = some id → id ≠ "" → Chosen order tr id
  | minted {id : String} : order.newClientOrderId = none ∨ order.newClientOrderId = some "" →
      ⟨.mintId, id⟩ ∈ tr → Chosen order tr id

/-- What `prepare` hands on: the order with the resolved request's symbol and its id, if it has one,
and the id chosen. -/
structure Prepared (C : OrdersClient) (args : CreateOrderArgs) (tr : List Ev)
    (order : OrderRequest) (clientOrderId : String) : Prop where
  canSign : C.transport.canSign = true
  resolved : ∃ order₀, args.resolveRequest = .ok order₀ ∧ Chosen order₀ tr clientOrderId ∧
    order.symbol = order₀.symbol ∧
    order.newClientOrderId = some (order₀.newClientOrderId.getD clientOrderId)

theorem Prepared.mono {args : CreateOrderArgs} {tr' : List Ev} {order : OrderRequest} {id : String}
    (h : C.Prepared args tr order id) : C.Prepared args (tr ++ tr') order id := by
  obtain ⟨hsign, order₀, hres, hchosen, hfields⟩ := h
  refine ⟨hsign, order₀, hres, ?_, hfields⟩
  cases hchosen with
  | given hid hne => exact .given hid hne
  | minted hno hmem => exact .minted hno (List.mem_append_left tr' hmem)

theorem runs_chooseId {order : OrderRequest} {id : String}
    (h : Runs (chooseId order) s tr (.ok id) s') : Chosen order tr id := by
  have hmint {tr : List Ev} (h : Runs mintId s tr (.ok id) s') : ⟨.mintId, id⟩ ∈ tr := by
    obtain ⟨x, rfl, hx, -⟩ := runs_perform_iff.1 h
    obtain rfl := Except.ok.inj hx
    exact List.mem_singleton_self _
  unfold chooseId at h
  split at h
  · next id' hid =>
    split at h
    · next hempty => exact .minted (.inr (hempty ▸ hid)) (hmint h)
    · next hne =>
      obtain ⟨-, hx, -⟩ := runs_pure_iff.1 h
      obtain rfl := Except.ok.inj hx
      exact .given hid hne
  · next hnone => exact .minted (.inl hnone) (hmint h)

theorem runs_validateIf {args : CreateOrderArgs} {order order' : OrderRequest}
    (h : Runs (C.validateIf args order) s tr (.ok order') s') :
    order'.symbol = order.symbol ∧ order'.newClientOrderId = order.newClientOrderId := by
  unfold validateIf at h
  split at h
  · unfold validate at h
    rcases runs_bind_iff.1 h with ⟨e, he, -⟩ | ⟨info, tr₁, s₁, tr₂, rfl, -, h₁⟩
    · cases he
    · cases info with
      | none =>
        obtain ⟨-, he, -⟩ := runs_throw_iff.1 h₁
        cases he
      | some info =>
        rcases runs_bind_iff.1 h₁ with ⟨e, he, -⟩ | ⟨rules, tr₃, s₃, tr₄, rfl, -, h₃⟩
        · cases he
        · obtain ⟨-, hok, -⟩ := runs_raiseOr_iff.1 h₃
          rw [validateOrder_frame hok.symm]
          exact ⟨rfl, rfl⟩
  · obtain ⟨-, hok, -⟩ := runs_pure_iff.1 h
    obtain rfl := Except.ok.inj hok
    exact ⟨rfl, rfl⟩

theorem runs_prepare {args : CreateOrderArgs} {order : OrderRequest} {id : String}
    (h : Runs (C.prepare args) s tr (.ok (order, id)) s') : C.Prepared args tr order id := by
  unfold prepare at h
  rcases runs_raiseOr_bind_iff.1 h with ⟨e, -, -, he, -⟩ | ⟨order₀, hres, h₁⟩
  · cases he
  split at h₁
  · next hsign =>
    rcases runs_bind_iff.1 h₁ with ⟨e, he, -⟩ | ⟨id', tr₁, s₁, tr₂, rfl, hid, h₂⟩
    · cases he
    rcases runs_bind_iff.1 h₂ with ⟨e, he, -⟩ | ⟨order', tr₃, s₃, tr₄, rfl, hval, h₃⟩
    · cases he
    obtain ⟨rfl, hok, -⟩ := runs_pure_iff.1 h₃
    obtain ⟨rfl, rfl⟩ := Prod.mk.inj (Except.ok.inj hok)
    obtain ⟨hsymbol, hnew⟩ := runs_validateIf hval
    have hprep : C.Prepared args tr₁ order id := by
      refine ⟨hsign, order₀, hres, runs_chooseId hid, ?_, ?_⟩
      · rw [hsymbol]
        unfold withId
        split <;> rfl
      · rw [hnew]
        unfold withId
        split
        · next hsome => rw [hsome]; rfl
        · next hnone => rw [hnone]; rfl
    exact hprep.mono
  · obtain ⟨-, he, -⟩ := runs_throw_iff.1 h₁
    cases he

/-! ## The three ways through -/

/-- The query that `_reconcile` builds. -/
def reconcileQuery (symbol clientOrderId : String) : QueryOrderRequest where
  symbol := strip isSpace symbol
  orderId := none
  origClientOrderId := some (strip isSpace clientOrderId)
  recvWindow := none

/-- What `_reconcile` makes of the end of its query. -/
def reconcileResult (symbol clientOrderId : String) : Except Exc Order → Except Exc Order
  | .error (.api e) => .error (.orderUnknownError (unknownError symbol clientOrderId e))
  | r => r

/-- The order in a parsed reply. -/
def orderOf (C : OrdersClient) (r : Except Exc Json) : Except Exc Order :=
  r >>= Order.decode C.transport.pydantic

/-- An unknown status comes from the request, not from decoding its reply. -/
theorem orderOf_unknown {r : Except Exc Json} {e : Exc} (h : C.orderOf r = .error e)
    (he : e.isUnknownStatus = true) : r = .error e := by
  cases r with
  | error e' =>
    obtain rfl := Except.error.inj h
    rfl
  | ok j =>
    have hdecode := Order.raisesDecodeErrors C.transport.pydantic j e h
    cases e <;> simp [Exc.isUnknownStatus, Exc.isDecodeError] at he hdecode

/-- `C.Placed args s tr l n r`: in the run `tr` of `create_order` the exchanges are `l`, the result
is `r`, and the query, if there was one, ended in its attempt `n`. -/
inductive Placed (C : OrdersClient) (args : CreateOrderArgs) (s : TimeSync) (tr : List Ev) :
    List Exchange → ℕ → Except Exc Order → Prop
  | refused {e : Exc} : Placed C args s tr [] 0 (.error e)
  | posted {order : OrderRequest} {id : String} {l : List Exchange} {r : Except Exc Json}
      {s₁ : TimeSync} : C.Prepared args tr order id →
      C.transport.Attempted (postCall order) s l r s₁ →
      (∀ e, C.orderOf r = .error e → e.isUnknownStatus = false) →
      Placed C args s tr l 0 (C.orderOf r)
  | reconciled {order : OrderRequest} {id : String} {l l' : List Exchange} {e : Exc}
      {r : Except Exc Json} {s₁ s₂ : TimeSync} {n : ℕ} : C.Prepared args tr order id →
      C.transport.Attempted (postCall order) s l (.error e) s₁ → e.isUnknownStatus = true →
      C.transport.Retried (queryCall (reconcileQuery order.symbol id))
        (C.transport.retryer.retries C.transport.config.maxRetries) 0 s₁ l' r s₂ n →
      Placed C args s tr (l ++ l') n (reconcileResult order.symbol id (C.orderOf r))

theorem interruptible_submit (order : OrderRequest) : Interruptible (C.submit order) :=
  .bind Transport.interruptible_request fun _ => .raiseOr _

theorem interruptible_queryOrder (symbol : String) (orderId : Option ℤ)
    (origClientOrderId : Option String) (recvWindow : Option ℤ) :
    Interruptible (C.queryOrder symbol orderId origClientOrderId recvWindow) :=
  .bind (.raiseOr _) fun _ => .bind Transport.interruptible_request fun _ => .raiseOr _

theorem interruptible_reconcile (symbol id : String) : Interruptible (C.reconcile symbol id) := by
  refine .tryCatch (interruptible_queryOrder _ _ _ _) (fun e => ?_) fun e => ?_
  · split <;> exact .throw _
  · cases e <;> rfl

theorem isUnknownStatus_exc (e : LimiterError) : e.exc.isUnknownStatus = false := by
  cases e <;> rfl

/-- Neither handler of `create_order` is about what the limiter raises. -/
theorem interruptible_createOrder (args : CreateOrderArgs) : Interruptible (C.createOrder args) := by
  refine .bind (silent_prepare args).interruptible fun prepared => ?_
  refine .tryCatch (interruptible_submit _) (fun e => ?_) fun e => ?_
  · split
    · exact interruptible_reconcile _ _
    · exact .throw e
  · rw [isUnknownStatus_exc, if_neg Bool.false_ne_true]

theorem runs_submit {order : OrderRequest} {r : Except Exc Order}
    (hsign : C.transport.canSign = true) (hsmooth : Smooth tr)
    (h : Runs (C.submit order) s tr r s') :
    ∃ raw, r = C.orderOf raw ∧ C.transport.Attempted (postCall order) s (sends tr) raw s' ∧
      sleeps tr = 0 := by
  have hrequest {tr : List Ev} {raw : Except Exc Json} (hsmooth : Smooth tr)
      (h : Runs (C.transport.request (postCall order)) s tr raw s') :
      C.transport.Attempted (postCall order) s (sends tr) raw s' ∧ sleeps tr = 0 :=
    Transport.runs_request_mutating rfl (fun _ => hsign) hsmooth h
  unfold submit at h
  rcases runs_bind_iff.1 h with ⟨e, rfl, h₁⟩ | ⟨raw, tr₁, s₁, tr₂, rfl, h₁, h₂⟩
  · exact ⟨.error e, rfl, hrequest hsmooth h₁⟩
  · obtain ⟨rfl, rfl, rfl⟩ := runs_raiseOr_iff.1 h₂
    rw [List.append_nil] at hsmooth ⊢
    exact ⟨.ok raw, rfl, hrequest hsmooth h₁⟩

theorem runs_reconcile {symbol id : String} {r : Except Exc Order}
    (hsign : C.transport.canSign = true) (hsmooth : Smooth tr)
    (h : Runs (C.reconcile symbol id) s tr r s') :
    ∃ raw, r = reconcileResult symbol id (C.orderOf raw) ∧
      C.transport.Retried (queryCall (reconcileQuery symbol id))
        (C.transport.retryer.retries C.transport.config.maxRetries) 0 s (sends tr) raw s'
        (sleeps tr) := by
  have hquery {tr : List Ev} {r : Except Exc Order} {s' : TimeSync} (hsmooth : Smooth tr)
      (h : Runs (C.queryOrder symbol none (some id) none) s tr r s') :
      ∃ raw, r = C.orderOf raw ∧
        C.transport.Retried (queryCall (reconcileQuery symbol id))
          (C.transport.retryer.retries C.transport.config.maxRetries) 0 s (sends tr) raw s'
          (sleeps tr) := by
    unfold queryOrder at h
    rcases runs_raiseOr_bind_iff.1 h with ⟨e, he, -⟩ | ⟨q, hq, h₁⟩
    · cases he
    obtain rfl := Except.ok.inj hq
    rcases runs_bind_iff.1 h₁ with ⟨e, rfl, h₂⟩ | ⟨raw, tr₁, s₁, tr₂, rfl, h₂, h₃⟩
    · exact ⟨.error e, rfl, Transport.runs_request_of_maySign (fun _ => hsign) hsmooth h₂⟩
    · obtain ⟨rfl, rfl, rfl⟩ := runs_raiseOr_iff.1 h₃
      rw [List.append_nil] at hsmooth ⊢
      exact ⟨.ok raw, rfl, Transport.runs_request_of_maySign (fun _ => hsign) hsmooth h₂⟩
  unfold reconcile at h
  rcases runs_tryCatch_iff.1 h with ⟨o, rfl, h₁⟩ | ⟨e, tr₁, s₁, tr₂, rfl, h₁, h₂⟩
  · obtain ⟨raw, hr, hretried⟩ := hquery hsmooth h₁
    exact ⟨raw, by rw [← hr]; rfl, hretried⟩
  · obtain ⟨raw, hr, hretried⟩ := hquery (smooth_append.1 hsmooth).1 h₁
    have hraise : tr₂ = [] ∧ r = reconcileResult symbol id (.error e) ∧ s' = s₁ := by
      cases e <;> exact runs_throw_iff.1 h₂
    obtain ⟨rfl, rfl, rfl⟩ := hraise
    rw [List.append_nil, hr]
    exact ⟨raw, rfl, hretried⟩

/-- **Every smooth run of `create_order`** is one of the three. -/
theorem runs_createOrder {args : CreateOrderArgs} {r : Except Exc Order} (hsmooth : Smooth tr)
    (h : Runs (C.createOrder args) s tr r s') : C.Placed args s tr (sends tr) (sleeps tr) r := by
  unfold createOrder at h
  rcases runs_bind_iff.1 h with ⟨e, rfl, h₁⟩ | ⟨⟨order, id⟩, tr₁, s₁, tr₂, rfl, h₁, h₂⟩
  · obtain ⟨-, hsends, hsleeps, -⟩ := silent_prepare args _ _ _ _ h₁
    rw [hsends, hsleeps]
    exact .refused
  obtain ⟨rfl, hsends, hsleeps, -⟩ := silent_prepare args _ _ _ _ h₁
  have hprep : C.Prepared args (tr₁ ++ tr₂) order id := (runs_prepare h₁).mono
  have hsmooth₂ := (smooth_append.1 hsmooth).2
  rw [sends_append, sleeps_append, hsends, hsleeps, List.nil_append, Nat.zero_add]
  rcases runs_tryCatch_iff.1 h₂ with ⟨o, rfl, h₃⟩ | ⟨e, tr₃, s₃, tr₄, rfl, h₃, h₄⟩
  · obtain ⟨raw, hraw, hatt, hsleeps'⟩ := runs_submit hprep.canSign hsmooth₂ h₃
    rw [hsleeps', hraw]
    refine .posted hprep hatt fun e he => ?_
    rw [he] at hraw
    cases hraw
  · obtain ⟨hsmooth₃, hsmooth₄⟩ := smooth_append.1 hsmooth₂
    obtain ⟨raw, hraw, hatt, hsleeps'⟩ := runs_submit hprep.canSign hsmooth₃ h₃
    rw [sends_append, sleeps_append, hsleeps', Nat.zero_add]
    split at h₄
    · next hunknown =>
      obtain ⟨raw', rfl, hretried⟩ := runs_reconcile hprep.canSign hsmooth₄ h₄
      obtain rfl := orderOf_unknown hraw.symm hunknown
      exact .reconciled hprep hatt hunknown hretried
    · next hknown =>
      obtain ⟨rfl, rfl, rfl⟩ := runs_throw_iff.1 h₄
      rw [List.append_nil] at hprep ⊢
      rw [show sends [] = [] from rfl, List.append_nil, hraw]
      refine .posted hprep hatt fun e' he => ?_
      rw [he] at hraw
      obtain rfl := Except.error.inj hraw
      exact Bool.eq_false_of_not_eq_true hknown

/-- What the body of the `try` exchanges is the POST's, also where the limiter ends it. -/
theorem origin_submit {order : OrderRequest} {r : Except Exc Order} {x : Exchange}
    (hsign : C.transport.canSign = true) (h : Runs (C.submit order) s tr r s') (hx : x ∈ sends tr) :
    C.transport.Origin (postCall order) x := by
  obtain ⟨tr', r', s'', hrun, hsmooth, hinitial, -⟩ := (interruptible_submit order).completion h
  obtain ⟨raw, -, hatt, -⟩ := runs_submit hsign hsmooth hrun
  exact hatt.origin (hinitial.subset hx)

/-- What the reconciliation exchanges is the query's. -/
theorem origin_reconcile {symbol id : String} {r : Except Exc Order} {x : Exchange}
    (hsign : C.transport.canSign = true) (h : Runs (C.reconcile symbol id) s tr r s')
    (hx : x ∈ sends tr) : C.transport.Origin (queryCall (reconcileQuery symbol id)) x := by
  obtain ⟨tr', r', s'', hrun, hsmooth, hinitial, -⟩ := (interruptible_reconcile symbol id).completion h
  obtain ⟨raw, -, hretried⟩ := runs_reconcile hsign hsmooth hrun
  exact hretried.origin (hinitial.subset hx)

/-! ## The POST of a run -/

/-- The result of an exchange of the POST; it does not depend on the order. -/
def postOutcome (C : OrdersClient) : NetResult → Except Exc Json :=
  C.transport.outcome
    { method := "POST", path := orderPath, signed := true, mutating := true }

theorem outcome_postCall (order : OrderRequest) (net : NetResult) :
    C.transport.outcome (postCall order) net = C.postOutcome net := by
  cases net <;> rfl

/-- A predicate of a call's own requests that does not hold of the time request tells them apart. -/
theorem isOwn_of_origin {call : Call} {p : HttpRequest → Bool} {x : Exchange}
    (hsign : C.transport.canSign = true) (htime : p C.transport.timeRequest = false)
    (hown : ∀ s clock,
      p (C.transport.httpRequest call (C.transport.paramsAt call s clock)) = true)
    (h : C.transport.Origin call x) : call.isOwn x.1 = p x.1 := by
  cases h with
  | time hsigned hx => rw [hx, Transport.isOwn_timeRequest hsigned, htime]
  | own s clock hx =>
    rw [hx, Transport.isOwn_httpRequest fun _ => Transport.signer_of_canSign hsign, hown]

theorem isOwn_postCall {order : OrderRequest} {x : Exchange}
    (hsign : C.transport.canSign = true) (h : C.transport.Origin (postCall order) x) :
    (postCall order).isOwn x.1 = x.1.isOrderPost :=
  isOwn_of_origin hsign rfl (fun _ _ => rfl) h

theorem isOwn_queryCall {q : QueryOrderRequest} {x : Exchange}
    (hsign : C.transport.canSign = true) (h : C.transport.Origin (queryCall q) x) :
    (queryCall q).isOwn x.1 = x.1.isOrderQuery :=
  isOwn_of_origin hsign rfl (fun _ _ => rfl) h

/-- Nothing that a query exchanges is a POST. -/
theorem isOrderPost_of_query {q : QueryOrderRequest} {x : Exchange}
    (h : C.transport.Origin (queryCall q) x) : x.1.isOrderPost = false := by
  cases h with
  | time _ hx => rw [hx]; rfl
  | own s clock hx => rw [hx]; rfl

/-- Nothing that a POST exchanges is a query. -/
theorem isOrderQuery_of_post {order : OrderRequest} {x : Exchange}
    (h : C.transport.Origin (postCall order) x) : x.1.isOrderQuery = false := by
  cases h with
  | time _ hx => rw [hx]; rfl
  | own s clock hx => rw [hx]; rfl

/-- What the body of the `try` makes of a reply to the POST: its result, or what the limiter raises
at its headers. -/
def postResult (C : OrdersClient) (reply : Response) : Except LimiterError Unit → Except Exc Json
  | .ok _ => C.postOutcome (.response reply)
  | .error e => .error e.exc

theorem delivered_postCall (order : OrderRequest) (reply : Response)
    (update : Except LimiterError Unit) :
    C.transport.delivered (postCall order) (.sent (.response reply) update) =
      C.postResult reply update := by
  cases update with
  | ok u => exact C.outcome_postCall order (.response reply)
  | error e => rfl

/-- How a run goes on after a reply to its POST: the limiter takes the headers or raises, and the
run ends with that, or the reconciliation has the remaining events. -/
inductive AfterPost (C : OrdersClient) (args : CreateOrderArgs) (tr : List Ev) (reply : Response)
    (after : List Ev) (r : Except Exc Order) : Prop
  | ended {update : Except LimiterError Unit} {rest : List Ev} :
      after = ⟨.updateFromHeaders reply.headers, update⟩ :: rest → sends rest = [] →
      (∀ e, C.orderOf (C.postResult reply update) = .error e → e.isUnknownStatus = false) →
      r = C.orderOf (C.postResult reply update) → AfterPost C args tr reply after r
  | reconciled {order : OrderRequest} {id : String} {e : Exc} {rest tr' : List Ev}
      {s s' : TimeSync} : C.Prepared args tr order id →
      after = ⟨.updateFromHeaders reply.headers, .ok ()⟩ :: (rest ++ tr') → sends rest = [] →
      Smooth rest → C.postOutcome (.response reply) = .error e → e.isUnknownStatus = true →
      s.synced = true → Runs (C.reconcile order.symbol id) s tr' r s' →
      AfterPost C args tr reply after r

/-- A reply to the POST that is no timestamp error ends the `try`. -/
theorem endsWith_submit {order : OrderRequest} {reply : Response}
    (hfinal : ∀ e, C.postOutcome (.response reply) = .error e → e.isTimestampError = false) :
    EndsWith HttpRequest.isOrderPost reply
      (fun update out => out = C.orderOf (C.postResult reply update)) (C.submit order) := by
  have hattempt : EndsWith HttpRequest.isOrderPost reply
      (fun update out => out = C.postResult reply update)
      (C.transport.attempt (postCall order)) := by
    refine Transport.endsWith_attempt (delivered_postCall order reply) (fun ⟨_, hp⟩ => ?_) ?_
    · cases hp
    · intro update e he
      cases update with
      | ok u => exact hfinal e he.symm
      | error err =>
        rw [Except.error.inj he]
        exact err.not_timestampError
  refine .bind_raiseOr (Transport.endsWith_request_mutating rfl hattempt) ?_
  rintro update out rfl
  rfl

/-- **After the POST.** A reply to it that is no timestamp error is the last one. -/
theorem runs_createOrder_afterPost {args : CreateOrderArgs} {before after : List Ev}
    {post : HttpRequest} {reply : Response} {r : Except Exc Order}
    (h : Runs (C.createOrder args) s tr r s')
    (htr : tr = before ++ ⟨.send post, .response reply⟩ :: after) (hpost : post.isOrderPost = true)
    (hfinal : ∀ e, C.postOutcome (.response reply) = .error e → e.isTimestampError = false) :
    C.AfterPost args tr reply after r := by
  unfold createOrder at h
  rcases runs_bind_iff.1 h with ⟨e, -, h₁⟩ | ⟨⟨order, id⟩, tr₁, s₁, tr₂, happ, h₁, h₂⟩
  · exact (not_send_of_sends_nil (silent_prepare args _ _ _ _ h₁).2.1 htr).elim
  have hprep : C.Prepared args tr order id := happ ▸ (runs_prepare h₁).mono
  rcases append_eq_split (happ.symm.trans htr) with ⟨_, hsplit, -⟩ | ⟨before₂, -, htr₂⟩
  · exact (not_send_of_sends_nil (silent_prepare args _ _ _ _ h₁).2.1 hsplit).elim
  rcases runs_tryCatch_iff.1 h₂ with ⟨o, rfl, h₃⟩ | ⟨e, tr₃, s₃, tr₄, happ₃, h₃, h₄⟩
  · obtain ⟨update, rest, hafter, hsends, hout⟩ := endsWith_submit hfinal _ _ _ _ h₃ _ _ _ hpost htr₂
    refine .ended hafter hsends (fun e he => ?_) hout
    rw [← hout] at he
    cases he
  rcases append_eq_split (happ₃.symm.trans htr₂) with ⟨after₃, htr₃, hafter₃⟩ | ⟨_, -, htr₄⟩
  · obtain ⟨update, rest, hafter, hsends, hout⟩ := endsWith_submit hfinal _ _ _ _ h₃ _ _ _ hpost htr₃
    rw [hafter, List.cons_append] at hafter₃
    split at h₄
    · next hunknown =>
      -- an unknown status is nothing that the limiter raises
      have hsmooth : Smooth tr₃ := by
        rcases (interruptible_submit order).cases h₃ with hsmooth | ⟨err, herr, -⟩
        · exact hsmooth
        · rw [Except.error.inj herr, isUnknownStatus_exc] at hunknown
          cases hunknown
      obtain rfl : update = .ok () := by
        cases update with
        | ok u => rfl
        | error err =>
          rw [Except.error.inj hout, isUnknownStatus_exc] at hunknown
          cases hunknown
      obtain ⟨raw, -, hatt, -⟩ := runs_submit hprep.canSign hsmooth h₃
      have hmem : (post, NetResult.response reply) ∈ sends tr₃ := by
        rw [htr₃, sends_append]
        exact List.mem_append_right _ List.mem_cons_self
      have hown : (postCall order).isOwn post = true :=
        (isOwn_postCall hprep.canSign (hatt.origin hmem)).trans hpost
      rw [htr₃, hafter, smooth_append, smooth_cons, smooth_cons] at hsmooth
      exact .reconciled hprep hafter₃ hsends hsmooth.2.2.2 (orderOf_unknown hout.symm hunknown)
        hunknown (hatt.synced_of_own rfl hmem hown) h₄
    · next hknown =>
      obtain ⟨rfl, rfl, -⟩ := runs_throw_iff.1 h₄
      rw [List.append_nil] at hafter₃
      refine .ended hafter₃ hsends (fun e' he => ?_) hout
      rw [← hout] at he
      rw [← Except.error.inj he]
      exact Bool.eq_false_of_not_eq_true hknown
  · split at h₄
    · have hmem : (post, NetResult.response reply) ∈ sends tr₄ := by
        rw [htr₄, sends_append]
        exact List.mem_append_right _ List.mem_cons_self
      rw [isOrderPost_of_query (origin_reconcile hprep.canSign h₄ hmem)] at hpost
      cases hpost
    · obtain ⟨rfl, -⟩ := runs_throw_iff.1 h₄
      simp at htr₄

/-! ## A sample order -/

def sampleOrders : OrdersClient where
  transport := sampleTransport
  hasExecutionRules := false
  useExecutionRules := false

/-- A limit order with the given client order id. -/
def sampleArgs (newClientOrderId : Option String) : CreateOrderArgs where
  symbol := some "BTCTHB"
  side := some "BUY"
  orderType := some "LIMIT"
  quantity := some ⟨1, 0⟩
  price := some ⟨100, 0⟩
  timeInForce := some "GTC"
  newClientOrderId := newClientOrderId
  validate := false

/-- The run of the sample order whose exchanges are answered with `replies`. -/
def sampleRun (newClientOrderId : Option String) (replies : List NetResult) :
    List Ev × Except Exc Order × TimeSync :=
  (sampleOrders.createOrder (sampleArgs newClientOrderId)).play (scripted replies) ⟨0, true⟩

theorem runs_sampleRun (newClientOrderId : Option String) (replies : List NetResult) :
    Runs (sampleOrders.createOrder (sampleArgs newClientOrderId)) ⟨0, true⟩
      (sampleRun newClientOrderId replies).1 (sampleRun newClientOrderId replies).2.1
      (sampleRun newClientOrderId replies).2.2 :=
  (Comp.runs_play _ _ _).1

/-- A 503 without JSON. -/
def unavailable : NetResult := .response ⟨503, [], "Service Unavailable", .invalid⟩

/-- The reply for an order the exchange does not know. -/
def notFound : NetResult :=
  .response ⟨400, [], "",
    .value (.obj [("code", .int (-2013)), ("msg", .str "Order does not exist.")])⟩

end OrdersClient

end BinanceTh
