import BinanceTh.Idempotency
import BinanceTh.Orders.Placing

/-!
# The client order id of a run

An order is asked for by the id that `create_order` chose: the request's own id unless that is
empty, a minted one otherwise. The id is written into the request only where the request has none,
so that an empty id of the caller is sent as it is and asked for by the minted one
(`createOrder_oneId_iff`).
-/

namespace BinanceTh

open Interaction

/-- An accepted request's id has been stripped. -/
theorem OrderRequest.Accepted.strip_eq {r : OrderRequest} (h : r.Accepted) {id : String}
    (hid : r.newClientOrderId = some id) : strip isSpace id = id := by
  obtain ⟨r₀, hr⟩ := h
  unfold construct at hr
  dsimp only at hr
  split at hr
  · obtain rfl := Except.ok.inj hr
    obtain ⟨id₀, -, rfl⟩ := Option.map_eq_some_iff.1 hid
    exact strip_strip _ _
  · cases hr

theorem CreateOrderArgs.resolveRequest_accepted {args : CreateOrderArgs} {order : OrderRequest}
    (hargs : ∀ r, args.request = some r → r.Accepted) (h : args.resolveRequest = .ok order) :
    order.Accepted := by
  unfold resolveRequest at h
  split at h
  · next r hr =>
    split at h
    · cases h
    · obtain rfl := Except.ok.inj h
      exact hargs _ hr
  · split at h
    · simp only [bind_eq_ok_iff] at h
      obtain ⟨_, -, _, -, _, -, h⟩ := h
      exact ⟨_, h⟩
    · cases h

/-! ## Errors that are no order errors -/

namespace Transport

variable {T : Transport} {call : Call}

/-- No reply to a bare call is an unknown order: that error comes from `_reconcile` alone. -/
theorem outcome_ne_orderUnknown {net : NetResult} (u : OrderUnknownError)
    (hbare : call.envelope = false) : T.outcome call net ≠ .error (.orderUnknownError u) := by
  intro h
  rcases T.outcome_error_cases hbare h with ⟨_, _, he⟩ | ⟨_, he⟩ | he | he | ⟨_, -, -, -, he⟩
  all_goals cases he

theorem timeOutcome_ne_orderUnknown {net : NetResult} (u : OrderUnknownError) :
    T.timeOutcome net ≠ .error (.orderUnknownError u) := by
  intro h
  unfold timeOutcome at h
  cases hout : T.outcome timeCall net with
  | error e =>
    rw [hout] at h
    obtain rfl := Except.error.inj h
    exact outcome_ne_orderUnknown u rfl hout
  | ok j =>
    rw [hout] at h
    have hdecode := ServerTime.raisesDecodeErrors T.pydantic j _ h
    cases hdecode

theorem IsResult.ne_orderUnknown {x : Exchange} {r : Except Exc Json} (u : OrderUnknownError)
    (h : T.IsResult call x r) (hbare : call.envelope = false) :
    r ≠ .error (.orderUnknownError u) := by
  rintro rfl
  rcases h with ⟨-, hr⟩ | ⟨-, e, he, hr⟩
  · exact outcome_ne_orderUnknown u hbare hr.symm
  · obtain rfl := Except.error.inj hr
    exact timeOutcome_ne_orderUnknown u he

theorem Ends.ne_orderUnknown {x : Exchange} {n : ℕ} {r : Except Exc Json} (u : OrderUnknownError)
    (h : T.Ends call x n r) (hbare : call.envelope = false) :
    r ≠ .error (.orderUnknownError u) := by
  rintro rfl
  cases h with
  | error he _ =>
    unfold error? at he
    split at he
    · exact outcome_ne_orderUnknown u hbare (errorOf_eq_some_iff.1 he)
    · exact timeOutcome_ne_orderUnknown u (errorOf_eq_some_iff.1 he)

end Transport

namespace OrdersClient

variable {C : OrdersClient} {s s' : TimeSync} {tr : List Ev} {args : CreateOrderArgs}

theorem orderOf_ne_orderUnknown {r : Except Exc Json} {u : OrderUnknownError}
    (h : r ≠ .error (.orderUnknownError u)) : C.orderOf r ≠ .error (.orderUnknownError u) := by
  intro heq
  cases r with
  | error e =>
    obtain rfl := Except.error.inj heq
    exact h rfl
  | ok j =>
    have hdecode := Order.raisesDecodeErrors C.transport.pydantic j _ heq
    cases hdecode

/-! ## The ids of a run -/

/-- The id that a POST of the order carries. -/
theorem newClientOrderId_of_post {order : OrderRequest} {x : Exchange}
    (hsign : C.transport.canSign = true) (h : C.transport.Origin (postCall order) x)
    (hpost : x.1.isOrderPost = true) :
    Dict.get? x.1.params "newClientOrderId" = order.newClientOrderId.map ParamValue.str := by
  cases h with
  | time _ hx =>
    rw [hx] at hpost
    cases hpost
  | own s clock hx =>
    rw [hx]
    show Dict.get? (C.transport.paramsAt (postCall order) s clock) _ = _
    rw [Transport.get?_paramsAt (fun _ => Transport.signer_of_canSign hsign) (by decide) (by decide)
      (by decide)]
    show Option.map _ (Dict.get? order.params _) = _
    rw [order.get?_params_newClientOrderId]
    cases order.newClientOrderId <;> rfl

/-- The id that the reconciliation query asks for. -/
theorem origClientOrderId_of_query {q : QueryOrderRequest} {x : Exchange}
    (hsign : C.transport.canSign = true) (h : C.transport.Origin (queryCall q) x)
    (hquery : x.1.isOrderQuery = true) :
    Dict.get? x.1.params "origClientOrderId" = q.origClientOrderId.map ParamValue.str := by
  cases h with
  | time _ hx =>
    rw [hx] at hquery
    cases hquery
  | own s clock hx =>
    rw [hx]
    show Dict.get? (C.transport.paramsAt (queryCall q) s clock) _ = _
    rw [Transport.get?_paramsAt (fun _ => Transport.signer_of_canSign hsign) (by decide) (by decide)
      (by decide)]
    show Option.map _ (Dict.get? q.params _) = _
    rw [q.get?_params_origClientOrderId]
    cases q.origClientOrderId <;> rfl

/-- The ids in a run: `sent` in its POSTs, `asked` in its queries, `reported` in its error. -/
structure IdsAre (l : List Exchange) (r : Except Exc Order) (sent asked reported : String) :
    Prop where
  posts : ∀ x ∈ l, x.1.isOrderPost = true →
    Dict.get? x.1.params "newClientOrderId" = some (.str sent)
  queries : ∀ x ∈ l, x.1.isOrderQuery = true →
    Dict.get? x.1.params "origClientOrderId" = some (.str asked)
  error : ∀ u, r = .error (.orderUnknownError u) → u.clientOrderId = some reported

theorem Placed.ids {l : List Exchange} {n : ℕ} {r : Except Exc Order}
    (h : C.Placed args s tr l n r) (hl : l ≠ []) :
    ∃ order₀ id, args.resolveRequest = .ok order₀ ∧ Chosen order₀ tr id ∧
      IdsAre l r (order₀.newClientOrderId.getD id) (strip isSpace id) id := by
  cases h with
  | refused => exact absurd rfl hl
  | @posted order id _ raw s₁ hprep hatt hknown =>
    obtain ⟨hsign, order₀, hres, hchosen, -, hid⟩ := hprep
    obtain ⟨-, l₀, x, -, hx⟩ := hatt.ends fun _ => Transport.signer_of_canSign hsign
    refine ⟨order₀, id, hres, hchosen, fun y hy hpost => ?_, fun y hy hquery => ?_, fun u hu => ?_⟩
    · rw [newClientOrderId_of_post hsign (hatt.origin hy) hpost, hid]
      rfl
    · rw [isOrderQuery_of_post (hatt.origin hy)] at hquery
      cases hquery
    · exact absurd hu (orderOf_ne_orderUnknown (hx.ne_orderUnknown u rfl))
  | @reconciled order id lp lq e raw s₁ s₂ _ hprep hatt hunknown hretried =>
    obtain ⟨hsign, order₀, hres, hchosen, -, hid⟩ := hprep
    obtain ⟨-, l₀, x, -, hends⟩ := hretried.ends fun _ => Transport.signer_of_canSign hsign
    refine ⟨order₀, id, hres, hchosen, fun y hy hpost => ?_, fun y hy hquery => ?_, fun u hu => ?_⟩
    · rcases List.mem_append.1 hy with hy | hy
      · rw [newClientOrderId_of_post hsign (hatt.origin hy) hpost, hid]
        rfl
      · rw [isOrderPost_of_query (hretried.origin hy)] at hpost
        cases hpost
    · rcases List.mem_append.1 hy with hy | hy
      · rw [isOrderQuery_of_post (hatt.origin hy)] at hquery
        cases hquery
      · rw [origClientOrderId_of_query hsign (hretried.origin hy) hquery]
        rfl
    · cases hord : C.orderOf raw with
      | ok o =>
        rw [hord] at hu
        cases hu
      | error e' =>
        rw [hord] at hu
        cases e' with
        | api a =>
          obtain rfl := Exc.orderUnknownError.inj (Except.error.inj hu)
          unfold unknownError
          split <;> rfl
        | orderUnknownError u' =>
          exact absurd hord (orderOf_ne_orderUnknown (hends.ne_orderUnknown u' rfl))
        | _ => cases hu

/-- The id sent, the id asked for and the id reported are one non-empty string. -/
def OneId (l : List Exchange) (r : Except Exc Order) : Prop := ∃ id, id ≠ "" ∧ IdsAre l r id id id

/-- What the callers of `create_order` promise of ids: the request went through its model, and what
the factory mints is well formed. -/
structure IdsPromised (args : CreateOrderArgs) (tr : List Ev) : Prop where
  accepted : ∀ r, args.request = some r → r.Accepted
  minted : ∀ id, ⟨.mintId, id⟩ ∈ tr → WellFormedId id

/-- The default factory keeps its part of the promise. -/
theorem idsPromised_of_default (hargs : ∀ r, args.request = some r → r.Accepted)
    (hmint : ∀ id, ⟨.mintId, id⟩ ∈ tr → ∃ nowMs token, (∀ c ∈ token.toList, c.isAlphanum = true) ∧
      id = mintClientOrderId defaultPrefix nowMs token) : IdsPromised args tr where
  accepted := hargs
  minted id hid := by
    obtain ⟨nowMs, token, htoken, rfl⟩ := hmint id hid
    exact wellFormed_mintClientOrderId nowMs htoken

/-- The chosen id is not empty and survives the query model. -/
theorem Chosen.asked_eq {order : OrderRequest} {id : String} (h : Chosen order tr id)
    (horder : order.Accepted) (hmint : ∀ id, ⟨.mintId, id⟩ ∈ tr → WellFormedId id) :
    id ≠ "" ∧ strip isSpace id = id := by
  cases h with
  | given hid hne => exact ⟨hne, horder.strip_eq hid⟩
  | minted _ hmem => exact ⟨(hmint id hmem).nonempty, (hmint id hmem).strip_eq⟩

/-- The id sent is the one chosen unless the order carries the empty id. -/
theorem Chosen.getD_eq_iff {order : OrderRequest} {id : String} (h : Chosen order tr id)
    (hne : id ≠ "") : order.newClientOrderId.getD id = id ↔ order.newClientOrderId ≠ some "" := by
  cases h with
  | given hid _ =>
    rw [hid]
    exact iff_of_true rfl fun heq => hne (Option.some.inj heq)
  | minted hno _ =>
    rcases hno with hnone | hempty
    · rw [hnone]
      exact iff_of_true rfl (Option.some_ne_none _).symm
    · rw [hempty]
      exact iff_of_false (fun heq => hne heq.symm) (not_not_intro rfl)

/-- The ids of a run under what its caller promises. -/
theorem Placed.promisedIds {l : List Exchange} {n : ℕ} {order : OrderRequest}
    {r : Except Exc Order} (h : C.Placed args s tr l n r) (hl : l ≠ []) (hargs : IdsPromised args tr)
    (hres : args.resolveRequest = .ok order) :
    ∃ id, id ≠ "" ∧ IdsAre l r (order.newClientOrderId.getD id) id id ∧
      (order.newClientOrderId.getD id = id ↔ order.newClientOrderId ≠ some "") := by
  obtain ⟨order₀, id, hres₀, hchosen, hids⟩ := h.ids hl
  obtain rfl := Except.ok.inj (hres.symm.trans hres₀)
  obtain ⟨hne, hstrip⟩ := hchosen.asked_eq
    (CreateOrderArgs.resolveRequest_accepted hargs.accepted hres) hargs.minted
  rw [hstrip] at hids
  exact ⟨id, hne, hids, hchosen.getD_eq_iff hne⟩

theorem wellFormed_minted : WellFormedId "minted-1" := by
  have hall : "minted-1".toList.all (fun c => decide (IdChar c)) = true := by decide
  exact ⟨by decide, by decide, fun c hc => of_decide_eq_true (List.all_eq_true.1 hall c hc)⟩

/-- The ids of any run that sends something; one that the limiter ends reports none. -/
theorem createOrder_promisedIds {order : OrderRequest} {r : Except Exc Order}
    (h : Runs (C.createOrder args) s tr r s') (hne : sends tr ≠ []) (hargs : IdsPromised args tr)
    (hres : args.resolveRequest = .ok order) :
    ∃ id, id ≠ "" ∧ IdsAre (sends tr) r (order.newClientOrderId.getD id) id id ∧
      (order.newClientOrderId.getD id = id ↔ order.newClientOrderId ≠ some "") := by
  rcases (interruptible_createOrder args).cases h with hsmooth | ⟨e, rfl, -⟩
  · exact (runs_createOrder hsmooth h).promisedIds hne hargs hres
  · obtain ⟨tr', r', s'', hrun, hsmooth, hinitial, -, hevents⟩ :=
      (interruptible_createOrder args).completion h
    have hpromised : IdsPromised args tr' := by
      refine ⟨hargs.accepted, fun id hid => ?_⟩
      rcases hevents _ hid rfl with hmem | ⟨past, hscripted⟩
      · exact hargs.minted id hmem
      · obtain rfl : id = "minted-1" := hscripted
        exact wellFormed_minted
    have hne' : sends tr' ≠ [] := fun hnil => hne (List.prefix_nil.1 (hnil ▸ hinitial))
    obtain ⟨id, hid, hids, hsent⟩ := (runs_createOrder hsmooth hrun).promisedIds hne' hpromised hres
    refine ⟨id, hid, ⟨fun x hx => hids.posts x (hinitial.subset hx),
      fun x hx => hids.queries x (hinitial.subset hx), fun u hu => ?_⟩, hsent⟩
    cases e <;> cases hu

/-- **The reconciliation id is the sent id** in a run that sends a POST exactly when the resolved
request's id is not the empty string. -/
theorem createOrder_oneId_iff (C : OrdersClient) (args : CreateOrderArgs) {order : OrderRequest}
    {r : Except Exc Order} (h : Runs (C.createOrder args) s tr r s')
    (hargs : IdsPromised args tr) (hres : args.resolveRequest = .ok order)
    (hpost : ∃ x ∈ sends tr, x.1.isOrderPost = true) :
    OneId (sends tr) r ↔ order.newClientOrderId ≠ some "" := by
  obtain ⟨x, hx, hpost⟩ := hpost
  obtain ⟨id, hne, hids, hsent⟩ := createOrder_promisedIds h (List.ne_nil_of_mem hx) hargs hres
  constructor
  · rintro ⟨id', hne', hids'⟩ hempty
    have hsame := (hids.posts x hx hpost).symm.trans (hids'.posts x hx hpost)
    rw [hempty] at hsame
    exact hne' (ParamValue.str.inj (Option.some.inj hsame)).symm
  · intro hnot
    rw [hsent.2 hnot] at hids
    exact ⟨id, hne, hids⟩

theorem scripted_mintId {replies : List NetResult} {id : String} :
    ∀ {past tr : List Ev}, Answers (scripted replies) past tr → ⟨.mintId, id⟩ ∈ tr →
      id = "minted-1" := by
  intro past tr
  induction tr generalizing past with
  | nil => exact fun _ h => nomatch h
  | cons e tr ih =>
    rintro ⟨hanswer, htr⟩ hmem
    rcases List.mem_cons.1 hmem with rfl | hmem
    · exact hanswer
    · exact ih htr hmem

theorem sample_idsPromised (newClientOrderId : Option String) (replies : List NetResult) :
    IdsPromised (sampleArgs newClientOrderId) (sampleRun newClientOrderId replies).1 where
  accepted r h := by cases h
  minted id h := by
    obtain rfl := scripted_mintId (Comp.runs_play _ _ _).2 h
    exact wellFormed_minted

/-- An order without an id of the caller is sent, asked for and reported under the minted one. -/
theorem createOrder_oneId_minted :
    OneId (sends (sampleRun none [unavailable, notFound]).1)
      (sampleRun none [unavailable, notFound]).2.1 :=
  (createOrder_oneId_iff sampleOrders (sampleArgs none)
    (runs_sampleRun none [unavailable, notFound])
    (sample_idsPromised none [unavailable, notFound]) rfl
    ⟨(sends (sampleRun none [unavailable, notFound]).1)[0], List.getElem_mem _, rfl⟩).2 (by decide)

/-- An empty id of the caller is sent as it is, and asked for and reported as the minted one. -/
theorem createOrder_emptyId :
    Runs (sampleOrders.createOrder (sampleArgs (some ""))) ⟨0, true⟩
      (sampleRun (some "") [unavailable, notFound]).1
      (sampleRun (some "") [unavailable, notFound]).2.1
      (sampleRun (some "") [unavailable, notFound]).2.2 ∧
    ¬ OneId (sends (sampleRun (some "") [unavailable, notFound]).1)
      (sampleRun (some "") [unavailable, notFound]).2.1 := by
  refine ⟨runs_sampleRun _ _, ?_⟩
  rintro ⟨id, hne, hids⟩
  have hsent := hids.posts (sends (sampleRun (some "") [unavailable, notFound]).1)[0]
    (List.getElem_mem _) rfl
  have hempty : some (ParamValue.str "") = some (ParamValue.str id) := hsent
  exact hne (ParamValue.str.inj (Option.some.inj hempty)).symm

end OrdersClient

end BinanceTh
