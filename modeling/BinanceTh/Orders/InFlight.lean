import BinanceTh.Orders.Reconcile
import Mathlib.Logic.Relation

/-!
# Orders in flight

The exchange on the other side of the wire: the orders it holds, the POSTs that are still on their
way to it, and its clock. A POST that failed on the client's side is on its way until it is placed,
which its `recvWindow` bounds, or lost; a query is answered -2013 when no order has the id it asks
for. The query can overtake the POST, so that `resubmittable=True` is sound exactly when no POST of
the call is on its way with its window open at the moment the query is processed
(`createOrder_resubmittable_iff`).
-/

namespace BinanceTh

open Interaction

namespace HttpRequest

def intParam (request : HttpRequest) (key : String) : Option ℤ :=
  (Dict.get? request.params key).bind fun v => parseInt v.toStr

/-- The window of a signed request is still open at `now`. -/
def Live (request : HttpRequest) (now : ℤ) : Prop :=
  ∃ timestamp window, request.intParam "timestamp" = some timestamp ∧
    request.intParam "recvWindow" = some window ∧ now ≤ timestamp + window

theorem Live.earlier {request : HttpRequest} {now now' : ℤ} (h : request.Live now')
    (hle : now ≤ now') : request.Live now := by
  obtain ⟨timestamp, window, htimestamp, hwindow, hnow⟩ := h
  exact ⟨timestamp, window, htimestamp, hwindow, hle.trans hnow⟩

/-- The order that the POST asks to place has the id that the query asks for. -/
def Answers (post query : HttpRequest) : Prop :=
  Dict.get? post.params "newClientOrderId" = Dict.get? query.params "origClientOrderId"

end HttpRequest

/-- The send failed on the client's side: what the exchange did with it is not known. -/
def NetResult.isFailure : NetResult → Bool
  | .timeout _ => true
  | .httpError _ => true
  | .response reply => 500 ≤ reply.status

/-- The reply says that the order does not exist. -/
def NetResult.isNotFound : NetResult → Bool
  | .response reply => 400 ≤ reply.status && reply.code = some orderNotFoundCode
  | _ => false

/-- The reply is one to a request that was carried out. -/
def NetResult.isSuccess : NetResult → Bool
  | .response reply => reply.status < 400
  | _ => false

/-- The exchange and the network before it. An order is the POST it was placed by. -/
structure World where
  now : ℤ
  orders : List HttpRequest
  inFlight : List HttpRequest

namespace World

/-- What happens on its own: time passes, a POST within its window is placed, a POST is refused or
lost. -/
inductive Step (w : World) : World → Prop
  | tick {t : ℤ} : w.now ≤ t → Step w { w with now := t }
  | place {l₁ l₂ : List HttpRequest} {p : HttpRequest} : w.inFlight = l₁ ++ p :: l₂ →
      p.Live w.now → Step w { w with orders := p :: w.orders, inFlight := l₁ ++ l₂ }
  | drop {l₁ l₂ : List HttpRequest} {p : HttpRequest} : w.inFlight = l₁ ++ p :: l₂ →
      Step w { w with inFlight := l₁ ++ l₂ }

def Evolves : World → World → Prop := Relation.ReflTransGen Step

/-- How the exchange answers a request. -/
inductive Replies (w : World) (request : HttpRequest) (net : NetResult) : World → Prop
  /-- A POST without a definite answer is on its way. -/
  | sent {w' : World} : request.isOrderPost = true → net.isFailure = true →
      Evolves { w with inFlight := request :: w.inFlight } w' → Replies w request net w'
  | placed {w' : World} : request.isOrderPost = true → net.isSuccess = true → Evolves w w' →
      request.Live w'.now → Replies w request net { w' with orders := request :: w'.orders }
  | refused {w' : World} : request.isOrderPost = true → net.isFailure = false →
      net.isSuccess = false → Evolves w w' → Replies w request net w'
  /-- A query is processed at some moment between its send and its answer. -/
  | queried {w' : World} : request.isOrderQuery = true → Evolves w w' →
      (net.isNotFound = true → ∀ p ∈ w'.orders, ¬ p.Answers request) →
      (net.isSuccess = true → ∃ p ∈ w'.orders, p.Answers request) → Replies w request net w'
  /-- No other request is answered as a query is. -/
  | other {w' : World} : request.isOrderPost = false → request.isOrderQuery = false →
      net.isNotFound = false → Evolves w w' → Replies w request net w'

/-- The exchange moves between the operations of the client, and answers its requests. -/
def Answers (w : World) : (op : Op) → Ans op → World → Prop
  | .send request, net, w' => Replies w request net w'
  | _, _, w' => Evolves w w'

/-! ## Out of the way -/

/-- No POST of `K` is an order, and none can become one any more. -/
def Settled (K : HttpRequest → Prop) (w : World) : Prop :=
  ∀ p, K p → p ∉ w.orders ∧ (p ∈ w.inFlight → ¬ p.Live w.now)

variable {K : HttpRequest → Prop} {w w' : World}

theorem Settled.step (h : Settled K w) (hstep : Step w w') : Settled K w' := by
  intro p hp
  obtain ⟨horders, hflight⟩ := h p hp
  cases hstep with
  | tick hle => exact ⟨horders, fun hmem hlive => hflight hmem (hlive.earlier hle)⟩
  | @place l₁ l₂ q hsplit hlive =>
    have hmem {x : HttpRequest} (hx : x ∈ l₁ ++ l₂) : x ∈ w.inFlight := by
      rw [hsplit]
      rcases List.mem_append.1 hx with hx | hx
      · exact List.mem_append_left _ hx
      · exact List.mem_append_right _ (List.mem_cons_of_mem _ hx)
    refine ⟨fun hplaced => ?_, fun hx => hflight (hmem hx)⟩
    rcases List.mem_cons.1 hplaced with rfl | hplaced
    · have hin : p ∈ w.inFlight := by
        rw [hsplit]
        exact List.mem_append_right l₁ List.mem_cons_self
      exact hflight hin hlive
    · exact horders hplaced
  | @drop l₁ l₂ q hsplit =>
    refine ⟨horders, fun hx => hflight ?_⟩
    rw [hsplit]
    rcases List.mem_append.1 hx with hx | hx
    · exact List.mem_append_left _ hx
    · exact List.mem_append_right _ (List.mem_cons_of_mem _ hx)

theorem Settled.evolves (h : Settled K w) (hw : Evolves w w') : Settled K w' := by
  induction hw with
  | refl => exact h
  | tail _ hstep ih => exact ih.step hstep

/-- While the client sends nothing, the exchange only moves on its own. -/
theorem Settled.silent {tr : List Ev} (h : Settled K w) (hsilent : sends tr = [])
    (hw : Admits Answers w tr w') : Settled K w' := by
  refine hw.invariant (fun e he w w' hsettled hanswer => ?_) h
  obtain ⟨op, x⟩ := e
  cases op with
  | send request =>
    have hmem : (request, x) ∈ sends tr := List.mem_filterMap.2 ⟨_, he, rfl⟩
    rw [hsilent] at hmem
    cases hmem
  | _ => exact hsettled.evolves hanswer

theorem admits_of_silent {tr : List Ev} (w : World) (h : sends tr = []) :
    Admits Answers w tr w := by
  induction tr with
  | nil => exact .nil w
  | cons e tr ih =>
    obtain ⟨op, x⟩ := e
    cases op with
    | send request => cases h
    | _ => exact .cons .refl (ih h)

end World

namespace OrdersClient

variable {C : OrdersClient} {s s' : TimeSync} {tr tr₁ tr₂ : List Ev} {args : CreateOrderArgs}
  {u : OrderUnknownError} {w₁ w₂ : World}

theorem orderOf_api {r : Except Exc Json} {a : APIError} (h : C.orderOf r = .error (.api a)) :
    r = .error (.api a) := by
  cases r with
  | error e =>
    obtain rfl := Except.error.inj h
    rfl
  | ok j =>
    have hdecode := Order.raisesDecodeErrors C.transport.pydantic j _ h
    cases hdecode

theorem reconcileResult_orderUnknown {symbol id : String} {r : Except Exc Order}
    (h : reconcileResult symbol id r = .error (.orderUnknownError u)) :
    r = .error (.orderUnknownError u) ∨ ∃ a, r = .error (.api a) ∧ u = unknownError symbol id a := by
  unfold reconcileResult at h
  split at h
  · next a => exact .inr ⟨a, rfl, (Exc.orderUnknownError.inj (Except.error.inj h)).symm⟩
  · exact .inl h

/-- An order counts as resubmittable on account of the last exchange of its run, which is no POST
and was answered with -2013. -/
theorem Placed.last_of_resubmittable {l : List Exchange} {x : Exchange} {n : ℕ}
    (h : C.Placed args s tr (l ++ [x]) n (.error (.orderUnknownError u)))
    (hu : u.resubmittable = true) : x.2.isNotFound = true ∧ x.1.isOrderPost = false := by
  generalize hl : l ++ [x] = l' at h
  generalize hr : (Except.error (Exc.orderUnknownError u) : Except Exc Order) = r at h
  cases h with
  | refused => cases l <;> cases hl
  | @posted order id _ raw s₁ hprep hatt hknown =>
    obtain ⟨-, l₀, y, -, hy⟩ := hatt.ends fun _ => Transport.signer_of_canSign hprep.canSign
    exact absurd hr.symm (orderOf_ne_orderUnknown (hy.ne_orderUnknown u rfl))
  | @reconciled order id lp lq e raw s₁ s₂ _ hprep hatt hunknown hretried =>
    obtain ⟨-, l₀, y, rfl, hends⟩ :=
      hretried.ends fun _ => Transport.signer_of_canSign hprep.canSign
    rw [← List.append_assoc] at hl
    obtain rfl := List.singleton_inj.1 (List.append_inj' hl rfl).2
    have hquery := isOrderPost_of_query (hretried.origin
      (List.mem_append_right l₀ (List.mem_singleton_self x)))
    rcases reconcileResult_orderUnknown hr.symm with hord | ⟨a, hord, rfl⟩
    · exact absurd hord (orderOf_ne_orderUnknown (hends.ne_orderUnknown u rfl))
    · obtain rfl := orderOf_api hord
      cases hends with
      | error herror _ =>
        obtain ⟨reply, hx, hle, -, rfl⟩ := (Transport.error?_eq_api_iff rfl).1 herror
        rw [resubmittable_unknownError, Response.apiError_code, decide_eq_true_eq] at hu
        refine ⟨?_, hquery⟩
        rw [hx, NetResult.isNotFound, hu]
        simp [hle]

/-- The POSTs of a run. -/
def IsPost (tr : List Ev) (p : HttpRequest) : Prop :=
  ∃ net, (p, net) ∈ sends tr ∧ p.isOrderPost = true

/-- From the world `w` on, in which the client has the events `tr₂` of its run `tr` before it, no
POST of the run is ever an order. -/
def NeverPlaced (tr tr₂ : List Ev) (w : World) : Prop :=
  ∀ w' w'', Admits World.Answers w tr₂ w' → World.Evolves w' w'' →
    ∀ p, IsPost tr p → p ∉ w''.orders

/-- Nothing more is sent, so that the state of the exchange decides. -/
theorem neverPlaced_iff (hlast : sends tr₂ = []) :
    NeverPlaced tr tr₂ w₂ ↔ World.Settled (IsPost tr) w₂ := by
  constructor
  · intro h p hp
    have hstay := World.admits_of_silent w₂ hlast
    refine ⟨h w₂ w₂ hstay .refl p hp, fun hmem hlive => ?_⟩
    obtain ⟨l₁, l₂, hsplit⟩ := List.append_of_mem hmem
    have hplace := h w₂ _ hstay (.single (.place hsplit hlive)) p hp
    exact hplace List.mem_cons_self
  · intro h w' w'' hadm hevolves p hp
    exact (((h.silent hlast hadm).evolves hevolves) p hp).1

/-- **`resubmittable=True` is sound exactly** when at the moment its query is processed no POST of
the call is on its way with its window open, and the query asks for the id that the order was sent
under, or none of them has been placed already. -/
theorem createOrder_resubmittable_iff (C : OrdersClient) (args : CreateOrderArgs)
    {order : OrderRequest} {query : HttpRequest} {net : NetResult}
    (h : Runs (C.createOrder args) s tr (.error (.orderUnknownError u)) s')
    (hu : u.resubmittable = true) (hargs : IdsPromised args tr)
    (hres : args.resolveRequest = .ok order) (htr : tr = tr₁ ++ ⟨.send query, net⟩ :: tr₂)
    (hlast : sends tr₂ = []) (hquery : World.Answers w₁ (.send query) net w₂) :
    NeverPlaced tr tr₂ w₂ ↔
      (order.newClientOrderId ≠ some "" ∨ ∀ p, IsPost tr p → p ∉ w₂.orders) ∧
        ∀ p, IsPost tr p → p ∈ w₂.inFlight → ¬ p.Live w₂.now := by
  have hsends : sends tr = sends tr₁ ++ [(query, net)] := by
    rw [htr, sends_append]
    congr 1
    show (query, net) :: sends tr₂ = _
    rw [hlast]
  have hsmooth : Smooth tr := by
    rcases (interruptible_createOrder args).cases h with hsmooth | ⟨e, he, -⟩
    · exact hsmooth
    · cases e <;> cases he
  have hplaced := runs_createOrder hsmooth h
  obtain ⟨id, hne, hids, hsent⟩ := hplaced.promisedIds
    (by rw [hsends]; exact List.concat_ne_nil _ _) hargs hres
  have hmem : (query, net) ∈ sends tr := by
    rw [hsends]
    exact List.mem_append_right _ (List.mem_singleton_self _)
  rw [hsends] at hplaced
  obtain ⟨hnotFound, hnoPost⟩ := hplaced.last_of_resubmittable hu
  rw [neverPlaced_iff hlast]
  constructor
  · intro hsettled
    exact ⟨.inr fun p hp => (hsettled p hp).1, fun p hp => (hsettled p hp).2⟩
  · rintro ⟨hid, hflight⟩ p hp
    refine ⟨?_, hflight p hp⟩
    rcases hid with hnot | hnone
    · obtain ⟨net', hp, hpost⟩ := hp
      cases hquery with
      | sent hyes => 
        rw [hnoPost] at hyes
        cases hyes
      | placed hyes =>
        rw [hnoPost] at hyes
        cases hyes
      | refused hyes =>
        rw [hnoPost] at hyes
        cases hyes
      | other _ _ hno =>
        rw [hnotFound] at hno
        cases hno
      | queried hisQuery _ hnone =>
        refine fun horder => hnone hnotFound p horder ?_
        have hposted := hids.posts _ hp hpost
        rw [hsent.2 hnot] at hposted
        exact hposted.trans (hids.queries _ hmem hisQuery).symm
    · exact hnone p hp

/-- The sample order, whose POST is answered with a 503 and whose query with -2013. -/
def notFoundRun : List Ev := (sampleRun none [unavailable, notFound]).1

/-- A POST that was lost before the query is never placed. -/
theorem createOrder_resubmittable_lost :
    ∃ w, Admits World.Answers ⟨0, [], []⟩ (notFoundRun.take 7) w ∧
      NeverPlaced notFoundRun (notFoundRun.drop 8) w := by
  have hadm : Admits World.Answers ⟨0, [], []⟩ (notFoundRun.take 7) ⟨0, [], []⟩ := by
    have hlost : World.Evolves ⟨0, [], [(sends notFoundRun)[0].1]⟩ ⟨0, [], []⟩ :=
      .single (.drop (show _ = [] ++ (sends notFoundRun)[0].1 :: [] from rfl))
    exact .cons .refl (.cons .refl (.cons .refl (.cons (.sent rfl rfl hlost)
      (.cons .refl (.cons .refl (.cons .refl (.nil _)))))))
  have hquery : World.Answers ⟨0, [], []⟩ (.send (sends notFoundRun)[1].1) notFound ⟨0, [], []⟩ :=
    .queried rfl .refl nofun nofun
  have htr : notFoundRun = notFoundRun.take 7 ++
      ⟨.send (sends notFoundRun)[1].1, notFound⟩ :: notFoundRun.drop 8 := rfl
  exact ⟨_, hadm, (createOrder_resubmittable_iff sampleOrders (sampleArgs none)
    (runs_sampleRun none [unavailable, notFound]) rfl
    (sample_idsPromised none [unavailable, notFound]) rfl htr rfl hquery).2
      ⟨.inl (by decide), nofun⟩⟩

/-- The query overtakes the POST: the order counts as not placed, and is placed afterwards. -/
theorem createOrder_resubmittable_overtaken :
    (∃ u, Runs (sampleOrders.createOrder (sampleArgs none)) ⟨0, true⟩ notFoundRun
      (.error (.orderUnknownError u)) ⟨0, true⟩ ∧ u.resubmittable = true) ∧
    ∃ w w' p, Admits World.Answers ⟨0, [], []⟩ notFoundRun w ∧ World.Evolves w w' ∧
      IsPost notFoundRun p ∧ p ∈ w'.orders := by
  refine ⟨⟨_, runs_sampleRun none [unavailable, notFound], rfl⟩, ?_⟩
  let p := (sends notFoundRun)[0].1
  have hlive : p.Live 0 := ⟨0, 5000, by decide, by decide, by decide⟩
  have hadm : Admits World.Answers ⟨0, [], []⟩ notFoundRun ⟨0, [], [p]⟩ :=
    .cons .refl (.cons .refl (.cons .refl (.cons (.sent rfl rfl .refl) (.cons .refl (.cons .refl
      (.cons .refl (.cons (.queried rfl .refl nofun nofun) (.cons .refl (.nil _)))))))))
  have hplaced : World.Evolves ⟨0, [], [p]⟩ ⟨0, [p], []⟩ :=
    .single (.place (show _ = [] ++ p :: [] from rfl) hlive)
  exact ⟨_, _, p, hadm, hplaced, ⟨unavailable, List.mem_cons_self, rfl⟩, List.mem_cons_self⟩

end OrdersClient

end BinanceTh
