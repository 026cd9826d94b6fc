import BinanceTh.Transport.Ending

/-!
# Retry-After

A reply with status 429 or 418 ends its attempt with the exception that it stands for. The retry
loop sleeps for the exception's `retry_after` before the next attempt, and the last attempt's
exception is the caller's. But the body is read before the status: with a code of its own, or too
deep to be scanned, it stands for another exception, which has no `retry_after`
(`request_honours_iff`).
-/

namespace BinanceTh

open Interaction

/-- The class of the exception for a rate limit or an IP ban. -/
def limitClass (status : ℕ) : APIErrorClass :=
  if status = 429 then .rateLimitError else .ipBannedError

/-- The reply is a 429 or a 418 with an integer `Retry-After`. -/
structure Limited (reply : Response) (r : ℤ) : Prop where
  status : reply.status = 429 ∨ reply.status = 418
  retryAfter : intOrNone (header reply.headers retryAfterHeader) = some r

/-- The body can be scanned and has no code that counts. -/
def Response.Clear (reply : Response) : Prop :=
  reply.body ≠ .tooDeep ∧ (reply.code = none ∨ reply.code = some 0)

/-- The exception of a reply, or what the limiter raises at its headers. -/
def Response.raised (reply : Response) : Except LimiterError Unit → Exc
  | .ok _ => .api reply.apiError
  | .error e => e.exc

namespace Limited

variable {reply : Response} {r : ℤ}

theorem le_status (h : Limited reply r) : 400 ≤ reply.status := by
  rcases h.status with hs | hs <;> omega

/-- Without a code of its own the reply stands for the exception of its status. -/
theorem apiError_cls (h : Limited reply r) (hclear : reply.Clear) :
    reply.apiError.cls = limitClass reply.status := by
  rw [Response.apiError_cls]
  rcases h.status with hs | hs <;> rcases hclear.2 with hcode | hcode <;> rw [hs, hcode] <;> decide

theorem apiError_retryAfter (h : Limited reply r) (hclear : reply.Clear) :
    reply.apiError.retryAfter = some r := by
  have hcls := h.apiError_cls hclear
  have hattr : reply.apiError.retryAfter =
      if reply.apiError.cls = .rateLimitError ∨ reply.apiError.cls = .ipBannedError then
        intOrNone (header reply.headers retryAfterHeader) else none := rfl
  rw [hattr, hcls, if_pos, h.retryAfter]
  unfold limitClass
  split
  · exact .inl rfl
  · exact .inr rfl

/-- Such a class comes from the status, not from a code. -/
theorem clear_of_cls (hbody : reply.body ≠ .tooDeep)
    (hcls : reply.apiError.cls = limitClass reply.status) : reply.Clear := by
  refine ⟨hbody, ?_⟩
  rw [Response.apiError_cls] at hcls
  cases hcode : reply.code with
  | none => exact .inl rfl
  | some c =>
    right
    by_contra hne
    have hc : c ≠ 0 := fun hc => hne (by rw [hc])
    rw [hcode] at hcls
    unfold mapException limitClass at hcls
    simp only [hc, ne_eq, not_false_eq_true, if_true] at hcls
    rcases exceptionForEnvelopeCode_cases c with h | h | h <;> rw [h] at hcls <;> split at hcls <;>
      cases hcls

end Limited

namespace Transport

variable {T : Transport} {call : Call} {s s' : TimeSync} {reply : Response} {r : ℤ}

/-- The call is sent again: a retry is left, its delay can be computed, and the limiter raises
nothing before the send. -/
def Resends (T : Transport) (r : ℤ) (before after : List Ev) : Prop :=
  sleeps before < T.retryer.retries T.config.maxRetries ∧ overflows r = false ∧
    Smooth (untilSend after)

/-- What a reply that asks to wait for `r` seconds leads to: `before` and `after` it are the events
of the request's run, which ends with `out`. -/
structure HonoursRetryAfter (T : Transport) (reply : Response) (r : ℤ) (before after : List Ev)
    (out : Except Exc Json) (e : APIError) : Prop where
  raised : ∃ update rest, after = ⟨.updateFromHeaders reply.headers, update⟩ :: rest ∧
    ∀ call, T.delivered call (.sent (.response reply) update) = .error (.api e)
  cls : e.cls = limitClass reply.status
  retryAfter : e.retryAfter = some r
  waits : ∀ mid request net rest, after = mid ++ ⟨.send request, net⟩ :: rest →
    ∃ d : ℚ, (r : ℚ) ≤ d ∧ ⟨.sleep d, ()⟩ ∈ mid
  /-- The sleep cannot be longer than the largest float. -/
  retries : T.Resends r before after → sends after ≠ []
  surfaces : sleeps before = T.retryer.retries T.config.maxRetries → out = .error (.api e)

/-! ## The attempt that is answered so -/

theorem outcome_of_limited (h : Limited reply r) (hclear : reply.Clear) (call : Call) :
    T.outcome call (.response reply) = .error (.api reply.apiError) :=
  outcome_of_le h.le_status hclear.1

theorem delivered_of_limited (h : Limited reply r) (hclear : reply.Clear)
    (update : Except LimiterError Unit) :
    T.delivered call (.sent (.response reply) update) = .error (reply.raised update) := by
  cases update with
  | ok u => exact outcome_of_limited h hclear call
  | error e => rfl

/-- The exception is no timestamp error. -/
theorem raised_not_timestampError (h : Limited reply r) (hclear : reply.Clear)
    (update : Except LimiterError Unit) : (reply.raised update).isTimestampError = false := by
  cases update with
  | error e => exact e.not_timestampError
  | ok u =>
    have hcls : reply.apiError.cls ≠ .authError := by
      rw [h.apiError_cls hclear, limitClass]
      split <;> decide
    simp [Response.raised, Exc.isTimestampError, hcls]

/-! ## The retry loop -/

theorem isRetryable_of_limited (h : Limited reply r) (hclear : reply.Clear) :
    isRetryable false (.api reply.apiError) = true := by
  have hcls := h.apiError_cls hclear
  rcases h.status with hs | hs <;> rw [hs] at hcls <;> simp [isRetryable, hcls, limitClass]

/-- The pause before the next attempt is the time that the exception asks for. -/
theorem delay_of_retryAfter {b : BackoffRetryer} {e : Exc} {k : ℕ} {d : ℚ} {tr : List Ev}
    (he : e.retryAfter? = some r) (h : Runs (b.delay e k) s tr (.ok d) s') : d = roundFloat r := by
  unfold BackoffRetryer.delay at h
  split at h
  · obtain ⟨-, herr, -⟩ := runs_throw_iff.1 h
    cases herr
  · rw [he] at h
    obtain ⟨-, hd, -⟩ := runs_pure_iff.1 h
    exact Except.ok.inj hd

/-- Of the events of an attempt, those after such a reply send nothing, and the attempt ends with
the exception. -/
theorem runs_attempt_limited (h : Limited reply r) (hclear : reply.Clear)
    (hsign : call.signed = true → T.signer.isSome = true) {tr before after : List Ev}
    {out : Except Exc Json} {request : HttpRequest} (hrun : Runs (T.attempt call) s tr out s')
    (htr : tr = before ++ ⟨.send request, .response reply⟩ :: after) :
    sends after = [] ∧ sleeps before = 0 ∧ sleeps after = 0 ∧
      ∃ update rest, after = ⟨.updateFromHeaders reply.headers, update⟩ :: rest ∧
        out = .error (reply.raised update) := by
  have hsleeps := sleeps_attempt hsign hrun
  have hends : EndsWith (fun _ => true) reply
      (fun update out => out = .error (reply.raised update)) (T.attempt call) := by
    refine endsWith_attempt (delivered_of_limited h hclear) (fun _ update => ?_) ?_
    · exact ⟨_, delivered_of_limited h hclear update, rfl⟩
    · rintro update e he
      rw [Except.error.inj he]
      exact raised_not_timestampError h hclear update
  obtain ⟨update, rest, hafter, hsends, hout⟩ := hends _ _ _ _ hrun _ _ _ rfl htr
  have hcons : sleeps (⟨.send request, .response reply⟩ :: after) = sleeps after := rfl
  rw [htr, sleeps_append, hcons] at hsleeps
  refine ⟨?_, by omega, by omega, update, rest, hafter, hout⟩
  rw [hafter]
  exact hsends

theorem not_mem_of_sleeps {tr : List Ev} (h : sleeps tr = 0) (d : ℚ) : ⟨.sleep d, ()⟩ ∉ tr := by
  intro hmem
  have hnil := List.eq_nil_of_length_eq_zero h
  exact List.not_mem_nil (hnil ▸ List.mem_filter.2 ⟨hmem, rfl⟩)

theorem sleeps_untilSend {tr : List Ev} (h : sleeps tr = 0) : sleeps (untilSend tr) = 0 :=
  Nat.le_zero.1 (h ▸ sleeps_sublist (untilSend_sublist tr))

/-- The first send after a pause comes after its sleep. -/
theorem split_after_pause {pause tr before after : List Ev} {d : ℚ} {request : HttpRequest}
    {net : NetResult} (hpause : sends pause = [])
    (h : pause ++ ⟨.sleep d, ()⟩ :: tr = before ++ ⟨.send request, net⟩ :: after) :
    ∃ before', before = pause ++ ⟨.sleep d, ()⟩ :: before' ∧
      tr = before' ++ ⟨.send request, net⟩ :: after := by
  rcases append_eq_split h with ⟨after₁, hsplit, -⟩ | ⟨before₂, hbefore, hsplit⟩
  · exact (not_send_of_sends_nil hpause hsplit).elim
  · cases before₂ with
    | nil =>
      obtain ⟨hev, -⟩ := List.cons.inj hsplit
      cases hev
    | cons ev before₂ =>
      obtain ⟨hev, htr⟩ := List.cons.inj hsplit
      subst hev
      exact ⟨before₂, hbefore, htr⟩

/-- Before its first send the loop does not sleep, and it sends something unless the limiter
prevents it. -/
theorem runFrom_untilSend (hsign : call.signed = true → T.signer.isSome = true)
    {b : BackoffRetryer} {left k : ℕ} {tr : List Ev} {out : Except Exc Json}
    (h : Runs (b.runFrom (T.attempt call) (isRetryable call.mutating) left k) s tr out s') :
    sleeps (untilSend tr) = 0 ∧ (Smooth (untilSend tr) → sends tr ≠ []) := by
  have hlone {s s' : TimeSync} {tr : List Ev} {out : Except Exc Json}
      (hatt : Runs (T.attempt call) s tr out s') :
      sleeps (untilSend tr) = 0 ∧ (Smooth (untilSend tr) → sends tr ≠ []) :=
    ⟨sleeps_untilSend (sleeps_attempt hsign hatt), sends_attempt hsign hatt⟩
  cases left with
  | zero => exact hlone h
  | succ left =>
    rcases runs_runFrom_succ h with ⟨hatt, -⟩ | ⟨e, tr₁, s₁, tr₂, rfl, hatt, hretry, -⟩
    · exact hlone hatt
    · -- an exception that is retried is none of the limiter
      have hsmooth : Smooth tr₁ := by
        rcases interruptible_attempt.cases hatt with hsmooth | ⟨e', he, -⟩
        · exact hsmooth
        · rw [Except.error.inj he, e'.not_retryable] at hretry
          cases hretry
      have hne := (runs_attempt hsign hsmooth hatt).1.ne_nil
      obtain ⟨request, net, rest, htr₁⟩ := exists_send hne
      have hsplit : tr₁ ++ tr₂ = untilSend tr₁ ++ ⟨.send request, net⟩ :: (rest ++ tr₂) := by
        conv_lhs => rw [htr₁]
        exact List.append_assoc _ _ _
      refine ⟨?_, fun _ => ?_⟩
      · have hle := sleeps_sublist (untilSend_isPrefix hsplit).sublist
        exact Nat.le_zero.1 (hle.trans_eq (hlone hatt).1)
      · rw [sends_append]
        exact List.append_ne_nil_of_left_ne_nil hne _

/-- What `HonoursRetryAfter` says of the events after the reply, with `left` retries in all. -/
structure Waits (reply : Response) (r : ℤ) (left : ℕ) (before after : List Ev)
    (out : Except Exc Json) : Prop where
  naps : sends after ≠ [] → ∀ d, ⟨.sleep d, ()⟩ ∈ untilSend after ↔ d = roundFloat r
  remaining : sends after ≠ [] → sleeps before < left ∧ overflows r = false
  retries : sleeps before < left → overflows r = false → Smooth (untilSend after) → sends after ≠ []
  surfaces : sleeps before = left → out = .error (.api reply.apiError)

/-- The reply that ends an attempt with no retry left. -/
theorem waits_last {before after : List Ev} {out : Except Exc Json} (hnone : sends after = [])
    (hout : out = .error (.api reply.apiError)) : Waits reply r 0 before after out where
  naps hsome := absurd hnone hsome
  remaining hsome := absurd hnone hsome
  retries hlt := absurd hlt (Nat.not_lt_zero _)
  surfaces _ := hout

/-- The reply that ends an attempt before a sleep and another attempt. -/
theorem waits_before_sleep {silent tr before after : List Ev} {out : Except Exc Json} {d : ℚ}
    {left : ℕ} (hd : d = roundFloat r) (hover : overflows r = false)
    (hsilent : sends silent = []) (hawake : sleeps silent = 0)
    (htr : sleeps (untilSend tr) = 0) (hsends : Smooth (untilSend tr) → sends tr ≠ [])
    (hzero : sleeps before = 0) (hafter : after = silent ++ ⟨.sleep d, ()⟩ :: tr) :
    Waits reply r (left + 1) before after out := by
  have huntil : untilSend after = silent ++ ⟨.sleep d, ()⟩ :: untilSend tr := by
    rw [hafter, untilSend_append _ hsilent]
    rfl
  refine ⟨fun _ d' => ?_, fun _ => ⟨by omega, hover⟩, fun _ _ hsmooth => ?_, by omega⟩
  · rw [huntil, List.mem_append, List.mem_cons]
    constructor
    · rintro (hmem | heq | hmem)
      · exact absurd hmem (not_mem_of_sleeps hawake d')
      · cases heq
        exact hd
      · exact absurd hmem (not_mem_of_sleeps htr d')
    · intro hd'
      rw [hd', hd]
      exact .inr (.inl rfl)
  · rw [huntil, smooth_append, smooth_cons] at hsmooth
    rw [hafter, sends_append]
    exact List.append_ne_nil_of_right_ne_nil _ (hsends hsmooth.2.2)

/-- The reply to a later attempt. -/
theorem Waits.later {tr pause before before' after : List Ev} {out : Except Exc Json} {d : ℚ}
    {left : ℕ} (h : Waits reply r left before' after out) (htr : sleeps tr = 0)
    (hpause : sleeps pause = 0)
    (hbefore : before = tr ++ (pause ++ ⟨.sleep d, ()⟩ :: before')) :
    Waits reply r (left + 1) before after out := by
  have hcount : sleeps before = sleeps before' + 1 := by
    have hcons : sleeps (⟨.sleep d, ()⟩ :: before') = sleeps before' + 1 := rfl
    rw [hbefore, sleeps_append, sleeps_append, htr, hpause, hcons]
    omega
  exact {
    naps := h.naps
    remaining := fun hsome => by
      obtain ⟨hlt, hover⟩ := h.remaining hsome
      exact ⟨by omega, hover⟩
    retries := fun hlt => h.retries (by omega)
    surfaces := fun heq => h.surfaces (by omega) }

theorem runFrom_waits (h : Limited reply r) (hclear : reply.Clear)
    (hsign : call.signed = true → T.signer.isSome = true) (hmut : call.mutating = false)
    {b : BackoffRetryer} {request : HttpRequest} (left : ℕ) :
    ∀ {k : ℕ} {s : TimeSync} {tr before after : List Ev} {out : Except Exc Json} {s' : TimeSync},
      Runs (b.runFrom (T.attempt call) (isRetryable call.mutating) left k) s tr out s' →
      tr = before ++ ⟨.send request, .response reply⟩ :: after → HeadersTaken reply after →
      Waits reply r left before after out := by
  have hafter := h.apiError_retryAfter hclear
  induction left with
  | zero =>
    rintro k s tr before _ out s' hrun htr ⟨rest, rfl⟩
    obtain ⟨hnone, -, -, update, rest, heq, hout⟩ := runs_attempt_limited h hclear hsign hrun htr
    cases heq
    exact waits_last hnone hout
  | succ left ih =>
    intro k s tr before after out s' hrun htr htaken
    rcases runs_runFrom_succ hrun with ⟨hatt, hlast⟩ | ⟨e, tr₁, s₁, tr₂, happ, hatt, hretry, hrest⟩
    · -- such an exception is retried while retries are left
      obtain ⟨rest, rfl⟩ := htaken
      obtain ⟨-, -, -, update, _, heq, hout⟩ := runs_attempt_limited h hclear hsign hatt htr
      cases heq
      have hno := hlast _ hout
      rw [hmut, Response.raised, isRetryable_of_limited h hclear] at hno
      cases hno
    · rcases append_eq_split (happ.symm.trans htr) with
        ⟨after₁, htr₁, hafter₁⟩ | ⟨before₂, hbefore, htr₂⟩
      · -- the reply is to this attempt
        obtain ⟨hnone, hzero, hawake, update, rest, heq, hout⟩ :=
          runs_attempt_limited h hclear hsign hatt htr₁
        obtain rfl : update = .ok () := by
          obtain ⟨rest', htaken⟩ := htaken
          rw [hafter₁, heq] at htaken
          cases htaken
          rfl
        obtain rfl := Except.error.inj hout
        have hasked : (Exc.api reply.apiError).retryAfter? = some r := hafter
        have hdelay : b.delayOverflows (reply.raised (.ok ())) k = overflows r := by
          simp [BackoffRetryer.delayOverflows, Response.raised, hasked]
        rw [hdelay] at hrest
        rcases hrest with ⟨ho, hsends, -⟩ | ⟨d, pause, tr₃, ho, htr₂, hpause, hquiet, hd, hmore⟩
        · have hsilent : sends after = [] := by
            rw [hafter₁, sends_append, hnone, hsends, List.append_nil]
          refine ⟨fun hsome => absurd hsilent hsome, fun hsome => absurd hsilent hsome, ?_,
            by omega⟩
          intro _ hover
          rw [hover] at ho
          cases ho
        · rw [htr₂, ← List.append_assoc] at hafter₁
          obtain ⟨huntil, hmore'⟩ := runFrom_untilSend hsign hmore
          refine waits_before_sleep (delay_of_retryAfter hasked hd) ho ?_ ?_ huntil hmore' hzero
            hafter₁
          · rw [sends_append, hnone, hpause, List.append_nil]
          · rw [sleeps_append, hawake, hquiet]
      · -- the reply is to a later one
        rcases hrest with ⟨-, hsends, -⟩ | ⟨d, pause, tr₃, -, htr₃, hpause, hquiet, -, hmore⟩
        · exact (not_send_of_sends_nil hsends htr₂).elim
        · obtain ⟨before₃, hbefore₂, hsplit⟩ := split_after_pause hpause (htr₃.symm.trans htr₂)
          rw [hbefore₂] at hbefore
          exact (ih hmore hsplit htaken).later (sleeps_attempt hsign hatt) hquiet hbefore

/-- The limiter takes the headers when the exception of the reply is raised. -/
theorem HonoursRetryAfter.headersTaken {before after : List Ev} {out : Except Exc Json}
    {e : APIError} (h : HonoursRetryAfter T reply r before after out e) :
    HeadersTaken reply after ∧ T.outcome timeCall (.response reply) = .error (.api e) := by
  obtain ⟨update, rest, hafter, hraised⟩ := h.raised
  cases update with
  | ok u => exact ⟨⟨rest, hafter⟩, hraised timeCall⟩
  | error err =>
    have hexc := hraised timeCall
    cases err <;> cases hexc

/-- **429 and 418.** A run of a call that is not mutating honours a reply's `Retry-After` exactly
when the reply's body can be scanned and carries no code but 0, the limiter takes the reply's
headers, and the delay, if the call is sent again, is not rounded down. -/
theorem request_honours_iff (hmut : call.mutating = false) (h : Limited reply r)
    {tr before after : List Ev} {out : Except Exc Json} {request : HttpRequest}
    (hrun : Runs (T.request call) s tr out s')
    (htr : tr = before ++ ⟨.send request, .response reply⟩ :: after) :
    (∃ e, HonoursRetryAfter T reply r before after out e) ↔
      reply.Clear ∧ HeadersTaken reply after ∧
        (T.Resends r before after → (r : ℚ) ≤ roundFloat r) := by
  have hwaits (hclear : reply.Clear) (htaken : HeadersTaken reply after) :
      Waits reply r (T.retryer.retries T.config.maxRetries) before after out := by
    unfold Transport.request at hrun
    split at hrun
    · obtain ⟨hnil, -⟩ := runs_throw_iff.1 hrun
      rw [hnil] at htr
      simp at htr
    · next hyes =>
      have hsign := (maySign_of_not hyes).signer
      cases hretryer : T.retryer with
      | null =>
        rw [hretryer] at hrun
        obtain ⟨rest, hrest⟩ := htaken
        obtain ⟨hnone, -, -, update, _, heq, hout⟩ :=
          runs_attempt_limited h hclear hsign hrun htr
        cases hrest.symm.trans heq
        exact waits_last hnone hout
      | backoff b =>
        rw [hretryer] at hrun
        exact runFrom_waits h hclear hsign hmut _ hrun htr htaken
  constructor
  · intro ⟨e, hhonours⟩
    obtain ⟨htaken, hraised⟩ := hhonours.headersTaken
    have hclear : reply.Clear := by
      rcases T.outcome_cases_of_le h.le_status with ⟨-, hout⟩ | ⟨hbody, hout⟩
      · cases hout.symm.trans hraised
      · have hsame := hout.symm.trans hraised
        simp only [Except.error.injEq, Exc.api.injEq] at hsame
        exact Limited.clear_of_cls hbody (hsame ▸ hhonours.cls)
    refine ⟨hclear, htaken, fun hresends => ?_⟩
    have hsends := hhonours.retries hresends
    obtain ⟨request', net, rest, hsplit⟩ := exists_send hsends
    obtain ⟨d, hle, hd⟩ := hhonours.waits _ _ _ _ hsplit
    rwa [((hwaits hclear htaken).naps hsends d).1 hd] at hle
  · rintro ⟨hclear, htaken, hround⟩
    have hafter := hwaits hclear htaken
    refine ⟨reply.apiError, ?_, h.apiError_cls hclear, h.apiError_retryAfter hclear, ?_,
      fun ⟨hlt, hover, hsmooth⟩ => hafter.retries hlt hover hsmooth, hafter.surfaces⟩
    · obtain ⟨rest, hrest⟩ := htaken
      exact ⟨.ok (), rest, hrest, outcome_of_limited h hclear⟩
    · intro mid request' net rest hsplit
      have hsends : sends after ≠ [] := by
        rw [hsplit, sends_append]
        exact List.append_ne_nil_of_right_ne_nil _ nofun
      have huntil := untilSend_isPrefix hsplit
      have hsmooth : Smooth (untilSend after) := by
        have hmid : tr = (before ++ ⟨.send request, .response reply⟩ :: mid) ++
            ⟨.send request', net⟩ :: rest := by
          rw [htr, hsplit, List.append_assoc]
          rfl
        have hbefore := (smooth_append.1 (interruptible_request.smooth_before_send hrun hmid)).2
        exact (smooth_cons.1 hbefore).2.sublist huntil.sublist
      obtain ⟨hlt, hover⟩ := hafter.remaining hsends
      exact ⟨roundFloat r, hround ⟨hlt, hover, hsmooth⟩,
        huntil.subset ((hafter.naps hsends _).2 rfl)⟩

/-- A transport that retries once. -/
def retryingTransport : Transport :=
  .ofConfig { sampleTransport.config with apiKey := none, apiSecret := none, maxRetries := 1 }
    (fun _ _ => "digest") samplePydantic fun _ => ""

def limitedReply (body : JsonBody) : Response := ⟨429, [("Retry-After", "5")], "", body⟩

theorem limited_limitedReply (body : JsonBody) : Limited (limitedReply body) 5 where
  status := .inl rfl
  retryAfter := by
    have hheader : intOrNone (header [("Retry-After", "5")] retryAfterHeader) = some 5 := by
      decide +kernel
    exact hheader

/-- A plain text body: the request is sent again after five seconds. -/
theorem request_honours_text :
    let run := (retryingTransport.request timeCall).play
      (scripted [.response (limitedReply .invalid), .httpError ""]) ⟨0, true⟩
    sends (run.1.drop 2) ≠ [] ∧ ∃ e, HonoursRetryAfter retryingTransport (limitedReply .invalid) 5
      (run.1.take 1) (run.1.drop 2) run.2.1 e := by
  intro run
  have hrun : Runs (retryingTransport.request timeCall) ⟨0, true⟩ run.1 run.2.1 run.2.2 :=
    (Comp.runs_play _ _ _).1
  have hclear : (limitedReply .invalid).Clear := ⟨by simp [limitedReply], .inl rfl⟩
  have hsplit : run.1 = run.1.take 1 ++
      ⟨.send (retryingTransport.httpRequest timeCall []), .response (limitedReply .invalid)⟩ ::
        run.1.drop 2 := rfl
  have hround : ((5 : ℤ) : ℚ) ≤ roundFloat (5 : ℤ) := (roundFloat_intCast (by decide)).ge
  obtain ⟨e, h⟩ := (request_honours_iff rfl (limited_limitedReply .invalid) hrun hsplit).2
    ⟨hclear, ⟨_, rfl⟩, fun _ => hround⟩
  have hsmooth : Smooth run.1 := smooth_scripted (Comp.runs_play _ _ _).2
  have hresends : retryingTransport.Resends 5 (run.1.take 1) (run.1.drop 2) :=
    ⟨by decide, by decide +kernel,
      hsmooth.sublist ((untilSend_sublist _).trans (List.drop_sublist _ _))⟩
  exact ⟨h.retries hresends, e, h⟩

/-- The code -1003 makes it a `BinanceThAPIError` without a `retry_after`, which is not retried. -/
theorem not_request_honours_code :
    let reply := limitedReply (.value (.obj [("code", .int (-1003)), ("msg", .str "Too many")]))
    let run := (retryingTransport.request timeCall).play
      (scripted [.response reply, .httpError ""]) ⟨0, true⟩
    run.1 = run.1.take 1 ++
        ⟨.send (retryingTransport.httpRequest timeCall []), .response reply⟩ :: run.1.drop 2 ∧
      Limited reply 5 ∧ sends (run.1.drop 2) = [] ∧
      ¬ ∃ e, HonoursRetryAfter retryingTransport reply 5 (run.1.take 1) (run.1.drop 2) run.2.1 e := by
  intro reply run
  refine ⟨rfl, limited_limitedReply _, rfl, ?_⟩
  intro ⟨e, h⟩
  obtain ⟨-, hraised⟩ := h.headersTaken
  have hcls := h.cls
  rw [outcome_of_le (show 400 ≤ reply.status by decide) (by simp [reply, limitedReply])] at hraised
  simp only [Except.error.injEq, Exc.api.injEq] at hraised
  rw [← hraised] at hcls
  revert hcls
  decide

end Transport

end BinanceTh
