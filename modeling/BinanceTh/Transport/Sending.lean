import BinanceTh.Transport.Exchanges

/-!
# Bounded, duplicate-free sending

The exchanges of a run of `request` form a chain (`Chained`): an exchange follows another only if
that one was a successful synchronization, or failed with a retryable error, or failed with a
timestamp error outside a resync (`Follows`). From it and the number of transmissions of an attempt
follow the bounds of `request_sends`: a mutating call is sent at most twice, and nothing is sent
after an error that is not retried.
-/

namespace BinanceTh

open Interaction

/-- The request is a transmission of the call itself: its method and path, signed if the call is. -/
def Call.isOwn (call : Call) (request : HttpRequest) : Bool :=
  request.method = call.method && request.path = call.path &&
    (!call.signed || Dict.contains request.params "signature")

def errorOf {α : Type} : Except Exc α → Option Exc
  | .ok _ => none
  | .error e => some e

theorem errorOf_eq_some_iff {α : Type} {r : Except Exc α} {e : Exc} :
    errorOf r = some e ↔ r = .error e := by
  cases r with
  | ok a => exact iff_of_false nofun nofun
  | error e' => simp only [errorOf, Option.some.injEq, Except.error.injEq]

theorem errorOf_eq_none_iff {α : Type} {r : Except Exc α} :
    errorOf r = none ↔ ∃ a, r = .ok a := by
  cases r with
  | ok a => exact iff_of_true rfl ⟨a, rfl⟩
  | error e => exact iff_of_false nofun nofun

namespace Transport

variable {T : Transport} {call : Call}

/-- The error that an exchange of a run stands for, if any: of the call or of a synchronization. -/
def error? (T : Transport) (call : Call) (x : Exchange) : Option Exc :=
  if call.isOwn x.1 then errorOf (T.outcome call x.2) else errorOf (T.timeOutcome x.2)

theorem isOwn_httpRequest {s : TimeSync} {clock : ℤ}
    (hsign : call.signed = true → T.signer.isSome = true) :
    call.isOwn (T.httpRequest call (T.paramsAt call s clock)) = true := by
  unfold Call.isOwn httpRequest
  cases hsigned : call.signed with
  | false => simp
  | true =>
    obtain ⟨signer, hsigner⟩ := Option.isSome_iff_exists.1 (hsign hsigned)
    have hparams : Dict.contains (T.paramsAt call s clock) "signature" = true := by
      unfold paramsAt Dict.contains
      rw [if_pos hsigned, hsigner]
      simp only [Dict.get?_map, Signer.signedParams, Dict.get?_set, ↓reduceIte, Option.map_some,
        Option.isSome_some]
    simp [hparams]

/-- Signing leaves the caller's parameters as they are, as text. -/
theorem get?_paramsAt {s : TimeSync} {clock : ℤ} {key : String}
    (hsign : call.signed = true → T.signer.isSome = true) (hwindow : key ≠ "recvWindow")
    (htime : key ≠ "timestamp") (hkey : key ≠ "signature") :
    Dict.get? (T.paramsAt call s clock) key = if call.signed then
      (Dict.get? call.params key).map fun v => ParamValue.str v.toStr
    else Dict.get? call.params key := by
  unfold paramsAt
  split
  · next hsigned =>
    obtain ⟨signer, hsigner⟩ := Option.isSome_iff_exists.1 (hsign hsigned)
    rw [hsigner]
    dsimp only
    rw [Dict.get?_map, Signer.get?_signedParams hwindow htime hkey, Option.map_map]
    rfl
  · rfl

theorem isOwn_timeRequest (hsigned : call.signed = true) :
    call.isOwn T.timeRequest = false := by
  have hparams : Dict.contains T.timeRequest.params "signature" = false := rfl
  unfold Call.isOwn
  rw [hparams, hsigned]
  simp

theorem error?_own {x : Exchange} (hown : call.isOwn x.1 = true) :
    T.error? call x = errorOf (T.outcome call x.2) := if_pos hown

theorem error?_time (hsigned : call.signed = true) {net : NetResult} :
    T.error? call (T.timeRequest, net) = errorOf (T.timeOutcome net) := by
  unfold error?
  rw [isOwn_timeRequest hsigned]
  rfl

theorem error?_eq_api_iff {x : Exchange} {a : APIError} (hbare : call.envelope = false) :
    T.error? call x = some (.api a) ↔ ∃ reply : Response, x.2 = .response reply ∧
      400 ≤ reply.status ∧ reply.body ≠ .tooDeep ∧ a = reply.apiError := by
  unfold error?
  split
  · rw [errorOf_eq_some_iff, outcome_eq_api_iff hbare]
  · rw [errorOf_eq_some_iff, ← outcome_eq_api_iff (show timeCall.envelope = false from rfl),
      timeOutcome]
    cases hout : T.outcome timeCall x.2 with
    | error e =>
      change Except.error e = _ ↔ _
      rw [Except.error.injEq, Except.error.injEq]
    | ok j =>
      refine iff_of_false (fun h => ?_) nofun
      have hdecode := ServerTime.raisesDecodeErrors T.pydantic j _ h
      cases hdecode

theorem isTimestampError_not_retryable {e : Exc} {mutating : Bool}
    (h : e.isTimestampError = true) : isRetryable mutating e = false := by
  cases e with
  | api e =>
    unfold Exc.isTimestampError at h
    rw [Bool.and_eq_true, decide_eq_true_eq] at h
    cases mutating with
    | true => rfl
    | false => simp [isRetryable, h.1]
  | _ => cases h

/-! ## Where an exchange comes from -/

/-- The exchange is a synchronization or a transmission of the call. -/
inductive Origin (T : Transport) (call : Call) (x : Exchange) : Prop
  | time : call.signed = true → x.1 = T.timeRequest → Origin T call x
  | own (s : TimeSync) (clock : ℤ) : x.1 = T.httpRequest call (T.paramsAt call s clock) →
      Origin T call x

theorem Executed.origin {s s' : TimeSync} {l : List Exchange} {r : Except Exc Json} {x : Exchange}
    (h : T.Executed call s l r s') (hx : x ∈ l) : T.Origin call x := by
  cases h with
  | syncFailed hsigned =>
    obtain rfl := List.mem_singleton.1 hx
    exact .time hsigned rfl
  | synced hsigned =>
    rcases List.mem_cons.1 hx with rfl | hx
    · exact .time hsigned rfl
    · obtain rfl := List.mem_singleton.1 hx
      exact .own _ _ rfl
  | direct =>
    obtain rfl := List.mem_singleton.1 hx
    exact .own _ _ rfl

theorem Attempted.origin {s s' : TimeSync} {l : List Exchange} {r : Except Exc Json} {x : Exchange}
    (h : T.Attempted call s l r s') (hx : x ∈ l) : T.Origin call x := by
  cases h with
  | once hex => exact hex.origin hx
  | resyncFailed hex hresync =>
    rcases List.mem_append.1 hx with hx | hx
    · exact hex.origin hx
    · obtain rfl := List.mem_singleton.1 hx
      exact .time (Bool.and_eq_true_iff.1 hresync).1 rfl
  | resynced hex hresync =>
    rcases List.mem_append.1 hx with hx | hx
    · exact hex.origin hx
    · rcases List.mem_cons.1 hx with rfl | hx
      · exact .time (Bool.and_eq_true_iff.1 hresync).1 rfl
      · obtain rfl := List.mem_singleton.1 hx
        exact .own _ _ rfl

theorem Retried.origin {left k n : ℕ} {s s' : TimeSync} {l : List Exchange} {r : Except Exc Json}
    {x : Exchange} (h : T.Retried call left k s l r s' n) (hx : x ∈ l) : T.Origin call x := by
  induction h with
  | last hatt => exact hatt.origin hx
  | overflow hatt => exact hatt.origin hx
  | again hatt _ _ _ ih =>
    rcases List.mem_append.1 hx with hx | hx
    · exact hatt.origin hx
    · exact ih hx

/-- Every exchange of a request is one of the two, also where the limiter ends the request. -/
theorem request_origin {s s' : TimeSync} {tr : List Ev} {r : Except Exc Json} {x : Exchange}
    (h : Runs (T.request call) s tr r s') (hx : x ∈ sends tr) : T.Origin call x := by
  obtain ⟨tr', r', s'', hrun, hsmooth, hinitial, -, -⟩ := interruptible_request.completion h
  rcases runs_request hsmooth hrun with ⟨-, rfl, -⟩ | ⟨-, hretried⟩
  · exact nomatch hinitial.subset hx
  · exact hretried.origin (hinitial.subset hx)

/-- A signed call knows the server's time once it has been sent. -/
theorem Executed.synced_of_own {s s' : TimeSync} {l : List Exchange} {r : Except Exc Json}
    {x : Exchange} (h : T.Executed call s l r s') (hsigned : call.signed = true) (hx : x ∈ l)
    (hown : call.isOwn x.1 = true) : s'.synced = true := by
  cases h with
  | syncFailed =>
    obtain rfl := List.mem_singleton.1 hx
    rw [isOwn_timeRequest hsigned] at hown
    cases hown
  | synced _ _ _ hs => exact hs
  | direct hs => exact hs hsigned

theorem Attempted.synced_of_own {s s' : TimeSync} {l : List Exchange} {r : Except Exc Json}
    {x : Exchange} (h : T.Attempted call s l r s') (hsigned : call.signed = true) (hx : x ∈ l)
    (hown : call.isOwn x.1 = true) : s'.synced = true := by
  cases h with
  | once hex => exact hex.synced_of_own hsigned hx hown
  | resyncFailed hex =>
    rcases List.mem_append.1 hx with hx | hx
    · exact hex.synced_of_own hsigned hx hown
    · obtain rfl := List.mem_singleton.1 hx
      rw [isOwn_timeRequest hsigned] at hown
      cases hown
  | resynced _ _ _ hs => exact hs

/-- With the server's time known, the first exchange is the call's own. -/
theorem Attempted.head_of_synced {s s' : TimeSync} {l : List Exchange} {r : Except Exc Json}
    (h : T.Attempted call s l r s') (hs : s.synced = true) :
    ∃ clock net l', l = (T.httpRequest call (T.paramsAt call s clock), net) :: l' := by
  cases h with
  | once hex =>
    obtain ⟨clock, net, rfl, -, -⟩ := hex.of_synced hs
    exact ⟨clock, net, [], rfl⟩
  | resyncFailed hex =>
    obtain ⟨clock, net, rfl, -, -⟩ := hex.of_synced hs
    exact ⟨clock, net, _, rfl⟩
  | resynced hex =>
    obtain ⟨clock, net, rfl, -, -⟩ := hex.of_synced hs
    exact ⟨clock, net, _, rfl⟩

theorem Retried.head_of_synced {left k n : ℕ} {s s' : TimeSync} {l : List Exchange}
    {r : Except Exc Json} (h : T.Retried call left k s l r s' n) (hs : s.synced = true) :
    ∃ clock net l', l = (T.httpRequest call (T.paramsAt call s clock), net) :: l' := by
  cases h with
  | last hatt => exact hatt.head_of_synced hs
  | overflow hatt => exact hatt.head_of_synced hs
  | again hatt =>
    obtain ⟨clock, net, l', rfl⟩ := hatt.head_of_synced hs
    exact ⟨clock, net, _, rfl⟩

/-! ## Chains of exchanges -/

/-- After `past`, a resync has begun: its timestamp error is the last exchange, or the successful
synchronization after it is. -/
def MidResync (T : Transport) (call : Call) (past : List Exchange) : Prop :=
  ∃ l₀ y e, T.error? call y = some e ∧ e.isTimestampError = true ∧
    (past = l₀ ++ [y] ∨ ∃ z, past = l₀ ++ [y, z] ∧ T.error? call z = none)

/-- Why `y` may be exchanged directly after `x`, which came after `past`: `x` was a synchronization
that `y` needed, or an error that is retried, or the one timestamp error that is resynced. -/
def Follows (T : Transport) (call : Call) (past : List Exchange) (x y : Exchange) : Prop :=
  (call.isOwn x.1 = false ∧ T.error? call x = none ∧ call.isOwn y.1 = true) ∨
  ∃ e, T.error? call x = some e ∧ (isRetryable call.mutating e = true ∨
    needsResync call e = true ∧ ¬ T.MidResync call past ∧ y.1 = T.timeRequest)

def Chained (T : Transport) (call : Call) (l : List Exchange) : Prop :=
  ∀ l₁ x y l₂, l = l₁ ++ x :: y :: l₂ → T.Follows call l₁ x y

theorem chained_nil : T.Chained call [] := by
  intro l₁ x y l₂ h
  cases l₁ <;> cases h

theorem Chained.concat {l : List Exchange} {y : Exchange} (h : T.Chained call l)
    (hy : ∀ l₁ x, l = l₁ ++ [x] → T.Follows call l₁ x y) : T.Chained call (l ++ [y]) := by
  intro l₁ a b l₂ heq
  cases l₂ using List.reverseRecOn with
  | nil =>
    have hsnoc : l ++ [y] = (l₁ ++ [a]) ++ [b] := by rw [heq, List.append_assoc]; rfl
    obtain ⟨hl, hb⟩ := List.append_inj' hsnoc rfl
    obtain rfl := List.singleton_inj.1 hb
    exact hy l₁ a hl
  | append_singleton l₂ c =>
    have hsnoc : l ++ [y] = (l₁ ++ a :: b :: l₂) ++ [c] := by
      rw [heq, List.append_assoc]
      rfl
    exact h l₁ a b l₂ (List.append_inj' hsnoc rfl).1

/-- A new attempt may begin after `past`: there is nothing yet, or the last error is retried. -/
def Fresh (T : Transport) (call : Call) (past : List Exchange) : Prop :=
  ∀ l₁ x, past = l₁ ++ [x] → ∃ e, T.error? call x = some e ∧ isRetryable call.mutating e = true

theorem Fresh.follows {past l₁ : List Exchange} {x y : Exchange} (h : T.Fresh call past)
    (heq : past = l₁ ++ [x]) : T.Follows call l₁ x y := by
  obtain ⟨e, he, hretry⟩ := h l₁ x heq
  exact .inr ⟨e, he, .inl hretry⟩

theorem Fresh.not_midResync {past : List Exchange} (h : T.Fresh call past) :
    ¬ T.MidResync call past := by
  rintro ⟨l₀, y, e, hy, hts, hlast | ⟨z, hlast, hz⟩⟩
  · obtain ⟨e', hy', hretry⟩ := h l₀ y hlast
    obtain rfl := Option.some.inj (hy.symm.trans hy')
    rw [isTimestampError_not_retryable hts] at hretry
    cases hretry
  · obtain ⟨e', hz', _⟩ := h (l₀ ++ [y]) z (by rw [hlast, List.append_assoc]; rfl)
    rw [hz] at hz'
    cases hz'

/-- A successful synchronization at the start of an attempt is no resync. -/
theorem Fresh.not_midResync_concat {past : List Exchange} {z : Exchange} (h : T.Fresh call past)
    (hz : T.error? call z = none) : ¬ T.MidResync call (past ++ [z]) := by
  rintro ⟨l₀, y, e, hy, hts, hlast | ⟨z', hlast, _⟩⟩
  · obtain ⟨_, hzy⟩ := List.append_inj' hlast rfl
    obtain rfl := List.singleton_inj.1 hzy
    rw [hz] at hy
    cases hy
  · have hsnoc : past ++ [z] = (l₀ ++ [y]) ++ [z'] := by rw [hlast, List.append_assoc]; rfl
    obtain ⟨e', hy', hretry⟩ := h l₀ y (List.append_inj' hsnoc rfl).1
    obtain rfl := Option.some.inj (hy.symm.trans hy')
    rw [isTimestampError_not_retryable hts] at hretry
    cases hretry

/-- The result that an exchange gives when it is the last one: the outcome of the call, or the
error of a synchronization. -/
def IsResult (T : Transport) (call : Call) (x : Exchange) (r : Except Exc Json) : Prop :=
  (call.isOwn x.1 = true ∧ r = T.outcome call x.2) ∨
  (call.isOwn x.1 = false ∧ ∃ e, T.timeOutcome x.2 = .error e ∧ r = .error e)

theorem IsResult.error {x : Exchange} {e : Exc} (h : T.IsResult call x (.error e)) :
    T.error? call x = some e := by
  unfold error?
  rcases h with ⟨hown, hr⟩ | ⟨hown, e', he', hr⟩
  · rw [if_pos hown, ← hr]
    rfl
  · obtain rfl := Except.error.inj hr
    rw [if_neg (by rw [hown]; exact Bool.false_ne_true), he']
    rfl

/-! ## The exchanges of a run form a chain -/

variable {s s' : TimeSync} {l past : List Exchange} {r : Except Exc Json}

theorem isResult_own (hsign : call.signed = true → T.signer.isSome = true) {clock : ℤ}
    {net : NetResult} :
    T.IsResult call (T.httpRequest call (T.paramsAt call s clock), net) (T.outcome call net) :=
  .inl ⟨isOwn_httpRequest hsign, rfl⟩

/-- `_execute` extends a chain at which an attempt may begin; a timestamp error at its end is
outside any resync. -/
theorem Executed.chained (hsign : call.signed = true → T.signer.isSome = true)
    (h : T.Executed call s l r s') (hpast : T.Chained call past) (hfresh : T.Fresh call past) :
    T.Chained call (past ++ l) ∧
      ∃ l₀ x, l = l₀ ++ [x] ∧ T.IsResult call x r ∧ ¬ T.MidResync call (past ++ l₀) := by
  cases h with
  | syncFailed hsigned _ htime =>
    refine ⟨hpast.concat fun _ _ heq => hfresh.follows heq, [], _, rfl, ?_, ?_⟩
    · exact .inr ⟨isOwn_timeRequest hsigned, _, htime, rfl⟩
    · rw [List.append_nil]
      exact hfresh.not_midResync
  | @synced net net' t _ clock hsigned _ htime =>
    have hnone : T.error? call (T.timeRequest, net) = none := by
      rw [error?_time hsigned, htime]
      rfl
    have hsync : T.Chained call (past ++ [(T.timeRequest, net)]) :=
      hpast.concat fun _ _ heq => hfresh.follows heq
    refine ⟨?_, [_], _, rfl, isResult_own hsign, hfresh.not_midResync_concat hnone⟩
    rw [show past ++ [(T.timeRequest, net), _] = (past ++ [(T.timeRequest, net)]) ++ [_] by
      rw [List.append_assoc]; rfl]
    refine hsync.concat fun l₁ x heq => ?_
    obtain rfl := List.singleton_inj.1 (List.append_inj' heq rfl).2
    exact .inl ⟨isOwn_timeRequest hsigned, hnone, isOwn_httpRequest hsign⟩
  | direct =>
    refine ⟨hpast.concat fun _ _ heq => hfresh.follows heq, [], _, rfl, isResult_own hsign, ?_⟩
    rw [List.append_nil]
    exact hfresh.not_midResync

/-- A resync may follow the timestamp error at the end of `_execute`. -/
theorem Executed.chained_resync (net : NetResult)
    (hsign : call.signed = true → T.signer.isSome = true) {e : Exc}
    (h : T.Executed call s l (.error e) s') (hpast : T.Chained call past)
    (hfresh : T.Fresh call past) (hresync : needsResync call e = true) :
    T.Chained call (past ++ (l ++ [(T.timeRequest, net)])) := by
  obtain ⟨hl, l₀, x, rfl, hx, hmid⟩ := h.chained hsign hpast hfresh
  rw [← List.append_assoc]
  refine hl.concat fun l₁ y heq => ?_
  rw [← List.append_assoc] at heq
  obtain ⟨rfl, hxy⟩ := List.append_inj' heq rfl
  obtain rfl := List.singleton_inj.1 hxy
  exact .inr ⟨e, hx.error, .inr ⟨hresync, hmid, rfl⟩⟩

theorem Attempted.chained (hsign : call.signed = true → T.signer.isSome = true)
    (h : T.Attempted call s l r s') (hpast : T.Chained call past) (hfresh : T.Fresh call past) :
    T.Chained call (past ++ l) ∧ ∃ l₀ x, l = l₀ ++ [x] ∧ T.IsResult call x r := by
  cases h with
  | once hex _ =>
    obtain ⟨hl, l₀, x, hlast, hx, _⟩ := hex.chained hsign hpast hfresh
    exact ⟨hl, l₀, x, hlast, hx⟩
  | resyncFailed hex hresync htime =>
    have hsigned := (Bool.and_eq_true _ _ ▸ hresync).1
    exact ⟨hex.chained_resync _ hsign hpast hfresh hresync, _, _, rfl,
      .inr ⟨isOwn_timeRequest hsigned, _, htime, rfl⟩⟩
  | @resynced l e _ s₂ net net' t clock hex hresync htime =>
    have hsigned := (Bool.and_eq_true _ _ ▸ hresync).1
    have hnone : T.error? call (T.timeRequest, net) = none := by
      rw [error?_time hsigned, htime]
      rfl
    have hsync := hex.chained_resync net hsign hpast hfresh hresync
    have hsplit (x y : Exchange) : l ++ [x, y] = (l ++ [x]) ++ [y] := by
      rw [List.append_assoc]
      rfl
    refine ⟨?_, l ++ [(T.timeRequest, net)], _, hsplit _ _, isResult_own hsign⟩
    rw [hsplit, ← List.append_assoc]
    refine hsync.concat fun l₁ x heq => ?_
    rw [← List.append_assoc] at heq
    obtain rfl := List.singleton_inj.1 (List.append_inj' heq rfl).2
    exact .inl ⟨isOwn_timeRequest hsigned, hnone, isOwn_httpRequest hsign⟩

/-- The delay after the error of attempt `n` is computed, and raises. -/
def givesUp (T : Transport) (call : Call) (e : Exc) (n : ℕ) : Bool :=
  decide (n < T.retryer.retries T.config.maxRetries) && isRetryable call.mutating e &&
    T.retryer.delayOverflows e n

/-- How a run ends whose last exchange is `x`, in attempt `n`. -/
inductive Ends (T : Transport) (call : Call) (x : Exchange) (n : ℕ) : Except Exc Json → Prop
  | value {j : Json} : call.isOwn x.1 = true → T.outcome call x.2 = .ok j → Ends T call x n (.ok j)
  | error {e : Exc} : T.error? call x = some e → T.givesUp call e n = false →
      Ends T call x n (.error e)
  | overflow {e : Exc} : T.error? call x = some e → T.givesUp call e n = true →
      Ends T call x n (.error .overflowError)

theorem IsResult.ends {x : Exchange} {n : ℕ} (h : T.IsResult call x r)
    (hn : ∀ e, r = .error e → T.givesUp call e n = false) : T.Ends call x n r := by
  cases r with
  | ok j =>
    rcases h with ⟨hown, hr⟩ | ⟨_, _, _, hr⟩
    · exact .value hown hr.symm
    · cases hr
  | error e => exact .error h.error (hn e rfl)

/-- **The retry loop** extends the chain, and ends with what its last exchange gives. -/
theorem Retried.chained (hsign : call.signed = true → T.signer.isSome = true) {left k n : ℕ}
    (h : T.Retried call left k s l r s' n)
    (hleft : left + k = T.retryer.retries T.config.maxRetries) :
    ∀ {past : List Exchange}, T.Chained call past → T.Fresh call past →
      T.Chained call (past ++ l) ∧ ∃ l₀ x, l = l₀ ++ [x] ∧ T.Ends call x n r := by
  induction h with
  | @last left k s s' l r hatt hstop =>
    intro past hpast hfresh
    obtain ⟨hl, l₀, x, hlast, hx⟩ := hatt.chained hsign hpast hfresh
    refine ⟨hl, l₀, x, hlast, hx.ends fun e he => ?_⟩
    unfold givesUp
    rcases hstop with hzero | hnot
    · have hk : ¬ k < T.retryer.retries T.config.maxRetries := by omega
      simp [hk]
    · simp [hnot e he]
  | @overflow left k s s' l e hatt hretry hover =>
    intro past hpast hfresh
    obtain ⟨hl, l₀, x, hlast, hx⟩ := hatt.chained hsign hpast hfresh
    refine ⟨hl, l₀, x, hlast, .overflow hx.error ?_⟩
    have hk : k < T.retryer.retries T.config.maxRetries := by omega
    simp [givesUp, hk, hretry, hover]
  | @again left k n s s₁ s' l l' e r hatt hretry _ _ ih =>
    intro past hpast hfresh
    obtain ⟨hl, l₀, x, rfl, hx⟩ := hatt.chained hsign hpast hfresh
    have hnext : T.Fresh call (past ++ (l₀ ++ [x])) := by
      intro l₁ y heq
      rw [← List.append_assoc] at heq
      obtain rfl := List.singleton_inj.1 (List.append_inj' heq rfl).2
      exact ⟨e, hx.error, hretry⟩
    obtain ⟨hl', l₀', x', rfl, hends⟩ := ih (by omega) hl hnext
    rw [List.append_assoc] at hl'
    exact ⟨hl', _, x', (List.append_assoc _ _ _).symm, hends⟩

theorem fresh_nil : T.Fresh call [] := fun l₁ x heq => by cases l₁ <;> cases heq

/-- The chain and the end of a single attempt. -/
theorem Attempted.ends (hsign : call.signed = true → T.signer.isSome = true)
    (h : T.Attempted call s l r s') :
    T.Chained call l ∧ ∃ l₀ x, l = l₀ ++ [x] ∧ T.IsResult call x r := by
  simpa only [List.nil_append] using h.chained hsign chained_nil fresh_nil

/-- The chain and the end of a whole retry loop. -/
theorem Retried.ends (hsign : call.signed = true → T.signer.isSome = true) {n : ℕ}
    (h : T.Retried call (T.retryer.retries T.config.maxRetries) 0 s l r s' n) :
    T.Chained call l ∧ ∃ l₀ x, l = l₀ ++ [x] ∧ T.Ends call x n r := by
  simpa only [List.nil_append] using h.chained hsign rfl chained_nil fresh_nil

/-! ## Counting transmissions -/

/-- The transmissions of the call itself. -/
def ownSends (call : Call) (l : List Exchange) : List Exchange := l.filter fun x => call.isOwn x.1

theorem ownSends_time (hsigned : call.signed = true) (net : NetResult) :
    ownSends call [(T.timeRequest, net)] = [] := by
  unfold ownSends
  rw [List.filter_cons_of_neg (by rw [isOwn_timeRequest hsigned]; exact Bool.false_ne_true)]
  rfl

theorem ownSends_append (l₁ l₂ : List Exchange) :
    ownSends call (l₁ ++ l₂) = ownSends call l₁ ++ ownSends call l₂ :=
  List.filter_append l₁ l₂

theorem length_ownSends_le_one (x : Exchange) : (ownSends call [x]).length ≤ 1 :=
  List.length_filter_le _ [x]

theorem Executed.length_ownSends (h : T.Executed call s l r s') :
    (ownSends call l).length ≤ 1 := by
  cases h with
  | syncFailed => exact length_ownSends_le_one _
  | @synced net net' t s₁ clock hsigned =>
    rw [show ∀ x y : Exchange, [x, y] = [x] ++ [y] from fun _ _ => rfl, ownSends_append,
      ownSends_time hsigned]
    exact length_ownSends_le_one _
  | direct => exact length_ownSends_le_one _

theorem Attempted.length_ownSends (h : T.Attempted call s l r s') :
    (ownSends call l).length ≤ 2 := by
  cases h with
  | once hex _ => exact hex.length_ownSends.trans one_le_two
  | resyncFailed hex =>
    have hone := hex.length_ownSends
    rw [ownSends_append, List.length_append]
    exact Nat.add_le_add hone (length_ownSends_le_one _)
  | resynced hex hresync =>
    have hone := hex.length_ownSends
    have hsigned := (Bool.and_eq_true _ _ ▸ hresync).1
    rw [show ∀ x y : Exchange, [x, y] = [x] ++ [y] from fun _ _ => rfl, ownSends_append,
      ownSends_append, ownSends_time hsigned, List.length_append]
    exact Nat.add_le_add hone (length_ownSends_le_one _)

theorem Retried.length_ownSends {left k n : ℕ} (h : T.Retried call left k s l r s' n) :
    (ownSends call l).length ≤ if call.mutating then 2 else 2 * (left + 1) := by
  induction h with
  | last hatt =>
    have hatt := hatt.length_ownSends
    split <;> omega
  | overflow hatt =>
    have hatt := hatt.length_ownSends
    split <;> omega
  | again hatt hretry _ _ ih =>
    have hatt := hatt.length_ownSends
    rw [ownSends_append, List.length_append]
    cases hm : call.mutating with
    | true =>
      rw [hm] at hretry
      cases hretry
    | false =>
      rw [hm] at ih
      simp only [Bool.false_eq_true, ↓reduceIte] at ih ⊢
      omega

/-! ## The bound -/

/-- No delay that the errors of the run can ask for overflows: not a power of the growth factor, and
not a `Retry-After`. -/
def BackoffSafe (T : Transport) (call : Call) (tr : List Ev) : Prop :=
  ∀ x ∈ sends tr, ∀ e, T.error? call x = some e →
    ∀ n < T.config.maxRetries, T.retryer.delayOverflows e n = false

/-- What is promised of the exchanges of a run of `request`, and of its result. -/
structure BoundedSending (T : Transport) (call : Call) (tr : List Ev) (r : Except Exc Json) :
    Prop where
  count : (ownSends call (sends tr)).length ≤
    if call.mutating then 2 else 2 * (T.config.maxRetries + 1)
  /-- A mutating request is sent again only after a timestamp error and a successful resync. -/
  second : call.mutating = true → ∀ l₁ x l₂ y l₃, sends tr = l₁ ++ x :: (l₂ ++ y :: l₃) →
    call.isOwn x.1 = true → call.isOwn y.1 = true →
    (∃ e, T.outcome call x.2 = .error e ∧ e.isTimestampError = true) ∧
      ∃ net t, l₂ = [(T.timeRequest, net)] ∧ T.timeOutcome net = .ok t
  /-- Nothing follows an error that is not retried, except one resync after a timestamp error. -/
  stops : ∀ l₁ x l₂ e, sends tr = l₁ ++ x :: l₂ → T.error? call x = some e →
    isRetryable call.mutating e = false →
    l₂ = [] ∨ (needsResync call e = true ∧ ¬ T.MidResync call l₁)
  /-- Nothing follows a success. -/
  success : ∀ l₁ x l₂ j, sends tr = l₁ ++ x :: l₂ → call.isOwn x.1 = true →
    T.outcome call x.2 = .ok j → l₂ = []
  result : (¬ T.MaySign call ∧ sends tr = [] ∧ r = .error authRequired) ∨
    (∃ l x, sends tr = l ++ [x] ∧ ((call.isOwn x.1 = true ∧ r = T.outcome call x.2) ∨
      ∃ e, T.error? call x = some e ∧ r = .error e)) ∨
    ∃ e : LimiterError, r = .error e.exc ∧ Interrupted tr e.exc

theorem Chained.stops {l₁ l₂ : List Exchange} {x : Exchange} {e : Exc}
    (h : T.Chained call (l₁ ++ x :: l₂)) (hx : T.error? call x = some e)
    (hretry : isRetryable call.mutating e = false) :
    l₂ = [] ∨ (needsResync call e = true ∧ ¬ T.MidResync call l₁ ∧
      ∀ y ∈ l₂.head?, y.1 = T.timeRequest) := by
  cases l₂ with
  | nil => exact .inl rfl
  | cons y l₂ =>
    rcases h l₁ x y l₂ rfl with ⟨_, hnone, _⟩ | ⟨e', he', hwhy⟩
    · rw [hx] at hnone
      cases hnone
    · obtain rfl := Option.some.inj (hx.symm.trans he')
      rcases hwhy with hyes | ⟨hresync, hmid, hy⟩
      · rw [hretry] at hyes
        cases hyes
      · refine .inr ⟨hresync, hmid, fun z hz => ?_⟩
        obtain rfl := Option.some.inj hz
        exact hy

theorem Chained.success {l₁ l₂ : List Exchange} {x : Exchange} {j : Json}
    (h : T.Chained call (l₁ ++ x :: l₂)) (hown : call.isOwn x.1 = true)
    (hx : T.outcome call x.2 = .ok j) : l₂ = [] := by
  have hnone : T.error? call x = none := by
    rw [error?_own hown, hx]
    rfl
  cases l₂ with
  | nil => rfl
  | cons y l₂ =>
    rcases h l₁ x y l₂ rfl with ⟨hnot, _⟩ | ⟨e, he, _⟩
    · rw [hown] at hnot
      cases hnot
    · rw [hnone] at he
      cases he

/-- In a resync of a mutating request, a transmission or a failed synchronization is the last. -/
theorem Chained.last_of_midResync (hmut : call.mutating = true) {l₁ l₂ : List Exchange}
    {x : Exchange} (h : T.Chained call (l₁ ++ x :: l₂)) (hmid : T.MidResync call l₁)
    (hx : call.isOwn x.1 = true ∨ T.error? call x ≠ none) : l₂ = [] := by
  cases herr : T.error? call x with
  | none =>
    have hown : call.isOwn x.1 = true := hx.resolve_right fun hne => hne herr
    rw [error?_own hown] at herr
    obtain ⟨j, hj⟩ := errorOf_eq_none_iff.1 herr
    exact h.success hown hj
  | some e =>
    rcases h.stops herr (by rw [hmut]; rfl) with hnil | ⟨-, hno, -⟩
    · exact hnil
    · exact absurd hmid hno

/-- Two transmissions of a mutating request: the first was answered with a timestamp error, and
what stands between them is one successful synchronization. -/
theorem Chained.second (hmut : call.mutating = true) {l₁ l₂ l₃ : List Exchange} {x y : Exchange}
    (h : T.Chained call (l₁ ++ x :: (l₂ ++ y :: l₃))) (hx : call.isOwn x.1 = true)
    (hy : call.isOwn y.1 = true) :
    (∃ e, T.outcome call x.2 = .error e ∧ e.isTimestampError = true) ∧
      ∃ net t, l₂ = [(T.timeRequest, net)] ∧ T.timeOutcome net = .ok t := by
  have hmore (l : List Exchange) : l ++ y :: l₃ ≠ [] := List.append_ne_nil_of_right_ne_nil l nofun
  cases hout : T.outcome call x.2 with
  | ok j => exact absurd (h.success hx hout) (hmore l₂)
  | error e =>
    have herr : T.error? call x = some e := by
      rw [error?_own hx, hout]
      rfl
    rcases h.stops herr (by rw [hmut]; rfl) with hnil | ⟨hresync, -, hhead⟩
    · exact absurd hnil (hmore l₂)
    obtain ⟨hsigned, hts⟩ := Bool.and_eq_true_iff.1 hresync
    refine ⟨⟨e, rfl, hts⟩, ?_⟩
    cases l₂ with
    | nil =>
      have hnext : y.1 = T.timeRequest := hhead y rfl
      rw [hnext, isOwn_timeRequest hsigned] at hy
      cases hy
    | cons z l₂ =>
      obtain ⟨req, net⟩ := z
      obtain rfl : req = T.timeRequest := hhead (req, net) rfl
      have hassoc : l₁ ++ x :: ((T.timeRequest, net) :: l₂ ++ y :: l₃) =
          (l₁ ++ [x]) ++ (T.timeRequest, net) :: (l₂ ++ y :: l₃) := by
        rw [List.append_assoc]
        rfl
      rw [hassoc] at h
      have hmid : T.MidResync call (l₁ ++ [x]) := ⟨l₁, x, e, herr, hts, .inl rfl⟩
      cases hnone : T.error? call (T.timeRequest, net) with
      | some e' =>
        have hlast := h.last_of_midResync hmut hmid (.inr (by rw [hnone]; exact nofun))
        exact absurd hlast (hmore l₂)
      | none =>
        cases l₂ with
        | nil =>
          rw [error?_time hsigned] at hnone
          obtain ⟨t, ht⟩ := errorOf_eq_none_iff.1 hnone
          exact ⟨net, t, rfl, ht⟩
        | cons w l₂ =>
          -- what follows the synchronization is the second transmission, and the last
          rcases h (l₁ ++ [x]) _ w (l₂ ++ y :: l₃) rfl with ⟨-, -, hw⟩ | ⟨e', he', -⟩
          · have hmid' : T.MidResync call (l₁ ++ [x] ++ [(T.timeRequest, net)]) :=
              ⟨l₁, x, e, herr, hts, .inr ⟨_, List.append_assoc l₁ [x] _, hnone⟩⟩
            have hassoc' : l₁ ++ [x] ++ (T.timeRequest, net) :: (w :: l₂ ++ y :: l₃) =
                (l₁ ++ [x] ++ [(T.timeRequest, net)]) ++ w :: (l₂ ++ y :: l₃) := by
              rw [List.append_assoc _ [(T.timeRequest, net)]]
              rfl
            rw [hassoc'] at h
            exact absurd (h.last_of_midResync hmut hmid' (.inl hw)) (hmore l₂)
          · rw [hnone] at he'
            cases he'

theorem Chained.of_prefix {l l' : List Exchange} (h : T.Chained call l') (hl : l <+: l') :
    T.Chained call l := by
  obtain ⟨rest, rfl⟩ := hl
  intro l₁ x y l₂ heq
  refine h l₁ x y (l₂ ++ rest) ?_
  rw [heq, List.append_assoc]
  rfl

/-- The exchanges of a smooth run: their chain, their number and the last one. -/
theorem request_ends_smooth {tr : List Ev} (hsmooth : Smooth tr)
    (h : Runs (T.request call) s tr r s') :
    T.Chained call (sends tr) ∧
      ((ownSends call (sends tr)).length ≤
        if call.mutating then 2 else 2 * (T.config.maxRetries + 1)) ∧
      ((¬ T.MaySign call ∧ sends tr = [] ∧ r = .error authRequired) ∨
        ∃ l x n, sends tr = l ++ [x] ∧ T.Ends call x n r) := by
  rcases runs_request hsmooth h with ⟨hno, rfl, rfl, rfl⟩ | ⟨hmay, hretried⟩
  · exact ⟨chained_nil, Nat.zero_le _, .inl ⟨hno, rfl, rfl⟩⟩
  · obtain ⟨hchain, l, x, hlast, hends⟩ := hretried.ends hmay.signer
    refine ⟨hchain, ?_, .inr ⟨l, x, _, hlast, hends⟩⟩
    have hle := T.retryer.retries_le T.config.maxRetries
    have hcount := hretried.length_ownSends
    split at hcount
    · next hmut => rwa [if_pos hmut]
    · next hmut =>
      rw [if_neg hmut]
      omega

/-- The exchanges of any run: their chain and their number. -/
theorem request_chained {tr : List Ev} (h : Runs (T.request call) s tr r s') :
    T.Chained call (sends tr) ∧
      (ownSends call (sends tr)).length ≤
        if call.mutating then 2 else 2 * (T.config.maxRetries + 1) := by
  obtain ⟨tr', r', s'', hrun, hsmooth, hinitial, -, -⟩ := interruptible_request.completion h
  obtain ⟨hchain, hcount, -⟩ := request_ends_smooth hsmooth hrun
  exact ⟨hchain.of_prefix hinitial, (hinitial.filter _).length_le.trans hcount⟩

/-- **Bounded, duplicate-free sending.** Against every environment a call ends. In every run whose
backoff arithmetic does not overflow, a mutating request is sent at most twice, the second time
directly after a timestamp error and a successful resync; another request at most
`2 * (max_retries + 1)` times; nothing follows a success or an error that is not retried; and the
result is that of the last exchange, or what the limiter has raised. -/
theorem request_sends (T : Transport) (call : Call) (s : TimeSync) :
    (∀ ω, ∃ tr r s', Runs (T.request call) s tr r s' ∧ Answers ω [] tr) ∧
    ∀ tr r s', Runs (T.request call) s tr r s' → T.BackoffSafe call tr →
      T.BoundedSending call tr r := by
  refine ⟨fun ω => ⟨_, _, _, Comp.runs_play ω _ s⟩, fun tr r s' h hsafe => ?_⟩
  obtain ⟨hchain, hcount⟩ := request_chained h
  exact {
    count := hcount
    second := fun hmut l₁ x l₂ y l₃ heq hx hy => Chained.second hmut (heq ▸ hchain) hx hy
    stops := fun l₁ x l₂ e heq hx hretry =>
      (Chained.stops (heq ▸ hchain) hx hretry).imp_right fun h => ⟨h.1, h.2.1⟩
    success := fun l₁ x l₂ j heq hx hj => Chained.success (heq ▸ hchain) hx hj
    result := by
      rcases interruptible_request.cases h with hsmooth | hinterrupted
      · rcases (request_ends_smooth hsmooth h).2.2 with hno | ⟨l, x, n, hlast, hends⟩
        · exact .inl hno
        · refine .inr (.inl ⟨l, x, hlast, ?_⟩)
          cases hends with
          | value hown hj => exact .inl ⟨hown, hj.symm⟩
          | @error e he => exact .inr ⟨e, he, rfl⟩
          | @overflow e he hgives =>
            rw [givesUp, Bool.and_eq_true, Bool.and_eq_true, decide_eq_true_eq] at hgives
            have hlt := hgives.1.1.trans_le (T.retryer.retries_le T.config.maxRetries)
            have hmem : x ∈ sends tr := by
              rw [hlast]
              exact List.mem_append_right l (List.mem_singleton_self x)
            rw [hsafe x hmem e he _ hlt] at hgives
            cases hgives.2
      · exact .inr (.inr hinterrupted) }

/-- A timestamp error, the server's time, and an accepted request. -/
def resyncReplies : List NetResult :=
  [.response ⟨400, [], "", .value (.obj [("code", .int (-1021)), ("msg", .str "recvWindow")])⟩,
    .response ⟨200, [], "", .value (.obj [("serverTime", .int 5000)])⟩,
    .response ⟨200, [], "", .value (.obj [])⟩]

/-- A mutating request sent twice around a resync. -/
theorem request_sends_resync :
    let call : Call := { method := "POST", path := "/api/v1/order", signed := true, mutating := true }
    let run := (sampleTransport.request call).play (scripted resyncReplies) ⟨0, true⟩
    (ownSends call (sends run.1)).length = 2 ∧ sampleTransport.BoundedSending call run.1 run.2.1 := by
  intro call run
  refine ⟨by decide, (request_sends sampleTransport call ⟨0, true⟩).2 run.1 run.2.1 run.2.2
    (Comp.runs_play _ _ _).1 fun _ _ _ _ _ _ => rfl⟩

end Transport

end BinanceTh
