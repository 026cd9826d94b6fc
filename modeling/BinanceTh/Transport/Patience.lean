import BinanceTh.Lib.Spending
import BinanceTh.Orders.Session
import BinanceTh.Transport.RetryAfter
import Mathlib.Algebra.BigOperators.Intervals
import Mathlib.Algebra.Order.BigOperators.Group.Finset

/-!
# How long a call takes

A call waits for the limiter, for replies, for the delays of its retries and for the information it
validates with, and for nothing else. From the longest times of these, and the longest `Retry-After`
of a reply, the time of a call is bounded, however its requests fail and are refused. A resync and
the request that is sent again count for an attempt; the synchronization of a client without an
offset is paid once, however often it fails, and not by each call (`WaitTimes.debt`). So a session
takes the sum of the bounds of its calls, and one transmission
(`OrdersClient.session_patience`). One takes as long (`OrdersClient.session_patience_worst`).
-/

namespace BinanceTh

open Interaction

/-- How long what a call waits for takes at most, in seconds; a sleep may end `late`. -/
structure WaitTimes where
  acquire : ℚ
  reply : ℚ
  exchangeInfo : ℚ
  executionRules : ℚ
  late : ℚ
  /-- The longest `Retry-After` of a reply. -/
  retryAfter : ℚ
  acquire_nonneg : 0 ≤ acquire := by norm_num
  reply_nonneg : 0 ≤ reply := by norm_num
  exchangeInfo_nonneg : 0 ≤ exchangeInfo := by norm_num
  executionRules_nonneg : 0 ≤ executionRules := by norm_num
  late_nonneg : 0 ≤ late := by norm_num
  retryAfter_nonneg : 0 ≤ retryAfter := by norm_num

/-- The error asks for no longer a delay. -/
def Exc.Patient (limit : ℚ) (e : Exc) : Prop := ∀ n, e.retryAfter? = some n → (n : ℚ) ≤ limit

theorem LimiterError.patient (e : LimiterError) {limit : ℚ} : e.exc.Patient limit := by
  intro n hn
  cases e <;> cases hn

namespace WaitTimes

variable (w : WaitTimes)

def longest : Op → ℚ
  | .acquire _ _ => w.acquire
  | .send _ => w.reply
  | .sleep seconds => max seconds 0 + w.late
  | .exchangeInfo _ => w.exchangeInfo
  | .executionRules => w.executionRules
  | _ => 0

/-- What is drawn is not above the ceiling, and no reply asks for a longer delay. -/
def Allows : (op : Op) → Ans op → Prop
  | .jitter ceiling, seconds => seconds ≤ max ceiling 0
  | .send _, .response reply => (Exc.api reply.apiError).Patient w.retryAfter
  | _, _ => True

instance {limit : ℚ} {e : Exc} : Decidable (e.Patient limit) :=
  inferInstanceAs (Decidable (∀ n ∈ e.retryAfter?, (n : ℚ) ≤ limit))

instance (op : Op) (x : Ans op) : Decidable (w.Allows op x) := by
  cases op with
  | jitter ceiling => exact inferInstanceAs (Decidable ((x : ℚ) ≤ max ceiling 0))
  | send request =>
    cases x with
    | response reply =>
      exact inferInstanceAs (Decidable ((Exc.api reply.apiError).Patient w.retryAfter))
    | timeout | httpError => exact inferInstanceAs (Decidable True)
  | _ => exact inferInstanceAs (Decidable True)

/-- The world is a clock. -/
def Answers (t : ℚ) (op : Op) (x : Ans op) (t' : ℚ) : Prop := w.Allows op x ∧ t' ≤ t + w.longest op

/-- The longest time of a trace. -/
def total (tr : List Ev) : ℚ := (tr.map fun e => w.longest e.1).sum

def transmission : ℚ := w.acquire + w.reply

/-- The synchronization that is still to come. -/
def debt (s : TimeSync) : ℚ := if s.synced then 0 else w.transmission

/-- The time is `k` at most, with what is to come paid for. -/
def By (k t : ℚ) (s : TimeSync) : Prop := t + w.debt s ≤ k

/-- The delay after an attempt; that of a reply is made a float. -/
def pause (b : BackoffRetryer) (attempt : ℕ) : ℚ :=
  max (roundFloat w.retryAfter) (min b.cap (b.base * b.factor ^ attempt)) + w.late

/-- A request with the synchronizations in it; only one that is safe to repeat is repeated. -/
def request (T : Transport) (mutating : Bool) : ℚ :=
  match T.retryer with
  | .null => 3 * w.transmission
  | .backoff b =>
    if mutating then 3 * w.transmission
    else (T.config.maxRetries + 1) * (3 * w.transmission) +
      ∑ attempt ∈ Finset.range T.config.maxRetries, w.pause b attempt

variable {w}

theorem transmission_nonneg : 0 ≤ w.transmission := add_nonneg w.acquire_nonneg w.reply_nonneg

theorem roundFloat_retryAfter_nonneg : 0 ≤ roundFloat w.retryAfter := by
  have hmono := roundFloat_mono w.retryAfter_nonneg
  rwa [← Int.cast_zero, roundFloat_intCast (by norm_num), Int.cast_zero] at hmono

theorem pause_nonneg {b : BackoffRetryer} {attempt : ℕ} : 0 ≤ w.pause b attempt :=
  add_nonneg (w.roundFloat_retryAfter_nonneg.trans (le_max_left _ _)) w.late_nonneg

theorem debt_nonneg (s : TimeSync) : 0 ≤ w.debt s := by
  unfold debt
  split
  · exact le_rfl
  · exact transmission_nonneg

theorem By.mono {k k' t : ℚ} {s : TimeSync} (h : w.By k t s) (hle : k ≤ k') : w.By k' t s :=
  le_trans h hle

theorem isBudget_by : IsBudget w.By := fun _ _ _ _ hle h => h.mono hle

theorem spends_perform (op : Op) :
    Spends w.Answers w.By (perform op : M (Ans op)) (w.longest op) := by
  refine .perform isBudget_by fun k t s x t' hby hanswer => ?_
  have hlater := hanswer.2
  unfold By at hby ⊢
  linarith

theorem total_nil : w.total [] = 0 := rfl

theorem total_cons (e : Ev) (tr : List Ev) : w.total (e :: tr) = w.longest e.1 + w.total tr := by
  unfold total
  rw [List.map_cons, List.sum_cons]

theorem total_append (tr tr' : List Ev) : w.total (tr ++ tr') = w.total tr + w.total tr' := by
  unfold total
  rw [List.map_append, List.sum_append]

theorem le_of_admits {t t' : ℚ} {tr : List Ev} (h : Admits w.Answers t tr t') :
    t' ≤ t + w.total tr ∧ ∀ e ∈ tr, w.Allows e.1 e.2 := by
  induction h with
  | nil t => exact ⟨by rw [total_nil, add_zero], fun e he => absurd he List.not_mem_nil⟩
  | cons hanswer _ ih =>
    obtain ⟨hle, hallows⟩ := ih
    refine ⟨?_, List.forall_mem_cons.2 ⟨hanswer.1, hallows⟩⟩
    rw [total_cons]
    linarith [hanswer.2]

/-- It can take as long. -/
theorem admits_total {tr : List Ev} (h : ∀ e ∈ tr, w.Allows e.1 e.2) (t : ℚ) :
    Admits w.Answers t tr (t + w.total tr) := by
  induction tr generalizing t with
  | nil =>
    rw [total_nil, add_zero]
    exact .nil t
  | cons e tr ih =>
    obtain ⟨hfirst, hrest⟩ := List.forall_mem_cons.1 h
    rw [total_cons, ← add_assoc]
    exact .cons ⟨hfirst, le_rfl⟩ (ih hrest _)

end WaitTimes

/-! ## Requests -/

namespace Transport

variable {T : Transport} {call : Call} {w : WaitTimes}

theorem patient_of_delivered {net : NetResult} {update : Except LimiterError Unit} {e : Exc}
    (hbare : call.envelope = false)
    (hallows : ∀ reply, net = .response reply → (Exc.api reply.apiError).Patient w.retryAfter)
    (h : T.delivered call (.sent net update) = .error e) : e.Patient w.retryAfter := by
  rcases T.delivered_cases call net update with hout | ⟨raised, hraised⟩
  · cases e with
    | api a =>
      obtain ⟨reply, rfl, -, -, rfl⟩ := (outcome_eq_api_iff hbare).1 (hout.symm.trans h)
      exact hallows reply rfl
    | _ => exact fun n hn => by cases hn
  · obtain rfl := Except.error.inj (hraised.symm.trans h)
    exact raised.patient

/-- What is logged, and reported to the limiter, takes no time; a request that the limiter refuses is
not waited for. -/
theorem total_transmission (T : Transport) (call : Call) (w : WaitTimes) (params : Params)
    (d : Delivery) :
    w.total (T.transmission call params d) ≤ w.transmission := by
  have hlog (enabled : Bool) (record : LogRecord) : w.total (logEvents enabled record) = 0 := by
    cases enabled <;> simp [logEvents, WaitTimes.total, WaitTimes.longest]
  have hacquire (answer : Except LimiterError Unit) :
      w.total [⟨.acquire call.weight call.mutating, answer⟩] = w.acquire := by
    simp [WaitTimes.total, WaitTimes.longest]
  unfold WaitTimes.transmission transmission leadIn announcement
  cases d with
  | refused e =>
    rw [WaitTimes.total_append, hlog, hacquire, zero_add]
    exact le_add_of_nonneg_right w.reply_nonneg
  | sent net update =>
    have hfollow : w.total (T.followUp call net update) = 0 := by
      cases net with
      | timeout | httpError => exact WaitTimes.total_nil
      | response reply =>
        cases update with
        | error e => simp [followUp, WaitTimes.total, WaitTimes.longest]
        | ok u =>
          unfold followUp
          rw [WaitTimes.total_cons]
          split
          · simp [hlog, WaitTimes.longest]
          · simp [WaitTimes.longest, WaitTimes.total_nil]
    rw [WaitTimes.total_append, WaitTimes.total_append, hlog, hacquire, WaitTimes.total_cons,
      hfollow, zero_add, add_zero]
    exact le_rfl

/-- A transmission takes as long as the limiter and the reply do; the offset stays as it is. -/
theorem triple_transmit_by (hbare : call.envelope = false) (params : Params) (k : ℚ)
    (s₀ : TimeSync) :
    Triple w.Answers (fun t s => t ≤ k ∧ s = s₀) (T.transmit call params)
      (fun _ t s => t ≤ k + w.transmission ∧ s = s₀)
      fun e t s => (t ≤ k + w.transmission ∧ s = s₀) ∧ e.Patient w.retryAfter := by
  rintro t s tr r s' t' ⟨ht, rfl⟩ hrun hadm
  obtain ⟨rfl, d, rfl, rfl⟩ := runs_transmit_iff.1 hrun
  obtain ⟨htime, hallows⟩ := WaitTimes.le_of_admits hadm
  have hlater : t' ≤ k + w.transmission := by
    linarith [T.total_transmission call w params d]
  cases hout : T.delivered call d with
  | ok j => exact ⟨hlater, rfl⟩
  | error e =>
    refine ⟨⟨hlater, rfl⟩, ?_⟩
    cases d with
    | refused raised =>
      obtain rfl := Except.error.inj hout
      exact raised.patient
    | sent net update =>
      refine patient_of_delivered hbare (fun reply hreply => ?_) hout
      have hmem : (⟨.send (T.httpRequest call params), net⟩ : Ev) ∈
          T.transmission call params (.sent net update) :=
        List.mem_append_right _ List.mem_cons_self
      have hsent := hallows _ hmem
      rwa [hreply] at hsent

theorem triple_executeRest_by (hbare : call.envelope = false) (k : ℚ) (s₀ : TimeSync) :
    Triple w.Answers (fun t s => t ≤ k ∧ s = s₀) (T.executeRest call)
      (fun _ t s => t ≤ k + w.transmission ∧ s = s₀)
      fun e t s => (t ≤ k + w.transmission ∧ s = s₀) ∧ e.Patient w.retryAfter := by
  refine Triple.bind (Q := fun _ t s => t ≤ k ∧ s = s₀) ?_ fun params =>
    triple_transmit_by hbare params k s₀
  unfold sendParams
  split
  · split
    · refine .throw fun t s h => ⟨⟨?_, h.2⟩, fun n hn => by cases hn⟩
      linarith [h.1, w.transmission_nonneg]
    · refine Triple.bind (Q := fun _ t s => t ≤ k ∧ s = s₀) (.perform ?_) fun clock =>
        .get_bind fun s => .pure fun _ _ h => h.1
      rintro t s x t' ⟨hle, rfl⟩ ⟨-, hlater⟩
      exact ⟨hlater.trans (by simpa [WaitTimes.longest] using hle), rfl⟩
  · exact .pure fun _ _ h => h

/-- A synchronization sets the offset or leaves it as it is. -/
theorem triple_syncTime_by (k : ℚ) (s₀ : TimeSync) :
    Triple w.Answers (fun t s => t ≤ k ∧ s = s₀) T.syncTime
      (fun _ t s => t ≤ k + w.transmission ∧ s.synced = true)
      fun e t s => (t ≤ k + w.transmission ∧ s = s₀) ∧ e.Patient w.retryAfter := by
  refine (triple_executeRest_by rfl k s₀).bind fun data => ?_
  refine Triple.bind (Q := fun _ t s => t ≤ k + w.transmission ∧ s = s₀) (.raiseOr ?_)
    fun time => ?_
  · intro t s h
    cases hdecode : ServerTime.decode T.pydantic data with
    | ok time => exact h
    | error e =>
      have hdec := ServerTime.raisesDecodeErrors T.pydantic data e hdecode
      refine ⟨h, fun n hn => ?_⟩
      cases e <;> simp [Exc.retryAfter?, Exc.isDecodeError] at hn hdec
  · refine Triple.bind (Q := fun _ t _ => t ≤ k + w.transmission) (.perform ?_) fun clock =>
      .modify_bind (.pure fun _ _ h => h) fun t s h => ⟨h, rfl⟩
    rintro t s x t' ⟨hle, -⟩ ⟨-, hlater⟩
    exact hlater.trans (by simpa [WaitTimes.longest] using hle)

theorem triple_resync_by (k : ℚ) :
    Triple w.Answers (w.By k) T.syncTime (fun _ => w.By (k + w.transmission))
      fun e t s => w.By (k + w.transmission) t s ∧ e.Patient w.retryAfter := by
  refine Triple.of_start fun t₀ s₀ hby => ?_
  unfold WaitTimes.By at hby
  have hdebt : 0 ≤ w.debt s₀ := w.debt_nonneg s₀
  refine (triple_syncTime_by t₀ s₀).conseq ?_ ?_ ?_
  · rintro t s ⟨rfl, rfl⟩
    exact ⟨le_rfl, rfl⟩
  · rintro time t s ⟨hle, hsynced⟩
    unfold WaitTimes.By WaitTimes.debt
    rw [if_pos hsynced]
    linarith
  · rintro e t s ⟨⟨hle, rfl⟩, he⟩
    refine ⟨?_, he⟩
    unfold WaitTimes.By
    linarith

/-- `_execute` takes one transmission: that of a first synchronization has been paid for. -/
theorem triple_execute_by (hbare : call.envelope = false) (k : ℚ) :
    Triple w.Answers (w.By k) (T.execute call) (fun _ => w.By (k + w.transmission))
      fun e t s => w.By (k + w.transmission) t s ∧ e.Patient w.retryAfter := by
  refine Triple.bind (Q := fun _ => w.By k) ?_ fun _ => ?_
  · refine .get_bind fun s₀ => ?_
    split
    · next hunsynced =>
      have hdebt : w.debt s₀ = w.transmission := by
        rw [Bool.and_eq_true, Bool.not_eq_true'] at hunsynced
        exact if_neg (by simp [hunsynced.2])
      have hbefore (t : ℚ) (s : TimeSync) (h : w.By k t s ∧ s = s₀) :
          t ≤ k - w.transmission ∧ s = s₀ := by
        obtain ⟨hby, rfl⟩ := h
        refine ⟨?_, rfl⟩
        unfold WaitTimes.By at hby
        linarith
      refine Triple.bind (Q := fun _ => w.By k) ?_ fun _ => .pure fun _ _ h => h
      refine (triple_syncTime_by (k - w.transmission) s₀).conseq hbefore ?_ ?_
      · rintro time t s ⟨hle, hsynced⟩
        unfold WaitTimes.By WaitTimes.debt
        rw [if_pos hsynced]
        linarith
      · rintro e t s ⟨⟨hle, rfl⟩, he⟩
        refine ⟨?_, he⟩
        unfold WaitTimes.By
        linarith
    · exact .pure fun _ _ h => h.1
  · refine Triple.of_start fun t₀ s₀ hby => ?_
    unfold WaitTimes.By at hby
    have hends (t : ℚ) (s : TimeSync) (h : t ≤ t₀ + w.transmission ∧ s = s₀) :
        w.By (k + w.transmission) t s := by
      obtain ⟨hle, rfl⟩ := h
      unfold WaitTimes.By
      linarith
    refine (triple_executeRest_by hbare t₀ s₀).conseq ?_ (fun _ t s h => hends t s h)
      fun _ t s h => ⟨hends t s h.1, h.2⟩
    rintro t s ⟨rfl, rfl⟩
    exact ⟨le_rfl, rfl⟩

theorem triple_attempt_by (hbare : call.envelope = false) (k : ℚ) :
    Triple w.Answers (w.By k) (T.attempt call) (fun _ => w.By (k + 3 * w.transmission))
      fun e t s => w.By (k + 3 * w.transmission) t s ∧ e.Patient w.retryAfter := by
  have hnonneg : 0 ≤ w.transmission := w.transmission_nonneg
  have hlast (k' : ℚ) (hle : k' + w.transmission ≤ k + 3 * w.transmission) :=
    (triple_execute_by (T := T) (w := w) hbare k').conseq (fun _ _ h => h)
      (fun _ t s h => WaitTimes.By.mono h hle) fun _ t s h => And.intro (h.1.mono hle) h.2
  refine Triple.tryCatch (F := fun e t s => w.By (k + w.transmission) t s ∧ e.Patient w.retryAfter)
    ((triple_execute_by hbare k).conseq (fun _ _ h => h)
      (fun _ t s h => h.mono (by linarith)) fun _ _ _ h => h) fun e => ?_
  split
  · refine Triple.bind (Q := fun _ => w.By (k + 2 * w.transmission)) ?_ fun _ =>
      hlast _ (by linarith)
    exact (triple_resync_by (k + w.transmission)).conseq (fun _ _ h => h.1)
      (fun _ _ _ h => h.mono (by linarith)) fun _ _ _ h => ⟨h.1.mono (by linarith), h.2⟩
  · exact .throw fun t s h => ⟨h.1.mono (by linarith), h.2⟩

end Transport

namespace BackoffRetryer

variable {α : Type} {w : WaitTimes} {b : BackoffRetryer} {fn : M α} {retryable : Exc → Bool} {d : ℚ}

/-- The delay after an error and the sleep for it. -/
theorem triple_pause_by {e : Exc} {attempt : ℕ} {k : ℚ} (hpatient : e.Patient w.retryAfter) :
    Triple w.Answers (w.By k) (b.delay e attempt >>= sleep)
      (fun _ => w.By (k + w.pause b attempt))
      fun e t s => w.By (k + w.pause b attempt) t s ∧ e.Patient w.retryAfter := by
  have hpause : 0 ≤ w.pause b attempt := w.pause_nonneg
  refine Triple.bind (Q := fun seconds t s => w.By k t s ∧
    max seconds 0 ≤ max (roundFloat w.retryAfter) (min b.cap (b.base * b.factor ^ attempt))) ?_
    fun seconds => ?_
  · unfold delay
    split
    · exact .throw fun t s h => ⟨h.mono (by linarith), fun n hn => by cases hn⟩
    · split
      · next n hn =>
        have hnonneg := w.roundFloat_retryAfter_nonneg
        refine .pure fun t s h => ⟨h, max_le ?_ (hnonneg.trans (le_max_left _ _))⟩
        exact (roundFloat_mono (hpatient n hn)).trans (le_max_left _ _)
      · refine .perform fun t s seconds t' h hanswer => ⟨?_, max_le ?_ ?_⟩
        · exact le_trans (add_le_add_left (hanswer.2.trans (by simp [WaitTimes.longest])) _) h
        · refine le_trans hanswer.1 (max_le (le_max_right _ _) ?_)
          exact w.roundFloat_retryAfter_nonneg.trans (le_max_left _ _)
        · exact w.roundFloat_retryAfter_nonneg.trans (le_max_left _ _)
  · refine .perform fun t s x t' h hanswer => ?_
    have hlater : t' ≤ t + (max seconds 0 + w.late) := hanswer.2
    have hby := h.1
    have hle := h.2
    unfold WaitTimes.By at hby ⊢
    unfold WaitTimes.pause
    linarith

/-- **The retry loop** takes its attempts and the delays between them. -/
theorem spends_runFrom (hd : 0 ≤ d)
    (hfn : ∀ k, Triple w.Answers (w.By k) fn (fun _ => w.By (k + d))
      fun e t s => w.By (k + d) t s ∧ e.Patient w.retryAfter) (left : ℕ) :
    ∀ attempt, Spends w.Answers w.By (b.runFrom fn retryable left attempt)
      ((left + 1) * d + ∑ i ∈ Finset.Ico attempt (attempt + left), w.pause b i) := by
  induction left with
  | zero =>
    intro attempt
    have honce : Spends w.Answers w.By fn d := .of_triple WaitTimes.isBudget_by hfn
    exact honce.mono (by simp)
  | succ left ih =>
    intro attempt k k' hle
    have hend : attempt + (left + 1) = attempt + 1 + left := by omega
    rw [Finset.sum_eq_sum_Ico_succ_bot (by omega), hend] at hle
    push_cast at hle
    have hrest : 0 ≤ ∑ i ∈ Finset.Ico (attempt + 1) (attempt + 1 + left), w.pause b i :=
      Finset.sum_nonneg fun _ _ => w.pause_nonneg
    have hpause : 0 ≤ w.pause b attempt := w.pause_nonneg
    have hleft : 0 ≤ (left : ℚ) * d := mul_nonneg left.cast_nonneg hd
    have hnow : k + d ≤ k' := by linarith
    refine Triple.tryCatch (F := fun e t s => w.By (k + d) t s ∧ e.Patient w.retryAfter)
      ((hfn k).conseq (fun _ _ h => h) (fun _ _ _ h => h.mono hnow) fun _ _ _ h => h) fun e => ?_
    split
    · refine .of_fact fun hpatient => ?_
      rw [← bind_assoc]
      refine Triple.bind (triple_pause_by hpatient |>.conseq (fun _ _ h => h) (fun _ _ _ h => h)
        fun _ _ _ h => h.1.mono (by linarith)) fun _ => ih (attempt + 1) _ _ (by linarith)
    · exact .throw fun t s h => h.1.mono hnow

/-- Without retries there is one attempt. -/
theorem runFrom_of_not_retryable (left attempt : ℕ) {H : ℚ → (o : Op) → Ans o → ℚ → Prop}
    {P : ℚ → TimeSync → Prop} {Q : α → ℚ → TimeSync → Prop} {E : Exc → ℚ → TimeSync → Prop}
    (hretryable : ∀ e, retryable e = false) (hfn : Triple H P fn Q E) :
    Triple H P (b.runFrom fn retryable left attempt) Q E := by
  cases left with
  | zero => exact hfn
  | succ left =>
    refine hfn.tryCatch fun e => ?_
    rw [if_neg (by simp [hretryable e])]
    exact .throw fun _ _ h => h

end BackoffRetryer

namespace WaitTimes

variable {w : WaitTimes} {T : Transport}

theorem request_nonneg {mutating : Bool} : 0 ≤ w.request T mutating := by
  have hattempt : 0 ≤ 3 * w.transmission := mul_nonneg (by norm_num) w.transmission_nonneg
  unfold request
  split
  · exact hattempt
  · split
    · exact hattempt
    · exact add_nonneg (mul_nonneg (by positivity) hattempt)
        (Finset.sum_nonneg fun _ _ => w.pause_nonneg)

end WaitTimes

/-- **A request** ends in time, whatever its replies are. -/
theorem Transport.spends_request {T : Transport} {w : WaitTimes} (call : Call)
    (hbare : call.envelope = false) :
    Spends w.Answers w.By (T.request call) (w.request T call.mutating) := by
  have hnonneg : 0 ≤ 3 * w.transmission := mul_nonneg (by norm_num) w.transmission_nonneg
  have honce : Spends w.Answers w.By (T.attempt call) (3 * w.transmission) :=
    .of_triple WaitTimes.isBudget_by (triple_attempt_by hbare)
  unfold Transport.request
  split
  · exact (Spends.throw WaitTimes.isBudget_by _).mono WaitTimes.request_nonneg
  · unfold Retryer.run WaitTimes.request
    cases T.retryer with
    | null => exact honce
    | backoff b =>
      dsimp only
      cases hmutating : call.mutating with
      | true =>
        rw [if_pos rfl]
        exact fun k k' hle => BackoffRetryer.runFrom_of_not_retryable _ _ (fun e => rfl)
          (honce k k' hle)
      | false =>
        rw [if_neg Bool.false_ne_true, Finset.range_eq_Ico]
        have hloop : Spends w.Answers w.By
            (b.runFrom (T.attempt call) (isRetryable false) T.config.maxRetries 0) _ :=
          BackoffRetryer.spends_runFrom hnonneg (triple_attempt_by hbare) T.config.maxRetries 0
        rwa [zero_add] at hloop

/-! ## Sessions -/

namespace OrdersClient

variable {C : OrdersClient} {w : WaitTimes} {calls : List SessionCall}

/-- The longest time of a call, apart from a first synchronization. -/
def longest (C : OrdersClient) (w : WaitTimes) : SessionCall → ℚ
  | .createOrder args =>
    (if args.validate then 2 * w.exchangeInfo + w.executionRules else 0) +
      (w.request C.transport true + w.request C.transport false)
  | .cancelOrder _ _ _ _ => w.request C.transport true
  | .queryOrder _ _ _ _ => w.request C.transport false
  | .serverTime => w.transmission

theorem spends_validateIf (args : CreateOrderArgs) (order : OrderRequest) :
    Spends w.Answers w.By (C.validateIf args order)
      (if args.validate then 2 * w.exchangeInfo + w.executionRules else 0) := by
  have hB : IsBudget w.By := w.isBudget_by
  have hinfo (force : Bool) : Spends w.Answers w.By (fetchExchangeInfo force) w.exchangeInfo :=
    (w.spends_perform (.exchangeInfo force)).bind_zero hB fun answer => .raiseOr hB answer
  have hfound (symbol : String) :
      Spends w.Answers w.By (symbolInfo symbol) (w.exchangeInfo + w.exchangeInfo) := by
    refine (hinfo false).bind hB w.exchangeInfo_nonneg fun info => ?_
    split
    · exact (Spends.pure hB _).mono w.exchangeInfo_nonneg
    · exact (hinfo true).bind_zero hB fun info => .pure hB _
  have hrules (symbol : String) :
      Spends w.Answers w.By (C.symbolRules symbol) w.executionRules := by
    unfold symbolRules
    split
    · refine Spends.bind_zero hB ?_ fun rules => .pure hB _
      exact (w.spends_perform .executionRules).bind_zero hB fun answer => .raiseOr hB answer
    · exact (Spends.pure hB _).mono w.executionRules_nonneg
  unfold validateIf
  split
  · rw [two_mul]
    refine (hfound order.symbol).bind hB w.executionRules_nonneg fun found => ?_
    split
    · exact (Spends.throw hB _).mono w.executionRules_nonneg
    · exact (hrules order.symbol).bind_zero hB fun rules => .raiseOr hB _
  · exact .pure hB order

theorem spends_queryOrder (symbol : String) (orderId : Option ℤ) (id : Option String)
    (recvWindow : Option ℤ) : Spends w.Answers w.By (C.queryOrder symbol orderId id recvWindow)
      (w.request C.transport false) :=
  Spends.zero_bind w.isBudget_by w.request_nonneg (.raiseOr w.isBudget_by _) fun request =>
    (Transport.spends_request (queryCall request) rfl).bind_zero w.isBudget_by fun _ =>
      .raiseOr w.isBudget_by _

/-- **An order** is placed, refused or asked for in time. -/
theorem spends_createOrder (args : CreateOrderArgs) :
    Spends w.Answers w.By (C.createOrder args) (C.longest w (.createOrder args)) := by
  have hB : IsBudget w.By := w.isBudget_by
  have hmint : Spends w.Answers w.By mintId 0 := w.spends_perform .mintId
  have hprepare : Spends w.Answers w.By (C.prepare args)
      (if args.validate then 2 * w.exchangeInfo + w.executionRules else 0) := by
    have hnonneg : 0 ≤ if args.validate then 2 * w.exchangeInfo + w.executionRules else 0 := by
      split
      · linarith [w.exchangeInfo_nonneg, w.executionRules_nonneg]
      · exact le_rfl
    refine Spends.zero_bind hB hnonneg (.raiseOr hB _) fun order => ?_
    split
    · refine Spends.zero_bind hB hnonneg ?_ fun id =>
        (spends_validateIf args _).bind_zero hB fun order => .pure hB _
      unfold chooseId
      split
      · split
        · exact hmint
        · exact .pure hB _
      · exact hmint
    · exact (Spends.throw hB _).mono hnonneg
  refine hprepare.bind hB (add_nonneg w.request_nonneg w.request_nonneg) fun prepared => ?_
  refine Spends.tryCatch hB ?_ w.request_nonneg fun e => ?_
  · exact (Transport.spends_request (postCall prepared.1) rfl).bind_zero hB fun raw =>
      .raiseOr hB _
  · split
    · refine Spends.mono (d := w.request C.transport false + 0) ?_ (add_zero _).le
      refine Spends.tryCatch hB (spends_queryOrder _ _ _ _) le_rfl fun e => ?_
      split <;> exact .throw hB _
    · exact (Spends.throw hB _).mono w.request_nonneg

theorem longest_nonneg (call : SessionCall) : 0 ≤ C.longest w call := by
  cases call with
  | createOrder args =>
    refine add_nonneg ?_ (add_nonneg w.request_nonneg w.request_nonneg)
    split
    · linarith [w.exchangeInfo_nonneg, w.executionRules_nonneg]
    · exact le_rfl
  | cancelOrder | queryOrder => exact w.request_nonneg
  | serverTime => exact w.transmission_nonneg

theorem spends_call (call : SessionCall) :
    Spends w.Answers w.By (C.call call) (C.longest w call) := by
  have hB : IsBudget w.By := w.isBudget_by
  cases call with
  | createOrder args => exact (spends_createOrder args).bind_zero hB fun _ => .pure hB _
  | cancelOrder symbol orderId id recvWindow =>
    refine Spends.bind_zero hB ?_ fun _ => .pure hB _
    refine Spends.zero_bind hB w.request_nonneg (.raiseOr hB _) fun request => ?_
    exact (Transport.spends_request (cancelCall request) rfl).bind_zero hB fun _ =>
      .raiseOr hB _
  | queryOrder symbol orderId id recvWindow =>
    exact (spends_queryOrder symbol orderId id recvWindow).bind_zero hB fun _ => .pure hB _
  | serverTime =>
    have hsync : Spends w.Answers w.By C.transport.syncTime w.transmission :=
      .of_triple hB Transport.triple_resync_by
    exact hsync.bind_zero hB fun _ => .pure hB _

theorem spends_session (calls : List SessionCall) :
    Spends w.Answers w.By (C.session calls) (calls.map (C.longest w)).sum := by
  have hB : IsBudget w.By := w.isBudget_by
  induction calls with
  | nil => exact .pure hB _
  | cons call calls ih =>
    have hrest : 0 ≤ (calls.map (C.longest w)).sum :=
      List.sum_nonneg (List.forall_mem_map.2 fun call _ => longest_nonneg call)
    rw [List.map_cons, List.sum_cons]
    refine Spends.bind hB ?_ hrest fun _ => ih
    exact ((spends_call call).tryCatch hB le_rfl fun _ => .pure hB _).mono (add_zero _).le

/-- **A session takes** the longest times of its calls at most, and one transmission more if the
client has no offset yet, whatever fails, is refused, resynchronized and retried. -/
theorem session_patience {s s' : TimeSync} {tr : List Ev} {r : Except Exc Unit} {t t' : ℚ}
    (h : Runs (C.session calls) s tr r s') (hadm : Admits w.Answers t tr t') :
    t' ≤ t + (if s.synced then 0 else w.transmission) + (calls.map (C.longest w)).sum := by
  have hends := spends_session calls _ _ le_rfl _ _ _ _ _ _ (le_refl (t + w.debt s)) h hadm
  have hby : w.By (t + w.debt s + (calls.map (C.longest w)).sum) t' s' := by cases r <;> exact hends
  exact le_trans (le_add_of_nonneg_right (w.debt_nonneg s')) hby

def sampleWaits : WaitTimes where
  acquire := 1
  reply := 2
  exchangeInfo := 3
  executionRules := 4
  late := 1
  retryAfter := 5

/-- A client that retries once. -/
def patientOrders : OrdersClient where
  transport := .ofConfig { sampleTransport.config with maxRetries := 1 } (fun _ _ => "digest")
    samplePydantic fun _ => ""
  hasExecutionRules := false
  useExecutionRules := false

def timeTold : NetResult := .response ⟨200, [], "", .value (.obj [("serverTime", .int 0)])⟩

def timestampRefused : NetResult := .response ⟨400, [], "", .value (.obj [("code", .int (-1021))])⟩

/-- The first order of a client: each attempt is refused once for its timestamp, the status of the
order is unknown, and the query for it is told to come back later. -/
def worstSession : List Ev × Except Exc Unit × TimeSync :=
  (patientOrders.session [.createOrder (sampleArgs (some "a"))]).play
    (scripted [timeTold, timestampRefused, timeTold, unavailable, timestampRefused, timeTold,
      .response (Transport.limitedReply .invalid), timestampRefused, timeTold, notFound]) .init

/-- It takes exactly as long: ten transmissions, and six seconds between two attempts. -/
theorem session_patience_worst :
    ∃ t', Admits sampleWaits.Answers 0 worstSession.1 t' ∧ t' = 36 ∧
      t' = 0 + sampleWaits.transmission +
        patientOrders.longest sampleWaits (.createOrder (sampleArgs (some "a"))) := by
  have hallows : ∀ e ∈ worstSession.1, sampleWaits.Allows e.1 e.2 := by decide +kernel
  have hadm := sampleWaits.admits_total hallows 0
  have htotal : (0 : ℚ) + sampleWaits.total worstSession.1 = 36 := by decide +kernel
  have hbound : (0 : ℚ) + sampleWaits.transmission +
      patientOrders.longest sampleWaits (.createOrder (sampleArgs (some "a"))) ≤ 36 := by
    decide +kernel
  rw [htotal] at hadm
  have hle := session_patience (Comp.runs_play _ _ _).1 hadm
  rw [List.map_singleton, List.sum_singleton] at hle
  exact ⟨36, hadm, rfl, le_antisymm hle hbound⟩

end OrdersClient

end BinanceTh
