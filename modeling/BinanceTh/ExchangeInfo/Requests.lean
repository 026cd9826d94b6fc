import BinanceTh.ExchangeInfo
import BinanceTh.Lib.Counting

/-!
# The requests of `exchange_info`

However many tasks call `exchange_info` at once, the lock lets one fetch at a time, and what waits
for it looks at the cache again. So but for one, each request is paid for by a fetch that has failed
or by a call with `force` (`InfoClient.run_requests`).
-/

namespace BinanceTh

open Transition

def InfoCall.isWaiting (call : InfoCall) : Bool :=
  match call.phase with
  | .waiting => true
  | _ => false

namespace InfoClient

variable (parse : Json → Except Exc LimitedExchangeInfo)

/-- A call sends its request. -/
def sendsRequest (s : InfoClient) : InfoLabel → Bool
  | .lock i => (s.step parse (.lock i)).any fun s' => s'.calls[i]?.any InfoCall.isFetching
  | _ => false

/-- A fetch ends without a result for the cache. -/
def failsFetch (s : InfoClient) : InfoLabel → Bool
  | .reply _ raw => (parse raw).isOk = false
  | .fail _ _ => true
  | .cancel i => s.calls[i]?.any InfoCall.isFetching
  | _ => false

def isForced : InfoLabel → Bool
  | .call force => force
  | _ => false

def forcedWaiting (s : InfoClient) : ℕ := s.calls.countP fun call => call.force && call.isWaiting

/-- The fetch that nothing has to pay for: the cache is empty, and none is on its way. -/
def needsFetch (s : InfoClient) : ℕ :=
  if s.exchangeInfo.isSome || s.calls.any InfoCall.isFetching then 0 else 1

/-- How many requests can still be sent. -/
def unsent (s : InfoClient) : ℕ := s.needsFetch + s.forcedWaiting

variable {parse} {s s' : InfoClient} {l : InfoLabel} {rules₀ : List RateLimit}
  {labels : List InfoLabel}

theorem needsFetch_le_one (s : InfoClient) : s.needsFetch ≤ 1 := by
  unfold needsFetch
  split <;> omega

theorem needsFetch_of_any (h : s.calls.any InfoCall.isFetching = true) : s.needsFetch = 0 := by
  unfold needsFetch
  rw [h, Bool.or_true]
  rfl

/-- A call goes on, and is none that waits with `force`. -/
theorem forcedWaiting_setCall {i : ℕ} {call call' : InfoCall} (hget : s.calls[i]? = some call)
    (hdone : (call'.force && call'.isWaiting) = false) :
    (s.setCall i call').forcedWaiting + (call.force && call.isWaiting).toNat = s.forcedWaiting := by
  obtain ⟨hlt, hcall⟩ := List.getElem?_eq_some_iff.1 hget
  have hle : (call.force && call.isWaiting).toNat ≤ s.forcedWaiting := by
    cases hwaits : call.force && call.isWaiting with
    | false => exact Nat.zero_le _
    | true => exact List.countP_pos_iff.2 ⟨call, List.mem_of_getElem? hget, hwaits⟩
  unfold forcedWaiting setCall at *
  rw [List.countP_set hlt, hcall, hdone]
  cases hwaits : call.force && call.isWaiting with
  | false => simp
  | true =>
    rw [hwaits] at hle
    simp only [if_true, Bool.false_eq_true, if_false, Bool.toNat_true] at hle ⊢
    omega

/-- **One fetch at a time.** -/
def OneFetch (s : InfoClient) : Prop := s.calls.countP InfoCall.isFetching ≤ 1

theorem countP_isFetching_setCall {i : ℕ} {call call' : InfoCall} (hget : s.calls[i]? = some call)
    (hdone : call'.isFetching = false) :
    (s.setCall i call').calls.countP InfoCall.isFetching ≤ s.calls.countP InfoCall.isFetching := by
  obtain ⟨hlt, hcall⟩ := List.getElem?_eq_some_iff.1 hget
  unfold setCall
  dsimp only
  rw [List.countP_set hlt, hdone]
  simp

theorem any_isFetching_setCall {i : ℕ} {call call' : InfoCall} (hget : s.calls[i]? = some call)
    (hsame : call'.isFetching = call.isFetching) :
    (s.setCall i call').calls.any InfoCall.isFetching = s.calls.any InfoCall.isFetching := by
  obtain ⟨hlt, hcall⟩ := List.getElem?_eq_some_iff.1 hget
  have hcount : (s.setCall i call').calls.countP InfoCall.isFetching =
      s.calls.countP InfoCall.isFetching := by
    unfold setCall
    dsimp only
    rw [List.countP_set hlt, hcall, hsame]
    cases hfetching : call.isFetching with
    | false => simp
    | true =>
      have hpos : 0 < s.calls.countP InfoCall.isFetching :=
        List.countP_pos_iff.2 ⟨call, List.mem_of_getElem? hget, hfetching⟩
      simp only [if_true]
      omega
  rw [Bool.eq_iff_iff, List.any_eq_true, List.any_eq_true, ← List.countP_pos_iff,
    ← List.countP_pos_iff, hcount]

/-- A call that neither fetches nor begins to leaves the fetch as it is. -/
theorem needsFetch_setCall {i : ℕ} {call call' : InfoCall} (hget : s.calls[i]? = some call)
    (hsame : call'.isFetching = call.isFetching) :
    (s.setCall i call').needsFetch = s.needsFetch := by
  unfold needsFetch
  rw [any_isFetching_setCall hget hsame]
  rfl

/-- The lock is given to a call. -/
theorem unsent_lock {i : ℕ} (h : s.step parse (.lock i) = some s') :
    s'.unsent + (s.sendsRequest parse (.lock i)).toNat ≤ s.unsent ∧ (s.OneFetch → s'.OneFetch) := by
  have hsends : s.sendsRequest parse (.lock i) = s'.calls[i]?.any InfoCall.isFetching := by
    rw [sendsRequest, h]
    rfl
  rw [hsends]
  simp only [step] at h
  split at h
  · next call hget =>
    split at h
    · next hphase =>
      obtain ⟨hfree, h⟩ := Option.ite_none_left_eq_some.1 h
      have hnone : s.calls.any InfoCall.isFetching = false := Bool.eq_false_of_not_eq_true hfree
      have hwaits : call.isWaiting = true := by simp [InfoCall.isWaiting, hphase]
      obtain ⟨hlt, hcall⟩ := List.getElem?_eq_some_iff.1 hget
      obtain rfl := Option.some.inj h
      have hself (call' : InfoCall) : (s.setCall i call').calls[i]? = some call' :=
        List.getElem?_set_self hlt
      cases hcached : s.cached? call.force with
      | some info =>
        have hforced : (s.setCall i { call with phase := .returned (.ok info) }).forcedWaiting + _ =
          s.forcedWaiting := forcedWaiting_setCall hget (Bool.and_false _)
        have hsame : (s.setCall i { call with phase := .returned (.ok info) }).needsFetch =
          s.needsFetch := needsFetch_setCall hget (by simp [InfoCall.isFetching, hphase])
        refine ⟨?_, (countP_isFetching_setCall hget rfl).trans⟩
        unfold unsent
        dsimp only
        rw [hself, hsame, Option.any_some, InfoCall.isFetching, Bool.toNat_false]
        omega
      | none =>
        have hforced :
            (s.setCall i { call with requested := true, phase := .fetching }).forcedWaiting + _ =
              s.forcedWaiting := forcedWaiting_setCall hget (Bool.and_false _)
        have hfetching :
            (s.setCall i { call with requested := true, phase := .fetching }).needsFetch = 0 :=
          needsFetch_of_any (List.any_eq_true.2 ⟨_, List.mem_of_getElem? (hself _), rfl⟩)
        constructor
        · -- a call without `force` has found the cache empty
          have hpaid : 1 ≤ s.needsFetch + (call.force && call.isWaiting).toNat := by
            cases hforce : call.force with
            | true => simp [hwaits]
            | false =>
              rw [hforce] at hcached
              have hempty : s.exchangeInfo = none := hcached
              simp [needsFetch, hempty, hnone]
          unfold unsent
          dsimp only
          rw [hself, hfetching, Option.any_some, InfoCall.isFetching, Bool.toNat_true]
          omega
        · intro _
          have hzero : s.calls.countP InfoCall.isFetching = 0 :=
            List.countP_eq_zero.2 fun c hc => by simpa using List.any_eq_false.1 hnone c hc
          unfold OneFetch setCall
          dsimp only
          rw [List.countP_set hlt, hzero, Nat.zero_sub, Nat.zero_add]
          split <;> simp
    · cases h
  · cases h

/-- A fetch that has failed leaves one to be sent. -/
theorem unsent_failed {i : ℕ} {call : InfoCall} (call' : InfoCall) (hget : s.calls[i]? = some call)
    (hdone : (call'.force && call'.isWaiting) = false) (hended : call'.isFetching = false) :
    (s.setCall i call').unsent ≤ s.forcedWaiting + 1 ∧
      (s.OneFetch → (s.setCall i call').OneFetch) := by
  have hforced := forcedWaiting_setCall hget hdone
  have hone := (s.setCall i call').needsFetch_le_one
  refine ⟨?_, (countP_isFetching_setCall hget hended).trans⟩
  unfold unsent
  omega

/-- A call with `force` is one more to be sent. -/
theorem unsent_call {force : Bool} (h : s.step parse (.call force) = some s') :
    s'.unsent + (s.sendsRequest parse (.call force)).toNat ≤
        s.unsent + (s.failsFetch parse (.call force) || isForced (.call force)).toNat ∧
      (s.OneFetch → s'.OneFetch) := by
  obtain rfl := Option.some.inj h
  have hnot {call : InfoCall} (hcall : call.isFetching = false) :
      (s.calls ++ [call]).any InfoCall.isFetching = s.calls.any InfoCall.isFetching := by
    rw [List.any_append, List.any_cons, List.any_nil, hcall, Bool.or_false, Bool.or_false]
  have hcount {call : InfoCall} (hcall : call.isFetching = false) :
      (s.calls ++ [call]).countP InfoCall.isFetching = s.calls.countP InfoCall.isFetching := by
    rw [List.countP_append, List.countP_singleton, hcall]
    rfl
  cases hcached : s.cached? force with
  | some info =>
    unfold unsent needsFetch forcedWaiting OneFetch
    dsimp only
    rw [hnot rfl, hcount rfl, List.countP_append]
    simp [InfoCall.isWaiting, sendsRequest]
  | none =>
    unfold unsent needsFetch forcedWaiting OneFetch
    dsimp only
    rw [hnot rfl, hcount rfl, List.countP_append]
    cases force with
    | false => simp [InfoCall.isWaiting, sendsRequest]
    | true =>
      refine ⟨?_, id⟩
      simp only [InfoCall.isWaiting, sendsRequest, isForced, Bool.or_true, Bool.toNat_true,
        Bool.toNat_false, List.countP_singleton, Bool.and_true, if_true]
      omega

/-- A fetch has ended with a reply. -/
theorem unsent_reply {i : ℕ} {raw : Json} (h : s.step parse (.reply i raw) = some s') :
    s'.unsent + (s.sendsRequest parse (.reply i raw)).toNat ≤
        s.unsent + (s.failsFetch parse (.reply i raw) || isForced (.reply i raw)).toNat ∧
      (s.OneFetch → s'.OneFetch) := by
  simp only [step] at h
  split at h
  · next call hget =>
    split at h
    · next hphase =>
      split at h
      · next info hparse =>
        obtain rfl := Option.some.inj h
        have hforced : (s.store i call info).forcedWaiting + _ = s.forcedWaiting :=
          forcedWaiting_setCall hget (Bool.and_false _)
        have hcached : (s.store i call info).needsFetch = 0 := rfl
        have hsends : s.sendsRequest parse (.reply i raw) = false := rfl
        refine ⟨?_, (countP_isFetching_setCall hget rfl).trans⟩
        unfold unsent
        rw [hcached, hsends, Bool.toNat_false]
        omega
      · next e hparse =>
        obtain rfl := Option.some.inj h
        have hfails : s.failsFetch parse (.reply i raw) = true := by
          simp [failsFetch, hparse, Except.isOk, Except.toBool]
        obtain ⟨hle, hone⟩ := unsent_failed { call with phase := .returned (.error e) } hget
          (Bool.and_false _) rfl
        refine ⟨?_, hone⟩
        rw [hfails, Bool.true_or, Bool.toNat_true]
        exact hle.trans (Nat.add_le_add_right (Nat.le_add_left _ _) 1)
    · cases h
  · cases h

theorem unsent_cancel {i : ℕ} (h : s.step parse (.cancel i) = some s') :
    s'.unsent + (s.sendsRequest parse (.cancel i)).toNat ≤
        s.unsent + (s.failsFetch parse (.cancel i) || isForced (.cancel i)).toNat ∧
      (s.OneFetch → s'.OneFetch) := by
  simp only [step] at h
  split at h
  · next call hget =>
    have hforced : (s.setCall i { call with phase := .cancelled }).forcedWaiting + _ =
      s.forcedWaiting := forcedWaiting_setCall hget (Bool.and_false _)
    split at h
    · next hphase =>
      obtain rfl := Option.some.inj h
      refine ⟨?_, (countP_isFetching_setCall hget rfl).trans⟩
      have hsame : (s.setCall i { call with phase := .cancelled }).needsFetch = s.needsFetch :=
        needsFetch_setCall hget (by simp [InfoCall.isFetching, hphase])
      have hsends : s.sendsRequest parse (.cancel i) = false := rfl
      unfold unsent
      rw [hsame, hsends, Bool.toNat_false]
      omega
    · next hphase =>
      obtain rfl := Option.some.inj h
      have hfails : s.failsFetch parse (.cancel i) = true := by
        simp [failsFetch, hget, InfoCall.isFetching, hphase]
      obtain ⟨hle, hone⟩ := unsent_failed { call with phase := .cancelled } hget
        (Bool.and_false _) rfl
      refine ⟨?_, hone⟩
      rw [hfails, Bool.true_or, Bool.toNat_true]
      exact hle.trans (Nat.add_le_add_right (Nat.le_add_left _ _) 1)
    · cases h
  · cases h

/-- **One step.** A request that is sent could be sent, and something pays for each that can be. -/
theorem unsent_step (h : s.step parse l = some s') :
    s'.unsent + (s.sendsRequest parse l).toNat ≤
        s.unsent + (s.failsFetch parse l || isForced l).toNat ∧ (s.OneFetch → s'.OneFetch) := by
  cases l with
  | call force => exact unsent_call h
  | lock i =>
    obtain ⟨hunsent, hone⟩ := unsent_lock h
    exact ⟨hunsent, hone⟩
  | reply i raw => exact unsent_reply h
  | fail i e =>
    simp only [step] at h
    split at h
    · next call hget =>
      split at h
      · obtain rfl := Option.some.inj h
        obtain ⟨hle, hone⟩ := unsent_failed { call with phase := .returned (.error e) } hget
          (Bool.and_false _) rfl
        exact ⟨hle.trans (Nat.add_le_add_right (Nat.le_add_left _ _) 1), hone⟩
      · cases h
    · cases h
  | cancel i => exact unsent_cancel h
  | limiter now call =>
    obtain rfl := Option.some.inj h
    exact ⟨le_rfl, id⟩

/-- **The requests of a run.** One fetch is on its way at most, in every state. Over the run there
are no more requests than fetches that have failed and calls with `force`, and one. -/
theorem run_requests (hrun : (system parse rules₀).run (system parse rules₀).init labels = some s) :
    s.OneFetch ∧
      (system parse rules₀).count (sendsRequest parse) (system parse rules₀).init labels ≤
        (system parse rules₀).count (fun s l => failsFetch parse s l || isForced l)
          (system parse rules₀).init labels + 1 := by
  have hguarded : (system parse rules₀).Guarded (fun _ _ => True) (system parse rules₀).init
      labels := System.guarded_of_forall (P := fun _ => True) labels (fun _ _ => trivial) _
  have hinit : (system parse rules₀).init.OneFetch := Nat.zero_le 1
  constructor
  · exact System.run_invariant (I := OneFetch)
      (fun _ _ _ hone _ hstep => (unsent_step hstep).2 hone) labels hinit hguarded hrun
  · have hle := System.add_count_le (P := sendsRequest parse) (I := fun _ => True)
      (Q := fun s l => failsFetch parse s l || isForced l) unsent
      (fun _ _ _ _ _ hstep => ⟨trivial, (unsent_step hstep).1⟩) labels trivial hguarded hrun
    have hinit : (system parse rules₀).init.unsent = 1 := rfl
    omega

/-- Two calls at once, of which one has `force`; the first fetch fails. -/
def failedFetch : List InfoLabel :=
  [.call false, .call true, .lock 0, .fail 0 (.networkError "down"), .call false, .lock 1,
    .reply 1 (infoReply 1), .lock 2]

/-- The last call finds the cache filled. -/
theorem run_requests_failedFetch :
    ∃ s, (system (parseInfoReply 1) defaultRateLimits).run
        (system (parseInfoReply 1) defaultRateLimits).init failedFetch = some s ∧ s.OneFetch ∧
      (system (parseInfoReply 1) defaultRateLimits).count (sendsRequest (parseInfoReply 1))
        (system (parseInfoReply 1) defaultRateLimits).init failedFetch = 2 ∧ 2 ≤ 2 + 1 := by
  obtain ⟨s, hrun⟩ := Option.isSome_iff_exists.1 (show ((system (parseInfoReply 1)
    defaultRateLimits).run (system (parseInfoReply 1) defaultRateLimits).init failedFetch).isSome by
      rfl)
  obtain ⟨hone, hle⟩ := run_requests hrun
  have hsent : (system (parseInfoReply 1) defaultRateLimits).count (sendsRequest (parseInfoReply 1))
      (system (parseInfoReply 1) defaultRateLimits).init failedFetch = 2 := by rfl
  have hpaid : (system (parseInfoReply 1) defaultRateLimits).count
      (fun s l => failsFetch (parseInfoReply 1) s l || isForced l)
      (system (parseInfoReply 1) defaultRateLimits).init failedFetch = 2 := by rfl
  rw [hsent, hpaid] at hle
  exact ⟨s, hrun, hone, hsent, hle⟩

end InfoClient

end BinanceTh
