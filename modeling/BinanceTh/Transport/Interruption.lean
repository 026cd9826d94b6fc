import BinanceTh.Transport.Rules

/-!
# What the limiter raises

An exception of the limiter is handled nowhere: no retry, no resync and no reconciliation is about
it. A run in which the limiter raises one ends there, with it as the result, and until then it has
gone as the other runs do (`Interruptible.cases`). This holds of the whole pipeline
(`Transport.interruptible_request`).
-/

namespace BinanceTh

open Interaction

/-- What the limiter has raised at the event. -/
def limiterError? : Ev → Option LimiterError
  | ⟨.acquire _ _, .error e⟩ => some e
  | ⟨.updateFromHeaders _, .error e⟩ => some e
  | _ => none

/-- The limiter has raised nothing. -/
def Smooth (tr : List Ev) : Prop := ∀ ev ∈ tr, limiterError? ev = none

instance (tr : List Ev) : Decidable (Smooth tr) :=
  inferInstanceAs (Decidable (∀ ev ∈ tr, limiterError? ev = none))

/-- What the limiter has raised at the last event is the result. -/
inductive Interrupted (tr : List Ev) : Exc → Prop
  | intro {before : List Ev} {ev : Ev} {e : LimiterError} : tr = before ++ [ev] → Smooth before →
      limiterError? ev = some e → Interrupted tr e.exc

/-- Only the result of a run tells of what the limiter has raised. -/
def Interruptible {α : Type} (c : M α) : Prop :=
  Triple Recording (fun tr _ => Smooth tr) c (fun _ tr _ => Smooth tr)
    fun e tr _ => Smooth tr ∨ Interrupted tr e

theorem smooth_nil : Smooth [] := fun _ h => nomatch h

@[simp] theorem smooth_append {tr₁ tr₂ : List Ev} :
    Smooth (tr₁ ++ tr₂) ↔ Smooth tr₁ ∧ Smooth tr₂ := List.forall_mem_append

@[simp] theorem smooth_cons {ev : Ev} {tr : List Ev} :
    Smooth (ev :: tr) ↔ limiterError? ev = none ∧ Smooth tr := List.forall_mem_cons

theorem Smooth.sublist {tr₁ tr₂ : List Ev} (h : Smooth tr₂) (hsub : tr₁.Sublist tr₂) : Smooth tr₁ :=
  fun ev hev => h ev (hsub.subset hev)

theorem Interrupted.not_smooth {tr : List Ev} {e : Exc} (h : Interrupted tr e) : ¬ Smooth tr := by
  cases h with
  | intro htr _ hev =>
    intro hsmooth
    rw [htr, smooth_append, smooth_cons, hev] at hsmooth
    cases hsmooth.2.1

/-- No exception of the limiter is retried. -/
theorem LimiterError.not_retryable (e : LimiterError) (mutating : Bool) :
    isRetryable mutating e.exc = false := by
  unfold isRetryable
  cases e <;> split <;> rfl

theorem LimiterError.not_timestampError (e : LimiterError) : e.exc.isTimestampError = false := by
  cases e <;> rfl

namespace Interruptible

variable {α β : Type} {c : M α} {f : α → M β} {s s' : TimeSync} {tr : List Ev} {r : Except Exc α}

/-- **An interrupted run** ends where it is interrupted. -/
theorem cases (hc : Interruptible c) (h : Runs c s tr r s') :
    Smooth tr ∨ ∃ e : LimiterError, r = .error e.exc ∧ Interrupted tr e.exc := by
  have hends := hc [] s tr r s' tr smooth_nil h (admits_recording_iff.2 rfl)
  cases r with
  | ok a => exact .inl hends
  | error e =>
    rcases hends with hsmooth | hinterrupted
    · exact .inl hsmooth
    · cases hinterrupted with
      | intro htr hbefore hev => exact .inr ⟨_, rfl, .intro htr hbefore hev⟩

theorem of_cases (h : ∀ s tr r s', Runs c s tr r s' →
    Smooth tr ∨ ∃ e : LimiterError, r = .error e.exc ∧ Interrupted tr e.exc) : Interruptible c := by
  intro past s tr r s' tr' hpast hrun hadm
  obtain rfl := admits_recording_iff.1 hadm
  rcases h s tr r s' hrun with hsmooth | ⟨e, rfl, hinterrupted⟩
  · have hboth := smooth_append.2 ⟨hpast, hsmooth⟩
    cases r with
    | ok a => exact hboth
    | error e => exact .inl hboth
  · generalize e.exc = exc at hinterrupted ⊢
    cases hinterrupted with
    | intro htr hbefore hev =>
      refine .inr (.intro ?_ (smooth_append.2 ⟨hpast, hbefore⟩) hev)
      rw [htr, List.append_assoc]

theorem pure (a : α) : Interruptible (Pure.pure a : M α) := Triple.pure fun _ _ h => h

theorem throw (e : Exc) : Interruptible (MonadExcept.throw e : M α) :=
  Triple.throw fun _ _ h => .inl h

theorem raiseOr (x : Except Exc α) : Interruptible (Interaction.raiseOr x : M α) :=
  Triple.raiseOr fun _ _ h => by
    cases x with
    | ok a => exact h
    | error e => exact .inl h

theorem perform {o : Op} (h : ∀ x : Ans o, limiterError? ⟨o, x⟩ = none) :
    Interruptible (Interaction.perform o : M (Ans o)) := by
  refine Triple.perform ?_
  rintro tr s x tr' hsmooth rfl
  exact smooth_append.2 ⟨hsmooth, smooth_cons.2 ⟨h x, smooth_nil⟩⟩

theorem bind (hc : Interruptible c) (hf : ∀ a, Interruptible (f a)) : Interruptible (c >>= f) :=
  Triple.bind hc hf

/-- A handler passes on what the limiter raises. -/
theorem tryCatch {f : Exc → M α} (hc : Interruptible c) (hf : ∀ e, Interruptible (f e))
    (hpass : ∀ e : LimiterError, f e.exc = MonadExcept.throw e.exc) :
    Interruptible (MonadExcept.tryCatch c f) := by
  refine Triple.tryCatch hc fun e => ?_
  intro tr s tr₁ r s' tr' hbefore hrun hadm
  rcases hbefore with hsmooth | hinterrupted
  · exact hf e tr s tr₁ r s' tr' hsmooth hrun hadm
  · cases hinterrupted with
    | intro htr hbefore hev =>
      rw [hpass] at hrun
      obtain ⟨rfl, rfl, -⟩ := runs_throw_iff.1 hrun
      cases hadm
      exact .inr (.intro htr hbefore hev)

theorem get_bind {f : TimeSync → M α} (h : ∀ s, Interruptible (f s)) :
    Interruptible (get >>= f) :=
  Triple.get_bind fun s => Triple.pre (h s) fun _ _ h => h.1

theorem modify_bind {m : TimeSync → TimeSync} {f : PUnit → M α} (h : Interruptible (f ⟨⟩)) :
    Interruptible (modify m >>= f) := Triple.modify_bind h fun _ _ h => h

end Interruptible

/-! ## The pipeline -/

/-- An operation of the limiter. -/
theorem Interruptible.limiter {o : Op} {answer : Ans o → Except LimiterError Unit}
    (h : ∀ x, limiterError? ⟨o, x⟩ = match answer x with | .ok _ => none | .error e => some e) :
    Interruptible (Interaction.perform o >>= fun x => raiseLimiter (answer x)) := by
  refine .of_cases fun s tr r s' hrun => ?_
  obtain ⟨x, tr', rfl, hraise⟩ := runs_perform_bind_iff.1 hrun
  obtain ⟨rfl, rfl, -⟩ := runs_raiseOr_iff.1 hraise
  have hx := h x
  cases hanswer : answer x with
  | ok u =>
    rw [hanswer] at hx
    exact .inl (smooth_cons.2 ⟨hx, smooth_nil⟩)
  | error e =>
    rw [hanswer] at hx
    exact .inr ⟨e, rfl, .intro rfl smooth_nil hx⟩

theorem interruptible_acquire (weight : ℤ) (mutating : Bool) :
    Interruptible (acquire weight mutating) :=
  .limiter fun x => by cases x <;> rfl

theorem interruptible_updateFromHeaders (headers : Headers) :
    Interruptible (updateFromHeaders headers) :=
  .limiter fun x => by cases x <;> rfl

namespace Transport

variable {T : Transport} {call : Call}

theorem interruptible_logIf (enabled : Bool) (record : LogRecord) :
    Interruptible (logIf enabled record) := by
  unfold logIf
  split
  · exact .perform fun _ => rfl
  · exact .pure ()

theorem interruptible_onReply (net : NetResult) : Interruptible (T.onReply call net) := by
  cases net with
  | timeout message => exact .throw _
  | httpError message => exact .throw _
  | response r =>
    refine .bind (interruptible_updateFromHeaders r.headers) fun _ => .bind (.raiseOr _) fun body => ?_
    exact .bind (interruptible_logIf _ _) fun _ => .pure body

theorem interruptible_transmit (params : Params) : Interruptible (T.transmit call params) := by
  refine .bind (interruptible_logIf _ _) fun _ => .bind (interruptible_acquire _ _) fun _ => ?_
  exact .bind (.perform fun _ => rfl) interruptible_onReply

theorem quiet_smooth : Quiet Recording fun tr _ => Smooth tr := by
  rintro o ho tr s x tr' hsmooth rfl
  refine smooth_append.2 ⟨hsmooth, smooth_cons.2 ⟨?_, smooth_nil⟩⟩
  cases o <;> first | rfl | cases ho

theorem interruptible_executeRest : Interruptible (T.executeRest call) := by
  refine .bind ?_ interruptible_transmit
  unfold sendParams
  split
  · split
    · exact .throw _
    · exact .bind (.perform fun _ => rfl) fun clock => .get_bind fun t => .pure _
  · exact .pure _

theorem interruptible_syncTime : Interruptible T.syncTime := by
  refine .bind interruptible_executeRest fun data => .bind (.raiseOr _) fun serverTime => ?_
  exact .bind (.perform fun _ => rfl) fun clock => .modify_bind (.pure _)

theorem interruptible_execute : Interruptible (T.execute call) := by
  refine .bind (.get_bind fun t => ?_) fun _ => interruptible_executeRest
  split
  · exact .bind interruptible_syncTime fun _ => .pure _
  · exact .pure _

theorem interruptible_attempt : Interruptible (T.attempt call) := by
  refine .tryCatch interruptible_execute (fun e => ?_) fun e => ?_
  · split
    · exact .bind interruptible_syncTime fun _ => interruptible_execute
    · exact .throw e
  · rw [e.not_timestampError, Bool.and_false, if_neg Bool.false_ne_true]

theorem interruptible_request : Interruptible (T.request call) := by
  refine triple_request_of quiet_smooth interruptible_attempt ?_ (fun _ _ h => .inl h)
    fun _ _ h => .inl h
  rintro e tr s hretry (hsmooth | hinterrupted)
  · exact hsmooth
  · cases hinterrupted with
    | @intro before ev err _ _ _ =>
      rw [err.not_retryable] at hretry
      cases hretry

end Transport

end BinanceTh
