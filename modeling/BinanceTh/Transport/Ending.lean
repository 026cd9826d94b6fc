import BinanceTh.Transport.Exchanges

/-!
# Replies that end an attempt

Any reply but a timestamp error is the last one of its attempt. The limiter takes its usage headers,
or raises at them, and then the attempt ends with the reply's result, or with what the limiter has
raised, without another send (`EndsWith`). The rules follow the program's text down to
`EndsWith.attempt`.
-/

namespace BinanceTh

open Interaction

/-- A split of two lists at an element is a split of one of them. -/
theorem append_eq_split {α : Type} {l₁ l₂ before after : List α} {x : α}
    (h : l₁ ++ l₂ = before ++ x :: after) :
    (∃ after₁, l₁ = before ++ x :: after₁ ∧ after = after₁ ++ l₂) ∨
      ∃ before₂, before = l₁ ++ before₂ ∧ l₂ = before₂ ++ x :: after := by
  rcases List.append_eq_append_iff.1 h with ⟨c, hbefore, hl₂⟩ | ⟨c, hl₁, hrest⟩
  · exact .inr ⟨c, hbefore, hl₂⟩
  · cases c with
    | nil => exact .inr ⟨[], by simpa using hl₁.symm, by simpa using hrest.symm⟩
    | cons y c =>
      obtain ⟨hy, hafter⟩ := List.cons.inj hrest
      subst hy
      exact .inl ⟨c, hl₁, hafter⟩

theorem singleton_eq_split {α : Type} {before after : List α} {x y : α}
    (h : [y] = before ++ x :: after) : x = y ∧ after = [] := by
  cases before with
  | nil =>
    obtain ⟨hy, hafter⟩ := List.cons.inj h
    exact ⟨hy.symm, hafter.symm⟩
  | cons z before => simp at h

/-- No event in a list without exchanges is a send. -/
theorem not_send_of_sends_nil {tr mid rest : List Ev} {request : HttpRequest} {net : NetResult}
    (htr : sends tr = []) (h : tr = mid ++ ⟨.send request, net⟩ :: rest) : False := by
  rw [h, sends_append, List.append_eq_nil_iff] at htr
  cases htr.2

/-- What goes before a send has gone smoothly. -/
theorem Interruptible.smooth_before_send {α : Type} {c : M α} (hc : Interruptible c)
    {s s' : TimeSync} {tr before after : List Ev} {out : Except Exc α} {request : HttpRequest}
    {net : NetResult} (hrun : Runs c s tr out s')
    (htr : tr = before ++ ⟨.send request, net⟩ :: after) : Smooth before := by
  rcases hc.cases hrun with hsmooth | ⟨e, -, hinterrupted⟩
  · exact (smooth_append.1 (htr ▸ hsmooth)).1
  · generalize e.exc = exc at hinterrupted
    cases hinterrupted with
    | @intro before' ev _ heq hbefore hev =>
      rcases append_eq_split (heq.symm.trans htr) with ⟨after₁, hsplit, -⟩ | ⟨before₂, -, hsplit⟩
      · exact (smooth_append.1 (hsplit ▸ hbefore)).1
      · obtain ⟨rfl, -⟩ := singleton_eq_split hsplit
        cases hev

/-! ## Computations that send nothing -/

/-- The computation neither sends nor sleeps, asks nothing of the limiter, and leaves the offset
manager alone. -/
def Silent {α : Type} (c : M α) : Prop :=
  ∀ s tr r s', Runs c s tr r s' → s' = s ∧ sends tr = [] ∧ sleeps tr = 0 ∧ Smooth tr

section Silent

variable {α β : Type}

theorem silent_pure (a : α) : Silent (pure a : M α) := by
  intro s tr r s' h
  obtain ⟨rfl, -, rfl⟩ := runs_pure_iff.1 h
  exact ⟨rfl, rfl, rfl, smooth_nil⟩

theorem silent_throw (e : Exc) : Silent (throw e : M α) := by
  intro s tr r s' h
  obtain ⟨rfl, -, rfl⟩ := runs_throw_iff.1 h
  exact ⟨rfl, rfl, rfl, smooth_nil⟩

theorem silent_raiseOr (x : Except Exc α) : Silent (raiseOr x : M α) := by
  intro s tr r s' h
  obtain ⟨rfl, -, rfl⟩ := runs_raiseOr_iff.1 h
  exact ⟨rfl, rfl, rfl, smooth_nil⟩

theorem silent_perform {o : Op} (hsend : ∀ x : Ans o, sends [⟨o, x⟩] = [])
    (hsleep : ∀ x : Ans o, sleeps [⟨o, x⟩] = 0)
    (hsmooth : ∀ x : Ans o, limiterError? ⟨o, x⟩ = none) :
    Silent (perform o : M (Ans o)) := by
  intro s tr r s' h
  obtain ⟨x, rfl, -, rfl⟩ := runs_perform_iff.1 h
  exact ⟨rfl, hsend x, hsleep x, smooth_cons.2 ⟨hsmooth x, smooth_nil⟩⟩

theorem silent_bind {c : M α} {f : α → M β} (hc : Silent c) (hf : ∀ a, Silent (f a)) :
    Silent (c >>= f) := by
  intro s tr r s' h
  rcases runs_bind_iff.1 h with ⟨e, rfl, h₁⟩ | ⟨a, tr₁, s₁, tr₂, rfl, h₁, h₂⟩
  · exact hc _ _ _ _ h₁
  · obtain ⟨rfl, hsends, hsleeps, hsmooth⟩ := hc _ _ _ _ h₁
    obtain ⟨rfl, hsends', hsleeps', hsmooth'⟩ := hf a _ _ _ _ h₂
    exact ⟨rfl, by simp [hsends, hsends'], by simp [hsleeps, hsleeps'],
      smooth_append.2 ⟨hsmooth, hsmooth'⟩⟩

theorem silent_readClock : Silent readClock :=
  silent_perform (fun _ => rfl) (fun _ => rfl) fun _ => rfl

theorem Silent.interruptible {c : M α} (h : Silent c) : Interruptible c :=
  .of_cases fun s tr r s' hrun => .inl (h s tr r s' hrun).2.2.2

end Silent

/-! ## Ending -/

/-- After the reply the limiter takes its usage headers. -/
def HeadersTaken (reply : Response) (after : List Ev) : Prop :=
  ∃ rest, after = ⟨.updateFromHeaders reply.headers, .ok ()⟩ :: rest

/-- In every run a reply to a request with `p` is followed by what the limiter makes of its headers,
and by no other send, and the result is one that `Q` allows. -/
def EndsWith {α : Type} (p : HttpRequest → Bool) (reply : Response)
    (Q : Except LimiterError Unit → Except Exc α → Prop) (c : M α) : Prop :=
  ∀ s tr out s', Runs c s tr out s' → ∀ before request after, p request = true →
    tr = before ++ ⟨.send request, .response reply⟩ :: after →
    ∃ update rest, after = ⟨.updateFromHeaders reply.headers, update⟩ :: rest ∧
      sends rest = [] ∧ Q update out

/-- The result is an exception that `Q` allows. -/
def Raising {α β : Type} (Q : Except LimiterError Unit → Except Exc β → Prop)
    (update : Except LimiterError Unit) (out : Except Exc α) : Prop :=
  ∃ e, out = .error e ∧ Q update (.error e)

namespace EndsWith

variable {α β : Type} {p : HttpRequest → Bool} {reply : Response} {c : M α}
  {Q : Except LimiterError Unit → Except Exc α → Prop}

/-- A computation that sends no request with `p`. -/
theorem of_unsent (h : ∀ s tr out s', Runs c s tr out s' → ∀ x ∈ sends tr, p x.1 = false) :
    EndsWith p reply Q c := by
  intro s tr out s' hrun before request after hp htr
  have hmem : (request, NetResult.response reply) ∈ sends tr := by
    rw [htr, sends_append]
    exact List.mem_append_right _ List.mem_cons_self
  rw [h s tr out s' hrun _ hmem] at hp
  cases hp

theorem of_silent (h : Silent c) : EndsWith p reply Q c :=
  of_unsent fun s tr out s' hrun x hx => by
    rw [(h s tr out s' hrun).2.1] at hx
    cases hx

theorem bind {Q : Except LimiterError Unit → Except Exc β → Prop} {f : α → M β}
    (hc : EndsWith p reply (Raising Q) c) (hf : ∀ a, EndsWith p reply Q (f a)) :
    EndsWith p reply Q (c >>= f) := by
  intro s tr out s' hrun before request after hp htr
  rcases runs_bind_iff.1 hrun with ⟨e, rfl, hfail⟩ | ⟨a, tr₁, s₁, tr₂, happ, hfirst, hrest⟩
  · obtain ⟨update, rest, hafter, hsends, e', he, hQ⟩ := hc _ _ _ _ hfail _ _ _ hp htr
    obtain rfl := Except.error.inj he
    exact ⟨update, rest, hafter, hsends, hQ⟩
  · rcases append_eq_split (happ.symm.trans htr) with ⟨after₁, htr₁, -⟩ | ⟨before₂, -, htr₂⟩
    · obtain ⟨_, _, _, _, _, hout, -⟩ := hc _ _ _ _ hfirst _ _ _ hp htr₁
      cases hout
    · exact hf a _ _ _ _ hrest _ _ _ hp htr₂

/-- What is made of the value in the end. -/
theorem bind_raiseOr {Q' : Except LimiterError Unit → Except Exc β → Prop} {g : α → Except Exc β}
    (hc : EndsWith p reply Q c) (hQ : ∀ update out, Q update out → Q' update (out >>= g)) :
    EndsWith p reply Q' (c >>= fun a => raiseOr (g a)) := by
  intro s tr out s' hrun before request after hp htr
  rcases runs_bind_iff.1 hrun with ⟨e, rfl, hfail⟩ | ⟨a, tr₁, s₁, tr₂, happ, hfirst, hrest⟩
  · obtain ⟨update, rest, hafter, hsends, hout⟩ := hc _ _ _ _ hfail _ _ _ hp htr
    exact ⟨update, rest, hafter, hsends, hQ update _ hout⟩
  · obtain ⟨rfl, rfl, -⟩ := runs_raiseOr_iff.1 hrest
    rw [List.append_nil] at happ
    obtain ⟨update, rest, hafter, hsends, hout⟩ := hc _ _ _ _ hfirst _ _ _ hp (happ ▸ htr)
    exact ⟨update, rest, hafter, hsends, hQ update _ hout⟩

/-- A handler passes the exception on. -/
theorem tryCatch {f : Exc → M α} (hc : EndsWith p reply Q c) (hf : ∀ e, EndsWith p reply Q (f e))
    (hpass : ∀ update e, Q update (.error e) → f e = MonadExcept.throw e) :
    EndsWith p reply Q (MonadExcept.tryCatch c f) := by
  intro s tr out s' hrun before request after hp htr
  rcases runs_tryCatch_iff.1 hrun with ⟨a, rfl, hvalue⟩ | ⟨e, tr₁, s₁, tr₂, happ, hfail, hrest⟩
  · exact hc _ _ _ _ hvalue _ _ _ hp htr
  · rcases append_eq_split (happ.symm.trans htr) with ⟨after₁, htr₁, hafter⟩ | ⟨before₂, -, htr₂⟩
    · obtain ⟨update, rest, hafter₁, hsends, hQ⟩ := hc _ _ _ _ hfail _ _ _ hp htr₁
      rw [hpass update e hQ] at hrest
      obtain ⟨rfl, rfl, -⟩ := runs_throw_iff.1 hrest
      rw [List.append_nil] at hafter
      exact ⟨update, rest, hafter.trans hafter₁, hsends, hQ⟩
    · exact hf e _ _ _ _ hrest _ _ _ hp htr₂

theorem get_bind {f : TimeSync → M α} (h : ∀ s, EndsWith p reply Q (f s)) :
    EndsWith p reply Q (get >>= f) := fun s => h s s

theorem modify_bind {m : TimeSync → TimeSync} {f : PUnit → M α} (h : EndsWith p reply Q (f ⟨⟩)) :
    EndsWith p reply Q (modify m >>= f) := fun s => h (m s)

end EndsWith

/-! ## The pipeline -/

namespace Transport

variable {T : Transport} {call : Call} {p : HttpRequest → Bool} {reply : Response}
  {Q : Except LimiterError Unit → Except Exc Json → Prop}

theorem endsWith_transmit {params : Params} (h : p (T.httpRequest call params) = true →
      ∀ update, Q update (T.delivered call (.sent (.response reply) update))) :
    EndsWith p reply Q (T.transmit call params) := by
  intro s tr out s' hrun before request after hp htr
  obtain ⟨-, d, rfl, rfl⟩ := runs_transmit_iff.1 hrun
  cases d with
  | refused e => exact (not_send_of_sends_nil (T.sends_transmission params (.refused e)) htr).elim
  | sent net update =>
    have hlead : sends (T.leadIn call params) = [] := by
      unfold leadIn announcement
      rw [sends_append, sends_logEvents]
      rfl
    -- the lead-in sends nothing, and neither does what follows
    rcases append_eq_split htr with ⟨after₁, hsplit, -⟩ | ⟨before₂, -, hsplit⟩
    · exact (not_send_of_sends_nil hlead hsplit).elim
    · cases before₂ with
      | cons ev before₂ =>
        exact (not_send_of_sends_nil (T.silent_followUp net update).1
          (List.cons.inj hsplit).2).elim
      | nil =>
        obtain ⟨hev, hafter⟩ := List.cons.inj hsplit
        obtain ⟨rfl, rfl⟩ : request = T.httpRequest call params ∧ net = .response reply := by
          cases hev
          exact ⟨rfl, rfl⟩
        have hsilent : sends (T.followUp call (.response reply) update) = [] :=
          (T.silent_followUp (.response reply) update).1
        refine ⟨update, (T.followUp call (.response reply) update).tail, ?_, ?_, h hp update⟩
        · rw [← hafter]
          cases update <;> rfl
        · cases update <;> exact hsilent

theorem silent_sendParams : Silent (T.sendParams call) := by
  unfold sendParams
  split
  · split
    · exact silent_throw _
    · refine silent_bind silent_readClock fun clock => ?_
      exact fun s tr r s' hrun => silent_pure _ s tr r s' hrun
  · exact silent_pure _

theorem endsWith_executeRest (h : (∃ params, p (T.httpRequest call params) = true) →
      ∀ update, Q update (T.delivered call (.sent (.response reply) update))) :
    EndsWith p reply Q (T.executeRest call) :=
  .bind (.of_silent silent_sendParams) fun params => endsWith_transmit fun hp => h ⟨params, hp⟩

/-- A synchronization answered so fails. -/
theorem endsWith_syncTime {α : Type} {Q : Except LimiterError Unit → Except Exc α → Prop}
    (h : (∃ params, p (T.httpRequest timeCall params) = true) →
      ∀ update, Raising Q update (T.delivered timeCall (.sent (.response reply) update))) :
    EndsWith p reply (Raising Q) T.syncTime := by
  refine .bind (endsWith_executeRest fun hp update => ?_) fun data => ?_
  · obtain ⟨e, he, hQ⟩ := h hp update
    exact ⟨e, he, e, rfl, hQ⟩
  · refine .bind (.of_silent (silent_raiseOr _)) fun serverTime => ?_
    exact .bind (.of_silent silent_readClock) fun clock => .modify_bind (.of_silent (silent_pure _))

theorem endsWith_execute
    (hown : ∀ update, Q update (T.delivered call (.sent (.response reply) update)))
    (htime : (∃ params, p (T.httpRequest timeCall params) = true) →
      ∀ update, Raising Q update (T.delivered timeCall (.sent (.response reply) update))) :
    EndsWith p reply Q (T.execute call) := by
  refine .bind (.get_bind fun t => ?_) fun _ => endsWith_executeRest fun _ => hown
  split
  · refine .bind (endsWith_syncTime fun hp update => ?_) fun _ => .of_silent (silent_pure _)
    obtain ⟨e, he, hQ⟩ := htime hp update
    exact ⟨e, he, e, rfl, hQ⟩
  · exact .of_silent (silent_pure _)

/-- **A reply ends its attempt** if it is no timestamp error; one with an exception ends it also
where it answers a synchronization. -/
theorem endsWith_attempt
    (hown : ∀ update, Q update (T.delivered call (.sent (.response reply) update)))
    (htime : (∃ params, p (T.httpRequest timeCall params) = true) →
      ∀ update, Raising Q update (T.delivered timeCall (.sent (.response reply) update)))
    (hfinal : ∀ update e, Q update (.error e) → e.isTimestampError = false) :
    EndsWith p reply Q (T.attempt call) := by
  refine .tryCatch (endsWith_execute hown htime) (fun e => ?_) fun update e hQ => ?_
  · split
    · exact .bind (endsWith_syncTime htime) fun _ => endsWith_execute hown htime
    · exact .of_silent (silent_throw e)
  · rw [hfinal update e hQ, Bool.and_false, if_neg Bool.false_ne_true]

/-- A mutating request makes one attempt. -/
theorem endsWith_request_mutating (hmut : call.mutating = true)
    (hattempt : EndsWith p reply Q (T.attempt call)) : EndsWith p reply Q (T.request call) := by
  have hnever (e : Exc) : isRetryable call.mutating e = false := by
    rw [hmut]
    rfl
  unfold Transport.request
  split
  · exact .of_silent (silent_throw _)
  · unfold Retryer.run
    split
    · exact hattempt
    · unfold BackoffRetryer.runFrom
      split
      · exact hattempt
      · refine .tryCatch hattempt (fun e => ?_) fun update e _ => ?_
        · rw [hnever e, if_neg Bool.false_ne_true]
          exact .of_silent (silent_throw e)
        · rw [hnever e, if_neg Bool.false_ne_true]

end Transport

end BinanceTh
