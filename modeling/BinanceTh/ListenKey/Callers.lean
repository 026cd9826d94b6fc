import BinanceTh.ListenKey

/-!
# The callers of the listenKey manager

Two properties of every run. At most one task of `_do_create` is unfinished, as long as no call that
made a task wakes up when the slot holds an unfinished one (`run_singleFlight`): it clears the slot,
whatever is in it. A caller that is not cancelled gets what its task ended with, and that is no
cancellation, as long as nobody cancels a caller whose task has another waiter, nor joins a task
that is being cancelled (`run_undisturbed`).
-/

namespace BinanceTh

open Tasks Transition

namespace ListenKeyManager

variable {apiKey : Option String} {s s' : ListenKeyManager} {l : ListenKeyLabel}
  {ls : List ListenKeyLabel}

/-! ## Single flight -/

/-- At most one `_do_create` is in progress. -/
def SingleFlight (s : ListenKeyManager) : Prop :=
  ∀ t u, unfinished s.tasks t = true → unfinished s.tasks u = true → t = u

/-- A call that made its task finds no unfinished task in the slot when it wakes up. -/
def ClearsSettled (s : ListenKeyManager) : ListenKeyLabel → Prop
  | .wake c => ∀ call ∈ s.calls[c]?, call.maker = true →
      ∀ t ∈ s.inflight, unfinished s.tasks t = false
  | _ => True

/-- An unfinished task is in the slot. -/
def Held (s : ListenKeyManager) : Prop :=
  ∀ t, unfinished s.tasks t = true → s.inflight = some t

theorem Held.singleFlight (h : s.Held) : s.SingleFlight := by
  intro t u ht hu
  exact Option.some.inj ((h t ht).symm.trans (h u hu))

/-- If the slot holds no unfinished task, there is none. -/
theorem Held.not_unfinished (h : s.Held) (hslot : ∀ t ∈ s.inflight, unfinished s.tasks t = false)
    (t : ℕ) : unfinished s.tasks t = false := by
  cases hun : unfinished s.tasks t with
  | false => rfl
  | true =>
    have hclear := hslot t (h t hun)
    rw [hun] at hclear
    cases hclear

theorem held_steps (h : Steps s l s') (hheld : s.Held) (hclears : s.ClearsSettled l) : s'.Held := by
  cases h with
  | join hslot hun => exact hheld
  | make hslot =>
    intro t ht
    rcases (unfinished_spawn _ _).1 ht with rfl | ht
    · rfl
    · rw [hheld.not_unfinished hslot t] at ht
      cases ht
  | begin hget hun =>
    intro t ht
    exact hheld t ((begin_eq hget hun t).1 ▸ ht)
  | finish keys outcome hget hun hreq =>
    intro t ht
    exact hheld t (unfinished_settle_done.1 ht).2
  | @wake c call outcome hget hres hout =>
    intro t ht
    change unfinished s.tasks t = true at ht
    change (if call.maker then none else s.inflight) = some t
    split
    · next hmaker =>
      rw [hheld.not_unfinished (hclears call hget hmaker) t] at ht
      cases ht
    · exact hheld t ht
  | cancel hget hres hun =>
    intro t ht
    have hsame : unfinished s.tasks t = true := by
      rw [← unfinished_requestCancel]
      exact ht
    exact hheld t hsame
  | cancelLate hget hres hdone => exact hheld

/-- **Single flight.** -/
theorem run_singleFlight (hclears : (system apiKey).Guarded ClearsSettled new ls)
    (hrun : (system apiKey).run new ls = some s) : s.SingleFlight := by
  have hnew : new.Held := by
    intro t ht
    cases ht
  refine Held.singleFlight (System.run_invariant ?_ ls hnew hclears hrun)
  intro s l s' hheld hclears hstep
  exact held_steps (steps_of_step hstep) hheld hclears

/-- Two callers start together, a third one starts after them. -/
def sharedFlight : List ListenKeyLabel :=
  [.create, .create, .begin 0, .reply 0 listenKeyReply, .wake 0, .wake 1, .create, .begin 1]

theorem run_singleFlight_shared :
    ∃ s, (system (some "key")).run new sharedFlight = some s ∧ unfinished s.tasks 1 = true ∧
      s.SingleFlight := by
  have hclears : (system (some "key")).Guarded ClearsSettled new sharedFlight := by
    refine System.guarded_cons trivial rfl <| System.guarded_cons trivial rfl <|
      System.guarded_cons trivial rfl <| System.guarded_cons trivial rfl <|
      System.guarded_cons ?_ rfl <| System.guarded_cons ?_ rfl <|
      System.guarded_cons trivial rfl <| System.guarded_cons trivial rfl trivial
    · intro call _ _ t ht
      obtain rfl := Option.some.inj ht
      rfl
    · intro call _ _ t ht
      cases ht
  exact ⟨_, rfl, rfl, run_singleFlight hclears rfl⟩

/-- A caller comes between the end of the task and the wake-up of the call that made it. -/
def lateClear : List ListenKeyLabel :=
  [.create, .begin 0, .reply 0 listenKeyReply, .create, .wake 0, .begin 1, .create, .begin 2]

/-- The slot is cleared under the second task, so a third one starts. -/
theorem not_run_singleFlight_lateClear :
    ∃ s, (system (some "key")).run new lateClear = some s ∧
      s.tasks[1]? = some ⟨.running, false⟩ ∧ s.tasks[2]? = some ⟨.running, false⟩ ∧
      ¬ s.SingleFlight := by
  refine ⟨_, rfl, rfl, rfl, ?_⟩
  intro hflight
  cases hflight 1 2 rfl rfl

/-- After any other wake-up the next call makes a second task. -/
theorem not_singleFlight_create {c t : ℕ} {call : CreateCall} {outcome : Outcome Unit Exc}
    (hmaker : call.maker = true) (hun : unfinished s.tasks t = true) :
    ¬ (s.wakeCall c call outcome).create.SingleFlight := by
  intro hflight
  have hcleared : (s.wakeCall c call outcome).inflight = none := by
    change (if call.maker then none else s.inflight) = none
    rw [if_pos hmaker]
  have htasks : (s.wakeCall c call outcome).create.tasks = spawn s.tasks := by
    unfold create shared?
    rw [hcleared]
    rfl
  unfold SingleFlight at hflight
  rw [htasks] at hflight
  have hsame := hflight t s.tasks.length ((unfinished_spawn _ _).2 (.inr hun))
    ((unfinished_spawn _ _).2 (.inl rfl))
  have hlt := lt_length_of_unfinished hun
  omega

/-! ## Cancelled callers -/

/-- A caller that is not cancelled gets what its task ended with; that is not a cancellation. -/
def Undisturbed (s : ListenKeyManager) : Prop :=
  ∀ (c : ℕ) (call : CreateCall), s.calls[c]? = some call → call.cancelled = false →
    ∀ outcome ∈ call.result,
      outcome ≠ .cancelled ∧ outcome? s.tasks call.waiter.task = some outcome

/-- A caller is cancelled only if no other waits for its task, and nobody joins a task that is being
cancelled. -/
def CancelsAlone (s : ListenKeyManager) : ListenKeyLabel → Prop
  | .create => ∀ t ∈ s.inflight, cancelPending s.tasks t = false
  | .cancel c => ∀ call : CreateCall, s.calls[c]? = some call →
      unfinished s.tasks call.waiter.task = true →
      ∀ (c' : ℕ) (call' : CreateCall), s.calls[c']? = some call' → call'.cancelled = false →
        call'.result = none → call'.waiter.task = call.waiter.task → c' = c
  | _ => True

/-- A call waits for a task that nobody cancels, or got what the task ended with. -/
structure Served (tasks : List (Task Unit Exc)) (call : CreateCall) : Prop where
  exists_task : call.waiter.task < tasks.length
  mustCancel : call.waiter.mustCancel = false
  waits : call.result = none →
    cancelPending tasks call.waiter.task = false ∧ outcome? tasks call.waiter.task ≠ some .cancelled
  ended : ∀ outcome ∈ call.result,
    outcome ≠ .cancelled ∧ outcome? tasks call.waiter.task = some outcome

/-- Every call whose caller is not cancelled is served. -/
def AllServed (s : ListenKeyManager) : Prop :=
  ∀ (c : ℕ) (call : CreateCall), s.calls[c]? = some call → call.cancelled = false →
    Served s.tasks call

theorem AllServed.undisturbed (h : s.AllServed) : s.Undisturbed :=
  fun c call hcall hnot => (h c call hcall hnot).ended

namespace Served

variable {tasks tasks' : List (Task Unit Exc)} {call : CreateCall}

/-- Nothing happens to the call's task. -/
theorem of_tasks_eq (h : Served tasks call) (hlength : tasks.length ≤ tasks'.length)
    (hcancel : cancelPending tasks' call.waiter.task = cancelPending tasks call.waiter.task)
    (hout : outcome? tasks' call.waiter.task = outcome? tasks call.waiter.task) :
    Served tasks' call where
  exists_task := Nat.lt_of_lt_of_le h.exists_task hlength
  mustCancel := h.mustCancel
  waits hres := by
    rw [hcancel, hout]
    exact h.waits hres
  ended outcome hres := by
    rw [hout]
    exact h.ended outcome hres

theorem spawn (h : Served tasks call) : Served (spawn tasks) call :=
  h.of_tasks_eq (by simp [Tasks.spawn]) (cancelPending_spawn _ _) (outcome?_spawn _ _)

theorem begin {t : ℕ} {task : Task Unit Exc} (h : Served tasks call) (hget : tasks[t]? = some task)
    (hun : task.unfinished = true) : Served (settle tasks t .running) call := by
  obtain ⟨-, hcancel, hout⟩ := begin_eq hget hun call.waiter.task
  exact h.of_tasks_eq (by simp [settle]) hcancel hout

theorem of_unfinished {t : ℕ} {maker : Bool} (hun : unfinished tasks t = true)
    (hcancel : cancelPending tasks t = false) :
    Served tasks ⟨⟨t, false⟩, maker, false, none⟩ := by
  refine ⟨lt_length_of_unfinished hun, rfl, fun _ => ⟨hcancel, fun hout => ?_⟩,
    fun outcome hmem => absurd hmem (Option.not_mem_none outcome)⟩
  have hdone := not_unfinished_of_outcome? hout
  rw [hun] at hdone
  cases hdone

/-- Another caller is cancelled. -/
theorem requestCancel {t : ℕ} (h : Served tasks call)
    (hother : call.result = none → call.waiter.task ≠ t) :
    Served (requestCancel tasks t) call where
  exists_task := by simpa [Tasks.requestCancel] using h.exists_task
  mustCancel := h.mustCancel
  waits hres := by
    rw [cancelPending_requestCancel_of_ne (hother hres), outcome?_requestCancel]
    exact h.waits hres
  ended outcome hres := by
    rw [outcome?_requestCancel]
    exact h.ended outcome hres

/-- A task ends as cancelled only if it was asked to. -/
theorem finish {t : ℕ} {task : Task Unit Exc} {outcome : Outcome Unit Exc} (h : Served tasks call)
    (hget : tasks[t]? = some task) (hun : task.unfinished = true)
    (hreq : outcome = .cancelled → task.cancelRequested = true) :
    Served (settle tasks t (.done outcome)) call := by
  have hlt : t < tasks.length := (List.getElem?_eq_some_iff.1 hget).1
  by_cases hmine : call.waiter.task = t
  · have hnone : outcome? tasks t = none := by
      rw [outcome?_of_getElem? hget]
      exact Option.isNone_iff_eq_none.1 hun
    have hres : call.result = none := by
      rw [Option.eq_none_iff_forall_not_mem]
      intro o ho
      have hended := (h.ended o ho).2
      rw [hmine, hnone] at hended
      cases hended
    refine ⟨by simpa [settle] using h.exists_task, h.mustCancel, fun _ => ⟨?_, ?_⟩, ?_⟩
    · rw [Bool.eq_false_iff]
      intro hpending
      exact (cancelPending_settle_done.1 hpending).1 hmine
    · rw [outcome?_settle_done hlt, if_pos hmine]
      intro heq
      have hquiet := (h.waits hres).1
      rw [hmine, cancelPending_of_getElem? hget, hun, hreq (Option.some.inj heq)] at hquiet
      cases hquiet
    · rw [hres]
      exact fun outcome hmem => absurd hmem (Option.not_mem_none outcome)
  · refine h.of_tasks_eq (by simp [settle]) ?_ ?_
    · rw [Bool.eq_iff_iff, cancelPending_settle_done]
      simp [hmine]
    · rw [outcome?_settle_done hlt, if_neg hmine]

end Served

theorem mem_await {t c : ℕ} {maker : Bool} {call : CreateCall}
    (h : (s.await t maker).calls[c]? = some call) :
    s.calls[c]? = some call ∨ call = ⟨⟨t, false⟩, maker, false, none⟩ := by
  change (s.calls ++ [(⟨⟨t, false⟩, maker, false, none⟩ : CreateCall)])[c]? = some call at h
  rw [List.getElem?_append] at h
  split at h
  · exact .inl h
  · have hmem := List.mem_of_getElem? h
    exact .inr (List.mem_singleton.1 hmem)

theorem mem_updateCall {c c' : ℕ} {call call' : CreateCall}
    (h : (s.updateCall c call).calls[c']? = some call') :
    call' = call ∨ c' ≠ c ∧ s.calls[c']? = some call' := by
  change (s.calls.set c call)[c']? = some call' at h
  rw [List.getElem?_set] at h
  split at h
  · split at h
    · exact .inl (Option.some.inj h).symm
    · cases h
  · next hne => exact .inr ⟨fun heq => hne heq.symm, h⟩

theorem allServed_steps (h : Steps s l s') (hserved : s.AllServed) (halone : s.CancelsAlone l) :
    s'.AllServed := by
  intro c' call' hget' hnot
  cases h with
  | @join t hslot hun =>
    rcases mem_await hget' with hget' | rfl
    · exact hserved c' call' hget' hnot
    · exact .of_unfinished hun (halone t hslot)
  | make hslot =>
    rcases mem_await hget' with hget' | rfl
    · exact (hserved c' call' hget' hnot).spawn
    · refine .of_unfinished ((unfinished_spawn _ _).2 (.inl rfl)) ?_
      change cancelPending (spawn s.tasks) s.tasks.length = false
      rw [cancelPending_spawn, cancelPending, List.getElem?_eq_none (Nat.le_refl _)]
      rfl
  | begin hget hun => exact (hserved c' call' hget' hnot).begin hget hun
  | finish keys outcome hget hun hreq => exact (hserved c' call' hget' hnot).finish hget hun hreq
  | @wake c call outcome hget hres hout =>
    rcases mem_updateCall hget' with rfl | ⟨-, hget'⟩
    · have hcall := hserved c call hget hnot
      have hresume : call.waiter.resume outcome = outcome := by
        rw [Waiter.resume, hcall.mustCancel]
        rfl
      refine ⟨hcall.exists_task, hcall.mustCancel, fun hnone => ?_, fun o ho => ?_⟩
      · cases hnone
      · obtain rfl : call.waiter.resume outcome = o := Option.some.inj ho
        rw [hresume]
        refine ⟨?_, hout⟩
        intro hcancelled
        subst hcancelled
        exact (hcall.waits hres).2 hout
    · exact hserved c' call' hget' hnot
  | @cancel c call hget hres hun =>
    rcases mem_updateCall hget' with rfl | ⟨hne, hget'⟩
    · cases hnot
    · have hcall := hserved c' call' hget' hnot
      have hother : call'.result = none → call'.waiter.task ≠ call.waiter.task := by
        intro hres' htask
        exact hne (halone call hget hun c' call' hget' hnot hres' htask)
      exact hcall.requestCancel hother
  | @cancelLate c call hget hres hdone =>
    rcases mem_updateCall hget' with rfl | ⟨-, hget'⟩
    · cases hnot
    · exact hserved c' call' hget' hnot

/-- **Cancelled callers.** -/
theorem run_undisturbed (halone : (system apiKey).Guarded CancelsAlone new ls)
    (hrun : (system apiKey).run new ls = some s) : s.Undisturbed := by
  have hnew : new.AllServed := by
    intro c call hget
    cases hget
  refine AllServed.undisturbed (System.run_invariant ?_ ls hnew halone hrun)
  intro s l s' hserved halone hstep
  exact allServed_steps (steps_of_step hstep) hserved halone

/-- A caller is cancelled alone, another one comes after it. -/
def loneCancel : List ListenKeyLabel :=
  [.create, .begin 0, .cancel 0, .aborted 0, .wake 0, .create, .begin 1, .reply 1 listenKeyReply,
    .wake 1]

theorem run_undisturbed_loneCancel :
    ∃ s, (system (some "key")).run new loneCancel = some s ∧
      (∃ call, s.calls[0]? = some call ∧ call.result = some .cancelled) ∧
      (∃ call, s.calls[1]? = some call ∧ call.result = some (.returned ())) ∧ s.Undisturbed := by
  have halone : (system (some "key")).Guarded CancelsAlone new loneCancel := by
    refine System.guarded_cons nofun rfl <| System.guarded_cons trivial rfl <|
      System.guarded_cons ?_ rfl <| System.guarded_cons trivial rfl <|
      System.guarded_cons trivial rfl <| System.guarded_cons nofun rfl <|
      System.guarded_cons trivial rfl <| System.guarded_cons trivial rfl <|
      System.guarded_cons trivial rfl trivial
    intro call _ _ c' call' hget' _ _ _
    have hlt : c' < 1 := (List.getElem?_eq_some_iff.1 hget').1
    omega
  exact ⟨_, rfl, ⟨_, rfl, rfl⟩, ⟨_, rfl, rfl⟩, run_undisturbed halone rfl⟩

/-- Of two callers of one task the first is cancelled. -/
def sharedCancel : List ListenKeyLabel :=
  [.create, .create, .begin 0, .cancel 0, .aborted 0, .wake 0, .wake 1]

/-- The second one sees `CancelledError`. -/
theorem not_run_undisturbed_sharedCancel :
    ∃ s, (system (some "key")).run new sharedCancel = some s ∧
      (∃ call, s.calls[1]? = some call ∧ call.cancelled = false ∧ call.result = some .cancelled) ∧
      ¬ s.Undisturbed := by
  refine ⟨_, rfl, ⟨_, rfl, rfl, rfl⟩, ?_⟩
  intro hundisturbed
  exact (hundisturbed 1 _ rfl rfl _ rfl).1 rfl

end ListenKeyManager

end BinanceTh
