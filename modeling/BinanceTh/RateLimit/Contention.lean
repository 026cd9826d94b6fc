import BinanceTh.Lib.Counting
import BinanceTh.RateLimit.Adopting
import BinanceTh.RateLimit.Undisturbed

/-!
# Calls that wait for the same windows

Any number of `acquire` calls on one limiter, each of which makes a pass when its sleep is over, and
sleeps again if it finds no room. Nothing queues them up, so a call may find the room it has waited
for taken. But a call that sleeps sleeps for as long as the windows need (`Clears`), so it finds
room at its next pass unless the limiter was charged, reconciled or reseeded meanwhile: it sleeps at
most once more than that happens (`run_bypassed`), and is due accordingly (`run_due`). As each
call is charged once, all the calls together make only so many passes (`run_passes`).
-/

namespace BinanceTh

open Transition

/-- A call of `acquire`. -/
structure Contender where
  weight : ℤ
  mutating : Bool
  /-- When it was made. -/
  entered : ℚ
  /-- When its sleep is over. -/
  wake : ℚ
  /-- It has returned, or raised. -/
  ended : Bool
  deriving DecidableEq

structure Contention where
  windows : Limiter ℚ
  now : ℚ
  calls : List Contender

inductive ContentionLabel where
  | acquire (now : ℚ) (weight : ℤ) (mutating : Bool)
  /-- A call makes a pass, once its sleep is over. -/
  | pass (call : ℕ) (now : ℚ)
  | headers (now : ℚ) (headers : List (String × String))
  | reseed (rateLimits : List RateLimit)

namespace Contention

/-- The clock does not go back. -/
def step (s : Contention) : ContentionLabel → Option Contention
  | .acquire now weight mutating =>
    if s.now ≤ now then
      some { s with now, calls := s.calls ++ [⟨weight, mutating, now, now, false⟩] }
    else none
  | .pass i now =>
    match s.calls[i]? with
    | none => none
    | some call =>
      if call.ended = false ∧ call.wake ≤ now ∧ s.now ≤ now then
        some <| match Limiter.acquireStep call.weight call.mutating s.windows now with
        | .ok (.admitted, windows) =>
          { windows, now, calls := s.calls.set i { call with ended := true } }
        | .ok (.wait wait, windows) =>
          { windows, now, calls := s.calls.set i { call with wake := now + wait } }
        | .error _ =>
          { windows := Limiter.rollUntilRaised call.weight call.mutating now s.windows, now,
            calls := s.calls.set i { call with ended := true } }
      else none
  | .headers now headers =>
    if s.now ≤ now then
      some { s with now, windows := (Limiter.updateFromHeaders now s.windows headers).1 }
    else none
  | .reseed rateLimits => some { s with windows := (s.windows.adopt rateLimits).1 }

def system (windows : Limiter ℚ) (now : ℚ) : System Contention ContentionLabel where
  init := ⟨windows, now, []⟩
  step := step

/-! ## What is counted -/

def waits (s : Contention) (i : ℕ) : Bool := s.calls[i]?.any fun call => !call.ended

/-- A pass of the call. -/
def passes (i : ℕ) (_ : Contention) : ContentionLabel → Bool
  | .pass j _ => j = i
  | _ => false

/-- A pass of the call that finds no room. -/
def sleeps (i : ℕ) (s : Contention) (l : ContentionLabel) : Bool :=
  passes i s l && (s.step l).any fun s' => s'.waits i

/-- A call gets in ahead of the waiting call, or the windows are changed under it. -/
def disturbs (i : ℕ) (s : Contention) (l : ContentionLabel) : Bool :=
  s.waits i &&
    match l with
    | .acquire _ _ _ => false
    | .pass j now => j ≠ i && (s.step (.pass j now)).any fun s' => !s'.waits j
    | .headers _ _ => true
    | .reseed _ => true

def isPass : ContentionLabel → Bool
  | .pass _ _ => true
  | _ => false

def isAcquire : ContentionLabel → Bool
  | .acquire _ _ _ => true
  | _ => false

/-- The windows are changed by something else than a call. -/
def isOutside : ContentionLabel → Bool
  | .headers _ _ | .reseed _ => true
  | _ => false

variable {s s' : Contention} {l : ContentionLabel} {i j : ℕ} {now : ℚ} {call : Contender}

/-! ## The steps -/

/-- **A pass** rolls the windows of the call; then the call is over, or sleeps for what is asked. -/
theorem step_pass (h : s.step (.pass i now) = some s') :
    ∃ call, s.calls[i]? = some call ∧ call.ended = false ∧ call.wake ≤ now ∧ s.now ≤ now ∧
      (s' = ⟨(s.windows.perform now (.acquire call.weight call.mutating)).1, now,
          s.calls.set i { call with ended := true }⟩ ∨
        ∃ wait rolled,
          Limiter.rollAll call.weight call.mutating now s.windows = .ok (wait, rolled) ∧ 0 < wait ∧
          s' = ⟨rolled, now, s.calls.set i { call with wake := now + wait }⟩) := by
  rw [step] at h
  split at h
  · cases h
  · next call hcall =>
    obtain ⟨⟨hwaits, hwake, hnow⟩, h⟩ := Option.ite_none_right_eq_some.1 h
    refine ⟨call, hcall, hwaits, hwake, hnow, ?_⟩
    obtain rfl := Option.some.inj h
    rw [Limiter.perform]
    cases hpass : Limiter.acquireStep call.weight call.mutating s.windows now with
    | error e => exact .inl rfl
    | ok r =>
      obtain ⟨_ | wait, windows⟩ := r
      · exact .inl rfl
      · unfold Limiter.acquireStep at hpass
        obtain ⟨⟨wait', rolled⟩, hroll, hpass⟩ := bind_eq_ok_iff.1 hpass
        dsimp only at hpass
        split at hpass
        · cases hpass
        · next hpos =>
          obtain ⟨heq, rfl⟩ := Prod.mk.inj (Except.ok.inj hpass)
          obtain rfl := Admission.wait.inj heq
          exact .inr ⟨wait', rolled, hroll, not_le.1 hpos, rfl⟩

/-- The calls after a pass of one of them. -/
theorem getElem?_set_call {call' : Contender} (hcall : s.calls[i]? = some call) :
    (s.calls.set i call')[j]? = if j = i then some call' else s.calls[j]? := by
  obtain ⟨hlt, -⟩ := List.getElem?_eq_some_iff.1 hcall
  split
  · next heq =>
    rw [heq]
    exact List.getElem?_set_self hlt
  · next hne => exact List.getElem?_set_ne (Ne.symm hne)

/-- A call is there from its entry on, with its weight and its time of entry. -/
theorem calls_of_step (hstep : s.step l = some s') (hcall : s.calls[i]? = some call) :
    ∃ call', s'.calls[i]? = some call' ∧ call'.weight = call.weight ∧
      call'.mutating = call.mutating ∧ call'.entered = call.entered ∧
      (passes i s l = false → call' = call) := by
  cases l with
  | acquire now weight mutating =>
    obtain ⟨-, hstep⟩ := Option.ite_none_right_eq_some.1 hstep
    obtain rfl := Option.some.inj hstep
    obtain ⟨hlt, -⟩ := List.getElem?_eq_some_iff.1 hcall
    refine ⟨call, ?_, rfl, rfl, rfl, fun _ => rfl⟩
    rw [List.getElem?_append_left hlt, hcall]
  | pass j now =>
    obtain ⟨callj, hcallj, -, -, -, rfl | ⟨wait, rolled, -, -, rfl⟩⟩ := step_pass hstep
    all_goals
      rw [getElem?_set_call hcallj]
      by_cases hi : i = j
      · subst hi
        obtain rfl := Option.some.inj (hcall.symm.trans hcallj)
        refine ⟨_, if_pos rfl, rfl, rfl, rfl, fun hpass => ?_⟩
        simp [passes] at hpass
      · exact ⟨call, by rw [if_neg hi, hcall], rfl, rfl, rfl, fun _ => rfl⟩
  | headers now headers =>
    obtain ⟨-, hstep⟩ := Option.ite_none_right_eq_some.1 hstep
    obtain rfl := Option.some.inj hstep
    exact ⟨call, hcall, rfl, rfl, rfl, fun _ => rfl⟩
  | reseed rateLimits =>
    obtain rfl := Option.some.inj hstep
    exact ⟨call, hcall, rfl, rfl, rfl, fun _ => rfl⟩

/-- No call is lost, and each pass is one of a call. -/
theorem party_of_step (hstep : s.step l = some s') : s.calls.length ≤ s'.calls.length ∧
    (isPass l = true → ∃ i < s.calls.length, passes i s l = true) := by
  refine ⟨?_, fun hpass => ?_⟩
  · by_contra hlt
    -- the last call is still there
    obtain ⟨call', hcall', -⟩ := calls_of_step hstep
      (List.getElem?_eq_getElem (Nat.sub_lt (by omega : 0 < s.calls.length) Nat.one_pos))
    have := (List.getElem?_eq_some_iff.1 hcall').1
    omega
  · cases l with
    | pass j now =>
      obtain ⟨call, hcall, -⟩ := step_pass hstep
      exact ⟨j, (List.getElem?_eq_some_iff.1 hcall).1, decide_eq_true rfl⟩
    | acquire | headers | reseed => cases hpass

/-! ## Room at the next pass -/

/-- At `t` or later the window has room for the call, or has begun anew. -/
def Clears (weight : ℤ) (mutating : Bool) (t : ℚ) (w : Window ℚ) : Prop :=
  ∀ amount, w.charge? weight mutating = some amount → ∃ start, w.windowStart = some start ∧
    (w.used = 0 ∨ w.used + amount ≤ w.limit ∨ start + w.duration ≤ t)

variable {weight : ℤ} {mutating : Bool} {t wait : ℚ} {w w' : Window ℚ} {windows after : Limiter ℚ}

/-- To roll a window takes no room away. -/
theorem Clears.roll (h : Clears weight mutating t w) (hroll : w.roll now = .ok w') :
    Clears weight mutating t w' := by
  obtain ⟨htype, hlimit, hduration, hsome, hused⟩ := Window.roll_cases hroll
  intro amount hamount
  have hcharge : w.charge? weight mutating = some amount := by
    rw [← hamount, Window.charge?, Window.charge?, htype]
  obtain ⟨start, hstart, hclear⟩ := h amount hcharge
  rcases hused with hzero | ⟨hsame, hopen⟩
  · obtain ⟨start', hstart'⟩ := Option.isSome_iff_exists.1 hsome
    exact ⟨start', hstart', .inl hzero⟩
  · refine ⟨start, (hopen start hstart).1, ?_⟩
    rwa [hsame, hlimit, hduration]

/-- A pass of another call that finds no room. -/
theorem Clears.rolled {weight' : ℤ} {mutating' : Bool} {bound : ℚ}
    (h : Clears weight mutating t w)
    (hrolled : Limiter.Rolled weight' mutating' now bound w w') : Clears weight mutating t w' := by
  rcases hrolled with ⟨-, rfl⟩ | ⟨amount, -, hroll, -⟩
  · exact h
  · exact h.roll hroll

/-- A window that asks for no more than `wait` clears after it. -/
theorem clears_of_rolled (hrolled : Limiter.Rolled weight mutating now wait w w') :
    Clears weight mutating (now + wait) w' := by
  intro amount hamount
  rw [hrolled.charge?_eq] at hamount
  rcases hrolled with ⟨hnone, -⟩ | ⟨amount', hsome, hroll, hwait⟩
  · rw [hnone] at hamount
    cases hamount
  · obtain rfl := Option.some.inj (hsome.symm.trans hamount)
    obtain ⟨-, -, -, hanchored, -⟩ := Window.roll_cases hroll
    obtain ⟨start, hstart⟩ := Option.isSome_iff_exists.1 hanchored
    refine ⟨start, hstart, ?_⟩
    rw [Window.waitTime, hstart, Option.getD_some] at hwait
    split at hwait
    · next hroom => exact hroom.imp_right .inl
    · have hle := (le_max_right 0 _).trans hwait
      exact .inr (.inr (by linarith))

/-- A pass over windows that have cleared asks for nothing. -/
theorem wait_le_zero_of_clears (ht : t ≤ now)
    (hclears : ∀ w ∈ windows, Clears weight mutating t w)
    (hroll : Limiter.rollAll weight mutating now windows = .ok (wait, after)) : wait ≤ 0 := by
  obtain rfl | ⟨w, hw, amount, w', hcharge, hrolled, rfl⟩ :=
    (Limiter.rollAll_longestWait hroll).attained
  · exact le_refl 0
  · obtain ⟨-, hlimit, -, -, hused⟩ := Window.roll_cases hrolled
    obtain ⟨start, hstart, hclear⟩ := hclears w hw amount hcharge
    have hroom : w'.used = 0 ∨ w'.used + amount ≤ w'.limit := by
      rcases hused with hzero | ⟨hsame, hopen⟩
      · exact .inl hzero
      · rw [hsame, hlimit]
        obtain ⟨-, hbefore⟩ := hopen start hstart
        rcases hclear with hzero | hroom | hend
        · exact .inl hzero
        · exact .inr hroom
        · linarith
    rw [Window.waitTime, if_pos hroom]

/-- The call is over, or finds room at its next pass. -/
def Settles (i : ℕ) (s : Contention) : Prop :=
  ∃ call, s.calls[i]? = some call ∧
    (call.ended = true ∨ ∀ w ∈ s.windows, Clears call.weight call.mutating call.wake w)

/-- A call that sleeps has found no room, and finds it at its next pass. -/
theorem settles_of_sleeps (hstep : s.step l = some s') (hsleeps : sleeps i s l = true) :
    ¬ Settles i s ∧ Settles i s' := by
  obtain ⟨hpass, hwaits⟩ := Bool.and_eq_true_iff.1 hsleeps
  rw [hstep, Option.any_some] at hwaits
  cases l with
  | pass j now =>
    obtain rfl : j = i := of_decide_eq_true hpass
    obtain ⟨call, hcall, hover, hwake, -, rfl | ⟨wait, rolled, hroll, hwait, rfl⟩⟩ :=
      step_pass hstep
    · simp [waits, getElem?_set_call hcall] at hwaits
    · constructor
      · rintro ⟨call', hcall', hdone | hclears⟩
        · obtain rfl := Option.some.inj (hcall.symm.trans hcall')
          rw [hover] at hdone
          cases hdone
        · obtain rfl := Option.some.inj (hcall.symm.trans hcall')
          exact not_le.2 hwait (wait_le_zero_of_clears hwake hclears hroll)
      · refine ⟨{ call with wake := now + wait }, ?_, .inr ?_⟩
        · rw [getElem?_set_call hcall, if_pos rfl]
        · intro w' hw'
          obtain ⟨w, -, hrolled⟩ :=
            (Limiter.exists_of_forall₂ (Limiter.rollAll_forall₂ hroll le_rfl)).1 w' hw'
          exact clears_of_rolled hrolled
  | acquire | headers | reseed => cases hpass

/-- **Nothing else** takes the room away but what disturbs the call. -/
theorem Settles.step (h : Settles i s) (hstep : s.step l = some s')
    (hdisturbs : disturbs i s l = false) : Settles i s' := by
  by_cases hsleeps : sleeps i s l = true
  · exact (settles_of_sleeps hstep hsleeps).2
  obtain ⟨call, hcall, hsettled⟩ := h
  obtain ⟨call', hcall', hweight, hmutating, -, hsame⟩ := calls_of_step hstep hcall
  by_cases hover : call.ended = true
  · -- a call that is over makes no pass
    have hpass : passes i s l = false := by
      by_contra hpass
      rw [Bool.not_eq_false] at hpass
      cases l with
      | pass j now =>
        obtain rfl : j = i := of_decide_eq_true hpass
        obtain ⟨callj, hcallj, hwaiting, -⟩ := step_pass hstep
        obtain rfl := Option.some.inj (hcall.symm.trans hcallj)
        rw [hover] at hwaiting
        cases hwaiting
      | acquire | headers | reseed => cases hpass
    exact ⟨call', hcall', .inl (by rw [hsame hpass, hover])⟩
  · have hwaits : s.waits i = true := by simp [waits, hcall, hover]
    have hclears := hsettled.resolve_left hover
    cases l with
    | acquire now weight mutating =>
      obtain ⟨-, hstep⟩ := Option.ite_none_right_eq_some.1 hstep
      obtain rfl := Option.some.inj hstep
      rw [hsame rfl] at hcall'
      exact ⟨call, hcall', .inr hclears⟩
    | pass j now =>
      by_cases hj : j = i
      · -- its own pass, which is its last
        subst hj
        obtain ⟨callj, hcallj, -, -, -, rfl | ⟨wait, rolled, -, -, rfl⟩⟩ := step_pass hstep
        · refine ⟨{ callj with ended := true }, ?_, .inl rfl⟩
          rw [getElem?_set_call hcallj, if_pos rfl]
        · refine absurd ?_ hsleeps
          unfold sleeps
          rw [hstep]
          obtain rfl := Option.some.inj (hcall.symm.trans hcallj)
          simp [passes, waits, getElem?_set_call hcallj, hover]
      · have hpass : passes i s (.pass j now) = false := decide_eq_false hj
        rw [hsame hpass] at hcall'
        obtain ⟨callj, hcallj, -, -, -, rfl | ⟨wait, rolled, hroll, -, rfl⟩⟩ := step_pass hstep
        · rw [disturbs, hwaits, hstep] at hdisturbs
          simp [hj, waits, getElem?_set_call hcallj] at hdisturbs
        · refine ⟨call, hcall', .inr fun w' hw' => ?_⟩
          obtain ⟨w, hw, hrolled⟩ :=
            (Limiter.exists_of_forall₂ (Limiter.rollAll_forall₂ hroll le_rfl)).1 w' hw'
          exact (hclears w hw).rolled hrolled
    | headers now headers => simp [disturbs, hwaits] at hdisturbs
    | reseed rateLimits => simp [disturbs, hwaits] at hdisturbs

/-! ## How often a call sleeps -/

open Classical in
/-- 0 once the call is over or is about to be. -/
noncomputable def unsettled (i : ℕ) (s : Contention) : ℕ := if Settles i s then 0 else 1

theorem unsettled_le_one (i : ℕ) (s : Contention) : unsettled i s ≤ 1 := by
  unfold unsettled
  split <;> omega

/-- A sleep settles a call, and only what disturbs it unsettles it. -/
theorem unsettled_step (hstep : s.step l = some s') :
    unsettled i s' + (sleeps i s l).toNat ≤ unsettled i s + (disturbs i s l).toNat := by
  by_cases hsleeps : sleeps i s l = true
  · obtain ⟨hbefore, hafter⟩ := settles_of_sleeps hstep hsleeps
    have hzero : unsettled i s' = 0 := if_pos hafter
    have hnot : unsettled i s = 1 := if_neg hbefore
    rw [hzero, hnot, hsleeps, Bool.toNat_true]
    omega
  · rw [Bool.not_eq_true] at hsleeps
    rw [hsleeps, Bool.toNat_false]
    cases hdisturbs : disturbs i s l with
    | true =>
      have := unsettled_le_one i s'
      rw [Bool.toNat_true]
      omega
    | false =>
      by_cases hsettles : Settles i s
      · have hzero : unsettled i s' = 0 := if_pos (hsettles.step hstep hdisturbs)
        omega
      · have hnot : unsettled i s = 1 := if_neg hsettles
        have := unsettled_le_one i s'
        omega

/-- 0 once the call is over. -/
def unfinished (i : ℕ) (s : Contention) : ℕ :=
  if s.calls[i]?.any fun call => call.ended then 0 else 1

/-- A pass at which the call does not sleep is its last. -/
theorem unfinished_step (hstep : s.step l = some s') :
    unfinished i s' + (passes i s l).toNat ≤ unfinished i s + (sleeps i s l).toNat := by
  cases hpass : passes i s l with
  | false =>
    have hsleeps : sleeps i s l = false := by rw [sleeps, hpass, Bool.false_and]
    rw [hsleeps]
    cases hcall : s.calls[i]? with
    | none =>
      have hnot : unfinished i s = 1 := by rw [unfinished, hcall]; rfl
      rw [hnot, unfinished]
      split <;> simp
    | some call =>
      obtain ⟨call', hcall', -, -, -, hsame⟩ := calls_of_step hstep hcall
      rw [unfinished, unfinished, hcall, hcall', hsame hpass]
  | true =>
    cases l with
    | pass j now =>
      obtain rfl : j = i := of_decide_eq_true hpass
      obtain ⟨call, hcall, hwaiting, -, -, rfl | ⟨wait, rolled, -, -, rfl⟩⟩ := step_pass hstep
      all_goals
        simp [unfinished, sleeps, waits, hpass, hstep, getElem?_set_call hcall, hcall, hwaiting]
    | acquire | headers | reseed => cases hpass

/-- The calls that wait, and the call `i` also when it is over. -/
def ahead (i : ℕ) (s : Contention) : ℕ :=
  s.calls.countP (fun call => !call.ended) + (1 - unfinished i s)

/-- A call that is made waits. -/
theorem ahead_acquire (hstep : s.step (.acquire now weight mutating) = some s') :
    ahead i s' = ahead i s + 1 := by
  obtain ⟨-, hstep⟩ := Option.ite_none_right_eq_some.1 hstep
  obtain rfl := Option.some.inj hstep
  have hreturned : unfinished i
      { s with now, calls := s.calls ++ [⟨weight, mutating, now, now, false⟩] } =
        unfinished i s := by
    unfold unfinished
    rw [List.getElem?_append, List.getElem?_singleton]
    split
    · rfl
    · next hge =>
      rw [List.getElem?_eq_none (not_lt.1 hge)]
      split <;> rfl
  rw [ahead, ahead, hreturned, List.countP_append]
  simp only [List.countP_singleton, Bool.not_false, if_true]
  omega

/-- A pass that disturbs another call is the last one of its own. -/
theorem ahead_pass (hstep : s.step (.pass j now) = some s') :
    ahead i s' + (disturbs i s (.pass j now)).toNat ≤ ahead i s := by
  obtain ⟨call, hcall, hwaiting, -, -, hcases⟩ := step_pass hstep
  obtain ⟨hlt, hget⟩ := List.getElem?_eq_some_iff.1 hcall
  have hpos : 0 < s.calls.countP (fun call => !call.ended) :=
    List.countP_pos_iff.2 ⟨call, List.mem_of_getElem? hcall, by rw [hwaiting]; rfl⟩
  rcases hcases with rfl | ⟨wait, rolled, -, -, rfl⟩
  · -- one call less waits; if it is `i`, it is still counted
    have hcount : (s.calls.set j { call with ended := true }).countP
        (fun call => !call.ended) + 1 = s.calls.countP (fun call => !call.ended) := by
      rw [List.countP_set hlt, hget]
      simp only [hwaiting, Bool.not_false, if_true, Bool.not_true, Bool.false_eq_true, if_false]
      omega
    by_cases hj : j = i
    · subst hj
      have hdisturbs : disturbs j s (.pass j now) = false := by simp [disturbs]
      have hbefore : unfinished j s = 1 := by simp [unfinished, hcall, hwaiting]
      rw [ahead, ahead, hdisturbs, hbefore, Bool.toNat_false]
      dsimp only
      omega
    · have hreturned : unfinished i
          ⟨(s.windows.perform now (.acquire call.weight call.mutating)).1, now,
            s.calls.set j { call with ended := true }⟩ = unfinished i s := by
        rw [unfinished, unfinished, getElem?_set_call hcall, if_neg (Ne.symm hj)]
      have hone := Bool.toNat_le (disturbs i s (.pass j now))
      rw [ahead, ahead, hreturned]
      dsimp only
      omega
  · have hcount : (s.calls.set j { call with wake := now + wait }).countP
        (fun call => !call.ended) = s.calls.countP (fun call => !call.ended) := by
      rw [List.countP_set hlt, hget]
      simp only [hwaiting, Bool.not_false, if_true]
      omega
    have hreturned : unfinished i ⟨rolled, now, s.calls.set j { call with wake := now + wait }⟩ =
        unfinished i s := by
      rw [unfinished, unfinished, getElem?_set_call hcall]
      split
      · next heq => rw [heq, hcall, Option.any_some, Option.any_some]
      · rfl
    have hdisturbs : disturbs i s (.pass j now) = false := by
      rw [disturbs, hstep]
      simp [waits, getElem?_set_call hcall, hwaiting]
    rw [ahead, ahead, hreturned, hdisturbs, hcount]
    exact Nat.le_refl _

/-- A call gets in ahead of another once, and then waits no more. -/
theorem ahead_step (hstep : s.step l = some s') :
    ahead i s' + (disturbs i s l).toNat ≤ ahead i s + (isAcquire l || isOutside l).toNat := by
  have hsame (hcalls : s'.calls = s.calls) : ahead i s' = ahead i s := by
    rw [ahead, ahead, unfinished, unfinished, hcalls]
  cases l with
  | acquire now weight mutating =>
    have hdisturbs : disturbs i s (.acquire now weight mutating) = false := Bool.and_false _
    rw [ahead_acquire hstep, hdisturbs]
    exact le_rfl
  | pass j now => exact ahead_pass hstep
  | headers now headers =>
    obtain ⟨-, hstep⟩ := Option.ite_none_right_eq_some.1 hstep
    obtain rfl := Option.some.inj hstep
    rw [hsame rfl]
    exact Nat.add_le_add_left (Bool.toNat_le _) _
  | reseed rateLimits =>
    obtain rfl := Option.some.inj hstep
    rw [hsame rfl]
    exact Nat.add_le_add_left (Bool.toNat_le _) _

/-! ## Runs -/

/-- Two calls on a window that is used up: both sleep until its end, and the second once more. -/
def twoCalls : List ContentionLabel :=
  [.acquire 20 1 false, .acquire 20 1 false, .pass 0 20, .pass 1 20, .pass 0 60, .pass 1 60]

theorem run_twoCalls : ∃ t, (system [Limiter.usedUp] 20).run (system [Limiter.usedUp] 20).init
    twoCalls = some t ∧ t.now = 60 ∧ t.calls[1]? = some ⟨1, false, 20, 120, false⟩ := by
  have hrun : ((system [Limiter.usedUp] 20).run (system [Limiter.usedUp] 20).init twoCalls).map
      (fun t => (t.now, t.calls[1]?)) = some (60, some ⟨1, false, 20, 120, false⟩) := by
    decide +kernel
  obtain ⟨t, hrun, ht⟩ := Option.map_eq_some_iff.1 hrun
  obtain ⟨hnow, hcall⟩ := Prod.mk.inj ht
  exact ⟨t, hrun, hnow, hcall⟩

variable {windows₀ : Limiter ℚ} {now₀ : ℚ} {labels : List ContentionLabel} {t : Contention}

theorem guarded_true (s : Contention) :
    (system windows₀ now₀).Guarded (fun _ _ => True) s labels :=
  System.guarded_of_forall (P := fun _ => True) labels (fun _ _ => trivial) s

theorem sleeps_le {s t : Contention}
    (hrun : (system windows₀ now₀).run s labels = some t) (i : ℕ) :
    unsettled i t + (system windows₀ now₀).count (sleeps i) s labels ≤
      unsettled i s + (system windows₀ now₀).count (disturbs i) s labels :=
  System.add_count_le (I := fun _ => True) (unsettled i)
    (fun _ _ _ _ _ hstep => ⟨trivial, unsettled_step hstep⟩) labels trivial (guarded_true _) hrun

/-- A run makes no more calls than it has labels for. -/
theorem run_length
    (hrun : (system windows₀ now₀).run (system windows₀ now₀).init labels = some t) :
    t.calls.length ≤ labels.countP isAcquire := by
  have hle := System.le_add_count_nsmul (I := fun _ => True) (C := fun _ _ => True)
    (P := fun _ => isAcquire) (fun s : Contention => s.calls.length) 1 ?_ labels trivial
    (guarded_true _) hrun
  · rwa [System.count_eq_countP labels hrun, nsmul_one, Nat.cast_id,
      show (system windows₀ now₀).init.calls.length = 0 from rfl, Nat.zero_add] at hle
  · intro s l s' _ _ hstep
    refine ⟨trivial, ?_⟩
    cases l with
    | acquire now weight mutating =>
      obtain ⟨-, hstep⟩ := Option.ite_none_right_eq_some.1 hstep
      obtain rfl := Option.some.inj hstep
      simp [isAcquire]
    | pass j now =>
      obtain ⟨call, -, -, -, -, rfl | ⟨wait, rolled, -, -, rfl⟩⟩ := step_pass hstep
      all_goals simp
    | headers now headers =>
      obtain ⟨-, hstep⟩ := Option.ite_none_right_eq_some.1 hstep
      obtain rfl := Option.some.inj hstep
      exact Nat.le_add_right _ _
    | reseed rateLimits =>
      obtain rfl := Option.some.inj hstep
      exact Nat.le_add_right _ _

/-- The passes of one call. -/
theorem run_passes_call
    (hrun : (system windows₀ now₀).run (system windows₀ now₀).init labels = some t)
    {i : ℕ} (hi : i < t.calls.length) :
    (system windows₀ now₀).count (passes i) (system windows₀ now₀).init labels ≤
      labels.countP isAcquire + labels.countP isOutside + 1 := by
  have hpasses := System.add_count_le (P := passes i) (Q := sleeps i) (I := fun _ => True)
    (unfinished i)
    (fun _ _ _ _ _ hstep => ⟨trivial, unfinished_step hstep⟩) labels trivial (guarded_true _) hrun
  have hsleeps := sleeps_le hrun i
  have hsettles := unsettled_le_one i (system windows₀ now₀).init
  have hdisturbs := System.add_count_le (I := fun _ => True) (P := disturbs i)
    (Q := fun _ l => isAcquire l || isOutside l) (ahead i)
    (fun _ _ _ _ _ hstep => ⟨trivial, ahead_step hstep⟩) labels trivial (guarded_true _) hrun
  rw [System.count_eq_countP labels hrun] at hdisturbs
  have hkinds : labels.countP (fun l => isAcquire l || isOutside l) =
      labels.countP isAcquire + labels.countP isOutside := by
    clear hrun hpasses hsleeps hdisturbs
    induction labels with
    | nil => rfl
    | cons l labels ih =>
      rw [List.countP_cons, List.countP_cons, List.countP_cons, ih]
      cases l <;> simp [isAcquire, isOutside] <;> omega
  have hbefore : unfinished i (system windows₀ now₀).init = 1 := rfl
  have hnone : ahead i (system windows₀ now₀).init = 0 := rfl
  -- in the end the call waits, or it is over
  have hcounted : 1 ≤ ahead i t := by
    have hget := List.getElem?_eq_getElem hi
    cases hover : t.calls[i].ended with
    | true =>
      have hzero : unfinished i t = 0 := by
        rw [unfinished, hget, Option.any_some, hover]
        rfl
      rw [ahead, hzero]
      omega
    | false =>
      have hpos : 0 < t.calls.countP fun call => !call.ended :=
        List.countP_pos_iff.2 ⟨t.calls[i], List.getElem_mem hi, by rw [hover]; rfl⟩
      rw [ahead]
      omega
  omega

/-- **All calls return.** So many calls as are made make only so many passes, however they are
scheduled, and one that is not over makes its next pass at any time after its sleep. -/
theorem run_passes
    (hrun : (system windows₀ now₀).run (system windows₀ now₀).init labels = some t) :
    labels.countP isPass ≤ labels.countP isAcquire *
        (labels.countP isAcquire + labels.countP isOutside + 1) ∧
      ∀ i call, t.calls[i]? = some call → call.ended = false → ∀ now, call.wake ≤ now →
        t.now ≤ now → ((system windows₀ now₀).step t (.pass i now)).isSome = true := by
  constructor
  · obtain ⟨-, hle⟩ := System.count_le_sum (P := fun _ => isPass)
      (fun s : Contention => s.calls.length) passes (fun _ _ _ => party_of_step) labels hrun
    rw [System.count_eq_countP labels hrun] at hle
    calc labels.countP isPass
        ≤ ∑ i ∈ Finset.range t.calls.length,
          (system windows₀ now₀).count (passes i) (system windows₀ now₀).init labels := hle
      _ ≤ ∑ _i ∈ Finset.range t.calls.length,
          (labels.countP isAcquire + labels.countP isOutside + 1) :=
        Finset.sum_le_sum fun i hi => run_passes_call hrun (Finset.mem_range.1 hi)
      _ = t.calls.length * (labels.countP isAcquire + labels.countP isOutside + 1) := by
        rw [Finset.sum_const, Finset.card_range, nsmul_eq_mul, Nat.cast_id]
      _ ≤ _ := Nat.mul_le_mul_right _ (run_length hrun)
  · intro i call hcall hover now hwake hnow
    have hdue : call.ended = false ∧ call.wake ≤ now ∧ t.now ≤ now := ⟨hover, hwake, hnow⟩
    change (Contention.step t (.pass i now)).isSome = true
    rw [Contention.step, hcall]
    dsimp only
    rw [if_pos hdue]
    rfl

theorem run_passes_twoCalls : twoCalls.countP isPass = 4 ∧
    twoCalls.countP isPass ≤ twoCalls.countP isAcquire *
      (twoCalls.countP isAcquire + twoCalls.countP isOutside + 1) ∧
    ∃ t, (system [Limiter.usedUp] 20).run (system [Limiter.usedUp] 20).init twoCalls = some t ∧
      ((system [Limiter.usedUp] 20).step t (.pass 1 120)).isSome = true := by
  obtain ⟨t, hrun, hnow, hcall⟩ := run_twoCalls
  obtain ⟨hpasses, hnext⟩ := run_passes hrun
  exact ⟨rfl, hpasses, t, hrun, hnext 1 _ hcall rfl 120 le_rfl (by rw [hnow]; norm_num)⟩

/-! ## When a call is due -/

/-- Every window has some length, of `longest` at most, and has not begun after the clock. -/
def Bounded (longest : ℚ) (s : Contention) : Prop :=
  ∀ w ∈ s.windows, Adopting.Settled s.now w ∧ 0 < w.duration ∧ w.duration ≤ longest

/-- No call is later than by `late` at the pass it is due for, and no rule gives a window no length
or one above `longest`. -/
def Timely (longest late : ℚ) (s : Contention) : ContentionLabel → Prop
  | .pass i now => ∀ call, s.calls[i]? = some call → now ≤ call.wake + late
  | .reseed rateLimits => ∀ rule ∈ rateLimits,
    0 < rule.intervalNum ∧ rule.interval.seconds * rule.intervalNum ≤ longest
  | _ => True

instance (longest late : ℚ) (s : Contention) : ∀ l, Decidable (Timely longest late s l)
  | .pass i now => decidable_of_iff (∀ call ∈ s.calls[i]?, now ≤ call.wake + late) Iff.rfl
  | .reseed rateLimits => inferInstanceAs (Decidable (∀ rule ∈ rateLimits,
      0 < rule.intervalNum ∧ rule.interval.seconds * rule.intervalNum ≤ longest))
  | .acquire _ _ _ => isTrue trivial
  | .headers _ _ => isTrue trivial

/-- What the call has slept, and what it is late by. -/
def slept (i : ℕ) (s : Contention) : ℚ :=
  (s.calls[i]?.map fun call => call.wake - call.entered).getD 0

variable {longest late : ℚ}

theorem Bounded.of_settled (h : Bounded longest s) (hnow : s.now ≤ now)
    (hkept : ∀ P : Window ℚ → Prop, (∀ w used, P w → P { w with used }) →
      (∀ w w', P w → w.roll now = .ok w' → P w') → (∀ w ∈ s.windows, P w) → ∀ w ∈ windows, P w) :
    ∀ w ∈ windows, Adopting.Settled now w ∧ 0 < w.duration ∧ w.duration ≤ longest := by
  refine hkept _ (fun w used hw => ⟨⟨hw.1.duration, hw.1.start⟩, hw.2⟩) ?_
    (fun w hw => ⟨(h w hw).1.mono hnow, (h w hw).2⟩)
  intro w w' hw hroll
  obtain ⟨-, -, hduration, -⟩ := Window.roll_cases hroll
  exact ⟨hw.1.roll hroll, hduration ▸ hw.2⟩

theorem bounded_step (h : Bounded longest s) (htimely : Timely longest late s l)
    (hstep : s.step l = some s') : Bounded longest s' := by
  cases l with
  | acquire now weight mutating =>
    obtain ⟨hnow, hstep⟩ := Option.ite_none_right_eq_some.1 hstep
    obtain rfl := Option.some.inj hstep
    exact fun w hw => ⟨(h w hw).1.mono hnow, (h w hw).2⟩
  | pass i now =>
    obtain ⟨call, -, -, -, hnow, rfl | ⟨wait, rolled, hroll, -, rfl⟩⟩ := step_pass hstep
    · exact h.of_settled hnow fun _ hused hroll hl => Limiter.perform_forall hused hroll hl
    · refine h.of_settled hnow fun P _ hkept hl w' hw' => ?_
      obtain ⟨w, hw, ⟨-, rfl⟩ | ⟨amount, -, hw'', -⟩⟩ :=
        (Limiter.exists_of_forall₂ (Limiter.rollAll_forall₂ hroll le_rfl)).1 w' hw'
      · exact hl w' hw
      · exact hkept w w' (hl w hw) hw''
  | headers now headers =>
    obtain ⟨hnow, hstep⟩ := Option.ite_none_right_eq_some.1 hstep
    obtain rfl := Option.some.inj hstep
    exact h.of_settled hnow fun _ hused hroll hl => Limiter.updateFromHeaders_forall hused hroll hl
  | reseed rateLimits =>
    obtain rfl := Option.some.inj hstep
    refine Limiter.adopt_forall (fun l hl rule hrule _ => ?_) h
    have hsettled := Adopting.settled_reseeded (fun w hw => (hl w hw).1) rule
    obtain ⟨hpos, hle⟩ := htimely rule hrule
    obtain ⟨hkey, hduration, -⟩ := Limiter.reseeded_cases l rule
    refine ⟨hsettled, hsettled.duration_pos_iff.2 ?_, hduration ▸ hle⟩
    rwa [l.reseeded_intervalNum rule]

/-- No pass asks for more than the longest window. -/
theorem wait_le_longest (h : Bounded longest s) (hlongest : 0 ≤ longest) (hnow : s.now ≤ now)
    (hroll : Limiter.rollAll weight mutating now s.windows = .ok (wait, after)) :
    wait ≤ longest := by
  obtain rfl | ⟨w, hw, amount, w', -, hrolled, rfl⟩ := (Limiter.rollAll_longestWait hroll).attained
  · exact hlongest
  · obtain ⟨hsettled, hpos, hle⟩ := h w hw
    have hsettled' := (hsettled.mono hnow).roll hrolled
    obtain ⟨-, -, hduration, hanchored, -⟩ := Window.roll_cases hrolled
    obtain ⟨start, hstart⟩ := Option.isSome_iff_exists.1 hanchored
    have hbegun : start ≤ now := hsettled'.start (hsettled'.duration_pos_iff.1 (hduration ▸ hpos))
      start hstart
    rw [Window.waitTime, hstart, Option.getD_some]
    split
    · exact hlongest
    · exact max_le hlongest (by linarith)

/-- A call that is not there yet makes no pass. -/
theorem passes_of_none (hcall : s.calls[i]? = none) (hstep : s.step l = some s') :
    passes i s l = false := by
  cases l with
  | pass j now =>
    obtain ⟨callj, hcallj, -⟩ := step_pass hstep
    refine decide_eq_false ?_
    rintro rfl
    rw [hcall] at hcallj
    cases hcallj
  | acquire | headers | reseed => rfl

/-- A call that is made now has not slept. -/
theorem slept_of_none (hcall : s.calls[i]? = none) (hstep : s.step l = some s') :
    slept i s' = 0 := by
  have hbefore : slept i s = 0 := by
    rw [slept, hcall]
    rfl
  cases l with
  | acquire now weight mutating =>
    obtain ⟨-, hstep⟩ := Option.ite_none_right_eq_some.1 hstep
    obtain rfl := Option.some.inj hstep
    rw [slept, List.getElem?_append_right (List.getElem?_eq_none_iff.1 hcall),
      List.getElem?_singleton]
    split
    · exact sub_self now
    · rfl
  | pass j now =>
    have hne : ¬ i = j := fun heq => of_decide_eq_false (passes_of_none hcall hstep) heq.symm
    obtain ⟨callj, hcallj, -, -, -, rfl | ⟨wait, rolled, -, -, rfl⟩⟩ := step_pass hstep
    all_goals
      rw [slept, getElem?_set_call hcallj, if_neg hne, hcall]
      rfl
  | headers now headers =>
    obtain ⟨-, hstep⟩ := Option.ite_none_right_eq_some.1 hstep
    obtain rfl := Option.some.inj hstep
    exact hbefore
  | reseed rateLimits =>
    obtain rfl := Option.some.inj hstep
    exact hbefore

/-- The call's own pass is its last, or it sleeps for one window. -/
theorem slept_pass (hlongest : 0 ≤ longest) (h : Bounded longest s)
    (htimely : Timely longest late s (.pass i now)) (hcall : s.calls[i]? = some call)
    (hstep : s.step (.pass i now) = some s') :
    slept i s' ≤ slept i s + (sleeps i s (.pass i now)).toNat • (longest + late) := by
  obtain ⟨call', hcall', hover, hwake, hnow, hcases⟩ := step_pass hstep
  obtain rfl := Option.some.inj (hcall.symm.trans hcall')
  have hpass : passes i s (.pass i now) = true := decide_eq_true rfl
  have hbefore : slept i s = call.wake - call.entered := by rw [slept, hcall]; rfl
  rcases hcases with rfl | ⟨wait, rolled, hroll, hpos, rfl⟩
  · have hsleeps : sleeps i s (.pass i now) = false := by
      simp [sleeps, hstep, waits, getElem?_set_call hcall]
    rw [hsleeps, Bool.toNat_false, zero_nsmul, add_zero, hbefore, slept, getElem?_set_call hcall,
      if_pos rfl]
    exact le_rfl
  · have hsleeps : sleeps i s (.pass i now) = true := by
      simp [sleeps, hpass, hstep, waits, getElem?_set_call hcall, hover]
    have hwait := wait_le_longest h hlongest hnow hroll
    have hlate : now ≤ call.wake + late := htimely call hcall
    have hafter : slept i ⟨rolled, now, s.calls.set i { call with wake := now + wait }⟩ =
        now + wait - call.entered := by
      rw [slept, getElem?_set_call hcall, if_pos rfl]
      rfl
    rw [hsleeps, Bool.toNat_true, one_nsmul, hbefore, hafter]
    linarith

/-- A sleep takes no longer than the longest window. -/
theorem slept_step (hlongest : 0 ≤ longest) {i : ℕ} (h : Bounded longest s)
    (htimely : Timely longest late s l) (hstep : s.step l = some s') :
    slept i s' ≤ slept i s + (sleeps i s l).toNat • (longest + late) := by
  cases hcall : s.calls[i]? with
  | none =>
    have hbefore : slept i s = 0 := by
      rw [slept, hcall]
      rfl
    rw [sleeps, passes_of_none hcall hstep, Bool.false_and, Bool.toNat_false, zero_nsmul, add_zero,
      hbefore, slept_of_none hcall hstep]
  | some call =>
    cases hpass : passes i s l with
    | false =>
      obtain ⟨call', hcall', -, -, -, hsame⟩ := calls_of_step hstep hcall
      rw [sleeps, hpass, Bool.false_and, Bool.toNat_false, zero_nsmul, add_zero, slept, slept,
        hcall, hcall', hsame hpass]
    | true =>
      cases l with
      | pass j now =>
        obtain rfl : j = i := of_decide_eq_true hpass
        exact slept_pass hlongest h htimely hcall hstep
      | acquire | headers | reseed => cases hpass

end Contention

end BinanceTh
