import BinanceTh.RateLimit

/-!
# Acquiring alone

The loop of `acquire` where nothing else touches the windows and a sleep moves the clock by its
argument. It sleeps at most once, for the longest of the times after which the windows without room
begin anew; its second pass, if there is one, admits, since a window without room has been reset by
then and one with room has it still (`acquire_alone`).
-/

namespace BinanceTh

namespace Limiter

/-- What a call of `acquire` leaves: its sleeps, the clock at its return and the windows. -/
structure Acquired where
  sleeps : List ℚ
  now : ℚ
  windows : Limiter ℚ

/-- `acquire`, alone, for a number of passes. -/
def acquire (weight : ℤ) (mutating : Bool) : ℕ → ℚ → Limiter ℚ → Except Exc (Option Acquired)
  | 0, _, _ => .ok none
  | passes + 1, now, l => do
    match ← acquireStep weight mutating l now with
    | (.admitted, l) => pure (some ⟨[], now, l⟩)
    | (.wait wait, l) => do
      let rest ← acquire weight mutating passes (now + wait) l
      pure (rest.map fun r => { r with sleeps := wait :: r.sleeps })

/-- The call charges the window, which lacks room once it is rolled to `now` and begins anew after
`remaining`. -/
def Blocks (weight : ℤ) (mutating : Bool) (now : ℚ) (w : Window ℚ) (remaining : ℚ) : Prop :=
  ∃ amount w' start, w.charge? weight mutating = some amount ∧ w.roll now = .ok w' ∧
    w'.used ≠ 0 ∧ w'.limit < w'.used + amount ∧
    w'.windowStart = some start ∧ remaining = start + w'.duration - now

/-- One sleep for the longest remaining time of the windows that lack room, or none if there are no
such windows. -/
def SleepsFor (weight : ℤ) (mutating : Bool) (l : Limiter ℚ) (now : ℚ) : List ℚ → Prop
  | [] => ∀ w ∈ l, ∀ remaining, ¬ Blocks weight mutating now w remaining
  | [d] => (∃ w ∈ l, Blocks weight mutating now w d) ∧
      ∀ w ∈ l, ∀ remaining, Blocks weight mutating now w remaining → remaining ≤ d
  | _ => False

/-- A window that the call does not charge is left alone, and another one is rolled on entry and at
the return and charged once. -/
def Charged (weight : ℤ) (mutating : Bool) (entry return_ : ℚ) (w w' : Window ℚ) : Prop :=
  match w.charge? weight mutating with
  | none => w' = w
  | some amount => ∃ w₁ w₂, w.roll entry = .ok w₁ ∧ w₁.roll return_ = .ok w₂ ∧
      w' = { w₂ with used := w₂.used + amount }

variable {weight : ℤ} {mutating : Bool} {now wait : ℚ} {l l' : Limiter ℚ}

/-! ## The wait of a pass -/

/-- The wait that a rolled window without room asks for is the rest of its interval. -/
theorem waitTime_of_blocked {w w' : Window ℚ} (hduration : 0 < w.duration)
    (hroll : w.roll now = .ok w') {amount : ℤ} (hused : w'.used ≠ 0)
    (hroom : w'.limit < w'.used + amount) :
    ∃ start, w'.windowStart = some start ∧
      w'.waitTime now amount = start + w'.duration - now ∧ 0 < w'.waitTime now amount := by
  obtain ⟨-, -, -, hsome, -⟩ := Window.roll_cases hroll
  obtain ⟨start, hstart⟩ := Option.isSome_iff_exists.1 hsome
  have hfull : ¬ (w'.used = 0 ∨ w'.used + amount ≤ w'.limit) := by omega
  have hpos : 0 < w'.waitTime now amount :=
    lt_of_not_ge fun hle => hfull ((Window.waitTime_le_zero_iff hduration hroll).1 hle)
  have hwait : w'.waitTime now amount = max 0 (start + w'.duration - now) := by
    rw [Window.waitTime, if_neg hfull, hstart, Option.getD_some]
  refine ⟨start, hstart, ?_, hpos⟩
  rw [hwait] at hpos ⊢
  exact max_eq_right (le_of_lt ((lt_max_iff.1 hpos).resolve_left (lt_irrefl 0)))

theorem LongestWait.sleepsFor (hpos : ∀ w ∈ l, 0 < w.duration)
    (h : LongestWait weight mutating l now wait) :
    SleepsFor weight mutating l now (if wait ≤ 0 then [] else [wait]) := by
  have hle : ∀ w ∈ l, ∀ remaining, Blocks weight mutating now w remaining →
      0 < remaining ∧ remaining ≤ wait := by
    rintro w hw remaining ⟨amount, w', start, hcharge, hroll, hused, hroom, hstart, rfl⟩
    obtain ⟨start', hstart', hwait, hlt⟩ := waitTime_of_blocked (hpos w hw) hroll hused hroom
    obtain rfl := Option.some.inj (hstart.symm.trans hstart')
    obtain ⟨w'', hroll', hle⟩ := h.le w hw amount hcharge
    obtain rfl := Except.ok.inj (hroll.symm.trans hroll')
    rw [hwait] at hlt hle
    exact ⟨hlt, hle⟩
  split
  · next hzero =>
    intro w hw remaining hblocks
    obtain ⟨hlt, hle⟩ := hle w hw remaining hblocks
    linarith
  · next hnot =>
    refine ⟨?_, fun w hw remaining hblocks => (hle w hw remaining hblocks).2⟩
    obtain hzero | ⟨w, hw, amount, w', hcharge, hroll, hwait⟩ := h.attained
    · exact absurd hzero.le hnot
    · have hfull : ¬ (w'.used = 0 ∨ w'.used + amount ≤ w'.limit) := fun hroom =>
        hnot (hwait ▸ (Window.waitTime_le_zero_iff (hpos w hw) hroll).2 hroom)
      obtain ⟨hused, hroom⟩ := not_or.1 hfull
      obtain ⟨start, hstart, hremaining, -⟩ :=
        waitTime_of_blocked (hpos w hw) hroll hused (not_le.1 hroom)
      exact ⟨w, hw, amount, w', start, hcharge, hroll, hused, not_le.1 hroom, hstart,
        hwait.symm.trans hremaining⟩

/-! ## The two passes -/

theorem Rolled.duration_eq {bound : ℚ} {w w' : Window ℚ} (h : Rolled weight mutating now bound w w') :
    w'.duration = w.duration := by
  rcases h with ⟨-, rfl⟩ | ⟨amount, -, hroll, -⟩
  · rfl
  · obtain ⟨-, -, hduration, -⟩ := Window.roll_cases hroll
    exact hduration

theorem duration_pos_of_rollAll (hpos : ∀ w ∈ l, 0 < w.duration)
    (h : rollAll weight mutating now l = .ok (wait, l')) : ∀ w ∈ l', 0 < w.duration := by
  intro w' hw'
  obtain ⟨w, hw, hrolled⟩ := (exists_of_forall₂ (rollAll_forall₂ h le_rfl)).1 w' hw'
  rw [hrolled.duration_eq]
  exact hpos w hw

/-- What has been rolled stays as it is when it is rolled at the same time again. -/
theorem Rolled.again {bound : ℚ} {w w' : Window ℚ} (hduration : 0 < w.duration)
    (h : Rolled weight mutating now bound w w') : Rolled weight mutating now bound w' w' := by
  have hcharge := h.charge?_eq
  rcases h with ⟨hnone, rfl⟩ | ⟨amount, hamount, hroll, hwait⟩
  · exact .inl ⟨hnone, rfl⟩
  · exact .inr ⟨amount, hcharge.trans hamount, Window.roll_again hduration hroll w'.used, hwait⟩

/-- A window that is rolled at two passes and then charged. -/
theorem charged_of_rolled {entry return_ bound bound' : ℚ} {w w₁ w₂ : Window ℚ}
    (h₁ : Rolled weight mutating entry bound w w₁)
    (h₂ : Rolled weight mutating return_ bound' w₁ w₂) :
    Charged weight mutating entry return_ w (match w₂.charge? weight mutating with
      | some amount => { w₂ with used := w₂.used + amount }
      | none => w₂) := by
  rw [h₂.charge?_eq, h₁.charge?_eq]
  unfold Charged
  have hcharge₁ := h₁.charge?_eq
  rcases h₁ with ⟨hnone, rfl⟩ | ⟨amount, hamount, hroll₁, -⟩
  · rw [hnone]
    rcases h₂ with ⟨-, rfl⟩ | ⟨amount, hamount, -⟩
    · rfl
    · rw [hnone] at hamount
      cases hamount
  · rw [hamount] at hcharge₁ ⊢
    rcases h₂ with ⟨hnone, -⟩ | ⟨amount', -, hroll₂, -⟩
    · rw [hcharge₁] at hnone
      cases hnone
    · exact ⟨w₁, w₂, hroll₁, hroll₂, rfl⟩

theorem forall₂_charged {entry return_ bound bound' : ℚ} {l₁ l₂ : Limiter ℚ}
    (h₁ : List.Forall₂ (Rolled weight mutating entry bound) l l₁)
    (h₂ : List.Forall₂ (Rolled weight mutating return_ bound') l₁ l₂) :
    List.Forall₂ (Charged weight mutating entry return_) l (chargeAll weight mutating l₂) := by
  induction h₁ generalizing l₂ with
  | nil =>
    cases h₂
    exact .nil
  | cons hfirst _ ih =>
    cases h₂ with
    | cons hsecond hrest => exact .cons (charged_of_rolled hfirst hsecond) (ih hrest)

/-- Alone, over windows of positive length, `acquire` returns in at most two passes: it sleeps at
most once, for the longest remaining time of the windows without room, and charges each window that
the call applies to once. -/
theorem acquire_alone (hpos : ∀ w ∈ l, 0 < w.duration) (weight : ℤ) (mutating : Bool) (now : ℚ)
    (passes : ℕ) :
    ∃ r, acquire weight mutating (passes + 2) now l = .ok (some r) ∧ r.sleeps.length ≤ 1 ∧
      SleepsFor weight mutating l now r.sleeps ∧ r.now = now + r.sleeps.sum ∧
      List.Forall₂ (Charged weight mutating now r.now) l r.windows := by
  obtain ⟨wait, l₁, hroll₁⟩ : ∃ wait l₁, rollAll weight mutating now l = .ok (wait, l₁) :=
    exists_rollAll hpos now
  have hrolled₁ := rollAll_forall₂ hroll₁ le_rfl
  have hsleeps := (rollAll_longestWait hroll₁).sleepsFor hpos
  by_cases hwait : wait ≤ 0
  · rw [if_pos hwait] at hsleeps
    refine ⟨⟨[], now, chargeAll weight mutating l₁⟩, ?_, Nat.zero_le 1, hsleeps, by simp, ?_⟩
    · rw [acquire, acquireStep, hroll₁]
      simp only [bind, Except.bind, if_pos hwait]
      rfl
    · have hagain : List.Forall₂ (Rolled weight mutating now wait) l₁ l₁ :=
        List.forall₂_same.2 fun w₁ hw₁ => by
          obtain ⟨w, hw, hrolled⟩ := (exists_of_forall₂ hrolled₁).1 w₁ hw₁
          exact hrolled.again (hpos w hw)
      exact forall₂_charged hrolled₁ hagain
  · rw [if_neg hwait] at hsleeps
    obtain ⟨wait₂, l₂, hroll₂⟩ :
        ∃ wait₂ l₂, rollAll weight mutating (now + wait) l₁ = .ok (wait₂, l₂) :=
      exists_rollAll (duration_pos_of_rollAll hpos hroll₁) (now + wait)
    -- the windows have been left as the first pass rolled them
    have hadmits : wait₂ ≤ 0 := (rollAll_after_wait hroll₁ le_rfl hroll₂).le
    refine ⟨⟨[wait], now + wait, chargeAll weight mutating l₂⟩, ?_, Nat.le_refl 1, hsleeps,
      by simp, forall₂_charged hrolled₁ (rollAll_forall₂ hroll₂ le_rfl)⟩
    rw [acquire, acquireStep, hroll₁]
    simp only [bind, Except.bind, if_neg hwait, pure, Except.pure, acquire, acquireStep, hroll₂,
      if_pos hadmits, Option.map_some]

/-- A window whose limit of 1 has been used up 20 seconds after its start. -/
def usedUp : Window ℚ :=
  { rateLimitType := .requestWeight, interval := .minute, intervalNum := 1, limit := 1,
    duration := 60, used := 1, windowStart := some 0 }

/-- Beside it an order window that is used up, with less time left, one with room, and one of the
raw requests, anchored by the call. -/
def twoUsedUp : Limiter ℚ :=
  [usedUp,
    { rateLimitType := .orders, interval := .second, intervalNum := 10, limit := 1, duration := 10,
      used := 2, windowStart := some 15 },
    { rateLimitType := .orders, interval := .day, intervalNum := 1, limit := 9, duration := 86400,
      used := 3, windowStart := some 0 },
    { rateLimitType := .rawRequests, interval := .minute, intervalNum := 5, limit := 8,
      duration := 300 }]

/-- An order waits for the longer of the two times left, and is charged once to each window. -/
theorem acquire_alone_twoUsedUp :
    ∃ r, acquire 1 true 2 20 twoUsedUp = .ok (some r) ∧ SleepsFor 1 true twoUsedUp 20 [40] ∧
      r.sleeps = [40] ∧ r.now = 60 ∧ r.windows.map Window.used = [1, 1, 4, 1] ∧
      List.Forall₂ (Charged 1 true 20 60) twoUsedUp r.windows := by
  have hpos : ∀ w ∈ twoUsedUp, 0 < w.duration := by decide +kernel
  obtain ⟨r, hrun, -, hsleeps, -, hcharged⟩ := acquire_alone hpos 1 true 20 0
  obtain ⟨hslept, hnow, hused⟩ : r.sleeps = [40] ∧ r.now = 60 ∧
      r.windows.map Window.used = [1, 1, 4, 1] := by
    have hends : (acquire 1 true 2 20 twoUsedUp).toOption.join.map (fun r =>
        (r.sleeps, r.now, r.windows.map Window.used)) = some ([40], 60, [1, 1, 4, 1]) := by
      decide +kernel
    rw [hrun] at hends
    obtain ⟨hslept, hrest⟩ := Prod.mk.inj (Option.some.inj hends)
    exact ⟨hslept, Prod.mk.inj hrest⟩
  rw [hslept] at hsleeps
  rw [hnow] at hcharged
  exact ⟨r, hrun, hsleeps, hslept, hnow, hused, hcharged⟩

end Limiter

end BinanceTh
