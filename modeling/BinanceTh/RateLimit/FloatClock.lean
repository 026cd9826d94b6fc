import BinanceTh.RateLimit.Adopting

/-!
# Adopted limits on a clock of floats

The limiter over floats. A difference that is just short of a whole number of lengths may be rounded
up to it; then the window is rolled as if they had passed, and its new start may be rounded to a
number above the clock. Nothing else takes it there: that a roll leaves the start at the clock or
before it is a condition on the start, the length and the clock (`Window.roll_start_le_iff`). In
runs in which it holds of every roll, usable limits break nothing (`Adopting.run_unbroken`).
-/

namespace BinanceTh

open Transition

instance : Seconds PyFloat where
  times seconds n := .round (seconds * roundFloat n)
  floorDiv := PyFloat.floorDiv

/-! ## Rolling -/

/-- The length of a positive number of intervals; where floats are dense enough, it is whole. -/
structure IsLength (d : PyFloat) : Prop where
  one_le : 1 ≤ d.toRat
  whole : d.toRat ≤ 2 ^ 53 → ∃ n : ℤ, d.toRat = n

theorem isLength_times (interval : RateLimitInterval) {num : ℤ} (h : 0 < num) :
    IsLength (Seconds.times interval.seconds num) := by
  obtain ⟨m, hm, hseconds⟩ : ∃ m : ℤ, 0 < m ∧ interval.seconds = m := by
    cases interval
    · exact ⟨1, by decide, by norm_num [RateLimitInterval.seconds]⟩
    · exact ⟨60, by decide, by norm_num [RateLimitInterval.seconds]⟩
    · exact ⟨3600, by decide, by norm_num [RateLimitInterval.seconds]⟩
    · exact ⟨86400, by decide, by norm_num [RateLimitInterval.seconds]⟩
  have hlength : (Seconds.times interval.seconds num : PyFloat).toRat =
      roundFloat (m * roundFloat num) := by
    rw [← hseconds]
    rfl
  have hm' : (1 : ℚ) ≤ m := by exact_mod_cast hm
  have hfixed {n : ℤ} (hn : |n| ≤ 2 ^ 53) {x : ℚ} (hle : (n : ℚ) ≤ x) : (n : ℚ) ≤ roundFloat x :=
    (roundFloat_intCast hn).ge.trans (roundFloat_mono hle)
  have hnum : ((1 : ℤ) : ℚ) ≤ roundFloat num := hfixed (by decide) (by exact_mod_cast h)
  have hprod {n : ℚ} (hn : n ≤ roundFloat num) : n ≤ m * roundFloat num := by
    push_cast at hnum
    nlinarith
  constructor
  · rw [hlength]
    exact_mod_cast hfixed (n := 1) (by decide) (hprod hnum)
  · intro hle
    rw [hlength] at hle ⊢
    by_cases hsmall : num ≤ 2 ^ 53 ∧ m * num ≤ 2 ^ 53
    · have hnum' : roundFloat num = num := roundFloat_intCast (by rw [abs_of_pos h]; exact hsmall.1)
      refine ⟨m * num, ?_⟩
      rw [hnum', ← Int.cast_mul]
      exact roundFloat_intCast (by rw [abs_of_pos (mul_pos hm h)]; exact hsmall.2)
    · -- from `2 ^ 53` on it is `2 ^ 53` if it is not larger
      have hlarge : ((2 ^ 53 : ℤ) : ℚ) ≤ m * roundFloat num := by
        by_cases hnum' : num ≤ 2 ^ 53
        · have hmul : 2 ^ 53 ≤ m * num := (not_le.1 fun hno => hsmall ⟨hnum', hno⟩).le
          rw [roundFloat_intCast (by rw [abs_of_pos h]; exact hnum')]
          exact_mod_cast hmul
        · have hcast : ((2 ^ 53 : ℤ) : ℚ) ≤ num := by exact_mod_cast (not_le.1 hnum').le
          exact hprod (hfixed (by decide) hcast)
      refine ⟨2 ^ 53, le_antisymm ?_ (hfixed (by decide) hlarge)⟩
      push_cast
      exact hle

namespace Window

/-- The window has begun less than `2 ^ 53` seconds ago, and where the time since then is rounded to
a number of lengths, its start and these are not rounded to more than `now`. -/
def OnTime (w : Window PyFloat) (now : PyFloat) : Prop :=
  ∀ start, w.windowStart = some start → now.toRat - start.toRat < 2 ^ 53 ∧
    ∀ k : ℤ, (now - start).toRat = k * w.duration.toRat →
      roundFloat (start.toRat + k * w.duration.toRat) ≤ now.toRat

variable {w w' : Window PyFloat} {now start : PyFloat}

/-- A float that is exact is on time. -/
theorem onTime_of_exact (h : ∀ start, w.windowStart = some start →
    now.toRat - start.toRat < 2 ^ 53 ∧ (now - start).toRat = now.toRat - start.toRat) :
    w.OnTime now := by
  intro start hstart
  obtain ⟨hsoon, hexact⟩ := h start hstart
  refine ⟨hsoon, fun k hk => ?_⟩
  rw [← hk, hexact, add_sub_cancel, now.isFloat]

theorem elapsed_nonneg (h : start ≤ now) : 0 ≤ (now - start).toRat := by
  have hmono := roundFloat_mono (sub_nonneg.2 (PyFloat.le_iff.1 h))
  rwa [← Int.cast_zero, roundFloat_intCast (by decide), Int.cast_zero] at hmono

theorem elapsed_le (h : now.toRat - start.toRat < 2 ^ 53) : (now - start).toRat ≤ 2 ^ 53 := by
  have htop := roundFloat_intCast (n := 2 ^ 53) (by decide)
  rw [Int.cast_pow, Int.cast_ofNat] at htop
  exact (roundFloat_mono h.le).trans_eq htop

/-- The whole lengths in a time are a float. -/
theorem roundFloat_lengths {x : ℚ} {n : ℤ} (hx : 0 ≤ x) (hx' : x ≤ 2 ^ 53) (hn : 0 < n) :
    roundFloat (⌊x / n⌋ * n) = ⌊x / n⌋ * n := by
  have hcast : (0 : ℚ) < n := Int.cast_pos.2 hn
  have hfloor : 0 ≤ ⌊x / n⌋ := Int.floor_nonneg.2 (div_nonneg hx hcast.le)
  have hle : (⌊x / n⌋ : ℚ) * n ≤ x := (le_div_iff₀ hcast).1 (Int.floor_le _)
  have hwhole : |⌊x / n⌋ * n| ≤ 2 ^ 53 := by
    rw [abs_of_nonneg (mul_nonneg hfloor hn.le)]
    exact_mod_cast hle.trans hx'
  rw [← Int.cast_mul]
  exact roundFloat_intCast hwhole

/-- A window whose length has passed begins anew after as many lengths as go into the rounded time
since its start. -/
theorem toRat_roll_start (hlength : IsLength w.duration) (hle : start ≤ now)
    (hsoon : now.toRat - start.toRat < 2 ^ 53) (hdue : w.duration ≤ now - start) :
    ∃ n : ℤ, 0 < n ∧ w.duration.toRat = n ∧
      (start + w.duration * Seconds.floorDiv (now - start) w.duration).toRat =
        roundFloat (start.toRat + ⌊(now - start).toRat / n⌋ * n) := by
  obtain ⟨n, hn⟩ := hlength.whole (le_trans hdue (elapsed_le hsoon))
  have hpos : 0 < n := by
    have hone := hlength.one_le
    rw [hn] at hone
    exact_mod_cast hone
  have hcount : (Seconds.floorDiv (now - start) w.duration : PyFloat).toRat =
      ⌊(now - start).toRat / n⌋ :=
    PyFloat.toRat_floorDiv (elapsed_nonneg hle) (elapsed_le hsoon) hpos hn
  refine ⟨n, hpos, hn, ?_⟩
  rw [PyFloat.toRat_add, PyFloat.toRat_mul, hcount, hn, mul_comm (n : ℚ),
    roundFloat_lengths (elapsed_nonneg hle) (elapsed_le hsoon) hpos]

/-- **Rolling** a window that has begun leaves its start at the clock or before it exactly when the
window is on time. -/
theorem roll_start_le_iff (hlength : IsLength w.duration)
    (hbegun : ∀ start, w.windowStart = some start →
      start ≤ now ∧ now.toRat - start.toRat < 2 ^ 53) (hroll : w.roll now = .ok w') :
    (∀ start', w'.windowStart = some start' → start' ≤ now) ↔ w.OnTime now := by
  unfold roll at hroll
  split at hroll
  · next hnone =>
    obtain rfl := Except.ok.inj hroll
    refine iff_of_true (fun start' hstart' => (Option.some.inj hstart').ge) fun start hstart => ?_
    rw [hnone] at hstart
    cases hstart
  · next start hstart =>
    obtain ⟨hle, hsoon⟩ := hbegun start hstart
    have hontime : w.OnTime now ↔ ∀ k : ℤ, (now - start).toRat = k * w.duration.toRat →
        roundFloat (start.toRat + k * w.duration.toRat) ≤ now.toRat := by
      constructor
      · exact fun h => (h start hstart).2
      · intro h start₀ hstart₀
        obtain rfl := Option.some.inj (hstart.symm.trans hstart₀)
        exact ⟨hsoon, h⟩
    rw [hontime]
    split at hroll
    · next hdue =>
      have hpos : w.duration ≠ 0 := by
        intro hzero
        have hone := hlength.one_le
        rw [hzero, PyFloat.toRat_zero] at hone
        norm_num at hone
      rw [if_neg hpos] at hroll
      obtain rfl := Except.ok.inj hroll
      obtain ⟨n, hn, hduration, hnew⟩ := toRat_roll_start hlength hle hsoon hdue
      have hcast : (0 : ℚ) < n := Int.cast_pos.2 hn
      simp only [Option.some.injEq, forall_eq', PyFloat.le_iff, hnew, hduration]
      constructor
      · intro hstays k hk
        rwa [hk, mul_div_cancel_right₀ _ hcast.ne', Int.floor_intCast] at hstays
      · intro hwhole
        -- the lengths that are counted have passed, or the time is rounded up to them
        by_cases hpassed : (⌊(now - start).toRat / n⌋ : ℚ) * n ≤ now.toRat - start.toRat
        · have hmono := roundFloat_mono (y := now.toRat)
            (x := start.toRat + ⌊(now - start).toRat / n⌋ * n) (by linarith)
          rwa [now.isFloat] at hmono
        · refine hwhole _ (le_antisymm ?_ ((le_div_iff₀ hcast).1 (Int.floor_le _)))
          have hmono := roundFloat_mono (not_le.1 hpassed).le
          rwa [roundFloat_lengths (elapsed_nonneg hle) (elapsed_le hsoon) hn] at hmono
    · next hearly =>
      obtain rfl := Except.ok.inj hroll
      refine iff_of_true (fun start' hstart' => (hbegun start' hstart').1) fun k hk => ?_
      have hlt : (now - start).toRat < w.duration.toRat := not_le.1 hearly
      have hnonneg := elapsed_nonneg hle
      have hlow : (k : ℚ) < 1 := by nlinarith [hlength.one_le]
      have hhigh : (0 : ℚ) ≤ k := by nlinarith [hlength.one_le]
      have hzero : k = 0 := by
        have hlow' : k < 1 := by exact_mod_cast hlow
        have hhigh' : 0 ≤ k := by exact_mod_cast hhigh
        omega
      rw [hzero, Int.cast_zero, zero_mul, add_zero, start.isFloat]
      exact hle

/-- The difference is rounded up to the minute, and the sum is rounded up past the clock. -/
example : (Window.roll ⟨.requestWeight, .minute, 1, 1200, PyFloat.round 60, 1,
    some (PyFloat.round (3 + 24 / 2 ^ 51))⟩ (PyFloat.round (63 + 1 / 2 ^ 47))).toOption.bind
      Window.windowStart = some (PyFloat.round (63 + 2 / 2 ^ 47)) := by
  decide +kernel

/-- The window has a length and has not begun after the clock. -/
structure InUse (now : PyFloat) (w : Window PyFloat) : Prop where
  length : IsLength w.duration
  start : ∀ start, w.windowStart = some start → start ≤ now

theorem InUse.duration_pos (h : w.InUse now) : 0 < w.duration := by
  rw [PyFloat.lt_iff, PyFloat.toRat_zero]
  linarith [h.length.one_le]

theorem InUse.mono {now' : PyFloat} (h : w.InUse now) (hle : now ≤ now') : w.InUse now' :=
  ⟨h.length, fun start hstart => (h.start start hstart).trans hle⟩

theorem InUse.roll (h : w.InUse now) (hontime : w.OnTime now) (hroll : w.roll now = .ok w') :
    w'.InUse now := by
  obtain ⟨-, -, hduration, -⟩ := roll_frame hroll
  have hbegun (start : PyFloat) (hstart : w.windowStart = some start) :
      start ≤ now ∧ now.toRat - start.toRat < 2 ^ 53 :=
    ⟨h.start start hstart, (hontime start hstart).1⟩
  exact ⟨hduration ▸ h.length, (roll_start_le_iff h.length hbegun hroll).2 hontime⟩

end Window

/-! ## Calls -/

namespace Limiter

/-- The key of the window that a header is about. -/
def headerKey? (name value : String) : Option (RateLimitType × RateLimitInterval × ℤ) :=
  match headerWindow name, parseInt value with
  | some (rateType, digits, interval), some _ =>
    (parseInt digits).map fun num => (rateType, interval, num)
  | _, _ => none

/-- The windows that the headers roll, one after the other, are on time. -/
def HeadersOnTime (now : PyFloat) : Limiter PyFloat → List (String × String) → Prop
  | _, [] => True
  | l, (name, value) :: headers =>
    (∀ w ∈ l, headerKey? name value = some w.key → w.OnTime now) ∧
      ∀ l', l.reconcile now name value = .ok l' → HeadersOnTime now l' headers

/-- The windows that the call rolls are on time. -/
def Call.OnTime (now : PyFloat) (l : Limiter PyFloat) : Call → Prop
  | .acquire weight mutating =>
    ∀ w ∈ l, (w.charge? weight mutating).isSome = true → w.OnTime now
  | .updateFromHeaders headers => HeadersOnTime now l headers

variable {l l' : Limiter PyFloat} {now : PyFloat}

theorem inUse_reconcile {name value : String} (hl : ∀ w ∈ l, w.InUse now)
    (hontime : ∀ w ∈ l, headerKey? name value = some w.key → w.OnTime now)
    (h : l.reconcile now name value = .ok l') : ∀ w ∈ l', w.InUse now := by
  unfold reconcile at h
  unfold headerKey? at hontime
  split at h
  · next rateType digits interval used hname hvalue =>
    rw [hname, hvalue] at hontime
    dsimp only at hontime
    split at h
    · cases h
    · next num hnum =>
      rw [hnum] at hontime
      split at h
      · obtain rfl := Except.ok.inj h
        exact hl
      · next w hfind =>
        obtain ⟨w₁, hroll, h⟩ := bind_eq_ok_iff.1 h
        obtain rfl := Except.ok.inj h
        have hw : w ∈ l := List.mem_of_find?_eq_some hfind
        have hkey : w.key = (rateType, interval, num) := by simpa using List.find?_some hfind
        have hrolled := (hl w hw).roll (hontime w hw (by rw [hkey]; rfl)) hroll
        intro w' hw'
        rcases mem_insert hw' with rfl | ⟨hw', -⟩
        · exact ⟨hrolled.length, hrolled.start⟩
        · exact hl w' hw'
  · obtain rfl := Except.ok.inj h
    exact hl

theorem inUse_updateFromHeaders {headers : List (String × String)} :
    ∀ {l : Limiter PyFloat}, (∀ w ∈ l, w.InUse now) → HeadersOnTime now l headers →
      ∀ w ∈ (updateFromHeaders now l headers).1, w.InUse now := by
  induction headers with
  | nil => exact fun hl _ => hl
  | cons header headers ih =>
    intro l hl hontime
    rw [updateFromHeaders]
    split
    · exact hl
    · next l' hone => exact ih (inUse_reconcile hl hontime.1 hone) (hontime.2 l' hone)

/-- **A call** that rolls windows on time leaves them so that none begins after the clock. -/
theorem inUse_perform {call : Call} (hl : ∀ w ∈ l, w.InUse now) (hontime : call.OnTime now l) :
    ∀ w ∈ (l.perform now call).1, w.InUse now := by
  cases call with
  | updateFromHeaders headers => exact inUse_updateFromHeaders hl hontime
  | acquire weight mutating =>
    intro w' hw'
    obtain ⟨w, hw, w₁, used, bound, hrolled, rfl⟩ :=
      exists_rolled_of_mem (fun w hw => (hl w hw).duration_pos) hw'
    rcases hrolled with ⟨-, rfl⟩ | ⟨amount, hcharge, hroll, -⟩
    · exact ⟨(hl _ hw).length, (hl _ hw).start⟩
    · have hkept := (hl w hw).roll (hontime w hw (by rw [hcharge]; rfl)) hroll
      exact ⟨hkept.length, hkept.start⟩

end Limiter

/-! ## Runs -/

namespace Adopting

/-- Before a reseed: the rules are usable, and the windows that they keep have not begun after the
clock. Before a call: its headers have numbers in their names that can be converted, and the windows
that it rolls are on time. -/
def Sound (s : Adopting PyFloat) : AdoptingLabel PyFloat → Prop
  | .call now call => call.Convertible ∧ call.OnTime now s.windows
  | .reseed rules => ∀ rule ∈ rules, Usable rule ∧ ∀ w ∈ s.windows,
      w.key = (rule.rateLimitType, rule.interval, rule.intervalNum) →
        ∀ start, w.windowStart = some start → start ≤ s.now

variable {rules₀ : List RateLimit} {now₀ : PyFloat} {s t : Adopting PyFloat}
  {rules : List RateLimit}

/-- **A reseed** with usable rules adopts them. -/
theorem inUse_reseed (h : Sound s (.reseed rules)) (hstep : s.step (.reseed rules) = some t) :
    t.raised = s.raised ∧ ∀ w ∈ t.windows, w.InUse t.now := by
  obtain rfl := Option.some.inj hstep
  have hadopt : s.windows.adopt rules = (s.windows.reseed rules, .ok ()) :=
    Limiter.adopt_eq fun rule hrule => (h rule hrule).1.2
  rw [hadopt]
  refine ⟨rfl, fun w hw => ?_⟩
  obtain ⟨rule, hrule, rfl⟩ := List.mem_map.1 (Limiter.mem_of_mem_ofWindows hw)
  obtain ⟨husable, hkept⟩ := h rule hrule
  obtain ⟨hkey, hduration, hcases⟩ := Limiter.reseeded_cases s.windows rule
  refine ⟨hduration ▸ isLength_times rule.interval husable.1, fun start hstart => ?_⟩
  rcases hcases with ⟨w, hw, heq, -, hsame⟩ | ⟨-, -, hnone⟩
  · exact hkept w hw (heq.trans hkey) start (hsame ▸ hstart)
  · rw [hnone] at hstart
    cases hstart

/-- **A step** in sound conditions raises nothing, and no window begins after the clock then. -/
theorem inUse_step {label : AdoptingLabel PyFloat} (hs : ∀ w ∈ s.windows, w.InUse s.now)
    (h : Sound s label) (hstep : s.step label = some t) :
    t.raised = s.raised ∧ ∀ w ∈ t.windows, w.InUse t.now := by
  cases label with
  | reseed rules => exact inUse_reseed h hstep
  | call now call =>
    obtain ⟨hle, hafter⟩ := Option.ite_none_right_eq_some.1 hstep
    obtain rfl := Option.some.inj hafter
    have hnow : ∀ w ∈ s.windows, w.InUse now := fun w hw => (hs w hw).mono hle
    refine ⟨(s.after_raised_iff now _).2 ?_, Limiter.inUse_perform hnow h.2⟩
    exact (Limiter.performed_iff (fun w hw => (hnow w hw).duration_pos) call).2 h.1

/-- The server's limit of 1200 a minute. -/
def oneMinute : RateLimit := ⟨.requestWeight, .minute, 1, 1200⟩

/-- A limiter with the default limits. -/
def freshLimiter : Adopting PyFloat := (system defaultRateLimits 0).init

def adoptedMinute : Adopting PyFloat :=
  freshLimiter.after 0 (freshLimiter.windows.adopt [oneMinute])

/-- The minute has begun. -/
def begunMinute : Adopting PyFloat :=
  adoptedMinute.after 0 (adoptedMinute.windows.perform 0 (.acquire 1 false))

/-- The server's limit, with the number of minutes gone wrong. -/
def noMinutes : RateLimit := ⟨.requestWeight, .minute, 0, 1200⟩

end Adopting

end BinanceTh
