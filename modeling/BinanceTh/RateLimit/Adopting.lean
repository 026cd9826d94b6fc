import BinanceTh.Lib.Transition
import BinanceTh.RateLimit.Adoption

/-!
# Runs with adopted limits

A limiter whose rules are replaced while it is in use, by rules that come from the server unchecked.
A window that is adopted with no length divides by zero from its second use on, and one of negative
length is rolled past the clock.

In exact arithmetic nothing else does so. A key determines a window's length, so that a window of a
positive number of intervals has never started after the clock, whatever the limiter went through
before the rules came (`Settled`); and rules break no calls exactly when they give every window some
length (`run_unbroken_iff`). What the rounding of floats adds to this is in `RateLimit.FloatClock`.
-/

namespace BinanceTh

open Transition

/-- A limiter with the last reading of its clock and what calls on it have raised. -/
structure Adopting (K : Type) where
  windows : Limiter K
  now : K
  raised : List Exc := []

inductive AdoptingLabel (K : Type) where
  | call (now : K) (call : Limiter.Call)
  | reseed (rateLimits : List RateLimit)

namespace Adopting

section

variable {K : Type}

def after (s : Adopting K) (now : K) (result : Limiter K × Except Exc Unit) : Adopting K where
  windows := result.1
  now := now
  raised := match result.2 with
    | .ok _ => s.raised
    | .error e => s.raised ++ [e]

theorem after_raised (s : Adopting K) (now : K) (result : Limiter K × Except Exc Unit) :
    ∃ more, (s.after now result).raised = s.raised ++ more ∧ (more = [] ↔ result.2 = .ok ()) := by
  rcases result with ⟨l, e | ⟨⟩⟩
  · exact ⟨[e], rfl, by simp⟩
  · exact ⟨[], (List.append_nil _).symm, by simp⟩

theorem after_raised_iff (s : Adopting K) (now : K) (result : Limiter K × Except Exc Unit) :
    (s.after now result).raised = s.raised ↔ result.2 = .ok () := by
  obtain ⟨more, hmore, hnone⟩ := s.after_raised now result
  rw [hmore, List.append_right_eq_self, hnone]

/-- The calls at their readings of the clock. -/
def callsAt (calls : List (K × Limiter.Call)) : List (AdoptingLabel K) :=
  calls.map fun c => .call c.1 c.2

variable [LinearOrder K] [Zero K] [Add K] [Sub K] [Mul K] [Seconds K]

/-- The clock does not go back. -/
def step (s : Adopting K) : AdoptingLabel K → Option (Adopting K)
  | .call now call =>
    if s.now ≤ now then some (s.after now (s.windows.perform now call)) else none
  | .reseed rateLimits => some (s.after s.now (s.windows.adopt rateLimits))

/-- A limiter made of `rules` at a time `now`. -/
def system (rules : List RateLimit) (now : K) : System (Adopting K) (AdoptingLabel K) where
  init := { windows := Limiter.ofRateLimits rules, now }
  step := step

/-- Nothing has been raised since `s`, and no window begins after the clock. -/
def Unbroken (s t : Adopting K) : Prop :=
  t.raised = s.raised ∧ ∀ w ∈ t.windows, ∀ start, w.windowStart = some start → start ≤ t.now

end

/-- A rule that gives its window some length. -/
def Usable (rule : RateLimit) : Prop :=
  0 < rule.intervalNum ∧ overflows rule.intervalNum = false

/-- The window has the length of its key and, if that is positive, has not begun after `now`. -/
structure Settled (now : ℚ) (w : Window ℚ) : Prop where
  duration : w.duration = w.interval.seconds * w.intervalNum
  start : 0 < w.intervalNum → ∀ start, w.windowStart = some start → start ≤ now

variable {rules₀ : List RateLimit} {now₀ now now' : ℚ} {s t : Adopting ℚ} {w w' : Window ℚ}

theorem Settled.mono (h : Settled now w) (hle : now ≤ now') : Settled now' w :=
  ⟨h.duration, fun hpos start hstart => (h.start hpos start hstart).trans hle⟩

theorem Settled.duration_pos_iff (h : Settled now w) : 0 < w.duration ↔ 0 < w.intervalNum := by
  rw [h.duration, mul_pos_iff_of_pos_left w.interval.seconds_pos]
  exact Int.cast_pos

theorem Settled.roll (h : Settled now w) (hroll : w.roll now = .ok w') : Settled now w' := by
  have hnum := Window.roll_intervalNum hroll
  have hinterval := (Prod.mk.inj (Prod.mk.inj (Window.roll_key hroll)).2).1
  obtain ⟨-, -, hduration, -⟩ := Window.roll_cases hroll
  refine ⟨by rw [hduration, hinterval, hnum, h.duration], ?_⟩
  rw [hnum]
  intro hpos start hstart
  have hlength := h.duration_pos_iff.2 hpos
  unfold Window.roll at hroll
  split at hroll
  · obtain rfl := Except.ok.inj hroll
    exact (Option.some.inj hstart).ge
  · next start₀ hsome =>
    split at hroll
    · rw [if_neg hlength.ne', Seconds.floorDiv_rat] at hroll
      obtain rfl := Except.ok.inj hroll
      obtain rfl := Option.some.inj hstart
      -- whole durations that have elapsed are no more than what has
      have hfloor := Int.floor_le ((now - start₀) / w.duration)
      rw [le_div_iff₀ hlength] at hfloor
      linarith
    · obtain rfl := Except.ok.inj hroll
      exact h.start hpos start hstart

theorem settled_reseeded {l : Limiter ℚ} (h : ∀ w ∈ l, Settled now w) (rule : RateLimit) :
    Settled now (l.reseeded rule) := by
  obtain ⟨hkey, hduration, hcases⟩ := Limiter.reseeded_cases l rule
  have hnum := l.reseeded_intervalNum rule
  have hinterval := (Prod.mk.inj (Prod.mk.inj hkey).2).1
  refine ⟨by rw [hduration, hinterval, hnum, Seconds.times_rat], fun hpos start hstart => ?_⟩
  rcases hcases with ⟨w, hw, heq, -, hsame⟩ | ⟨-, -, hnone⟩
  · rw [← (Prod.mk.inj (Prod.mk.inj heq).2).2] at hpos
    exact (h w hw).start hpos start (hsame ▸ hstart)
  · rw [hnone] at hstart
    cases hstart

theorem settled_ofRateLimits (rules : List RateLimit) (now : ℚ) :
    ∀ w ∈ Limiter.ofRateLimits rules, Settled now w :=
  Limiter.ofRateLimits_forall fun _ _ => ⟨rfl, fun _ _ hstart => by cases hstart⟩

theorem settled_step {label : AdoptingLabel ℚ} (h : ∀ w ∈ s.windows, Settled s.now w)
    (hstep : s.step label = some t) : s.now ≤ t.now ∧ ∀ w ∈ t.windows, Settled t.now w := by
  cases label with
  | call now call =>
    obtain ⟨hle, hafter⟩ := Option.ite_none_right_eq_some.1 hstep
    obtain rfl := Option.some.inj hafter
    exact ⟨hle, Limiter.perform_forall (fun _ _ hw => ⟨hw.duration, hw.start⟩)
      (fun _ _ hw hroll => hw.roll hroll) (fun w hw => (h w hw).mono hle)⟩
  | reseed rateLimits =>
    obtain rfl := Option.some.inj hstep
    exact ⟨le_rfl, Limiter.adopt_forall (fun _ hl rule _ _ => settled_reseeded hl rule) h⟩

/-- Whatever calls and rules a limiter has had. -/
theorem settled_run {labels : List (AdoptingLabel ℚ)}
    (hrun : (system rules₀ now₀).run (system rules₀ now₀).init labels = some s) :
    ∀ w ∈ s.windows, Settled s.now w :=
  System.run_invariant (C := fun _ _ => True) (I := fun s => ∀ w ∈ s.windows, Settled s.now w)
    (fun _ _ _ hI _ hstep => (settled_step hI hstep).2) labels (settled_ofRateLimits rules₀ now₀)
    (System.guarded_of_forall (P := fun _ => True) labels (fun _ _ => trivial) _) hrun

/-- Calls on windows of positive length raise for the number in a header's name only. -/
theorem run_callsAt {calls : List (ℚ × Limiter.Call)}
    (h : ∀ w ∈ s.windows, Settled s.now w ∧ 0 < w.duration)
    (hrun : (system rules₀ now₀).run s (callsAt calls) = some t) :
    (∀ w ∈ t.windows, Settled t.now w ∧ 0 < w.duration) ∧
      ∃ more, t.raised = s.raised ++ more ∧ (more = [] ↔ ∀ c ∈ calls, c.2.Convertible) := by
  induction calls generalizing s with
  | nil =>
    obtain rfl := Option.some.inj hrun
    exact ⟨h, [], (List.append_nil _).symm, by simp⟩
  | cons c calls ih =>
    obtain ⟨s', hstep, hrun⟩ := System.run_cons_iff.1 hrun
    obtain ⟨hle, hafter⟩ := Option.ite_none_right_eq_some.1 hstep
    obtain rfl := Option.some.inj hafter
    have hkept : ∀ w ∈ (s.windows.perform c.1 c.2).1, Settled c.1 w ∧ 0 < w.duration := by
      refine Limiter.perform_forall (fun _ _ hw => ⟨⟨hw.1.duration, hw.1.start⟩, hw.2⟩) ?_
        (fun w hw => ⟨(h w hw).1.mono hle, (h w hw).2⟩)
      intro w w' hw hroll
      obtain ⟨-, -, hduration, -⟩ := Window.roll_cases hroll
      exact ⟨hw.1.roll hroll, hduration ▸ hw.2⟩
    obtain ⟨more, hmore, hnone⟩ := s.after_raised c.1 (s.windows.perform c.1 c.2)
    obtain ⟨hsettled, rest, hrest, hnone'⟩ := ih hkept hrun
    refine ⟨hsettled, more ++ rest, by rw [hrest, hmore, List.append_assoc], ?_⟩
    rw [List.append_eq_nil_iff, List.forall_mem_cons, hnone, hnone',
      Limiter.performed_iff fun w hw => (h w hw).2]

/-! ## Windows of no length -/

/-- A window without a positive length that has begun is past its end, and it divides by zero or
comes to begin after the clock. -/
theorem exists_roll_late {start : ℚ} (hduration : w.duration ≤ 0)
    (hstart : w.windowStart = some start) (hle : start ≤ now) :
    ∃ now', now ≤ now' ∧ ∀ w', w.roll now' = .ok w' →
      ∃ start', w'.windowStart = some start' ∧ now' < start' := by
  rcases hduration.eq_or_lt with hzero | hneg
  · refine ⟨now, le_rfl, fun w' hroll => ?_⟩
    unfold Window.roll at hroll
    rw [hstart] at hroll
    dsimp only at hroll
    rw [if_pos (by linarith), if_pos hzero] at hroll
    cases hroll
  · -- half of a duration past a number of whole ones
    have hceil := Int.le_ceil ((now - start) / -w.duration)
    rw [div_le_iff₀ (neg_pos.2 hneg)] at hceil
    generalize ⌈(now - start) / -w.duration⌉ = k at hceil
    refine ⟨start + (k + 1 / 2) * -w.duration, by linarith, fun w' hroll => ?_⟩
    unfold Window.roll at hroll
    rw [hstart] at hroll
    dsimp only at hroll
    rw [if_pos (by linarith), if_neg hneg.ne, Seconds.floorDiv_rat] at hroll
    obtain rfl := Except.ok.inj hroll
    have hquotient : (start + (k + 1 / 2) * -w.duration - start) / w.duration = -(k + 1 / 2) := by
      rw [div_eq_iff hneg.ne]
      ring
    have hfloor : ⌊(-(k + 1 / 2) : ℚ)⌋ = -k - 1 := by
      rw [Int.floor_eq_iff]
      push_cast
      constructor <;> linarith
    refine ⟨_, rfl, ?_⟩
    rw [hquotient, hfloor]
    push_cast
    linarith

/-- A pass of a mutating call that raises nothing rolls every window. -/
theorem exists_of_pass {l : Limiter ℚ} {weight : ℤ}
    (hok : (l.perform now (.acquire weight true)).2 = .ok ()) (hw : w ∈ l) :
    ∃ w' used, w.roll now = .ok w' ∧
      { w' with used } ∈ (l.perform now (.acquire weight true)).1 := by
  have hcharge : ∃ amount, w.charge? weight true = some amount := by
    unfold Window.charge?
    cases w.rateLimitType <;> simp
  obtain ⟨amount, hcharge⟩ := hcharge
  rw [Limiter.perform] at hok ⊢
  split at hok
  · next a l' hstep =>
    obtain ⟨⟨wait, rolled⟩, hrolled, hstep⟩ := bind_eq_ok_iff.1 hstep
    obtain ⟨w', hw', hrolls⟩ :=
      (Limiter.exists_of_forall₂ (Limiter.rollAll_forall₂ hrolled le_rfl)).2 w hw
    have hcharge' := hrolls.charge?_eq.trans hcharge
    obtain ⟨hnone, -⟩ | ⟨-, -, hroll, -⟩ := hrolls
    · rw [hcharge] at hnone
      cases hnone
    · dsimp only at hstep
      split at hstep
      · obtain ⟨-, rfl⟩ := Prod.mk.inj (Except.ok.inj hstep)
        refine ⟨w', w'.used + amount, hroll, List.mem_map.2 ⟨w', hw', ?_⟩⟩
        rw [hcharge']
      · obtain ⟨-, rfl⟩ := Prod.mk.inj (Except.ok.inj hstep)
        exact ⟨w', w'.used, hroll, hw'⟩
  · cases hok

/-- Two passes of mutating calls find a window without a positive length. -/
theorem duration_pos_of_unbroken (h : ∀ calls t, (∀ c ∈ calls, Limiter.Call.Convertible c.2) →
      (system rules₀ now₀).run s (callsAt calls) = some t → Unbroken s t) (hw : w ∈ s.windows) :
    0 < w.duration := by
  by_contra hnot
  have hduration := not_lt.1 hnot
  let first := s.after s.now (s.windows.perform s.now (.acquire 1 true))
  have hfirst : s.step (.call s.now (.acquire 1 true)) = some first := if_pos le_rfl
  obtain ⟨hraised, hstarts⟩ := h [(s.now, .acquire 1 true)] first
    (List.forall_mem_singleton.2 trivial) (System.run_cons_iff.2 ⟨first, hfirst, rfl⟩)
  have hok : (s.windows.perform s.now (.acquire 1 true)).2 = .ok () :=
    (s.after_raised_iff s.now _).1 hraised
  obtain ⟨w₁, used, hroll, hw₁⟩ := exists_of_pass hok hw
  obtain ⟨-, -, hsame, hanchored, -⟩ := Window.roll_cases hroll
  obtain ⟨start, hstart⟩ := Option.isSome_iff_exists.1 hanchored
  obtain ⟨now', hle, hlate⟩ := exists_roll_late (w := { w₁ with used }) (hsame ▸ hduration) hstart
    (hstarts _ hw₁ start hstart)
  let second := first.after now' (first.windows.perform now' (.acquire 1 true))
  have hsecond : first.step (.call now' (.acquire 1 true)) = some second := if_pos hle
  obtain ⟨hraised', hstarts'⟩ := h [(s.now, .acquire 1 true), (now', .acquire 1 true)] second
    (List.forall_mem_cons.2 ⟨trivial, List.forall_mem_singleton.2 trivial⟩)
    (System.run_cons_iff.2 ⟨first, hfirst, System.run_cons_iff.2 ⟨second, hsecond, rfl⟩⟩)
  have hok' : (first.windows.perform now' (.acquire 1 true)).2 = .ok () :=
    (first.after_raised_iff now' _).1 (hraised'.trans hraised.symm)
  obtain ⟨w₂, used', hroll', hw₂⟩ := exists_of_pass hok' hw₁
  obtain ⟨start', hstart', hlt⟩ := hlate w₂ hroll'
  exact absurd (hstarts' _ hw₂ start' hstart') (not_le.2 hlt)

/-! ## Adopted rules -/

/-- **In exact arithmetic**, whatever a limiter has been through, rules from the server that it
adopts break none of the calls after them, at any readings of a clock that does not go back, if and
only if each has a positive number of intervals that a float can hold; the headers in the calls must
have numbers in their names that can be converted, and with such rules it depends on nothing else. -/
theorem run_unbroken_iff {labels : List (AdoptingLabel ℚ)} {rules : List RateLimit}
    (hrun : (system rules₀ now₀).run (system rules₀ now₀).init labels = some s) :
    ((∀ calls t, (∀ c ∈ calls, Limiter.Call.Convertible c.2) →
        (system rules₀ now₀).run s (.reseed rules :: callsAt calls) = some t → Unbroken s t) ↔
      ∀ rule ∈ rules, Usable rule) ∧
    ((∀ rule ∈ rules, Usable rule) → ∀ calls t,
      (system rules₀ now₀).run s (.reseed rules :: callsAt calls) = some t →
        (Unbroken s t ↔ ∀ c ∈ calls, Limiter.Call.Convertible c.2)) := by
  have hsettled := settled_run hrun
  have hiff : (∀ rule ∈ rules, Usable rule) → ∀ calls t,
      (system rules₀ now₀).run s (.reseed rules :: callsAt calls) = some t →
        (Unbroken s t ↔ ∀ c ∈ calls, Limiter.Call.Convertible c.2) := by
    intro hrules calls t hcalls
    obtain ⟨s', hstep, hcalls⟩ := System.run_cons_iff.1 hcalls
    obtain rfl := Option.some.inj hstep
    rw [Limiter.adopt_eq fun rule hrule => (hrules rule hrule).2] at hcalls
    have hadopted : ∀ w ∈ s.windows.reseed rules, Settled s.now w ∧ 0 < w.duration := by
      intro w hw
      obtain ⟨rule, hrule, rfl⟩ := List.mem_map.1 (Limiter.mem_of_mem_ofWindows hw)
      have hw := settled_reseeded hsettled rule
      refine ⟨hw, hw.duration_pos_iff.2 ?_⟩
      rw [Limiter.reseeded_intervalNum]
      exact (hrules rule hrule).1
    obtain ⟨hkept, more, hmore, hnone⟩ := run_callsAt hadopted hcalls
    rw [← hnone]
    constructor
    · intro hunbroken
      exact List.append_right_eq_self.1 (hmore.symm.trans hunbroken.1)
    · rintro rfl
      refine ⟨hmore.trans (List.append_nil _), fun w hw => ?_⟩
      obtain ⟨hw, hlength⟩ := hkept w hw
      exact hw.start (hw.duration_pos_iff.1 hlength)
  refine ⟨⟨?_, fun hrules calls t hcalls hrun => (hiff hrules calls t hrun).2 hcalls⟩, hiff⟩
  intro hunbroken
  have hok : (s.windows.adopt rules).2 = .ok () := by
    obtain ⟨hraised, -⟩ := hunbroken [] _ (fun _ h => absurd h List.not_mem_nil)
      (System.run_cons_iff.2 ⟨_, rfl, rfl⟩)
    exact (s.after_raised_iff s.now _).1 hraised
  have hfits := Limiter.adopt_ok_iff.1 hok
  intro rule hrule
  refine ⟨?_, hfits rule hrule⟩
  have hafter : ∀ calls t, (∀ c ∈ calls, Limiter.Call.Convertible c.2) →
      (system rules₀ now₀).run (s.after s.now (s.windows.adopt rules)) (callsAt calls) = some t →
        Unbroken (s.after s.now (s.windows.adopt rules)) t := by
    intro calls t hcalls hrun
    have hraised : (s.after s.now (s.windows.adopt rules)).raised = s.raised :=
      (s.after_raised_iff s.now _).2 hok
    obtain ⟨hsame, hstarts⟩ := hunbroken calls t hcalls (System.run_cons_iff.2 ⟨_, rfl, hrun⟩)
    exact ⟨hsame.trans hraised.symm, hstarts⟩
  rw [Limiter.adopt_eq hfits] at hafter
  have hkey := Limiter.key_mem_ofWindows (List.mem_map_of_mem (f := s.windows.reseeded) hrule)
  rw [Limiter.reseeded_key] at hkey
  obtain ⟨w, hw, hkey⟩ := List.mem_map.1 hkey
  have hpos := duration_pos_of_unbroken hafter hw
  obtain ⟨rule', -, rfl⟩ := List.mem_map.1 (Limiter.mem_of_mem_ofWindows hw)
  rw [(settled_reseeded hsettled rule').duration_pos_iff] at hpos
  exact (Prod.mk.inj (Prod.mk.inj hkey).2).2 ▸ hpos

end Adopting

end BinanceTh
