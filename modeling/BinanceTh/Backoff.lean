import BinanceTh.Transport
import Mathlib.Tactic.Positivity

/-!
# The backoff schedules

`_Backoff` of `stream.py`, which both supervisors of a socket use, and the delays of
`BackoffRetryer`. Each takes a power of the growth factor before it applies its cap: Python converts
the integer `2 ** n` to a float, and raises the float 2.0 to a power, and both raise `OverflowError`
from `2 ** 1024` on. Below it every delay is positive, at most the cap, and at least the one before.
-/

namespace BinanceTh

open Interaction

/-- `_Backoff`. -/
structure Backoff where
  base : ℚ := 1 / 2
  cap : ℚ := 30
  n : ℕ := 0

namespace Backoff

/-- `next`: the delay, and the backoff after it. -/
def next (b : Backoff) : Except Exc (ℚ × Backoff) :=
  if overflows (2 ^ b.n) then .error .overflowError
  else .ok (min (b.base * 2 ^ b.n) b.cap, { b with n := b.n + 1 })

def reset (b : Backoff) : Backoff := { b with n := 0 }

/-- The backoff after `n` failed attempts without a success in between. -/
def failed : ℕ → Except Exc Backoff
  | 0 => .ok {}
  | n + 1 => failed n >>= fun b => b.next.map Prod.snd

/-- The delay after the attempts of `failed n` and one more. -/
def delay (n : ℕ) : Except Exc ℚ := failed n >>= fun b => b.next.map Prod.fst

end Backoff

/-! ## Powers of two as floats -/

theorem floatOverflow_eq : floatOverflow = (2 ^ 54 - 1) * 2 ^ 970 := by
  have hsplit : (2 : ℚ) ^ 1024 = 2 ^ 54 * 2 ^ 970 := by rw [← pow_add]
  unfold floatOverflow
  rw [hsplit, sub_mul, one_mul]

theorem overflows_two_pow_iff {n : ℕ} : overflows (2 ^ n) = true ↔ 1024 ≤ n := by
  unfold overflows
  rw [decide_eq_true_eq, abs_of_pos (by positivity), floatOverflow_eq]
  have hpos : (0 : ℚ) < 2 ^ 970 := by positivity
  constructor
  · intro h
    by_contra hn
    have hle : (2 : ℚ) ^ n ≤ 2 ^ 53 * 2 ^ 970 := by
      rw [← pow_add]
      exact pow_le_pow_right₀ (by norm_num) (by omega)
    have hlt : (2 : ℚ) ^ 53 * 2 ^ 970 < (2 ^ 54 - 1) * 2 ^ 970 :=
      mul_lt_mul_of_pos_right (by norm_num) hpos
    exact absurd (h.trans hle) (not_le.2 hlt)
  · intro h
    have hle : (2 : ℚ) ^ 54 * 2 ^ 970 ≤ 2 ^ n := by
      rw [← pow_add]
      exact pow_le_pow_right₀ (by norm_num) (by omega)
    exact (mul_le_mul_of_nonneg_right (by norm_num) hpos.le).trans hle

theorem overflows_two_pow_of_lt {n : ℕ} (h : n < 1024) : overflows (2 ^ n) = false := by
  have hno : ¬ overflows (2 ^ n) = true := by
    rw [overflows_two_pow_iff]
    omega
  simpa using hno

/-! ## The schedule -/

/-- The delay of either schedule: half a second, doubled each time, up to `cap`. -/
def ceilingAt (cap : ℚ) (n : ℕ) : ℚ := min cap (1 / 2 * 2 ^ n)

theorem ceilingAt_pos {cap : ℚ} (hcap : 0 < cap) (n : ℕ) : 0 < ceilingAt cap n :=
  lt_min hcap (by positivity)

theorem ceilingAt_le (cap : ℚ) (n : ℕ) : ceilingAt cap n ≤ cap := min_le_left _ _

theorem ceilingAt_mono {cap : ℚ} {m n : ℕ} (h : m ≤ n) : ceilingAt cap m ≤ ceilingAt cap n := by
  have hpow : (2 : ℚ) ^ m ≤ 2 ^ n := pow_le_pow_right₀ (by norm_num) h
  exact min_le_min_left cap (by linarith)

/-- `Delays n d` says that attempt `n` computes the delay `d`. At `n` it does compute one: a
positive one, no longer than `cap`, and no shorter than those before it. -/
def DefinedAt (Delays : ℕ → ℚ → Prop) (cap : ℚ) (n : ℕ) : Prop :=
  ∃ d, Delays n d ∧ 0 < d ∧ d ≤ cap ∧ ∀ m ≤ n, ∃ d', Delays m d' ∧ d' ≤ d

/-- A schedule that computes its delay up to an attempt `limit` and none from there on. -/
theorem definedAt_iff {Delays : ℕ → ℚ → Prop} {cap : ℚ} {limit : ℕ} (hcap : 0 < cap)
    (hlt : ∀ n < limit, Delays n (ceilingAt cap n)) (hle : ∀ n d, limit ≤ n → ¬ Delays n d) (n : ℕ) :
    DefinedAt Delays cap n ↔ n < limit := by
  constructor
  · intro ⟨d, hd, _⟩
    by_contra hn
    exact hle n d (by omega) hd
  · intro hn
    refine ⟨_, hlt n hn, ceilingAt_pos hcap n, ceilingAt_le cap n, fun m hm => ?_⟩
    exact ⟨_, hlt m (by omega), ceilingAt_mono hm⟩

namespace Backoff

theorem next_of_lt {b : Backoff} (h : b.n < 1024) :
    b.next = .ok (min (b.base * 2 ^ b.n) b.cap, { b with n := b.n + 1 }) := by
  unfold next
  rw [overflows_two_pow_of_lt h]
  rfl

theorem next_of_le {b : Backoff} (h : 1024 ≤ b.n) : b.next = .error .overflowError := by
  unfold next
  rw [overflows_two_pow_iff.2 h]
  rfl

theorem failed_of_le {n : ℕ} (h : n ≤ 1024) : failed n = .ok { n } := by
  induction n with
  | zero => rfl
  | succ n ih =>
    have hnext := next_of_lt (b := { n }) (show n < 1024 by omega)
    rw [failed, ih (by omega)]
    exact congrArg (Except.map Prod.snd) hnext

/-- Past its last delay the backoff keeps raising. -/
theorem failed_of_lt {n : ℕ} (h : 1024 < n) : failed n = .error .overflowError := by
  induction n with
  | zero => omega
  | succ n ih =>
    rw [failed]
    by_cases hn : 1024 < n
    · rw [ih hn]
      rfl
    · have hnext := next_of_le (b := { n }) (show 1024 ≤ n by omega)
      rw [failed_of_le (show n ≤ 1024 by omega)]
      exact congrArg (Except.map Prod.snd) hnext

theorem delay_of_lt {n : ℕ} (h : n < 1024) : delay n = .ok (ceilingAt 30 n) := by
  have hnext := next_of_lt (b := { n }) h
  rw [delay, failed_of_le h.le, ceilingAt, min_comm]
  exact congrArg (Except.map Prod.fst) hnext

theorem delay_of_le {n : ℕ} (h : 1024 ≤ n) : delay n = .error .overflowError := by
  rw [delay]
  by_cases hn : 1024 < n
  · rw [failed_of_lt hn]
    rfl
  · have hnext := next_of_le (b := { n }) h
    rw [failed_of_le (show n ≤ 1024 by omega)]
    exact congrArg (Except.map Prod.fst) hnext

end Backoff

namespace BackoffRetryer

/-- Without a `Retry-After` the delay is drawn up to the ceiling. -/
theorem delay_of_lt {e : Exc} {k : ℕ} (he : e.retryAfter? = none) (h : k < 1024) :
    ({} : BackoffRetryer).delay e k = jitter (ceilingAt 8 k) := by
  have hno : ({} : BackoffRetryer).delayOverflows e k = false := by
    simp only [delayOverflows, he]
    exact overflows_two_pow_of_lt h
  simp only [delay, hno, he]
  rfl

theorem delay_of_le {e : Exc} {k : ℕ} (he : e.retryAfter? = none) (h : 1024 ≤ k) :
    ({} : BackoffRetryer).delay e k = throw .overflowError := by
  have hyes : ({} : BackoffRetryer).delayOverflows e k = true := by
    simp only [delayOverflows, he]
    exact overflows_two_pow_iff.2 h
  simp only [delay, hyes]
  rfl

theorem throw_ne_jitter {e : Exc} {c : ℚ} : (throw e : M ℚ) ≠ jitter c := by
  intro h
  have hrun : (throw e : M ℚ).run.run .init = (jitter c).run.run .init := by rw [h]
  cases hrun

/-- **How long backoff is defined.** The delay of a supervisor after `n` failures is computed, in
range and no shorter than those before it exactly below 1024 failures, and the delay ceilings of all
the retries that `max_retries` allows exactly up to 1024 retries. -/
theorem backoff_defined_iff (n maxRetries : ℕ) {e : Exc} (he : e.retryAfter? = none) :
    (DefinedAt (fun n d => Backoff.delay n = .ok d) 30 n ↔ n < 1024) ∧
    ((∀ attempt < maxRetries,
      DefinedAt (fun k c => ({} : BackoffRetryer).delay e k = jitter c) 8 attempt) ↔
      maxRetries ≤ 1024) := by
  constructor
  · refine definedAt_iff (by norm_num) (fun n hn => Backoff.delay_of_lt hn) (fun n d hn h => ?_) n
    rw [Backoff.delay_of_le hn] at h
    cases h
  · have hiff : ∀ k, DefinedAt (fun k c => ({} : BackoffRetryer).delay e k = jitter c) 8 k ↔
        k < 1024 :=
      definedAt_iff (by norm_num) (fun k hk => delay_of_lt he hk)
        (fun k c hk h => throw_ne_jitter ((delay_of_le he hk).symm.trans h))
    constructor
    · intro h
      by_contra hn
      have hlast := (hiff 1024).1 (h 1024 (by omega))
      omega
    · intro h attempt hattempt
      exact (hiff attempt).2 (by omega)

/-- The first delay of a supervisor, and the three retries of the default configuration. -/
theorem backoff_defined_default :
    DefinedAt (fun n d => Backoff.delay n = .ok d) 30 0 ∧ ∀ attempt < 3, DefinedAt
      (fun k c => ({} : BackoffRetryer).delay (.networkError "") k = jitter c) 8 attempt := by
  obtain ⟨hnext, hdelay⟩ := backoff_defined_iff 0 3 (e := .networkError "") rfl
  exact ⟨hnext.2 (by omega), hdelay.2 (by omega)⟩

/-- After 1024 failures in a row the next delay is an `OverflowError`. -/
theorem backoff_overflows : Backoff.delay 1024 = .error .overflowError ∧
    ¬ ∀ n, DefinedAt (fun n d => Backoff.delay n = .ok d) 30 n := by
  have hraise : Backoff.delay 1024 = .error .overflowError := Backoff.delay_of_le (le_refl 1024)
  refine ⟨hraise, fun h => ?_⟩
  obtain ⟨d, hd, -⟩ := h 1024
  rw [hraise] at hd
  cases hd

end BackoffRetryer

end BinanceTh
