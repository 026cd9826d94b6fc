import Mathlib.Algebra.Order.Floor.Ring
import Mathlib.Tactic.Linarith
import Mathlib.Tactic.Positivity

/-!
# Rounding to multiples

The integer multiples of a number `s` in an ordered field with a floor. `down s x` is the largest
one that is not above `x`, for a positive `s`; `truncate s x` is the one next to `x` on the side of
0, for an `s` of any sign. A multiple is below `x` iff it is below `down s x` (`le_down_iff`), and
from this one equivalence follows how a bound on the rounded number reads as one on `x` itself
(`le_down_iff_ceil`, `down_le_iff_floor`).
-/

namespace Multiples

variable {K : Type*} [Field K] [LinearOrder K] [IsStrictOrderedRing K] [FloorRing K]
  {s x y m : K}

/-- `x` is an integer multiple of `s`. -/
def IsMultiple (s x : K) : Prop := ∃ n : ℤ, x = n * s

def down (s x : K) : K := ⌊x / s⌋ * s

def truncate (s x : K) : K := (if x / s < 0 then ⌈x / s⌉ else ⌊x / s⌋ : ℤ) * s

omit [IsStrictOrderedRing K] in
theorem isMultiple_down (s x : K) : IsMultiple s (down s x) := ⟨_, rfl⟩

omit [IsStrictOrderedRing K] in
theorem isMultiple_truncate (s x : K) : IsMultiple s (truncate s x) := ⟨_, rfl⟩

/-! ## Rounding down -/

theorem down_le (hs : 0 < s) (x : K) : down s x ≤ x :=
  sub_nonneg.1 (Int.sub_floor_div_mul_nonneg x hs)

theorem sub_down_lt (hs : 0 < s) (x : K) : x - down s x < s := Int.sub_floor_div_mul_lt x hs

/-- Rounding down is the right adjoint of the inclusion of the multiples. -/
theorem le_down_iff (hs : 0 < s) (hy : IsMultiple s y) : y ≤ down s x ↔ y ≤ x := by
  obtain ⟨n, rfl⟩ := hy
  unfold down
  rw [mul_le_mul_iff_left₀ hs, Int.cast_le, Int.le_floor, le_div_iff₀ hs]

theorem down_of_isMultiple (hs : 0 < s) (hx : IsMultiple s x) : down s x = x :=
  (down_le hs x).antisymm ((le_down_iff hs hx).2 le_rfl)

theorem down_eq_self_iff (hs : 0 < s) : down s x = x ↔ IsMultiple s x :=
  ⟨fun h => h ▸ isMultiple_down s x, down_of_isMultiple hs⟩

theorem down_pos_iff (hs : 0 < s) : 0 < down s x ↔ s ≤ x := by
  rw [← le_down_iff hs ⟨1, by simp⟩]
  obtain ⟨n, hn⟩ := isMultiple_down s x
  rw [hn, mul_pos_iff_of_pos_right hs, Int.cast_pos, le_mul_iff_one_le_left hs,
    ← Int.cast_one, Int.cast_le]
  exact Int.add_one_le_iff.symm

/-- A lower bound holds of the rounded number iff its next multiple holds of the number. -/
theorem le_down_iff_ceil (hs : 0 < s) : m ≤ down s x ↔ ⌈m / s⌉ * s ≤ x := by
  rw [← le_down_iff (y := ⌈m / s⌉ * s) hs ⟨_, rfl⟩]
  unfold down
  rw [mul_le_mul_iff_left₀ hs, Int.cast_le, Int.ceil_le, div_le_iff₀ hs]

/-- An upper bound holds of the rounded number iff the number is below the first multiple that is
past the bound. -/
theorem down_le_iff_floor (hs : 0 < s) : down s x ≤ m ↔ x < (⌊m / s⌋ + 1) * s := by
  unfold down
  rw [← le_div_iff₀ hs, ← Int.le_floor, ← div_lt_iff₀ hs, ← Int.cast_one, ← Int.cast_add,
    ← Int.floor_lt, Int.lt_add_one_iff]

/-! ## Truncation -/

theorem truncate_of_nonneg (hs : 0 < s) (hx : 0 ≤ x) : truncate s x = down s x := by
  unfold truncate down
  rw [if_neg (not_lt.2 (div_nonneg hx hs.le))]

/-- Only a positive number truncates to a positive one. -/
theorem pos_of_truncate_pos (h : 0 < truncate s x) : 0 < x := by
  by_contra hx
  rw [not_lt] at hx
  unfold truncate at h
  refine absurd h (not_lt.2 ?_)
  split
  · next hneg =>
    have hs : 0 < s := by
      by_contra hs
      exact absurd hneg (not_lt.2 (div_nonneg_of_nonpos hx (not_lt.1 hs)))
    exact mul_nonpos_of_nonpos_of_nonneg (Int.cast_nonpos.2 (Int.ceil_nonpos.2 hneg.le)) hs.le
  · next hnonneg =>
    rw [not_lt] at hnonneg
    obtain hs | hs := le_or_gt s 0
    · exact mul_nonpos_of_nonneg_of_nonpos (Int.cast_nonneg (Int.floor_nonneg.2 hnonneg)) hs
    · have hzero : x / s = 0 := (div_nonpos_of_nonpos_of_nonneg hx hs.le).antisymm hnonneg
      simp [hzero]

/-- The truncation of a positive number is not above it, whatever the sign of the step. -/
theorem truncate_le (hx : 0 ≤ x) : truncate s x ≤ x := by
  obtain hs | rfl | hs := lt_trichotomy s 0
  · unfold truncate
    split
    · rw [← div_le_iff_of_neg hs]
      exact Int.le_ceil _
    · next hnonneg =>
      have hzero : x / s = 0 := (div_nonpos_of_nonneg_of_nonpos hx hs.le).antisymm
        (not_lt.1 hnonneg)
      simpa [hzero] using hx
  · simpa [truncate] using hx
  · exact (truncate_of_nonneg hs hx).trans_le (down_le hs x)

theorem truncate_pos_iff (hs : 0 < s) : 0 < truncate s x ↔ s ≤ x := by
  constructor
  · intro h
    rw [truncate_of_nonneg hs (pos_of_truncate_pos h).le] at h
    exact (down_pos_iff hs).1 h
  · intro h
    rw [truncate_of_nonneg hs (hs.le.trans h)]
    exact (down_pos_iff hs).2 h

theorem truncate_of_isMultiple (hs : s ≠ 0) (hx : IsMultiple s x) : truncate s x = x := by
  obtain ⟨n, rfl⟩ := hx
  unfold truncate
  rw [mul_div_cancel_right₀ _ hs, Int.ceil_intCast, Int.floor_intCast, ite_self]

end Multiples
