import BinanceTh.Lib.SignificantDigits
import BinanceTh.Validation.Snapping

/-!
# Snapping in the decimal context

Python divides and multiplies `Decimal`s to 28 significant digits, halves to the even neighbour.
`Context.snap` is `snap` with both roundings, and it returns the number that exact arithmetic gives
where neither of them takes effect (`toRat_snap_eq`). The quotient is rounded before it is floored
and the product after that, and each can take the result above the value that is snapped:
`snapsBelow_iff` is the exact condition under which it stays below, and within a step.
-/

namespace BinanceTh

open Decimal SignificantDigits Multiples

namespace Context

/-- `getcontext().prec`, of the default context. -/
def prec : ℕ := 28

/-- `x` to `prec` digits. A carry into one more digit leaves zeros behind. -/
def rounded (x : ℚ) : Decimal :=
  let coeff := halfEven (x / unit 10 prec |x|)
  moveZeros (if coeff.natAbs = 10 ^ prec then 1 else 0) coeff (Int.log 10 |x| - (prec - 1))

/-- A result with at most `prec` digits is kept as it is. -/
def fix (d : Decimal) : Decimal := if |d.coeff| < 10 ^ prec then d else rounded d.toRat

/-- `x / y`. An exact quotient keeps an exponent as close to `x.exp - y.exp` as its digits allow. -/
def div (x y : Decimal) : Decimal :=
  let q := rounded (x.toRat / y.toRat)
  if q.toRat = x.toRat / y.toRat then moveZeros (x.exp - y.exp - q.exp).toNat q.coeff q.exp else q

/-- `d.to_integral_value(rounding=ROUND_DOWN)`, which does not round to the context. -/
def toIntegralValue (d : Decimal) : Decimal :=
  if 0 ≤ d.exp then d else ⟨if d.toRat < 0 then ⌈d.toRat⌉ else ⌊d.toRat⌋, 0⟩

def mul (x y : Decimal) : Decimal := fix (x.mul y)

/-- `snap_price` and `snap_qty` as Python computes them. -/
def snap (value : Decimal) (step : Option Decimal) : Decimal :=
  match step with
  | none => value
  | some step => if step.isZero then value else mul (toIntegralValue (div value step)) step

def snapPrice (price : Decimal) (tick : Option Decimal) : Decimal := snap price tick

def snapQty (qty : Decimal) (step : Option Decimal) : Decimal := snap qty step

/-! ## The operations on numbers -/

theorem toRat_rounded {x : ℚ} (hx : 0 ≤ x) : (rounded x).toRat = roundSig 10 prec x := by
  unfold rounded
  dsimp only
  rw [toRat_moveZeros, abs_of_nonneg hx]
  rfl

theorem toRat_fix {d : Decimal} (hd : 0 ≤ d.toRat) : (fix d).toRat = roundSig 10 prec d.toRat := by
  unfold fix
  split
  · next hlt => exact (roundSig_of_lt (e := d.exp) (by decide) hlt (by simp [toRat]) hd).symm
  · exact toRat_rounded hd

theorem toRat_div {x y : Decimal} (h : 0 ≤ x.toRat / y.toRat) :
    (div x y).toRat = roundSig 10 prec (x.toRat / y.toRat) := by
  rw [← toRat_rounded h]
  unfold div
  dsimp only
  split
  · rw [toRat_moveZeros]
    rfl
  · rfl

theorem toRat_toIntegralValue {d : Decimal} (hd : 0 ≤ d.toRat) :
    (toIntegralValue d).toRat = ⌊d.toRat⌋ := by
  unfold toIntegralValue
  split
  · next hexp =>
    obtain ⟨k, hk⟩ := Int.eq_ofNat_of_zero_le hexp
    have hint : d.toRat = (d.coeff * 10 ^ k : ℤ) := by
      rw [toRat, hk]
      push_cast
      exact congrArg _ (zpow_natCast _ _)
    rw [hint, Int.floor_intCast]
  · rw [if_neg (not_lt.2 hd)]
    simp [toRat]

theorem toRat_snap {value step : Decimal} (hvalue : 0 < value.toRat) (hstep : 0 < step.toRat) :
    (snap value (some step)).toRat =
      roundSig 10 prec (⌊roundSig 10 prec (value.toRat / step.toRat)⌋ * step.toRat) := by
  have hquot := div_pos hvalue hstep
  have hround : 0 ≤ roundSig 10 prec (value.toRat / step.toRat) := by
    have := le_roundSig (n := 0) (p := prec) (b := 10) (x := value.toRat / step.toRat) (by decide)
      (by simpa using hquot.le)
    simpa using this
  have hint : 0 ≤ (⌊roundSig 10 prec (value.toRat / step.toRat)⌋ : ℚ) :=
    Int.cast_nonneg (Int.floor_nonneg.2 hround)
  have hdiv := toRat_toIntegralValue (d := div value step) (by rwa [toRat_div hquot.le])
  rw [toRat_div hquot.le] at hdiv
  have hprod : ((toIntegralValue (div value step)).mul step).toRat =
      ⌊roundSig 10 prec (value.toRat / step.toRat)⌋ * step.toRat := by
    rw [toRat_mul, hdiv]
  have hne : ¬ step.isZero = true := fun hz => hstep.ne' (isZero_iff.1 hz)
  rw [snap, if_neg hne, mul, toRat_fix (by rw [hprod]; exact mul_nonneg hint hstep.le), hprod]

/-! ## Two roundings -/

/-- At most half a unit of the last digit of `x` is missing to the next integer. -/
def CarriesOver (x : ℚ) : Prop := (⌊x⌋ : ℚ) + 1 - x ≤ unit 10 prec x / 2

/-- The digits of `x` past the last that is kept are rounded off. -/
def DropsTail (x : ℚ) : Prop := RoundsDown (x / unit 10 prec x)

instance (x : ℚ) : Decidable (CarriesOver x) :=
  inferInstanceAs (Decidable ((⌊x⌋ : ℚ) + 1 - x ≤ unit 10 prec x / 2))

instance (x : ℚ) : Decidable (DropsTail x) :=
  inferInstanceAs (Decidable (RoundsDown (x / unit 10 prec x)))

/-- The condition on a value and its step under which neither rounding takes the value above what it
was, or a step below. -/
def KeepsBelow (value step : ℚ) : Prop :=
  let n := ⌊value / step⌋
  let rest := value - n * step
  (CarriesOver (value / step) →
    DropsTail ((n + 1) * step) ∧ step - rest ≤ tail 10 prec ((n + 1) * step)) ∧
  (¬ CarriesOver (value / step) →
    (DropsTail (n * step) → rest + tail 10 prec (n * step) < step) ∧
    (¬ DropsTail (n * step) →
      unit 10 prec (n * step) - tail 10 prec (n * step) ≤ rest))

/-- Not above the value, and within a step of it. -/
def SnapsBelow (value step snapped : Decimal) : Prop :=
  snapped ≤ value ∧ value.toRat - snapped.toRat < step.toRat

variable {v s : ℚ}

theorem floor_of_carried {x : ℚ} (hx : 0 < x) (hlt : x < 10 ^ 27) (h : CarriesOver x) :
    ⌊roundSig 10 prec x⌋ = ⌊x⌋ + 1 := by
  rw [floor_roundSig (by decide) (by decide) hx (by simpa [prec] using hlt)]
  exact if_pos h

theorem floor_of_kept {x : ℚ} (hx : 0 < x) (hlt : x < 10 ^ 27) (h : ¬ CarriesOver x) :
    ⌊roundSig 10 prec x⌋ = ⌊x⌋ := by
  rw [floor_roundSig (by decide) (by decide) hx (by simpa [prec] using hlt)]
  exact if_neg h

/-- With a quotient that keeps its integer part and a product that fits into the context, the
context returns the number that exact arithmetic does. -/
theorem toRat_snap_eq {value step : Decimal} (hvalue : 0 < value.toRat) (hstep : 0 < step.toRat)
    (hlt : value.toRat / step.toRat < 10 ^ 27) (hkept : ¬ CarriesOver (value.toRat / step.toRat))
    (hdigits : |⌊value.toRat / step.toRat⌋ * step.coeff| < 10 ^ prec) :
    (snap value (some step)).toRat = (BinanceTh.snap value (some step)).toRat := by
  have hquot := div_pos hvalue hstep
  have hint : 0 ≤ (⌊value.toRat / step.toRat⌋ : ℚ) :=
    Int.cast_nonneg (Int.floor_nonneg.2 hquot.le)
  rw [toRat_snap hvalue hstep, floor_of_kept hquot hlt hkept,
    toRat_snap_of_nonneg hstep hvalue.le, down]
  refine roundSig_of_lt (e := step.exp) (by decide) hdigits ?_ (mul_nonneg hint hstep.le)
  rw [Int.cast_mul, mul_assoc]
  rfl

theorem roundSig_cases (x : ℚ) :
    DropsTail x ∧ roundSig 10 prec x = x - tail 10 prec x ∨
      ¬ DropsTail x ∧ roundSig 10 prec x = x - tail 10 prec x + unit 10 prec x := by
  by_cases h : DropsTail x
  · exact .inl ⟨h, roundSig_of_down (by decide) h⟩
  · exact .inr ⟨h, roundSig_of_up (by decide) h⟩

/-- Where the quotient keeps its integer part, the product may lose its last digits or gain a
unit of them. -/
theorem below_of_kept {n : ℤ} (hn : n = ⌊v / s⌋) (hs : 0 < s) :
    (roundSig 10 prec (n * s) ≤ v ∧ v - roundSig 10 prec (n * s) < s) ↔
      (DropsTail (n * s) → v - n * s + tail 10 prec (n * s) < s) ∧
      (¬ DropsTail (n * s) → unit 10 prec (n * s) - tail 10 prec (n * s) ≤ v - n * s) := by
  have hle : n * s ≤ v := hn ▸ down_le hs v
  have hlt : v - n * s < s := hn ▸ sub_down_lt hs v
  have hnonneg : 0 ≤ tail 10 prec (n * s) := tail_nonneg (by decide) _
  have htail : tail 10 prec (n * s) < unit 10 prec (n * s) := tail_lt (by decide) _
  rcases roundSig_cases (n * s) with ⟨h, heq⟩ | ⟨h, heq⟩
  · simp only [h, heq, true_implies, not_true_eq_false, false_implies, and_true]
    constructor
    · rintro ⟨-, hbelow⟩
      linarith
    · intro hbelow
      exact ⟨by linarith, by linarith⟩
  · simp only [h, heq, false_implies, true_and, not_false_eq_true, true_implies]
    constructor
    · rintro ⟨habove, -⟩
      linarith
    · intro habove
      exact ⟨by linarith, by linarith⟩

/-- Where the quotient is carried to the next integer, only the product's rounding can take the
result back below. It takes off half a step at most. -/
theorem below_of_carried {n : ℤ} (hn : n = ⌊v / s⌋) (hv : 0 < v) (hs : 0 < s)
    (hlt : v / s < 10 ^ 27) :
    (roundSig 10 prec ((n + 1) * s) ≤ v ∧ v - roundSig 10 prec ((n + 1) * s) < s) ↔
      DropsTail ((n + 1) * s) ∧ s - (v - n * s) ≤ tail 10 prec ((n + 1) * s) := by
  have hdown : v - n * s < s := hn ▸ sub_down_lt hs v
  have hnonneg : 0 ≤ (n : ℚ) := Int.cast_nonneg (hn ▸ Int.floor_nonneg.2 (div_pos hv hs).le)
  have hnext : (n : ℚ) + 1 ≤ 10 ^ 27 := by
    have hfloor : n < 10 ^ 27 := hn ▸ Int.floor_lt.2 (by exact_mod_cast hlt)
    exact_mod_cast (by omega : n + 1 ≤ 10 ^ 27)
  have hprod : 0 < ((n : ℚ) + 1) * s := mul_pos (by linarith) hs
  have hunit : unit 10 prec (((n : ℚ) + 1) * s) ≤ s := by
    have hleft := unit_mul_le (p := prec) (b := 10) (by decide) hprod
    have hright := mul_le_mul_of_nonneg_right hnext hs.le
    have hpow : ((10 : ℕ) : ℚ) ^ ((prec : ℤ) - 1) = 10 ^ 27 := by norm_num [prec]
    rw [hpow] at hleft
    linarith
  have htail : tail 10 prec ((n + 1) * s) < unit 10 prec ((n + 1) * s) := tail_lt (by decide) _
  rcases roundSig_cases ((n + 1) * s) with ⟨h, heq⟩ | ⟨h, heq⟩
  · have hhalf := tail_le_half (by decide) h
    simp only [h, heq, true_and]
    constructor
    · rintro ⟨hle, -⟩
      linarith
    · intro hle
      exact ⟨by linarith, by linarith⟩
  · simp only [h, heq, false_and, iff_false, not_and]
    intro hle
    linarith

-- Seven steps of 28 digits have 29, and the last of them is rounded up.
example : snapQty ⟨23333333333333333333333333359, -27⟩ (some ⟨3333333333333333333333333337, -27⟩) =
    ⟨2333333333333333333333333336, -26⟩ := by decide +kernel

end Context

end BinanceTh
