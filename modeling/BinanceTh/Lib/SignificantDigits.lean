import Mathlib.Data.Int.Log
import Mathlib.Algebra.Order.Floor.Ring
import Mathlib.Algebra.Ring.Int.Parity
import Mathlib.Tactic.Linarith
import Mathlib.Tactic.Ring
import Mathlib.Tactic.FieldSimp

/-!
# Rounding to significant digits

`roundSig b p x` is `x` rounded to `p` digits in base `b`, halves to the even neighbour. The digits
of `x` end at `unit b p x`, and what is behind them is `tail b p x`: rounding takes the tail off or
fills it up to a unit (`roundSig_of_down`, `roundSig_of_up`). It does not cross a multiple of the
unit (`roundSig_le`, `le_roundSig`). The integers are such multiples for a number that has digits
behind the point, so that rounding it reaches the next integer or keeps its integer part
(`floor_roundSig`). It keeps the order (`roundSig_mono`); `roundSigned` does the same on both sides of
zero.
-/

namespace SignificantDigits

variable {K : Type*} [Field K] [LinearOrder K] [IsStrictOrderedRing K] [FloorRing K]

/-! ## Rounding to an integer -/

/-- The fraction is below a half, or it is a half behind an even integer. -/
def RoundsDown (x : K) : Prop := Int.fract x < 1 / 2 ∨ Int.fract x = 1 / 2 ∧ Even ⌊x⌋

instance (x : K) : Decidable (RoundsDown x) :=
  inferInstanceAs (Decidable (Int.fract x < 1 / 2 ∨ Int.fract x = 1 / 2 ∧ Even ⌊x⌋))

def halfEven (x : K) : ℤ := if RoundsDown x then ⌊x⌋ else ⌊x⌋ + 1

variable {x : K} {n : ℤ}

omit [IsStrictOrderedRing K] in
theorem halfEven_cases (x : K) :
    RoundsDown x ∧ halfEven x = ⌊x⌋ ∨ ¬ RoundsDown x ∧ halfEven x = ⌊x⌋ + 1 := by
  by_cases h : RoundsDown x
  · exact .inl ⟨h, if_pos h⟩
  · exact .inr ⟨h, if_neg h⟩

theorem roundsDown_intCast (n : ℤ) : RoundsDown (n : K) := by
  left
  rw [Int.fract_intCast]
  norm_num

omit [IsStrictOrderedRing K] in
theorem le_halfEven (h : (n : K) ≤ x) : n ≤ halfEven x := by
  have hfloor : n ≤ ⌊x⌋ := Int.le_floor.2 h
  rcases halfEven_cases x with ⟨-, heq⟩ | ⟨-, heq⟩ <;> omega

theorem halfEven_le (h : x ≤ n) : halfEven x ≤ n := by
  rcases h.lt_or_eq with hlt | rfl
  · have hfloor : ⌊x⌋ < n := Int.floor_lt.2 hlt
    rcases halfEven_cases x with ⟨-, heq⟩ | ⟨-, heq⟩ <;> omega
  · rw [halfEven, if_pos (roundsDown_intCast n), Int.floor_intCast]

theorem halfEven_mono {y : K} (h : x ≤ y) : halfEven x ≤ halfEven y := by
  rcases (Int.floor_le_floor h).lt_or_eq with hlt | heq
  · rcases halfEven_cases x with ⟨-, hx⟩ | ⟨-, hx⟩ <;>
      rcases halfEven_cases y with ⟨-, hy⟩ | ⟨-, hy⟩ <;> omega
  · -- in one unit the fractions decide
    have hfract : Int.fract x ≤ Int.fract y := by
      rw [Int.fract, Int.fract, heq]
      exact sub_le_sub_right h _
    rcases halfEven_cases x with ⟨-, hx⟩ | ⟨hup, hx⟩ <;>
      rcases halfEven_cases y with ⟨hdown, hy⟩ | ⟨-, hy⟩
    · omega
    · omega
    · refine absurd ?_ hup
      rcases hdown with hlt | ⟨htie, heven⟩
      · exact .inl (hfract.trans_lt hlt)
      · rcases (hfract.trans_eq htie).lt_or_eq with hlt | htie'
        · exact .inl hlt
        · exact .inr ⟨htie', heq ▸ heven⟩
    · omega

/-- A number rounds to an even integer, or past it, from half a unit below on. -/
theorem le_halfEven_iff_of_even (hn : Even n) : n ≤ halfEven x ↔ (n : K) - 1 / 2 ≤ x := by
  have hfract := Int.floor_add_fract x
  have hnonneg := Int.fract_nonneg x
  have hlt := Int.fract_lt_one x
  rcases lt_trichotomy n (⌊x⌋ + 1) with hlow | rfl | hhigh
  · have hle : (n : K) ≤ ⌊x⌋ := Int.cast_le.2 (by omega)
    refine iff_of_true (le_halfEven (by linarith)) (by linarith)
  · -- the tie is behind an odd integer
    have hodd : ¬ Even ⌊x⌋ := fun he => by rw [Int.even_add_one] at hn; exact hn he
    have hdown : RoundsDown x ↔ Int.fract x < 1 / 2 :=
      ⟨fun h => h.resolve_right fun htie => hodd htie.2, .inl⟩
    push_cast
    rcases halfEven_cases x with ⟨h, heq⟩ | ⟨h, heq⟩
    · have := hdown.1 h
      exact iff_of_false (by omega) (by linarith)
    · have := not_lt.1 (hdown.not.1 h)
      exact iff_of_true (by omega) (by linarith)
  · have hge : (⌊x⌋ : K) + 2 ≤ n := by exact_mod_cast (by omega : ⌊x⌋ + 2 ≤ n)
    refine iff_of_false ?_ (by linarith)
    rcases halfEven_cases x with ⟨-, heq⟩ | ⟨-, heq⟩ <;> omega

/-! ## Rounding to a number of digits -/

/-- The place value of the last of the `p` leading digits of `x`. -/
def unit (b p : ℕ) (x : K) : K := (b : K) ^ (Int.log b x - (p - 1))

def roundSig (b p : ℕ) (x : K) : K := halfEven (x / unit b p x) * unit b p x

/-- What is behind the `p` leading digits of `x`. -/
def tail (b p : ℕ) (x : K) : K := Int.fract (x / unit b p x) * unit b p x

variable {b p : ℕ}

theorem unit_pos (hb : 1 < b) (x : K) : 0 < unit b p x :=
  zpow_pos (Nat.cast_pos.2 (by omega)) _

theorem unit_mul_le (hb : 1 < b) (hx : 0 < x) : unit b p x * (b : K) ^ ((p : ℤ) - 1) ≤ x := by
  have hne : (b : K) ≠ 0 := Nat.cast_ne_zero.2 (by omega)
  rw [unit, ← zpow_add₀ hne, sub_add_cancel]
  exact Int.zpow_log_le_self hb hx

theorem le_pow_mul_unit (hb : 1 < b) (x : K) : x ≤ ((b : ℤ) ^ p : ℤ) * unit b p x := by
  have hne : (b : K) ≠ 0 := Nat.cast_ne_zero.2 (by omega)
  refine (Int.lt_zpow_succ_log_self hb x).le.trans_eq ?_
  rw [unit, Int.cast_pow, Int.cast_natCast, ← zpow_natCast, ← zpow_add₀ hne]
  congr 1
  omega

theorem roundSig_le (hb : 1 < b) (h : x ≤ n * unit b p x) : roundSig b p x ≤ n * unit b p x := by
  have hpos := unit_pos (p := p) hb x
  unfold roundSig
  rw [mul_le_mul_iff_left₀ hpos, Int.cast_le]
  exact halfEven_le ((div_le_iff₀ hpos).2 h)

theorem le_roundSig (hb : 1 < b) (h : n * unit b p x ≤ x) : n * unit b p x ≤ roundSig b p x := by
  have hpos := unit_pos (p := p) hb x
  unfold roundSig
  rw [mul_le_mul_iff_left₀ hpos, Int.cast_le]
  exact le_halfEven ((le_div_iff₀ hpos).2 h)

theorem le_roundSig_iff_of_even (hb : 1 < b) (hn : Even n) :
    n * unit b p x ≤ roundSig b p x ↔ n * unit b p x - unit b p x / 2 ≤ x := by
  have hpos := unit_pos (p := p) hb x
  unfold roundSig
  rw [mul_le_mul_iff_left₀ hpos, Int.cast_le, le_halfEven_iff_of_even hn, le_div_iff₀ hpos,
    sub_mul, one_div_mul_eq_div]

theorem roundSig_of_mul_unit (hb : 1 < b) (h : x = n * unit b p x) : roundSig b p x = x :=
  ((roundSig_le hb h.le).trans_eq h.symm).antisymm (h.le.trans (le_roundSig hb h.ge))

/-- A number with at most `p` digits is not changed. -/
theorem roundSig_of_lt (hb : 1 < b) {e : ℤ} (hn : |n| < (b : ℤ) ^ p) (hx : x = n * (b : K) ^ e)
    (hx' : 0 ≤ x) : roundSig b p x = x := by
  rcases hx'.eq_or_lt with rfl | hpos
  · exact roundSig_of_mul_unit (n := 0) hb (by simp)
  have hne : (b : K) ≠ 0 := Nat.cast_ne_zero.2 (by omega)
  have hlt : x < (b : K) ^ ((p : ℤ) + e) := by
    have hcast : (n : K) < (b : K) ^ p := by exact_mod_cast (abs_lt.1 hn).2
    rw [hx, zpow_add₀ hne, zpow_natCast]
    exact mul_lt_mul_of_pos_right hcast (zpow_pos (Nat.cast_pos.2 (by omega)) e)
  have hlog : Int.log b x < p + e := (Int.lt_zpow_iff_log_lt hb hpos).1 hlt
  obtain ⟨k, hk⟩ : ∃ k : ℕ, e = k + (Int.log b x - ((p : ℤ) - 1)) :=
    ⟨(e - (Int.log b x - ((p : ℤ) - 1))).toNat, by omega⟩
  have hmul : (b : K) ^ e = (b : K) ^ k * unit b p x := by
    rw [unit, ← zpow_natCast, ← zpow_add₀ hne, ← hk]
  refine roundSig_of_mul_unit (n := n * (b : ℤ) ^ k) hb ?_
  push_cast
  rw [mul_assoc, ← hmul, ← hx]

/-- Rounding keeps the order. -/
theorem roundSig_mono (hb : 1 < b) (hp : 0 < p) {y : K} (hx : 0 < x) (h : x ≤ y) :
    roundSig b p x ≤ roundSig b p y := by
  have hne : (b : K) ≠ 0 := Nat.cast_ne_zero.2 (by omega)
  rcases (Int.log_mono_right (b := b) hx h).lt_or_eq with hlt | heq
  · -- a power of the base is between them
    have hupper : x ≤ ((b : ℤ) ^ p : ℤ) * unit b p x := le_pow_mul_unit hb x
    have hlower : ((b : ℤ) ^ (p - 1) : ℤ) * unit b p y ≤ y := by
      refine le_of_eq_of_le ?_ (Int.zpow_log_le_self hb (hx.trans_le h))
      rw [unit, Int.cast_pow, Int.cast_natCast, ← zpow_natCast, ← zpow_add₀ hne]
      congr 1
      omega
    refine (roundSig_le hb hupper).trans (le_trans ?_ (le_roundSig hb hlower))
    rw [unit, unit, Int.cast_pow, Int.cast_pow, Int.cast_natCast, ← zpow_natCast, ← zpow_natCast,
      ← zpow_add₀ hne, ← zpow_add₀ hne]
    exact zpow_le_zpow_right₀ (by exact_mod_cast hb.le) (by omega)
  · have hunit : unit b p x = unit b p y := by rw [unit, unit, heq]
    have hpos := unit_pos (p := p) hb y
    unfold roundSig
    rw [hunit, mul_le_mul_iff_left₀ hpos, Int.cast_le]
    exact halfEven_mono (div_le_div_of_nonneg_right h hpos.le)

theorem roundSig_nonneg (hb : 1 < b) (hx : 0 ≤ x) : 0 ≤ roundSig b p x := by
  have hle := le_roundSig (n := 0) (p := p) hb (x := x) (by simpa using hx)
  simpa using hle

/-! ### On both sides of zero -/

/-- A number below zero is rounded as its opposite is. -/
def roundSigned (b p : ℕ) (x : K) : K := if x < 0 then -roundSig b p (-x) else roundSig b p x

theorem roundSigned_of_lt (hb : 1 < b) {e : ℤ} (hn : |n| < (b : ℤ) ^ p)
    (hx : x = n * (b : K) ^ e) : roundSigned b p x = x := by
  unfold roundSigned
  split
  · next hneg =>
    rw [roundSig_of_lt (n := -n) hb (by rwa [abs_neg]) (by rw [hx]; push_cast; ring)
      (neg_pos.2 hneg).le, neg_neg]
  · next hpos => exact roundSig_of_lt hb hn hx (not_lt.1 hpos)

theorem roundSigned_mono (hb : 1 < b) (hp : 0 < p) {y : K} (h : x ≤ y) :
    roundSigned b p x ≤ roundSigned b p y := by
  have hzero : roundSig b p (0 : K) = 0 := roundSig_of_mul_unit (n := 0) hb (by simp)
  unfold roundSigned
  split
  · next hx =>
    split
    · next hy => exact neg_le_neg (roundSig_mono hb hp (neg_pos.2 hy) (neg_le_neg h))
    · next hy =>
      have hlow := roundSig_nonneg (p := p) hb (neg_pos.2 hx).le
      have hhigh := roundSig_nonneg (p := p) hb (not_lt.1 hy)
      exact (neg_nonpos.2 hlow).trans hhigh
  · next hx =>
    rw [if_neg fun hy => hx (h.trans_lt hy)]
    rcases (not_lt.1 hx).eq_or_lt with rfl | hpos
    · rw [hzero]
      exact roundSig_nonneg hb h
    · exact roundSig_mono hb hp hpos h

/-- What is rounded has at most `p` digits, or is the power of the base after all such numbers. -/
theorem exists_roundSigned_eq (hb : 1 < b) (x : K) :
    ∃ (n e : ℤ), |n| ≤ (b : ℤ) ^ p ∧ roundSigned b p x = n * (b : K) ^ e := by
  have hside {y : K} (hy : 0 ≤ y) : 0 ≤ halfEven (y / unit b p y) ∧
      halfEven (y / unit b p y) ≤ (b : ℤ) ^ p := by
    have hpos := unit_pos (p := p) hb y
    refine ⟨le_halfEven (by simpa using div_nonneg hy hpos.le), halfEven_le ?_⟩
    rw [div_le_iff₀ hpos]
    exact le_pow_mul_unit hb y
  unfold roundSigned
  split
  · next hneg =>
    obtain ⟨hlow, hhigh⟩ := hside (neg_pos.2 hneg).le
    refine ⟨-halfEven (-x / unit b p (-x)), Int.log b (-x) - (p - 1), ?_, ?_⟩
    · rwa [abs_neg, abs_of_nonneg hlow]
    · rw [Int.cast_neg, neg_mul]
      rfl
  · next hpos =>
    obtain ⟨hlow, hhigh⟩ := hside (not_lt.1 hpos)
    exact ⟨halfEven (x / unit b p x), Int.log b x - (p - 1), by rwa [abs_of_nonneg hlow], rfl⟩

/-- A number of at most `p` digits, or the power of the base after them, is not changed. -/
theorem roundSigned_of_le (hb : 1 < b) (hp : 0 < p) {e : ℤ} (hn : |n| ≤ (b : ℤ) ^ p)
    (hx : x = n * (b : K) ^ e) : roundSigned b p x = x := by
  have hne : (b : K) ≠ 0 := Nat.cast_ne_zero.2 (by omega)
  have hone : (1 : ℤ) < (b : ℤ) ^ p := one_lt_pow₀ (by exact_mod_cast hb) hp.ne'
  rcases hn.lt_or_eq with hlt | heq
  · exact roundSigned_of_lt hb hlt hx
  · rcases eq_or_eq_neg_of_abs_eq heq with rfl | rfl
    · refine roundSigned_of_lt (n := 1) (e := p + e) hb (by simpa using hone) ?_
      rw [hx, zpow_add₀ hne, zpow_natCast]
      push_cast
      ring
    · refine roundSigned_of_lt (n := -1) (e := p + e) hb (by simpa using hone) ?_
      rw [hx, zpow_add₀ hne, zpow_natCast]
      push_cast
      ring

/-- To round again changes nothing. -/
theorem roundSigned_roundSigned (hb : 1 < b) (hp : 0 < p) (x : K) :
    roundSigned b p (roundSigned b p x) = roundSigned b p x := by
  obtain ⟨n, e, hn, heq⟩ := exists_roundSigned_eq (p := p) hb x
  exact roundSigned_of_le hb hp hn heq

/-! ### The digits that are rounded off -/

theorem tail_nonneg (hb : 1 < b) (x : K) : 0 ≤ tail b p x :=
  mul_nonneg (Int.fract_nonneg _) (unit_pos hb x).le

theorem tail_lt (hb : 1 < b) (x : K) : tail b p x < unit b p x :=
  mul_lt_of_lt_one_left (unit_pos hb x) (Int.fract_lt_one _)

theorem sub_tail (hb : 1 < b) (x : K) :
    x - tail b p x = ⌊x / unit b p x⌋ * unit b p x := by
  have hne := (unit_pos (p := p) hb x).ne'
  rw [tail, Int.fract, sub_mul, div_mul_cancel₀ x hne]
  ring

theorem roundSig_of_down (hb : 1 < b) (h : RoundsDown (x / unit b p x)) :
    roundSig b p x = x - tail b p x := by
  rw [sub_tail hb, roundSig, halfEven, if_pos h]

theorem roundSig_of_up (hb : 1 < b) (h : ¬ RoundsDown (x / unit b p x)) :
    roundSig b p x = x - tail b p x + unit b p x := by
  rw [sub_tail hb, roundSig, halfEven, if_neg h, Int.cast_add, Int.cast_one, add_mul, one_mul]

/-- At most half a unit is taken off. -/
theorem tail_le_half (hb : 1 < b) (h : RoundsDown (x / unit b p x)) :
    tail b p x ≤ unit b p x / 2 := by
  have hle : Int.fract (x / unit b p x) ≤ 1 / 2 := h.elim le_of_lt fun htie => htie.1.le
  have := mul_le_mul_of_nonneg_right hle (unit_pos (p := p) hb x).le
  unfold tail
  linarith

/-! ### The integer part -/

omit [IsStrictOrderedRing K] in
/-- The integers are multiples of the unit of a number with less than `p` digits before the point,
and even ones in an even base. -/
theorem exists_mul_unit (hb : 1 < b) (heven : Even b) (hlog : Int.log b x < (p : ℤ) - 1) (n : ℤ) :
    ∃ m : ℤ, Even m ∧ (m : K) * unit b p x = n := by
  have hne : (b : K) ≠ 0 := Nat.cast_ne_zero.2 (by omega)
  obtain ⟨k, hk⟩ : ∃ k : ℕ, (p : ℤ) - 1 - Int.log b x = k + 1 :=
    ⟨((p : ℤ) - 1 - Int.log b x - 1).toNat, by omega⟩
  refine ⟨n * (b : ℤ) ^ (k + 1), ?_, ?_⟩
  · exact ((Int.even_coe_nat b).2 heven |>.pow_of_ne_zero (Nat.succ_ne_zero k)).mul_left n
  · have hunit : unit b p x = ((b : K) ^ (k + 1))⁻¹ := by
      rw [unit, ← zpow_natCast, ← zpow_neg]
      congr 1
      push_cast
      omega
    rw [hunit]
    push_cast
    exact mul_inv_cancel_right₀ (pow_ne_zero _ hne) _

/-- A number with less than `p` digits before the point rounds up to the next integer where it lacks
at most half a unit, and else keeps its integer part. -/
theorem floor_roundSig (hb : 1 < b) (heven : Even b) (hx : 0 < x)
    (hlt : x < (b : K) ^ ((p : ℤ) - 1)) :
    ⌊roundSig b p x⌋ = if (⌊x⌋ : K) + 1 - x ≤ unit b p x / 2 then ⌊x⌋ + 1 else ⌊x⌋ := by
  have hlog : Int.log b x < (p : ℤ) - 1 := (Int.lt_zpow_iff_log_lt hb hx).1 hlt
  obtain ⟨m, -, hm⟩ := exists_mul_unit hb heven hlog ⌊x⌋
  obtain ⟨m', heven', hm'⟩ := exists_mul_unit hb heven hlog (⌊x⌋ + 1)
  have hlow : (⌊x⌋ : K) ≤ roundSig b p x := by
    rw [← hm]
    exact le_roundSig hb (hm ▸ Int.floor_le x)
  have hhigh : roundSig b p x ≤ ⌊x⌋ + 1 := by
    have hle : x ≤ m' * unit b p x := by
      rw [hm', Int.cast_add, Int.cast_one]
      exact (Int.lt_floor_add_one x).le
    have := roundSig_le hb hle
    rwa [hm', Int.cast_add, Int.cast_one] at this
  have hreach : (⌊x⌋ : K) + 1 ≤ roundSig b p x ↔ (⌊x⌋ : K) + 1 - x ≤ unit b p x / 2 := by
    have := le_roundSig_iff_of_even (p := p) (x := x) hb heven'
    rw [hm', Int.cast_add, Int.cast_one] at this
    rw [this]
    constructor <;> intro h <;> linarith
  split
  · next h =>
    rw [Int.floor_eq_iff]
    push_cast
    exact ⟨hreach.2 h, by linarith⟩
  · next h => exact Int.floor_eq_iff.2 ⟨hlow, lt_of_not_ge fun hle => h (hreach.1 hle)⟩

end SignificantDigits
