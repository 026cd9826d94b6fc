import BinanceTh.Lib.SignificantDigits
import Mathlib.Data.List.DropRight
import Mathlib.Data.List.Nodup
import Mathlib.Data.Rat.Defs
import Mathlib.Algebra.Order.Ring.Unbundled.Rat
import Mathlib.Algebra.Order.Floor.Defs
import Mathlib.Data.Rat.Floor

/-!
# The Python values of the model

What the code uses of the language and its standard library:

* decoded JSON (`Json`), with a float by its `repr`, and dictionaries (`Dict`) as the list of
  their items in insertion order;
* `strip`, `str.lower` and `int(str)`;
* `Decimal`, a coefficient and an exponent, with exact arithmetic;
* floats as rationals, with the one place where they raise, a result past the largest float, and
  with their rounding where it matters (`roundFloat`).
-/

namespace BinanceTh

/-- A JSON value as `json.loads` returns it. -/
inductive Json where
  | null
  | bool (b : Bool)
  | int (n : ℤ)
  | float (repr : String)
  | str (s : String)
  | arr (items : List Json)
  | obj (fields : List (String × Json))

/-- The items of a `dict` with string keys, in insertion order. -/
abbrev Dict (α : Type) : Type := List (String × α)

namespace Dict

variable {α : Type}

def get? (d : Dict α) (key : String) : Option α := List.lookup key d

def contains (d : Dict α) (key : String) : Bool := (get? d key).isSome

/-- The items with the value of `key` replaced. -/
def replace (d : Dict α) (key : String) (value : α) : Dict α :=
  List.map (fun kv => if kv.1 = key then (key, value) else kv) d

/-- `d[key] = value`: a key that is there keeps its place, a new one goes to the end. -/
def set (d : Dict α) (key : String) (value : α) : Dict α :=
  if contains d key then replace d key value else d ++ [(key, value)]

theorem get?_append (d₁ d₂ : Dict α) (key : String) :
    get? (d₁ ++ d₂) key = (get? d₁ key).or (get? d₂ key) :=
  List.lookup_append

theorem get?_cons (k : String) (v : α) (d : Dict α) (key : String) :
    get? ((k, v) :: d) key = if key = k then some v else get? d key := by
  unfold get?
  rw [List.lookup_cons]
  by_cases h : key = k
  · simp [h]
  · simp [h, beq_false_of_ne h]

theorem get?_replace (d : Dict α) (k : String) (v : α) (key : String) :
    get? (replace d k v) key = if key = k then (get? d k).map (fun _ => v) else get? d key := by
  induction d with
  | nil => simp [replace, get?]
  | cons kv d ih =>
    obtain ⟨k', v'⟩ := kv
    have hcons : replace ((k', v') :: d) k v =
        (if k' = k then (k, v) else (k', v')) :: replace d k v := rfl
    rw [hcons, get?_cons]
    by_cases hk' : k' = k
    · subst hk'
      rw [if_pos rfl, get?_cons, ih, get?_cons]
      by_cases hkey : key = k'
      · simp [hkey]
      · simp [hkey]
    · rw [if_neg hk', get?_cons, ih, get?_cons]
      by_cases hkey : key = k
      · subst hkey
        simp [Ne.symm hk']
      · simp [hkey]

theorem get?_map {β : Type} (f : α → β) (d : Dict α) (key : String) :
    get? (d.map fun kv => (kv.1, f kv.2)) key = (get? d key).map f := by
  induction d with
  | nil => rfl
  | cons kv d ih =>
    obtain ⟨k, v⟩ := kv
    rw [List.map_cons, get?_cons, get?_cons, ih]
    by_cases h : key = k
    · rw [if_pos h, if_pos h, Option.map_some]
    · rw [if_neg h, if_neg h]

/-- Writing a key sets it and leaves the others alone. -/
theorem get?_set (d : Dict α) (k : String) (v : α) (key : String) :
    get? (set d k v) key = if key = k then some v else get? d key := by
  unfold set contains
  split
  · next h =>
    obtain ⟨v', hv'⟩ := Option.isSome_iff_exists.1 h
    rw [get?_replace, hv']
    rfl
  · next h =>
    rw [get?_append, get?_cons]
    by_cases hkey : key = k
    · subst hkey
      rw [Option.not_isSome_iff_eq_none.1 h]
      simp
    · simp [hkey, get?]

theorem contains_iff {d : Dict α} {key : String} :
    contains d key = true ↔ key ∈ d.map (·.1) := by
  unfold contains get?
  rw [List.lookup_isSome_iff, List.mem_map]
  constructor
  · rintro ⟨kv, hmem, hkey⟩
    exact ⟨kv, hmem, (beq_iff_eq.1 hkey).symm⟩
  · rintro ⟨kv, hmem, hkey⟩
    exact ⟨kv, hmem, beq_iff_eq.2 hkey.symm⟩

theorem keys_replace (d : Dict α) (key : String) (value : α) :
    (replace d key value).map (·.1) = d.map (·.1) := by
  unfold replace
  rw [List.map_map]
  refine List.map_congr_left fun kv _ => ?_
  by_cases h : kv.1 = key <;> simp [h]

/-- The keys of a dictionary, after a write. -/
theorem keys_set (d : Dict α) (key : String) (value : α) :
    (set d key value).map (·.1) =
      if key ∈ d.map (·.1) then d.map (·.1) else d.map (·.1) ++ [key] := by
  unfold set
  simp only [contains_iff]
  split
  · exact keys_replace d key value
  · simp

theorem nodup_keys_set {d : Dict α} (h : (d.map (·.1)).Nodup) (key : String) (value : α) :
    ((set d key value).map (·.1)).Nodup := by
  rw [keys_set]
  split
  · exact h
  · next hnew =>
    exact h.append (List.nodup_singleton key) (by simpa using hnew)

theorem mem_set_iff {d : Dict α} {key : String} {value : α} {kv : String × α} :
    kv ∈ set d key value ↔ kv = (key, value) ∨ kv ∈ d ∧ kv.1 ≠ key := by
  unfold set
  split
  · next h =>
    obtain ⟨kv₀, hmem, hkey⟩ := List.mem_map.1 (contains_iff.1 h)
    unfold replace
    rw [List.mem_map]
    constructor
    · rintro ⟨kv', hkv', rfl⟩
      split
      · exact .inl rfl
      · next hne => exact .inr ⟨hkv', hne⟩
    · rintro (rfl | ⟨hkv, hne⟩)
      · exact ⟨kv₀, hmem, if_pos hkey⟩
      · exact ⟨kv, hkv, if_neg hne⟩
  · next h =>
    have hnew : ∀ kv ∈ d, kv.1 ≠ key := fun kv hkv heq =>
      h (contains_iff.2 (List.mem_map.2 ⟨kv, hkv, heq⟩))
    rw [List.mem_append, List.mem_singleton]
    constructor
    · rintro (hkv | rfl)
      · exact .inr ⟨hkv, hnew kv hkv⟩
      · exact .inl rfl
    · rintro (rfl | ⟨hkv, -⟩)
      · exact .inr rfl
      · exact .inl hkv

/-- A key that is written and comes last: what comes before it is the rest. -/
theorem set_eq_concat {d : Dict α} {key : String} {value : α} (h : (d.map (·.1)).Nodup)
    (hlast : ((set d key value).map (·.1)).getLast? = some key) :
    set d key value = d.filter (fun kv => kv.1 ≠ key) ++ [(key, value)] := by
  by_cases hmem : key ∈ d.map (·.1)
  · rw [keys_set, if_pos hmem, List.getLast?_map, Option.map_eq_some_iff] at hlast
    obtain ⟨⟨key', old⟩, hold, rfl⟩ := hlast
    obtain ⟨front, rfl⟩ := List.getLast?_eq_some_iff.1 hold
    rw [List.map_append] at h
    have hfront : ∀ kv ∈ front, kv.1 ≠ key' := by
      intro kv hkv heq
      exact List.disjoint_of_nodup_append h (List.mem_map_of_mem hkv) (by simp [heq])
    have hset : set (front ++ [(key', old)]) key' value =
        replace (front ++ [(key', old)]) key' value := if_pos (contains_iff.2 hmem)
    have hsame : front.map (fun kv => if kv.1 = key' then (key', value) else kv) = front := by
      conv_rhs => rw [← List.map_id front]
      exact List.map_congr_left fun kv hkv => if_neg (hfront kv hkv)
    have hkept : front.filter (fun kv => kv.1 ≠ key') = front := by
      rw [List.filter_eq_self]
      simpa using hfront
    rw [hset, replace, List.map_append, hsame, List.filter_append, hkept]
    simp
  · have hset : set d key value = d ++ [(key, value)] :=
      if_neg fun hcontains => hmem (contains_iff.1 hcontains)
    have hkept : d.filter (fun kv => kv.1 ≠ key) = d := by
      rw [List.filter_eq_self]
      intro kv hkv
      exact decide_eq_true fun heq => hmem (List.mem_map.2 ⟨kv, hkv, heq⟩)
    rw [hset, hkept]

end Dict

theorem mem_of_lookup_eq_some {κ α : Type} [BEq κ] [LawfulBEq κ] {l : List (κ × α)} {k : κ} {v : α}
    (h : l.lookup k = some v) : (k, v) ∈ l := by
  obtain ⟨l₁, l₂, rfl, _⟩ := List.lookup_eq_some_iff.1 h
  exact List.mem_append_right l₁ List.mem_cons_self

/-! ## Strings -/

/-- The characters with the Unicode property White_Space. -/
def isSpace (c : Char) : Bool :=
  let n := c.toNat
  (9 ≤ n && n ≤ 13) || n = 0x20 || n = 0x85 || n = 0xA0 || n = 0x1680 ||
    (0x2000 ≤ n && n ≤ 0x200A) || n = 0x2028 || n = 0x2029 || n = 0x202F || n = 0x205F ||
    n = 0x3000

/-- The string without the characters in `p` at both ends. -/
def strip (p : Char → Bool) (s : String) : String :=
  String.ofList ((s.toList.dropWhile p).rdropWhile p)

/-- Stripping a string without a character to strip changes nothing. -/
theorem strip_eq_self {p : Char → Bool} {s : String} (h : ∀ c ∈ s.toList, p c = false) :
    strip p s = s := by
  have hhead : s.toList.dropWhile p = s.toList := by
    rw [List.dropWhile_eq_self_iff]
    intro hl
    simp [h _ (List.getElem_mem hl)]
  have hlast : s.toList.rdropWhile p = s.toList := by
    rw [List.rdropWhile_eq_self_iff]
    intro hl
    simp [h _ (List.getLast_mem hl)]
  unfold strip
  rw [hhead, hlast, String.ofList_toList]

theorem strip_strip (p : Char → Bool) (s : String) : strip p (strip p s) = strip p s := by
  have hhead : ((s.toList.dropWhile p).rdropWhile p).dropWhile p =
      (s.toList.dropWhile p).rdropWhile p := by
    rw [List.dropWhile_eq_self_iff]
    intro hl
    have hdrop := List.rdropWhile_prefix p (s.toList.dropWhile p)
    rw [hdrop.getElem hl]
    exact List.dropWhile_eq_self_iff.1 (List.dropWhile_idempotent p _) _
  unfold strip
  rw [String.toList_ofList, hhead, List.rdropWhile_idempotent]

/-- `str.lower` as far as a key is compared with ASCII names: the letters whose lower case is an
ASCII letter are those of ASCII and the Kelvin sign. -/
def lower (s : String) : String :=
  String.ofList (s.toList.map fun c => if c.toNat = 0x212A then 'k' else c.toLower)

/-- Digits with single underscores between them; `pending` says that a digit has to follow. -/
def digitsVal : Bool → ℕ → List Char → Option ℕ
  | pending, acc, [] => if pending then none else some acc
  | pending, acc, c :: cs =>
    if c.isDigit then digitsVal false (10 * acc + (c.toNat - '0'.toNat)) cs
    else if c = '_' && !pending then digitsVal true acc cs
    else none

/-- The longest run of digits that `int` converts. -/
def maxStrDigits : ℕ := 4300

/-- The value of `int(s)` where it does not raise `ValueError`, for an ASCII string. Python counts
the four information separators as space too. -/
def parseInt (s : String) : Option ℤ :=
  let chars := (strip (fun c => isSpace c || 0x1C ≤ c.toNat && c.toNat ≤ 0x1F) s).toList
  if maxStrDigits < (chars.filter Char.isDigit).length then none
  else match chars with
    | '-' :: cs => (digitsVal true 0 cs).map fun n => -(n : ℤ)
    | '+' :: cs => (digitsVal true 0 cs).map Int.ofNat
    | cs => (digitsVal true 0 cs).map Int.ofNat

/-! ## Floats -/

/-- A number at least this large rounds past the largest float. -/
def floatOverflow : ℚ := 2 ^ 1024 - 2 ^ 970

/-- The conversion or the power that computes `x` raises `OverflowError`. -/
def overflows (x : ℚ) : Bool := decide (floatOverflow ≤ |x|)

/-- The float that `x` is rounded to, as if floats had exponents without end. -/
def roundFloat (x : ℚ) : ℚ := SignificantDigits.roundSigned 2 53 x

theorem roundFloat_mono {x y : ℚ} (h : x ≤ y) : roundFloat x ≤ roundFloat y :=
  SignificantDigits.roundSigned_mono (by decide) (by decide) h

/-- Up to `2 ^ 53` an integer is a float. -/
theorem roundFloat_intCast {n : ℤ} (h : |n| ≤ 2 ^ 53) : roundFloat n = n :=
  SignificantDigits.roundSigned_of_le (e := 0) (by decide) (by decide) h (by simp)

theorem roundFloat_roundFloat (x : ℚ) : roundFloat (roundFloat x) = roundFloat x :=
  SignificantDigits.roundSigned_roundSigned (by decide) (by decide) x

/-- A finite float, by its value; its exponent may be as large as it likes. -/
structure PyFloat where
  toRat : ℚ
  isFloat : roundFloat toRat = toRat

namespace PyFloat

@[ext] theorem ext {x y : PyFloat} (h : x.toRat = y.toRat) : x = y := by
  cases x
  cases y
  cases h
  rfl

def round (x : ℚ) : PyFloat := ⟨roundFloat x, roundFloat_roundFloat x⟩

instance : LinearOrder PyFloat := LinearOrder.lift' toRat fun _ _ => ext

instance : Zero PyFloat := ⟨round 0⟩

instance : Add PyFloat := ⟨fun x y => round (x.toRat + y.toRat)⟩

instance : Sub PyFloat := ⟨fun x y => round (x.toRat - y.toRat)⟩

instance : Mul PyFloat := ⟨fun x y => round (x.toRat * y.toRat)⟩

/-- `x // y`: the quotient of what `fmod`, which is exact, leaves of `x` is taken to an integer. -/
def floorDiv (x y : PyFloat) : PyFloat :=
  let quotient := x.toRat / y.toRat
  let mod := x.toRat - y.toRat * (if 0 ≤ quotient then ⌊quotient⌋ else ⌈quotient⌉ : ℤ)
  let div := round (roundFloat (x.toRat - mod) / y.toRat)
  -- the remainder is to have the sign of the divisor
  let div := if mod ≠ 0 ∧ (y.toRat < 0 ↔ 0 ≤ mod) then div - round 1 else div
  let floor := round ⌊div.toRat⌋
  if 1 / 2 < (div - floor).toRat then floor + round 1 else floor

variable {x y : PyFloat} {n : ℤ}

theorem le_iff : x ≤ y ↔ x.toRat ≤ y.toRat := Iff.rfl

theorem lt_iff : x < y ↔ x.toRat < y.toRat := Iff.rfl

theorem toRat_zero : (0 : PyFloat).toRat = 0 := by
  have hzero := roundFloat_intCast (n := 0) (by decide)
  rwa [Int.cast_zero] at hzero

theorem toRat_add : (x + y).toRat = roundFloat (x.toRat + y.toRat) := rfl

theorem toRat_sub : (x - y).toRat = roundFloat (x.toRat - y.toRat) := rfl

theorem toRat_mul : (x * y).toRat = roundFloat (x.toRat * y.toRat) := rfl

theorem toRat_round_intCast (h : |n| ≤ 2 ^ 53) : (round n).toRat = n := roundFloat_intCast h

/-- The whole times that a positive integer goes into a float up to `2 ^ 53`. -/
theorem toRat_floorDiv (hx : 0 ≤ x.toRat) (hx' : x.toRat ≤ 2 ^ 53) (hn : 0 < n)
    (hy : y.toRat = n) : (x.floorDiv y).toRat = ⌊x.toRat / n⌋ := by
  have hpos : (0 : ℚ) < n := Int.cast_pos.2 hn
  have hquotient : 0 ≤ x.toRat / n := div_nonneg hx hpos.le
  have hfloor : 0 ≤ ⌊x.toRat / n⌋ := Int.floor_nonneg.2 hquotient
  have hmul : (⌊x.toRat / n⌋ : ℚ) * n ≤ x.toRat := (le_div_iff₀ hpos).1 (Int.floor_le _)
  have hbound : ⌊x.toRat / n⌋ * n ≤ 2 ^ 53 := by exact_mod_cast hmul.trans hx'
  have hwhole : roundFloat ((n : ℚ) * ⌊x.toRat / n⌋) = n * ⌊x.toRat / n⌋ := by
    have hround := roundFloat_intCast (n := n * ⌊x.toRat / n⌋)
      (by rw [abs_of_nonneg (mul_nonneg hn.le hfloor), mul_comm]; exact hbound)
    rwa [Int.cast_mul] at hround
  have hcount : |⌊x.toRat / n⌋| ≤ 2 ^ 53 := by
    rw [abs_of_nonneg hfloor]
    exact (le_mul_of_one_le_right hfloor hn).trans hbound
  have hsign : 0 ≤ x.toRat - n * ⌊x.toRat / n⌋ := by linarith
  have hkeep : (if x.toRat - n * ⌊x.toRat / n⌋ ≠ 0 ∧ ¬ 0 ≤ x.toRat - n * ⌊x.toRat / n⌋ then
      round ⌊x.toRat / n⌋ - round 1 else round ⌊x.toRat / n⌋) = round ⌊x.toRat / n⌋ :=
    if_neg fun h => h.2 hsign
  have hsame : (round ⌊x.toRat / n⌋ - round ⌊x.toRat / n⌋).toRat = 0 := by
    rw [toRat_sub, sub_self]
    exact toRat_zero
  unfold floorDiv
  simp only [hy, if_pos hquotient, sub_sub_cancel, hwhole, mul_div_cancel_left₀ _ hpos.ne',
    not_lt.2 hpos.le, false_iff, hkeep, toRat_round_intCast hcount, Int.floor_intCast, hsame]
  rw [if_neg (by norm_num)]
  exact toRat_round_intCast hcount

end PyFloat

/-! ## Decimals -/

/-- A finite `Decimal`: `coeff * 10 ^ exp`. -/
structure Decimal where
  coeff : ℤ
  exp : ℤ
  deriving DecidableEq

namespace Decimal

def toRat (d : Decimal) : ℚ := d.coeff * (10 : ℚ) ^ d.exp

/-- A `Decimal` is true unless it is zero. -/
def isZero (d : Decimal) : Bool := d.coeff = 0

def mul (x y : Decimal) : Decimal := ⟨x.coeff * y.coeff, x.exp + y.exp⟩

/-- `coeff` with up to `n` of its trailing zeros moved into the exponent. -/
def moveZeros : ℕ → ℤ → ℤ → Decimal
  | 0, coeff, exp => ⟨coeff, exp⟩
  | n + 1, coeff, exp =>
    if coeff % 10 = 0 then moveZeros n (coeff / 10) (exp + 1) else ⟨coeff, exp⟩

/-- `(x / y).to_integral_value(rounding=ROUND_DOWN)`: the quotient without its fraction. An exact
quotient keeps an exponent as close to `x.exp - y.exp` as its digits allow. -/
def truncDiv (x y : Decimal) : Decimal :=
  let q := x.toRat / y.toRat
  let n := if q < 0 then ⌈q⌉ else ⌊q⌋
  if q = n then moveZeros (x.exp - y.exp).toNat n 0 else ⟨n, 0⟩

/-- `format(d, "f")`. -/
def format (d : Decimal) : String :=
  let digits := Nat.toDigits 10 d.coeff.natAbs
  let sign := if d.coeff < 0 then ['-'] else []
  if 0 ≤ d.exp then
    String.ofList (sign ++ if d.coeff = 0 then digits else
      digits ++ List.replicate d.exp.toNat '0')
  else
    let places := (-d.exp).toNat
    let padded := List.replicate (places + 1 - digits.length) '0' ++ digits
    let whole := padded.length - places
    String.ofList (sign ++ padded.take whole ++ '.' :: padded.drop whole)

end Decimal

end BinanceTh
