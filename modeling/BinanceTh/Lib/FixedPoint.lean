import Mathlib.Algebra.Order.Field.Rat
import Mathlib.Data.List.TakeWhile

/-!
# Fixed-point texts

How a number is read from its digits: a sign, digits, and a point with the digits of the fraction. The
value is exact, and leading zeros do not change it.
-/

namespace FixedPoint

/-- A number without its sign. -/
def unsigned (cs : List Char) : Option ℚ :=
  let whole := cs.takeWhile Char.isDigit
  if whole = [] then none
  else match cs.dropWhile Char.isDigit with
    | [] => some (Nat.ofDigitChars 10 whole 0)
    | '.' :: fraction =>
      if fraction ≠ [] ∧ fraction.all Char.isDigit then
        some (Nat.ofDigitChars 10 (whole ++ fraction) 0 / 10 ^ fraction.length)
      else none
    | _ => none

def read (s : String) : Option ℚ :=
  match s.toList with
  | '-' :: cs => (unsigned cs).map (- ·)
  | cs => unsigned cs

variable {whole fraction : List Char}

theorem unsigned_whole (hne : whole ≠ []) (hdigits : ∀ c ∈ whole, c.isDigit = true) :
    unsigned whole = some (Nat.ofDigitChars 10 whole 0 : ℚ) := by
  have htake : whole.takeWhile Char.isDigit = whole := List.takeWhile_eq_self_iff.2 hdigits
  have hdrop : whole.dropWhile Char.isDigit = [] := List.dropWhile_eq_nil_iff.2 hdigits
  unfold unsigned
  rw [htake, hdrop]
  exact if_neg hne

theorem unsigned_point (hne : whole ≠ []) (hdigits : ∀ c ∈ whole, c.isDigit = true)
    (hne' : fraction ≠ []) (hdigits' : ∀ c ∈ fraction, c.isDigit = true) :
    unsigned (whole ++ '.' :: fraction) =
      some ((Nat.ofDigitChars 10 (whole ++ fraction) 0 : ℚ) / 10 ^ fraction.length) := by
  have htake : (whole ++ '.' :: fraction).takeWhile Char.isDigit = whole := by
    rw [List.takeWhile_append_of_pos hdigits, List.takeWhile_cons_of_neg (by decide),
      List.append_nil]
  have hdrop : (whole ++ '.' :: fraction).dropWhile Char.isDigit = '.' :: fraction := by
    rw [List.dropWhile_append_of_pos hdigits, List.dropWhile_cons_of_neg (by decide)]
  unfold unsigned
  rw [htake, hdrop]
  dsimp only
  rw [if_neg hne]
  exact if_pos ⟨hne', List.all_eq_true.2 hdigits'⟩

/-- Digits do not begin with a sign. -/
theorem read_of_isDigit {c : Char} {cs : List Char} (hdigit : c.isDigit = true) :
    read (String.ofList (c :: cs)) = unsigned (c :: cs) := by
  have hsign : c ≠ '-' := by
    rintro rfl
    exact absurd hdigit (by decide)
  unfold read
  rw [String.toList_ofList]
  split
  · next hcons => exact absurd (List.cons.inj hcons).1 hsign
  · rfl

theorem read_neg (cs : List Char) :
    read (String.ofList ('-' :: cs)) = (unsigned cs).map (- ·) := by
  unfold read
  rw [String.toList_ofList]
  rfl

end FixedPoint
