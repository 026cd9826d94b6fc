import BinanceTh.Idempotency
import Mathlib.Data.Nat.Digits.Lemmas
import Mathlib.Tactic.NormNum

/-!
# Minted ids are unique

The digits of `_base36` have the value that they were made of (`base36Value_base36`), so the number
is recovered from them. A time below `36 ** 21` has at most 21 digits, and with a token of eight
characters the id is just not longer than what is kept of it: it is cut nowhere
(`Mintable.toList_eq`). Its last eight characters are the token, and what is between the
prefix and the token is the time (`mintClientOrderId_unique`).
-/

namespace BinanceTh

/-! ## The digits -/

/-- The loop of `_base36`: a digit is appended to `out` with every division. -/
def base36Loop (value : ℕ) (out : List Char) : List Char :=
  if value = 0 then out
  else base36Loop (value / 36) (out ++ [digits36.getD (value % 36) '0'])
termination_by value

theorem base36Loop_eq (value : ℕ) (out : List Char) :
    base36Loop value out =
      out ++ (Nat.digits 36 value).map fun rem => digits36.getD rem '0' := by
  induction value using Nat.strong_induction_on generalizing out with
  | _ value ih =>
    rw [base36Loop]
    split
    · next hzero => simp [hzero]
    · next hne =>
      have hpos : 0 < value := Nat.pos_of_ne_zero hne
      rw [ih (value / 36) (Nat.div_lt_self hpos (by decide)),
        Nat.digits_def' (by decide) hpos, List.map_cons, List.append_assoc, List.singleton_append]

/-- `_base36` as it is written. -/
theorem base36_eq_loop (value : ℤ) :
    base36 value = if value ≤ 0 then ['0'] else (base36Loop value.toNat []).reverse := by
  rw [base36Loop_eq, List.nil_append]
  rfl

/-- The number that digits denote in base 36. -/
def base36Value (digits : List Char) : ℕ :=
  digits.foldl (fun acc c => 36 * acc + digits36.idxOf c) 0

theorem idxOf_digit {rem : ℕ} (h : rem < 36) :
    digits36.idxOf (digits36.getD rem '0') = rem := by
  have hall : ∀ rem < 36, digits36.idxOf (digits36.getD rem '0') = rem := by decide
  exact hall rem h

theorem base36Value_reverse (rems : List ℕ) (h : ∀ rem ∈ rems, rem < 36) :
    base36Value ((rems.map fun rem => digits36.getD rem '0').reverse) = Nat.ofDigits 36 rems := by
  unfold base36Value
  rw [List.foldl_reverse]
  induction rems with
  | nil => rfl
  | cons rem rems ih =>
    obtain ⟨hrem, hrems⟩ := List.forall_mem_cons.1 h
    rw [List.map_cons, List.foldr_cons, ih hrems, Nat.ofDigits_cons, idxOf_digit hrem]
    exact Nat.add_comm _ _

theorem base36_of_pos {value : ℤ} (h : 0 < value) :
    base36 value =
      ((Nat.digits 36 value.toNat).map fun rem => digits36.getD rem '0').reverse :=
  if_neg (not_le.2 h)

/-- The digits denote the number. -/
theorem base36Value_base36 {value : ℤ} (h : 0 ≤ value) :
    (base36Value (base36 value) : ℤ) = value := by
  rcases h.eq_or_lt with rfl | hpos
  · decide
  · rw [base36_of_pos hpos, base36Value_reverse _ fun rem => Nat.digits_lt_base (by decide),
      Nat.ofDigits_digits]
    exact Int.toNat_of_nonneg h

theorem base36_injective {value value' : ℤ} (h : 0 ≤ value) (h' : 0 ≤ value')
    (heq : base36 value = base36 value') : value = value' := by
  rw [← base36Value_base36 h, heq, base36Value_base36 h']

/-- No digit is there for nothing. -/
theorem head?_base36_ne_zero {value : ℤ} (h : 0 < value) : (base36 value).head? ≠ some '0' := by
  have hne : value.toNat ≠ 0 := by omega
  have hdigits : Nat.digits 36 value.toNat ≠ [] := Nat.digits_ne_nil_iff_ne_zero.2 hne
  rw [base36_of_pos h, List.head?_reverse, List.getLast?_map,
    List.getLast?_eq_getLast_of_ne_nil hdigits]
  intro heq
  have hlast : digits36.getD ((Nat.digits 36 value.toNat).getLast hdigits) '0' = '0' :=
    Option.some.inj heq
  have hlt : (Nat.digits 36 value.toNat).getLast hdigits < 36 :=
    Nat.digits_lt_base (by decide) (List.getLast_mem hdigits)
  have hidx := idxOf_digit hlt
  rw [hlast] at hidx
  exact Nat.getLast_digit_ne_zero 36 hne hidx.symm

theorem length_base36_le {value : ℤ} {k : ℕ} (hk : 0 < k) (h : value < 36 ^ k) :
    (base36 value).length ≤ k := by
  unfold base36
  split
  · exact hk
  · next hpos =>
    rw [List.length_reverse, List.length_map, Nat.digits_length_le_iff (by decide)]
    zify
    rw [Int.toNat_of_nonneg (by omega)]
    exact h

/-- The digits of a number: they denote it, and there is no leading zero but for 0. -/
structure IsBase36 (value : ℤ) (digits : List Char) : Prop where
  chars : ∀ c ∈ digits, c ∈ digits36
  value_eq : (base36Value digits : ℤ) = value
  zero : value = 0 → digits = ['0']
  head : value ≠ 0 → digits.head? ≠ some '0'

theorem isBase36_base36 {value : ℤ} (h : 0 ≤ value) : IsBase36 value (base36 value) where
  chars c hc := by
    unfold base36 at hc
    split at hc
    · rw [List.mem_singleton.1 hc]
      decide
    · obtain ⟨rem, hrem, rfl⟩ := List.mem_map.1 (List.mem_reverse.1 hc)
      have hlt : rem < digits36.length := Nat.digits_lt_base (by decide) hrem
      rw [List.getD_eq_getElem _ _ hlt]
      exact List.getElem_mem hlt
  value_eq := base36Value_base36 h
  zero hzero := if_pos hzero.le
  head hne := head?_base36_ne_zero (h.lt_of_ne' hne)

/-! ## The ids -/

/-- A time and a token that an id is minted of. -/
structure Mintable (nowMs : ℤ) (token : String) : Prop where
  nonneg : 0 ≤ nowMs
  lt : nowMs < 36 ^ 21
  length : token.length = 8
  alphanum : ∀ c ∈ token.toList, c.isAlphanum = true

variable {nowMs nowMs' : ℤ} {token token' : String}

/-- Nothing is cut off. -/
theorem Mintable.toList_eq (h : Mintable nowMs token) :
    (mintClientOrderId defaultPrefix nowMs token).toList =
      defaultPrefix.toList ++ '-' :: base36 nowMs ++ '-' :: token.toList := by
  have htime := length_base36_le (by decide) h.lt
  have htoken : token.toList.length = 8 := h.length
  have hinitial : defaultPrefix.toList.length = 5 := by decide
  rw [mintClientOrderId, String.toList_ofList]
  refine List.take_of_length_le ?_
  simp only [List.length_append, List.length_cons, maxLen]
  omega

/-- Two ids are equal only if their times and their tokens are. -/
theorem Mintable.eq_of_mint_eq (h : Mintable nowMs token) (h' : Mintable nowMs' token')
    (heq : mintClientOrderId defaultPrefix nowMs token =
      mintClientOrderId defaultPrefix nowMs' token') : nowMs = nowMs' ∧ token = token' := by
  have hlist := congrArg String.toList heq
  rw [h.toList_eq, h'.toList_eq] at hlist
  have hlength : ('-' :: token.toList).length = ('-' :: token'.toList).length := by
    have htoken : token.toList.length = 8 := h.length
    have htoken' : token'.toList.length = 8 := h'.length
    rw [List.length_cons, List.length_cons, htoken, htoken']
  obtain ⟨hfront, hback⟩ := List.append_inj' hlist hlength
  have htime := List.append_cancel_left hfront
  exact ⟨base36_injective h.nonneg h'.nonneg (List.cons.inj htime).2,
    String.toList_inj.1 (List.cons.inj hback).2⟩

/-- A minted id is well formed, and no other time or token gives the same one; the time is in it as
its digits in base 36. -/
theorem mintClientOrderId_unique (h : Mintable nowMs token) (h' : Mintable nowMs' token') :
    WellFormedId (mintClientOrderId defaultPrefix nowMs token) ∧
      (mintClientOrderId defaultPrefix nowMs token =
        mintClientOrderId defaultPrefix nowMs' token' → nowMs = nowMs' ∧ token = token') ∧
      (∀ value, 0 ≤ value → IsBase36 value (base36 value)) ∧
      ∀ value value', 0 ≤ value → 0 ≤ value' → base36 value = base36 value' → value = value' :=
  ⟨wellFormed_mintClientOrderId nowMs h.alphanum, h.eq_of_mint_eq h',
    fun _ hvalue => isBase36_base36 hvalue,
    fun _ _ hvalue hvalue' heq => base36_injective hvalue hvalue' heq⟩

/-- At the last millisecond below the bound. -/
theorem mintable_lastTime (hlength : token.length = 8)
    (hall : token.toList.all Char.isAlphanum = true) : Mintable (36 ^ 21 - 1) token :=
  ⟨by norm_num, by norm_num, hlength, List.all_eq_true.1 hall⟩

theorem mintClientOrderId_unique_lastTime :
    WellFormedId (mintClientOrderId defaultPrefix (36 ^ 21 - 1) "AAAAaaaa") ∧
      mintClientOrderId defaultPrefix (36 ^ 21 - 1) "AAAAaaaa" ≠
        mintClientOrderId defaultPrefix (36 ^ 21 - 1) "AAAAaaab" := by
  obtain ⟨hwellFormed, hunique, -, -⟩ := mintClientOrderId_unique
    (@mintable_lastTime "AAAAaaaa" (by decide) (by decide))
    (@mintable_lastTime "AAAAaaab" (by decide) (by decide))
  exact ⟨hwellFormed, fun heq => absurd (hunique heq).2 (by decide)⟩

end BinanceTh
