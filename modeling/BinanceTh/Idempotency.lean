import BinanceTh.Python
import Mathlib.Data.List.GetD
import Mathlib.Data.Nat.Digits.Defs

/-!
# Client order ids

`idempotency.py`: a minted id is a prefix, the time in base 36 and a random token, cut at 36
characters. Whatever the clock and the token, it is well formed (`wellFormed_mintClientOrderId`).
-/

namespace BinanceTh

def defaultPrefix : String := "xTHPY"

def maxLen : ℕ := 36

/-- `_DIGITS36`. -/
def digits36 : List Char := "0123456789abcdefghijklmnopqrstuvwxyz".toList

/-- `_base36`; the loop collects the digits from the last to the first. -/
def base36 (value : ℤ) : List Char :=
  if value ≤ 0 then ['0']
  else ((Nat.digits 36 value.toNat).map fun rem => digits36.getD rem '0').reverse

/-- `mint_client_order_id` with the readings of the clock and of the token source. -/
def mintClientOrderId (idPrefix : String) (nowMs : ℤ) (token : String) : String :=
  String.ofList ((idPrefix.toList ++ '-' :: base36 nowMs ++ '-' :: token.toList).take maxLen)

/-- A character that no URL encoding changes. -/
def IdChar (c : Char) : Prop := c.isAlphanum = true ∨ c = '_' ∨ c = '-'

instance (c : Char) : Decidable (IdChar c) :=
  inferInstanceAs (Decidable (c.isAlphanum = true ∨ c = '_' ∨ c = '-'))

/-- An id over `[A-Za-z0-9_-]` of at most 36 characters. -/
structure WellFormedId (id : String) : Prop where
  nonempty : id ≠ ""
  length_le : id.length ≤ maxLen
  chars : ∀ c ∈ id.toList, IdChar c

theorem IdChar.not_isSpace {c : Char} (h : IdChar c) : isSpace c = false := by
  have hcode : 45 ≤ c.toNat ∧ c.toNat ≤ 122 := by
    rcases h with halnum | rfl | rfl
    · change (decide ('A'.val ≤ c.val ∧ c.val ≤ 'Z'.val) ||
        (decide ('a'.val ≤ c.val) && decide (c.val ≤ 'z'.val)) ||
        (decide ('0'.val ≤ c.val) && decide (c.val ≤ '9'.val))) = true at halnum
      simp only [Bool.or_eq_true, Bool.and_eq_true, decide_eq_true_eq,
        UInt32.le_iff_toNat_le] at halnum
      have hbounds : 'A'.val.toNat = 65 ∧ 'Z'.val.toNat = 90 ∧ 'a'.val.toNat = 97 ∧
        'z'.val.toNat = 122 ∧ '0'.val.toNat = 48 ∧ '9'.val.toNat = 57 := by decide
      simp only [Char.toNat]
      omega
    · decide
    · decide
  simp only [isSpace, Bool.or_eq_false_iff, Bool.and_eq_false_iff, decide_eq_false_iff_not]
  omega

theorem WellFormedId.strip_eq {id : String} (h : WellFormedId id) : strip isSpace id = id :=
  strip_eq_self fun c hc => (h.chars c hc).not_isSpace

theorem idChar_base36 (value : ℤ) : ∀ c ∈ base36 value, IdChar c := by
  have hdigits : digits36.all Char.isAlphanum = true := by decide
  have hdigit (rem : ℕ) : IdChar (digits36.getD rem '0') := by
    by_cases hrem : rem < digits36.length
    · rw [List.getD_eq_getElem _ _ hrem]
      exact .inl (List.all_eq_true.1 hdigits _ (List.getElem_mem hrem))
    · rw [List.getD_eq_default _ _ (not_lt.1 hrem)]
      exact .inl (by decide)
  intro c hc
  unfold base36 at hc
  split at hc
  · obtain rfl := List.mem_singleton.1 hc
    exact .inl (by decide)
  · obtain ⟨rem, -, rfl⟩ := List.mem_map.1 (List.mem_reverse.1 hc)
    exact hdigit rem

/-- **A minted id is well formed** under the default prefix, with a token of letters and digits. -/
theorem wellFormed_mintClientOrderId (nowMs : ℤ) {token : String}
    (htoken : ∀ c ∈ token.toList, c.isAlphanum = true) :
    WellFormedId (mintClientOrderId defaultPrefix nowMs token) where
  nonempty := by
    intro h
    have hnil := congrArg String.toList h
    rw [mintClientOrderId, String.toList_ofList] at hnil
    cases hnil
  length_le := by
    rw [mintClientOrderId, String.length_ofList]
    exact List.length_take_le _ _
  chars := by
    intro c hc
    rw [mintClientOrderId, String.toList_ofList] at hc
    have hmem := List.mem_of_mem_take hc
    simp only [List.mem_append, List.mem_cons] at hmem
    rcases hmem with (hhead | rfl | hdigit) | rfl | hc
    · have hall : defaultPrefix.toList.all Char.isAlphanum = true := by decide
      exact .inl (List.all_eq_true.1 hall c hhead)
    · exact .inr (.inr rfl)
    · exact idChar_base36 nowMs c hdigit
    · exact .inr (.inr rfl)
    · exact .inl (htoken c hc)

end BinanceTh
