import Mathlib.Data.List.Basic
import Mathlib.Data.Int.Notation

/-!
# Percent-encoding

Text is encoded character by character: an unreserved character stays, of another one each byte of
its UTF-8 encoding becomes `%XX`. A query is a list of pairs, joined by `=` and `&`. Encoding never
makes a text shorter, and keeps its length only if all of it is unreserved (`Plain`); so the query
of the encoded pairs is the raw one exactly when all keys and values are plain
(`query_encode_eq_iff`).
-/

namespace Percent

/-- The unreserved characters of URIs. -/
def isUnreserved (c : Char) : Bool := c.isAlphanum || ['-', '.', '_', '~'].contains c

def hexDigit (n : ℕ) : Char := (Nat.digitChar n).toUpper

def encodeByte (b : UInt8) : List Char := ['%', hexDigit (b.toNat / 16), hexDigit (b.toNat % 16)]

def encodeChar (c : Char) : List Char :=
  if isUnreserved c then [c] else (String.utf8EncodeChar c).flatMap encodeByte

def encode (s : String) : String := String.ofList (s.toList.flatMap encodeChar)

/-- All characters are unreserved. -/
def Plain (s : String) : Prop := ∀ c ∈ s.toList, isUnreserved c = true

instance (s : String) : Decidable (Plain s) := List.decidableBAll _ s.toList

/-! ## Texts -/

theorem one_lt_length_encodeChar {c : Char} (h : isUnreserved c = false) :
    1 < (encodeChar c).length := by
  obtain ⟨b, bs, hbytes⟩ := List.exists_cons_of_ne_nil (String.utf8EncodeChar_ne_nil (c := c))
  simp [encodeChar, h, hbytes, encodeByte]

theorem length_encodeChar_pos (c : Char) : 0 < (encodeChar c).length := by
  cases h : isUnreserved c with
  | true => simp [encodeChar, h]
  | false =>
    have hlong := one_lt_length_encodeChar h
    omega

theorem length_le_flatMap_encodeChar (l : List Char) :
    l.length ≤ (l.flatMap encodeChar).length := by
  induction l with
  | nil => simp
  | cons c l ih =>
    have hc := length_encodeChar_pos c
    rw [List.flatMap_cons, List.length_append, List.length_cons]
    omega

theorem length_le_encode (s : String) : s.length ≤ (encode s).length := by
  rw [encode, String.length_ofList, ← String.length_toList]
  exact length_le_flatMap_encodeChar s.toList

theorem encode_of_plain {s : String} (h : Plain s) : encode s = s := by
  have hchars : s.toList.flatMap encodeChar = s.toList := by
    have hsame : s.toList.flatMap encodeChar = s.toList.flatMap fun c => [c] := by
      rw [List.flatMap_def, List.flatMap_def]
      refine congrArg _ (List.map_congr_left fun c hc => ?_)
      simp [encodeChar, h c hc]
    rw [hsame, List.flatMap_singleton']
  rw [encode, hchars, String.ofList_toList]

/-- A text that does not grow is plain. -/
theorem plain_of_length_encode {s : String} (h : (encode s).length = s.length) : Plain s := by
  rw [encode, String.length_ofList, ← String.length_toList] at h
  unfold Plain
  generalize s.toList = l at h
  induction l with
  | nil => simp
  | cons c l ih =>
    have hl := length_le_flatMap_encodeChar l
    have hpos := length_encodeChar_pos c
    rw [List.flatMap_cons, List.length_append, List.length_cons] at h
    intro c' hc'
    rcases List.mem_cons.1 hc' with rfl | hc'
    · by_contra hno
      have hlong := one_lt_length_encodeChar (Bool.eq_false_iff.2 hno)
      omega
    · exact ih (by omega) c' hc'

/-! ## Queries -/

/-- `k=v` pairs joined by `&`. -/
def query (pairs : List (String × String)) : String :=
  "&".intercalate (pairs.map fun kv => kv.1 ++ "=" ++ kv.2)

def encodePair (kv : String × String) : String × String := (encode kv.1, encode kv.2)

theorem query_cons_cons (kv kv' : String × String) (pairs : List (String × String)) :
    query (kv :: kv' :: pairs) = kv.1 ++ "=" ++ kv.2 ++ "&" ++ query (kv' :: pairs) := by
  unfold query
  simp only [List.map_cons, String.intercalate_cons_cons]

theorem query_concat {pairs : List (String × String)} (h : pairs ≠ []) (kv : String × String) :
    query (pairs ++ [kv]) = query pairs ++ "&" ++ (kv.1 ++ "=" ++ kv.2) := by
  unfold query
  rw [List.map_append, String.intercalate_append_of_ne_nil]
  · simp
  · simpa using h
  · simp

/-- The length of a query is the sum of what the pairs take. -/
theorem length_query_encode (pairs : List (String × String)) :
    (query pairs).length ≤ (query (pairs.map encodePair)).length ∧
      ((query (pairs.map encodePair)).length = (query pairs).length →
        ∀ kv ∈ pairs, Plain kv.1 ∧ Plain kv.2) := by
  induction pairs with
  | nil => simp
  | cons kv pairs ih =>
    have hkey := length_le_encode kv.1
    have hvalue := length_le_encode kv.2
    have hplain (hk : (encode kv.1).length = kv.1.length)
        (hv : (encode kv.2).length = kv.2.length) : Plain kv.1 ∧ Plain kv.2 :=
      ⟨plain_of_length_encode hk, plain_of_length_encode hv⟩
    cases pairs with
    | nil =>
      simp only [query, encodePair, List.map_cons, List.map_nil, String.intercalate_singleton,
        String.length_append, List.mem_singleton]
      refine ⟨by omega, ?_⟩
      rintro heq _ rfl
      exact hplain (by omega) (by omega)
    | cons kv' pairs =>
      obtain ⟨hle, hrest⟩ := ih
      rw [List.map_cons, List.map_cons, query_cons_cons, query_cons_cons, ← List.map_cons]
      simp only [encodePair, String.length_append] at hle hrest ⊢
      refine ⟨by omega, fun heq => List.forall_mem_cons.2 ⟨?_, hrest (by omega)⟩⟩
      exact hplain (by omega) (by omega)

/-- **Encoding leaves a query alone** exactly when all its keys and values are plain. -/
theorem query_encode_eq_iff (pairs : List (String × String)) :
    query (pairs.map encodePair) = query pairs ↔ ∀ kv ∈ pairs, Plain kv.1 ∧ Plain kv.2 := by
  constructor
  · intro heq
    exact (length_query_encode pairs).2 (congrArg String.length heq)
  · intro hplain
    have hsame : pairs.map encodePair = pairs := by
      conv_rhs => rw [← List.map_id pairs]
      refine List.map_congr_left fun kv hkv => ?_
      obtain ⟨hkey, hvalue⟩ := hplain kv hkv
      rw [encodePair, encode_of_plain hkey, encode_of_plain hvalue]
      rfl
    rw [hsame]

/-! ## Numbers -/

theorem isUnreserved_of_isDigit {c : Char} (h : c.isDigit = true) : isUnreserved c = true := by
  simp [isUnreserved, Char.isAlphanum, h]

theorem plain_toString_nat (n : ℕ) : Plain (toString n) := by
  intro c hc
  have hdigits : c ∈ Nat.toDigits 10 n := by
    simpa [Nat.repr] using hc
  exact isUnreserved_of_isDigit (Nat.isDigit_of_mem_toDigits (by omega) (by omega) hdigits)

/-- A sign is unreserved as well. -/
theorem plain_toString_int (n : ℤ) : Plain (toString n) := by
  cases n with
  | ofNat n => exact plain_toString_nat n
  | negSucc n =>
    intro c hc
    have hcons : c = '-' ∨ c ∈ (toString (n + 1)).toList := by
      simpa [Int.repr] using hc
    rcases hcons with rfl | hc
    · rfl
    · exact plain_toString_nat (n + 1) c hc

end Percent
