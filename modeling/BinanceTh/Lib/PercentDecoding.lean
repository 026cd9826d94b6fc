import BinanceTh.Lib.Percent

/-!
# Forms and their decoding

The encoding of forms is percent-encoding, but for the space, which becomes `+`. The other way
round, `%XX` is a byte, `+` is a space, any other character stands for itself, and the bytes are read
as UTF-8. Every text is read back from its encoding (`decode_encodeForm`), which has none of the
separators of a query (`not_mem_encodeForm`).
-/

namespace Percent

def encodeFormChar (c : Char) : List Char := if c = ' ' then ['+'] else encodeChar c

def encodeForm (s : String) : String := String.ofList (s.toList.flatMap encodeFormChar)

def hexValue? (c : Char) : Option ℕ :=
  if c.isDigit then some (c.toNat - '0'.toNat)
  else if 'A' ≤ c ∧ c ≤ 'F' then some (c.toNat - 'A'.toNat + 10)
  else if 'a' ≤ c ∧ c ≤ 'f' then some (c.toNat - 'a'.toNat + 10)
  else none

/-- The bytes of an encoded text; `none` if a `%` is not followed by two digits. -/
def unescape : List Char → Option (List UInt8)
  | [] => some []
  | c :: rest =>
    if c = '%' then
      match rest with
      | high :: low :: rest => do
        let high ← hexValue? high
        let low ← hexValue? low
        let bytes ← unescape rest
        some (UInt8.ofNat (16 * high + low) :: bytes)
      | _ => none
    else do
      let bytes ← unescape rest
      some (String.utf8EncodeChar (if c = '+' then ' ' else c) ++ bytes)

def decode (s : String) : Option String := do
  let bytes ← unescape s.toList
  let chars ← bytes.toByteArray.utf8Decode?
  some (String.ofList chars.toList)

theorem hexValue?_hexDigit {n : ℕ} (h : n < 16) : hexValue? (hexDigit n) = some n := by
  have hdigits : ∀ n < 16, hexValue? (hexDigit n) = some n := by decide
  exact hdigits n h

theorem unescape_encodeByte (b : UInt8) (rest : List Char) :
    unescape (encodeByte b ++ rest) = (unescape rest).map ([b] ++ ·) := by
  have hb := b.toNat_lt
  have hbyte : UInt8.ofNat (16 * (b.toNat / 16) + b.toNat % 16) = b := by
    rw [Nat.div_add_mod, UInt8.ofNat_toNat]
  change unescape ('%' :: hexDigit (b.toNat / 16) :: hexDigit (b.toNat % 16) :: rest) = _
  rw [unescape, if_pos rfl, hexValue?_hexDigit (by omega), hexValue?_hexDigit (by omega)]
  cases unescape rest with
  | none => rfl
  | some bytes =>
    change some (UInt8.ofNat _ :: bytes) = some (b :: bytes)
    rw [hbyte]

theorem unescape_encodeBytes (bs : List UInt8) (rest : List Char) :
    unescape (bs.flatMap encodeByte ++ rest) = (unescape rest).map (bs ++ ·) := by
  induction bs with
  | nil => simp
  | cons b bs ih =>
    rw [List.flatMap_cons, List.append_assoc, unescape_encodeByte, ih, Option.map_map]
    rfl

theorem unescape_encodeChar (c : Char) (rest : List Char) :
    unescape (encodeChar c ++ rest) = (unescape rest).map (String.utf8EncodeChar c ++ ·) := by
  unfold encodeChar
  split
  · next hplain =>
    have hpercent : c ≠ '%' := by
      rintro rfl
      exact absurd hplain (by decide)
    have hplus : c ≠ '+' := by
      rintro rfl
      exact absurd hplain (by decide)
    rw [List.singleton_append, unescape.eq_def]
    dsimp only
    rw [if_neg hpercent, if_neg hplus]
    cases unescape rest <;> rfl
  · exact unescape_encodeBytes _ rest

theorem unescape_encodeFormChar (c : Char) (rest : List Char) :
    unescape (encodeFormChar c ++ rest) = (unescape rest).map (String.utf8EncodeChar c ++ ·) := by
  unfold encodeFormChar
  split
  · next hspace =>
    subst hspace
    rw [List.singleton_append, unescape.eq_def]
    dsimp only
    rw [if_neg (by decide), if_pos rfl]
    cases unescape rest <;> rfl
  · exact unescape_encodeChar c rest

/-- The bytes of the encoding are those of the text. -/
theorem unescape_encodeForm (cs : List Char) :
    unescape (cs.flatMap encodeFormChar) = some (cs.flatMap String.utf8EncodeChar) := by
  induction cs with
  | nil => rfl
  | cons c cs ih =>
    rw [List.flatMap_cons, unescape_encodeFormChar, ih]
    rfl

/-- **Round trip.** -/
theorem decode_encodeForm (s : String) : decode (encodeForm s) = some s := by
  have hbytes : unescape (encodeForm s).toList = some (s.toList.flatMap String.utf8EncodeChar) := by
    rw [encodeForm, String.toList_ofList, unescape_encodeForm]
  have hchars : (s.toList.flatMap String.utf8EncodeChar).toByteArray.utf8Decode? =
      some s.toList.toArray := List.utf8Decode?_utf8Encode
  rw [decode, hbytes, Option.bind_eq_bind, Option.bind_some, hchars, Option.bind_eq_bind,
    Option.bind_some, List.toList_toArray, String.ofList_toList]

/-- A character of an encoding is unreserved, a `%` or a `+`. -/
theorem isUnreserved_of_mem_encodeForm {s : String} {c : Char} (h : c ∈ (encodeForm s).toList) :
    isUnreserved c = true ∨ c = '%' ∨ c = '+' := by
  rw [encodeForm, String.toList_ofList, List.mem_flatMap] at h
  obtain ⟨c', -, hc⟩ := h
  unfold encodeFormChar encodeChar at hc
  split at hc
  · exact .inr (.inr (List.mem_singleton.1 hc))
  split at hc
  · next hplain => exact .inl (List.mem_singleton.1 hc ▸ hplain)
  · obtain ⟨b, -, hb⟩ := List.mem_flatMap.1 hc
    have hhex : ∀ n < 16, isUnreserved (hexDigit n) = true := by decide
    have hlt := b.toNat_lt
    simp only [encodeByte, List.mem_cons, List.not_mem_nil, or_false] at hb
    rcases hb with rfl | rfl | rfl
    · exact .inr (.inl rfl)
    · exact .inl (hhex _ (by omega))
    · exact .inl (hhex _ (by omega))

theorem not_mem_encodeForm {c : Char} (hreserved : isUnreserved c = false) (hpercent : c ≠ '%')
    (hplus : c ≠ '+') (s : String) : c ∉ (encodeForm s).toList := by
  intro hmem
  rcases isUnreserved_of_mem_encodeForm hmem with hplain | rfl | rfl
  · rw [hplain] at hreserved
    cases hreserved
  · exact hpercent rfl
  · exact hplus rfl

end Percent
