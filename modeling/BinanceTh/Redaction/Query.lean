import BinanceTh.Lib.Percent
import BinanceTh.Lib.Scanning
import BinanceTh.Redaction

/-!
# Redaction of query strings

`redact_query` replaces what a regular expression matches, `redact_params` looks a key up. On the
query of a parameter map they agree (`redactQuery_query`). A match ends with an `=`, so it can only
be a sensitive key before the first `=` from its place on: within a value there is an `&` before the
next `=`, and within a key the look-behind forbids it except at the key's beginning.
-/

namespace BinanceTh

open Scanning Scanning.Scanner

/-- `SENSITIVE_KEYS`, in the order in which the set is iterated over. -/
structure KeyOrder where
  keys : List String
  perm : keys.Perm sensitiveKeys

/-- `[\w-]`, where `isAlnum` says which characters beyond ASCII are alphanumeric. -/
def isKeyChar (isAlnum : Char → Bool) (c : Char) : Bool :=
  c = '_' || c = '-' || if c.toNat < 128 then c.isAlphanum else isAlnum c

/-- The lower-case letter that a character passes for under `(?i)`; of those beyond ASCII the Kelvin
sign, the long s and the two Turkish letters pass for a letter of ASCII. -/
def foldCase (c : Char) : Char :=
  if c.toNat = 0x212A then 'k'
  else if c.toNat = 0x17F then 's'
  else if c.toNat = 0x130 ∨ c.toNat = 0x131 then 'i'
  else c.toLower

variable (order : KeyOrder) (isAlnum : Char → Bool)

/-- `_QUERY_SENSITIVE_RE`; a match has its group. -/
def querySensitive : Scanner (List Char) :=
  (notAfter (isKeyChar isAlnum)).andThen fun _ =>
  (firstOf (order.keys.map fun key => literal (fun x c => foldCase c = x) key.toList)).andThen
    fun group =>
  (char (· = '=')).andThen fun _ =>
  (many (· ≠ '&')).andThen fun _ =>
  done group

def redactQuery (query : String) : String :=
  String.ofList (sub (querySensitive order isAlnum)
    (fun group => group ++ '=' :: redacted.toList) query.toList)

/-- A key over `[A-Za-z0-9_-]`. -/
def KeyText (key : String) : Prop :=
  ∀ c ∈ key.toList, (c.isAlphanum || c = '_' || c = '-') = true

instance (key : String) : Decidable (KeyText key) := List.decidableBAll _ key.toList

variable {order isAlnum} {prev : Option Char} {t rest : List Char}

/-! ## Keys -/

/-- The text is a sensitive key in some letter case. -/
def Folds (t : List Char) : Prop := String.ofList (t.map foldCase) ∈ sensitiveKeys

theorem forall₂_literal_iff {xs a : List Char} :
    List.Forall₂ (fun x c => decide (foldCase c = x) = true) xs a ↔ a.map foldCase = xs := by
  simp only [decide_eq_true_eq]
  rw [← List.forall₂_eq_eq_eq, List.forall₂_map_left_iff]
  constructor
  · exact fun h => h.flip
  · exact fun h => h.flip

theorem folds_chars (h : Folds t) : t ≠ [] ∧ '&' ∉ t ∧ '=' ∉ t := by
  have hkeys : ∀ key ∈ sensitiveKeys, key.toList ≠ [] ∧ '&' ∉ key.toList ∧ '=' ∉ key.toList := by
    decide
  obtain ⟨hne, hamp, heq⟩ := hkeys _ h
  rw [String.toList_ofList] at hne hamp heq
  refine ⟨fun hnil => hne (by rw [hnil]; rfl), fun hmem => hamp ?_, fun hmem => heq ?_⟩
  · exact List.mem_map.2 ⟨'&', hmem, rfl⟩
  · exact List.mem_map.2 ⟨'=', hmem, rfl⟩

/-! ## Matches -/

theorem mem_keys_iff {key : String} : key ∈ order.keys ↔ key ∈ sensitiveKeys :=
  order.perm.mem_iff

/-- A match of the group is a text that folds to a key. -/
theorem folds_of_mem {r : List Char × Cursor} {s : Cursor}
    (h : r ∈ firstOf (order.keys.map fun key => literal (fun x c => foldCase c = x) key.toList) s) :
    Folds r.1 ∧ s.rest = r.1 ++ r.2.rest := by
  obtain ⟨m, hm, hr⟩ := List.mem_flatMap.1 h
  obtain ⟨key, hkey, rfl⟩ := List.mem_map.1 hm
  obtain ⟨hsame, htext⟩ := mem_literal hr
  refine ⟨?_, htext⟩
  rw [Folds, forall₂_literal_iff.1 hsame, String.ofList_toList]
  exact mem_keys_iff.1 hkey

/-- Nothing matches where the look-behind fails, nor where no sensitive key comes before an `=`. -/
theorem first_eq_none {s : Cursor} (h : s.prev.any (isKeyChar isAlnum) = true ∨
      ∀ t rest, s.rest = t ++ '=' :: rest → ¬ Folds t) :
    first (querySensitive order isAlnum) s = none := by
  refine first_andThen_eq_none fun r hr => ?_
  unfold notAfter at hr
  split at hr
  · cases hr
  · next hprev =>
    obtain rfl := List.mem_singleton.1 hr
    have hnone := h.resolve_left hprev
    refine first_andThen_eq_none fun r hr => ?_
    obtain ⟨hfolds, htext⟩ := folds_of_mem hr
    refine first_andThen_eq_none fun r' hr' => ?_
    obtain ⟨heq, -, hrest⟩ := rest_of_mem_char hr'
    rw [hrest, of_decide_eq_true heq] at htext
    exact absurd hfolds (hnone r.1 r'.2.rest htext)

/-- A sensitive key before an `=` is matched, with what comes up to the next `&`. -/
theorem first_eq_some (hprev : prev.any (isKeyChar isAlnum) = false) (ht : Folds t) :
    ∃ prev', first (querySensitive order isAlnum) ⟨prev, t ++ '=' :: rest⟩ =
      some (t, ⟨prev', rest.dropWhile (· ≠ '&')⟩) := by
  obtain ⟨prev', hmany⟩ := first_many (fun c => decide (c ≠ '&')) (some '=') rest
  refine ⟨prev', ?_⟩
  -- what the rest of the expression makes of a group that an `=` follows
  have hvalue : ∀ (group : List Char) (prev'' : Option Char),
      first ((char (· = '=')).andThen fun _ => (many (· ≠ '&')).andThen fun _ => done group)
        ⟨prev'', '=' :: rest⟩ = some (group, ⟨prev', rest.dropWhile (· ≠ '&')⟩) := by
    intro group prev''
    rw [first_andThen, char_cons (decide_eq_true rfl), List.findSome?_singleton,
      first_andThen_done, hmany]
    rfl
  have hbehind : notAfter (isKeyChar isAlnum) ⟨prev, t ++ '=' :: rest⟩ =
      [((), ⟨prev, t ++ '=' :: rest⟩)] := by
    unfold notAfter
    dsimp only
    rw [hprev, if_neg Bool.false_ne_true]
  unfold querySensitive
  rw [first_andThen, hbehind, List.findSome?_singleton]
  refine first_andThen_eq_some (fun r hr => ?_) ?_
  · obtain ⟨hfolds, htext⟩ := folds_of_mem hr
    obtain ⟨group, prev'', rest'⟩ := r
    by_cases heq : ∃ rest'', rest' = '=' :: rest''
    · obtain ⟨rest'', rfl⟩ := heq
      obtain ⟨rfl, rfl⟩ := append_cons_inj_of_not_mem (folds_chars ht).2.2 (folds_chars hfolds).2.2
        htext
      exact .inr (hvalue t prev'')
    · refine .inl (first_andThen_eq_none fun r' hr' => absurd ?_ heq)
      obtain ⟨hc, -, hrest⟩ := rest_of_mem_char hr'
      exact ⟨r'.2.rest, by rw [← of_decide_eq_true hc]; exact hrest⟩
  · obtain ⟨prev'', hliteral⟩ := literal_append (forall₂_literal_iff.2 rfl) prev ('=' :: rest)
    refine ⟨(t, ⟨prev'', '=' :: rest⟩), ?_, hvalue t prev''⟩
    refine List.mem_flatMap.2 ⟨_, List.mem_map.2 ⟨_, mem_keys_iff.2 ht, rfl⟩, ?_⟩
    rw [String.toList_ofList, hliteral]
    exact List.mem_singleton_self _

/-! ## Queries -/

def pairChars (kv : String × String) : List Char := kv.1.toList ++ '=' :: kv.2.toList

/-- What `redact_params` makes of one pair. -/
def redactPair (kv : String × String) : String × String :=
  (kv.1, if isSensitive kv.1 then redacted else kv.2)

theorem not_mem_of_plain {s : String} (h : Percent.Plain s) : '&' ∉ s.toList ∧ '=' ∉ s.toList :=
  ⟨fun hmem => absurd (h '&' hmem) (by decide), fun hmem => absurd (h '=' hmem) (by decide)⟩

theorem not_mem_of_keyText {key : String} (h : KeyText key) :
    '&' ∉ key.toList ∧ '=' ∉ key.toList :=
  ⟨fun hmem => absurd (h '&' hmem) (by decide), fun hmem => absurd (h '=' hmem) (by decide)⟩

/-- The letters and digits of `isAlphanum` are those of ASCII. -/
theorem toNat_lt_of_isAlphanum {c : Char} (h : c.isAlphanum = true) : c.toNat < 128 := by
  have hall : c.isAlphanum = ((c.isUpper || c.isLower) || c.isDigit) := rfl
  have hupper : c.isUpper = decide ('A'.val ≤ c.val ∧ c.val ≤ 'Z'.val) := rfl
  have hlower : c.isLower = (decide ('a'.val ≤ c.val) && decide (c.val ≤ 'z'.val)) := rfl
  have hdigit : c.isDigit = (decide ('0'.val ≤ c.val) && decide (c.val ≤ '9'.val)) := rfl
  have hZ : 'Z'.val.toNat = 90 := rfl
  have hz : 'z'.val.toNat = 122 := rfl
  have h9 : '9'.val.toNat = 57 := rfl
  have hc : c.toNat = c.val.toNat := rfl
  rw [hall, hupper, hlower, hdigit] at h
  simp only [Bool.or_eq_true, Bool.and_eq_true, decide_eq_true_eq, UInt32.le_iff_toNat_le] at h
  omega

theorem toNat_lt_of_keyText {key : String} (h : KeyText key) {c : Char} (hc : c ∈ key.toList) :
    c.toNat < 128 := by
  have hchar := h c hc
  simp only [Bool.or_eq_true, decide_eq_true_eq] at hchar
  obtain (halnum | rfl) | rfl := hchar
  · exact toNat_lt_of_isAlphanum halnum
  · decide
  · decide

theorem isKeyChar_of_keyText {key : String} (h : KeyText key) {c : Char} (hc : c ∈ key.toList) :
    isKeyChar isAlnum c = true := by
  have hchar := h c hc
  simp only [Bool.or_eq_true, decide_eq_true_eq] at hchar
  unfold isKeyChar
  rw [if_pos (toNat_lt_of_keyText h hc)]
  simp only [Bool.or_eq_true, decide_eq_true_eq]
  obtain (halnum | rfl) | rfl := hchar
  · exact .inr halnum
  · exact .inl (.inl rfl)
  · exact .inl (.inr rfl)

/-- In a key the regular expression and `str.lower` take the same letters for each other. -/
theorem folds_iff_of_keyText {key : String} (h : KeyText key) :
    Folds key.toList ↔ isSensitive key = true := by
  have hlower : String.ofList (key.toList.map foldCase) = lower key := by
    unfold lower
    refine congrArg String.ofList (List.map_congr_left fun c hc => ?_)
    have hlt := toNat_lt_of_keyText h hc
    unfold foldCase
    rw [if_neg (by omega), if_neg (by omega), if_neg (by omega), if_neg (by omega)]
  unfold Folds isSensitive
  rw [hlower, decide_eq_true_eq]

/-- What is before a place in a text that is not at its beginning is a character of the text. -/
theorem exists_last {front : List Char} (h : front ≠ []) (prev : Option Char) :
    ∃ c ∈ front, last prev front = some c := by
  refine ⟨front.getLast h, List.getLast_mem h, ?_⟩
  unfold last
  rw [List.getLast?_eq_some_getLast h]
  rfl

section Pair

variable {kv : String × String} {tail : List Char} (hkey : KeyText kv.1)
  (hvalue : Percent.Plain kv.2)

include hkey hvalue

/-- Nothing in a pair whose key is not sensitive is matched. -/
theorem first_eq_none_of_not_sensitive (hnot : ¬ isSensitive kv.1 = true)
    {before after : List Char} {c : Char} (hpair : pairChars kv = before ++ c :: after)
    (htail : ∀ c, tail.head? = some c → c = '&') :
    first (querySensitive order isAlnum) ⟨last prev before, c :: after ++ tail⟩ = none := by
  obtain ⟨-, heq⟩ := not_mem_of_keyText hkey
  obtain ⟨-, heq'⟩ := not_mem_of_plain hvalue
  apply first_eq_none
  dsimp only
  -- the place is in the key or at its `=`, or in the value
  rcases List.append_eq_append_iff.1 hpair with ⟨front, rfl, hafter⟩ | ⟨front, hfront, hafter⟩
  · right
    rintro t rest htext hfolds
    obtain ⟨hne, hamp, heq''⟩ := folds_chars hfolds
    cases front with
    | nil =>
      obtain ⟨rfl, -⟩ := List.cons.inj hafter
      cases t with
      | nil => exact hne rfl
      | cons d t =>
        obtain ⟨rfl, -⟩ := List.cons.inj htext
        exact heq'' List.mem_cons_self
    | cons d front =>
      obtain ⟨-, hafter⟩ := List.cons.inj hafter
      rw [hafter] at heq'
      rcases List.append_eq_append_iff.1 htext with ⟨e, rfl, hend⟩ | ⟨e, hfront, hend⟩
      · -- the `=` is behind the value, and so behind an `&`
        cases e with
        | nil => exact absurd (htail '=' (by rw [hend]; rfl)) (by decide)
        | cons d e =>
          obtain rfl := htail d (by rw [hend]; rfl)
          exact hamp (by simp)
      · cases e with
        | nil => exact absurd (htail '=' (congrArg List.head? hend).symm) (by decide)
        | cons d e =>
          obtain ⟨rfl, -⟩ := List.cons.inj hend
          exact heq' (by simp [hfront])
  · by_cases hbegin : before = []
    · right
      rintro t rest htext hfolds
      subst hbegin
      rw [List.nil_append] at hfront
      have hsplit : kv.1.toList ++ '=' :: (kv.2.toList ++ tail) = t ++ '=' :: rest := by
        rw [← htext, hafter, hfront]
        simp
      obtain ⟨rfl, -⟩ := append_cons_inj_of_not_mem heq (folds_chars hfolds).2.2 hsplit
      exact hnot ((folds_iff_of_keyText hkey).1 hfolds)
    · left
      obtain ⟨d, hd, hlast⟩ := exists_last hbegin prev
      rw [hlast]
      exact isKeyChar_of_keyText hkey (hfront ▸ List.mem_append_left _ hd)

/-- A pair, up to the end of the query or the next `&`. -/
theorem subFrom_pair (hprev : prev.any (isKeyChar isAlnum) = false)
    (htail : ∀ c, tail.head? = some c → c = '&') :
    subFrom (querySensitive order isAlnum) (fun group => group ++ '=' :: redacted.toList) 0 prev
        (pairChars kv ++ tail) =
      pairChars (redactPair kv) ++ subFrom (querySensitive order isAlnum)
        (fun group => group ++ '=' :: redacted.toList) 0 (last prev (pairChars kv)) tail := by
  by_cases hsensitive : isSensitive kv.1 = true
  · have hfolds := (folds_iff_of_keyText hkey).2 hsensitive
    obtain ⟨prev', hfirst⟩ :=
      @first_eq_some order isAlnum prev kv.1.toList (kv.2.toList ++ tail) hprev hfolds
    have hrest : (kv.2.toList ++ tail).dropWhile (· ≠ '&') = tail := by
      rw [List.dropWhile_append_of_pos]
      · cases tail with
        | nil => rfl
        | cons c tail =>
          obtain rfl := htail c rfl
          rfl
      · intro c hc
        exact decide_eq_true fun heq => (not_mem_of_plain hvalue).1 (heq ▸ hc)
    have hchars : kv.1.toList ++ '=' :: (kv.2.toList ++ tail) = pairChars kv ++ tail := by
      simp [pairChars]
    rw [hrest, hchars] at hfirst
    obtain ⟨c, front, hpair⟩ : ∃ c front, pairChars kv = c :: front :=
      List.exists_cons_of_ne_nil (by simp [pairChars])
    rw [hpair] at hfirst ⊢
    rw [subFrom_match hfirst, redactPair, if_pos hsensitive]
    rfl
  · rw [redactPair, if_neg hsensitive]
    exact subFrom_copy fun before c after hpair =>
      first_eq_none_of_not_sensitive hkey hvalue hsensitive hpair htail

end Pair

theorem toList_query_cons_cons (kv kv' : String × String) (pairs : List (String × String)) :
    (Percent.query (kv :: kv' :: pairs)).toList =
      pairChars kv ++ '&' :: (Percent.query (kv' :: pairs)).toList := by
  rw [Percent.query_cons_cons]
  simp [pairChars]

theorem toList_query_singleton (kv : String × String) :
    (Percent.query [kv]).toList = pairChars kv := by
  simp [Percent.query, pairChars]

variable {params : Dict String}

theorem subFrom_query (hparams : ∀ kv ∈ params, KeyText kv.1 ∧ Percent.Plain kv.2)
    (hprev : prev.any (isKeyChar isAlnum) = false) :
    subFrom (querySensitive order isAlnum) (fun group => group ++ '=' :: redacted.toList) 0 prev
        (Percent.query params).toList = (Percent.query (params.map redactPair)).toList := by
  induction params generalizing prev with
  | nil => rfl
  | cons kv params ih =>
    obtain ⟨⟨hkey, hvalue⟩, hrest⟩ := List.forall_mem_cons.1 hparams
    cases params with
    | nil =>
      have hpair := @subFrom_pair order isAlnum prev kv [] hkey hvalue hprev
        (fun c hc => by cases hc)
      rw [List.append_nil, subFrom, List.append_nil] at hpair
      rw [List.map_cons, List.map_nil, toList_query_singleton, toList_query_singleton, hpair]
    | cons kv' params =>
      have htail : ∀ c, ('&' :: (Percent.query (kv' :: params)).toList).head? = some c → c = '&' :=
        fun c hc => (Option.some.inj hc).symm
      rw [List.map_cons, List.map_cons, toList_query_cons_cons, toList_query_cons_cons,
        subFrom_pair hkey hvalue hprev htail, ← List.map_cons]
      have hend : (some '&' : Option Char).any (isKeyChar isAlnum) = false := by
        simp [isKeyChar]
      rw [← ih hrest hend]
      -- no key begins with `&`
      have hamp : first (querySensitive order isAlnum) ⟨last prev (pairChars kv),
          '&' :: (Percent.query (kv' :: params)).toList⟩ = none := by
        refine first_eq_none (.inr fun t rest htext hfolds => ?_)
        obtain ⟨hne, hamp, -⟩ := folds_chars hfolds
        cases t with
        | nil => exact hne rfl
        | cons c t =>
          obtain ⟨rfl, -⟩ := List.cons.inj htext
          exact hamp List.mem_cons_self
      rw [subFrom, hamp]

theorem splitOn_query {pairs : List (String × String)} (hne : pairs ≠ [])
    (hpairs : ∀ kv ∈ pairs, '&' ∉ pairChars kv) :
    (Percent.query pairs).toList.splitOn '&' = pairs.map pairChars := by
  induction pairs with
  | nil => exact absurd rfl hne
  | cons kv pairs ih =>
    obtain ⟨hkv, hrest⟩ := List.forall_mem_cons.1 hpairs
    cases pairs with
    | nil => rw [toList_query_singleton, List.splitOn_eq_singleton hkv]; rfl
    | cons kv' pairs =>
      rw [toList_query_cons_cons, List.splitOn_append_cons_self_of_not_mem hkv,
        ih (List.cons_ne_nil kv' pairs) hrest]
      rfl

/-- What `redact_params` makes of the parameters, as text. -/
theorem redactParams_pairs (params : Dict String) :
    (redactParams (params.map fun kv => (kv.1, .str kv.2))).map (fun kv => (kv.1, kv.2.toStr)) =
      params.map redactPair := by
  unfold redactParams
  rw [List.map_map, List.map_map]
  refine List.map_congr_left fun kv _ => ?_
  simp only [Function.comp_apply, redactPair]
  split <;> rfl

theorem not_mem_redactPair {kv : String × String} (hkey : KeyText kv.1)
    (hvalue : Percent.Plain kv.2) : '&' ∉ pairChars (redactPair kv) := by
  have hredacted : '&' ∉ redacted.toList := by decide
  have hamp := (not_mem_of_keyText hkey).1
  have hamp' := (not_mem_of_plain hvalue).1
  unfold pairChars redactPair
  split <;> simp [hamp, hamp', hredacted]

/-- A pair is left as it is if and only if its key is not sensitive. -/
theorem redactPair_chars_iff {kv : String × String} (hvalue : Percent.Plain kv.2) :
    pairChars (redactPair kv) = pairChars kv ↔ isSensitive kv.1 = false := by
  unfold pairChars redactPair
  by_cases hsensitive : isSensitive kv.1 = true
  · rw [if_pos hsensitive, hsensitive]
    refine iff_of_false (fun heq => ?_) (by decide)
    have hsame : redacted.toList = kv.2.toList :=
      (List.cons.inj (List.append_cancel_left heq)).2
    have hstar : '*' ∈ kv.2.toList := by
      rw [← hsame]
      decide
    exact absurd (hvalue '*' hstar) (by decide)
  · rw [if_neg hsensitive]
    exact iff_of_true rfl (Bool.eq_false_of_not_eq_true hsensitive)

/-- **The two redactors agree** on the query of a parameter map, in whatever order the expression
lists the keys; of its pairs those stay as they are whose key is not sensitive. -/
theorem redactQuery_query (order : KeyOrder) (isAlnum : Char → Bool) {params : Dict String}
    (hparams : ∀ kv ∈ params, KeyText kv.1 ∧ Percent.Plain kv.2) :
    redactQuery order isAlnum (Percent.query params) =
        Percent.query ((redactParams (params.map fun kv => (kv.1, .str kv.2))).map
          fun kv => (kv.1, kv.2.toStr)) ∧
      ∀ (i : ℕ) (kv : String × String), params[i]? = some kv →
        (((redactQuery order isAlnum (Percent.query params)).toList.splitOn '&')[i]? =
          some (kv.1 ++ "=" ++ kv.2).toList ↔ isSensitive kv.1 = false) := by
  have hquery : redactQuery order isAlnum (Percent.query params) =
      Percent.query (params.map redactPair) := by
    unfold redactQuery sub
    rw [subFrom_query hparams rfl, String.ofList_toList]
  rw [hquery, redactParams_pairs]
  refine ⟨rfl, fun i kv hkv => ?_⟩
  have hmem := List.mem_of_getElem? hkv
  have hpieces : (Percent.query (params.map redactPair)).toList.splitOn '&' =
      (params.map redactPair).map pairChars := by
    refine splitOn_query ?_ ?_
    · simpa using List.ne_nil_of_mem hmem
    · intro pair hpair
      obtain ⟨kv', hkv', rfl⟩ := List.mem_map.1 hpair
      exact not_mem_redactPair (hparams kv' hkv').1 (hparams kv' hkv').2
  have hchars : (kv.1 ++ "=" ++ kv.2).toList = pairChars kv := by
    simp [pairChars]
  rw [hpieces, List.map_map, List.getElem?_map, hkv, hchars,
    ← redactPair_chars_iff (hparams kv hmem).2]
  simp only [Option.map_some, Function.comp_apply, Option.some.injEq]

example : redactQuery ⟨sensitiveKeys, .refl _⟩ (fun _ => false) "mysignature=keepme&signature=x" =
    "mysignature=keepme&signature=***REDACTED***" := by
  decide +kernel

/-- A sensitive key in mixed case, a key that ends in one, and an empty value under one. -/
def mixedParams : Dict String :=
  [("symbol", "BTCTHB"), ("API_Key", "a.token"), ("mysignature", "keepme"), ("token", "")]

theorem redactQuery_query_mixed :
    redactQuery ⟨sensitiveKeys, .refl _⟩ (fun _ => false) (Percent.query mixedParams) =
        Percent.query ((redactParams (mixedParams.map fun kv => (kv.1, .str kv.2))).map
          fun kv => (kv.1, kv.2.toStr)) ∧
      ∀ (i : ℕ) (kv : String × String), mixedParams[i]? = some kv →
        (((redactQuery ⟨sensitiveKeys, .refl _⟩ (fun _ => false)
            (Percent.query mixedParams)).toList.splitOn '&')[i]? =
          some (kv.1 ++ "=" ++ kv.2).toList ↔ isSensitive kv.1 = false) :=
  redactQuery_query ⟨sensitiveKeys, .refl _⟩ (fun _ => false) (by decide +kernel)

end BinanceTh
