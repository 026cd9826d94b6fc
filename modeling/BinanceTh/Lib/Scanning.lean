import Mathlib.Data.List.Forall2
import Mathlib.Data.List.TakeWhile

/-!
# Scanning a text

What a backtracking matcher of regular expressions does, as functions from a place of a text to all
ways to match there, in the order in which they are tried; the match is the first of them (`first`).
A place knows the character before it, for look-behinds. `sub` replaces the matches of a text from
left to right. Its rules say what it does with the front of a text: it copies a part where nothing
matches at any place, and replaces a part that is matched.
-/

namespace Scanning

/-- What is before the first `x` of a text. -/
theorem append_cons_inj_of_not_mem {x : Char} {a b c d : List Char} (ha : x ∉ a) (hb : x ∉ b)
    (h : a ++ x :: c = b ++ x :: d) : a = b ∧ c = d := by
  rcases List.append_eq_append_iff.1 h with ⟨e, rfl, hcd⟩ | ⟨e, rfl, hcd⟩
  all_goals
    cases e with
    | nil => simp_all
    | cons y e =>
      obtain ⟨rfl, -⟩ := List.cons.inj hcd
      simp at ha hb

structure Cursor where
  prev : Option Char
  rest : List Char

/-- All ways to match at a place, each with where it ends. -/
abbrev Scanner (α : Type) : Type := Cursor → List (α × Cursor)

namespace Scanner

variable {α β : Type}

/-- The match. -/
def first (m : Scanner α) (s : Cursor) : Option (α × Cursor) := (m s).head?

/-- A match of nothing. -/
def done (a : α) : Scanner α := fun s => [(a, s)]

/-- One character of a class. -/
def char (p : Char → Bool) : Scanner Char := fun s =>
  match s.rest with
  | [] => []
  | c :: cs => if p c then [(c, ⟨some c, cs⟩)] else []

/-- A look-behind: the character before is not in the class. -/
def notAfter (p : Char → Bool) : Scanner Unit := fun s =>
  if s.prev.any p then [] else [((), s)]

def andThen (m : Scanner α) (f : α → Scanner β) : Scanner β := fun s =>
  (m s).flatMap fun r => f r.1 r.2

/-- Alternatives, the first ones first. -/
def firstOf (ms : List (Scanner α)) : Scanner α := fun s => ms.flatMap fun m => m s

/-- The characters of `xs`, where `same x c` says that `c` passes for `x`. -/
def literal (same : Char → Char → Bool) : List Char → Scanner (List Char)
  | [] => done []
  | x :: xs => (char (same x)).andThen fun c => (literal same xs).andThen fun cs => done (c :: cs)

/-- As many characters of a class as there are, then fewer. -/
def manyFrom (p : Char → Bool) : Option Char → List Char → List (List Char × Cursor)
  | prev, [] => [([], ⟨prev, []⟩)]
  | prev, c :: cs =>
    (if p c then (manyFrom p (some c) cs).map fun r => (c :: r.1, r.2) else []) ++
      [([], ⟨prev, c :: cs⟩)]

def many (p : Char → Bool) : Scanner (List Char) := fun s => manyFrom p s.prev s.rest

/-! ## The first match -/

@[simp] theorem first_done (a : α) (s : Cursor) : first (done a) s = some (a, s) := rfl

theorem first_andThen (m : Scanner α) (f : α → Scanner β) (s : Cursor) :
    first (m.andThen f) s = (m s).findSome? fun r => first (f r.1) r.2 := by
  unfold first andThen
  rw [List.head?_flatMap]

theorem first_andThen_eq_none {m : Scanner α} {f : α → Scanner β} {s : Cursor}
    (h : ∀ r ∈ m s, first (f r.1) r.2 = none) : first (m.andThen f) s = none := by
  rw [first_andThen]
  exact List.findSome?_eq_none_iff.2 h

theorem first_andThen_done (m : Scanner α) (b : β) (s : Cursor) :
    first (m.andThen fun _ => done b) s = (first m s).map fun r => (b, r.2) := by
  rw [first_andThen]
  unfold first
  cases m s <;> rfl

/-- If all ways to match that go on end alike, then the order does not matter. -/
theorem first_andThen_eq_some {m : Scanner α} {f : α → Scanner β} {s : Cursor} {b : β × Cursor}
    (hall : ∀ r ∈ m s, first (f r.1) r.2 = none ∨ first (f r.1) r.2 = some b)
    (hsome : ∃ r ∈ m s, first (f r.1) r.2 = some b) : first (m.andThen f) s = some b := by
  rw [first_andThen]
  cases hfirst : (m s).findSome? fun r => first (f r.1) r.2 with
  | none =>
    obtain ⟨r, hr, hb⟩ := hsome
    rw [List.findSome?_eq_none_iff.1 hfirst r hr] at hb
    cases hb
  | some b' =>
    obtain ⟨r, hr, hb'⟩ := List.exists_of_findSome?_eq_some hfirst
    rcases hall r hr with hnone | hb
    · rw [hnone] at hb'
      cases hb'
    · exact hb'.symm.trans hb

theorem char_cons {p : Char → Bool} {c : Char} (hc : p c = true) (prev : Option Char)
    (cs : List Char) : char p ⟨prev, c :: cs⟩ = [(c, ⟨some c, cs⟩)] := by
  unfold char
  dsimp only
  rw [if_pos hc]

/-- What is matched by one character begins with it. -/
theorem rest_of_mem_char {p : Char → Bool} {s : Cursor} {r : Char × Cursor} (h : r ∈ char p s) :
    p r.1 = true ∧ r.2 = ⟨some r.1, r.2.rest⟩ ∧ s.rest = r.1 :: r.2.rest := by
  unfold char at h
  split at h
  · cases h
  · next c cs hcs =>
    split at h
    · next hc =>
      obtain rfl := List.mem_singleton.1 h
      exact ⟨hc, rfl, hcs⟩
    · cases h

theorem mem_literal {same : Char → Char → Bool} {xs a : List Char} {s s' : Cursor}
    (h : (a, s') ∈ literal same xs s) :
    List.Forall₂ (fun x c => same x c = true) xs a ∧ s.rest = a ++ s'.rest := by
  induction xs generalizing a s with
  | nil =>
    obtain ⟨rfl, rfl⟩ := Prod.mk.inj (List.mem_singleton.1 h)
    exact ⟨.nil, rfl⟩
  | cons x xs ih =>
    obtain ⟨⟨c, s₁⟩, hchar, h⟩ := List.mem_flatMap.1 h
    obtain ⟨⟨cs, s₂⟩, hrest, h⟩ := List.mem_flatMap.1 h
    obtain ⟨rfl, rfl⟩ := Prod.mk.inj (List.mem_singleton.1 h)
    obtain ⟨hsame, htext⟩ := ih hrest
    obtain ⟨hc, -, hcs⟩ := rest_of_mem_char hchar
    exact ⟨.cons hc hsame, hcs.trans (congrArg (c :: ·) htext)⟩

/-- A literal has one way to match. -/
theorem literal_append {same : Char → Char → Bool} {xs a : List Char}
    (h : List.Forall₂ (fun x c => same x c = true) xs a) (prev : Option Char) (rest : List Char) :
    ∃ prev', literal same xs ⟨prev, a ++ rest⟩ = [(a, ⟨prev', rest⟩)] := by
  induction h generalizing prev with
  | nil => exact ⟨prev, rfl⟩
  | @cons x c xs a hc _ ih =>
    obtain ⟨prev', hrest⟩ := ih (some c)
    refine ⟨prev', ?_⟩
    rw [literal, List.cons_append, andThen, char_cons hc]
    simp [andThen, hrest, done]

theorem first_many (p : Char → Bool) (prev : Option Char) (rest : List Char) :
    ∃ prev', first (many p) ⟨prev, rest⟩ =
      some (rest.takeWhile p, ⟨prev', rest.dropWhile p⟩) := by
  unfold first many
  induction rest generalizing prev with
  | nil => exact ⟨prev, rfl⟩
  | cons c cs ih =>
    obtain ⟨prev', hrest⟩ := ih (some c)
    dsimp only at hrest ⊢
    rw [manyFrom, List.takeWhile_cons, List.dropWhile_cons]
    by_cases hc : p c = true
    · refine ⟨prev', ?_⟩
      rw [if_pos hc, if_pos hc, if_pos hc, List.head?_append, List.head?_map, hrest]
      rfl
    · refine ⟨prev, ?_⟩
      rw [if_neg hc, if_neg hc, if_neg hc]
      rfl

end Scanner

/-! ## Substitution -/

variable {α : Type} (m : Scanner α) (f : α → List Char)

/-- The text from a place on with its matches replaced, but for `skip` characters that belong to a
match before it. -/
def subFrom : ℕ → Option Char → List Char → List Char
  | _, _, [] => []
  | skip + 1, _, c :: cs => subFrom skip (some c) cs
  | 0, prev, c :: cs =>
    match m.first ⟨prev, c :: cs⟩ with
    | some (a, s) => f a ++ subFrom (cs.length - s.rest.length) (some c) cs
    | none => c :: subFrom 0 (some c) cs

/-- `re.sub`, for an expression that matches no empty text. -/
def sub (text : List Char) : List Char := subFrom m f 0 none text

variable {m f}

/-- What is before the place that comes after `front`. -/
def last (prev : Option Char) (front : List Char) : Option Char := front.getLast?.or prev

@[simp] theorem last_nil (prev : Option Char) : last prev [] = prev := rfl

@[simp] theorem last_cons (prev : Option Char) (c : Char) (front : List Char) :
    last prev (c :: front) = last (some c) front := by
  unfold last
  cases front with
  | nil => rfl
  | cons d front =>
    rw [List.getLast?_cons_cons, List.getLast?_eq_some_getLast (List.cons_ne_nil d front)]
    rfl

theorem subFrom_skip (front rest : List Char) (prev : Option Char) :
    subFrom m f front.length prev (front ++ rest) = subFrom m f 0 (last prev front) rest := by
  induction front generalizing prev with
  | nil => rfl
  | cons c front ih =>
    rw [List.length_cons, List.cons_append, subFrom, ih, last_cons]

/-- A part of which no place matches is copied. -/
theorem subFrom_copy {front rest : List Char} {prev : Option Char}
    (h : ∀ before c after, front = before ++ c :: after →
      m.first ⟨last prev before, c :: after ++ rest⟩ = none) :
    subFrom m f 0 prev (front ++ rest) = front ++ subFrom m f 0 (last prev front) rest := by
  induction front generalizing prev with
  | nil => rfl
  | cons c front ih =>
    have hnone : m.first ⟨prev, c :: (front ++ rest)⟩ = none := h [] c front rfl
    rw [List.cons_append, subFrom, hnone]
    dsimp only
    rw [ih, last_cons, List.cons_append]
    intro before d after heq
    rw [← last_cons prev]
    exact h (c :: before) d after (by rw [heq, List.cons_append])

/-- A part that is matched is replaced. -/
theorem subFrom_match {c : Char} {front rest : List Char} {prev prev' : Option Char} {a : α}
    (h : m.first ⟨prev, c :: front ++ rest⟩ = some (a, ⟨prev', rest⟩)) :
    subFrom m f 0 prev (c :: front ++ rest) =
      f a ++ subFrom m f 0 (last prev (c :: front)) rest := by
  rw [List.cons_append] at h ⊢
  rw [subFrom, h]
  dsimp only
  rw [List.length_append, Nat.add_sub_cancel, subFrom_skip, last_cons]

end Scanning
