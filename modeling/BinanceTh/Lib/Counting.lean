import BinanceTh.Lib.Transition
import Mathlib.Algebra.Order.BigOperators.Group.Finset

/-!
# Counting the steps of a run

How often a run takes a step of some kind (`count`), where the kind may depend on the state that the
step is taken in. A count is bounded by a potential: each step of one kind takes a unit from it and
each step of another kind adds one at most (`add_count_le`); a quantity that steps of one kind make
larger is bounded by their count (`le_add_count_nsmul`). The steps of many parties are counted party
by party (`count_le_sum`).
-/

namespace Transition

namespace System

variable {S L : Type} (M : System S L)

/-- How many of the steps `ls` are of the kind `P`. -/
def count (P : S → L → Bool) : S → List L → ℕ
  | _, [] => 0
  | s, l :: ls => (P s l).toNat + ((M.step s l).map fun s' => count P s' ls).getD 0

variable {M} {P Q : S → L → Bool} {I : S → Prop} {C : S → L → Prop} {s s' : S} {l : L} {ls : List L}

/-- Whether a run is allowed can be computed along it. -/
instance decidableGuarded (M : System S L) (C : S → L → Prop) [∀ s l, Decidable (C s l)] :
    ∀ (s : S) (ls : List L), Decidable (M.Guarded C s ls)
  | _, [] => isTrue trivial
  | s, l :: ls =>
    match h : M.step s l with
    | none => decidable_of_iff (C s l) ⟨fun hC => ⟨hC, fun s' hs' => by rw [h] at hs'; cases hs'⟩,
        And.left⟩
    | some s' =>
      have : Decidable (M.Guarded C s' ls) := decidableGuarded M C s' ls
      decidable_of_iff (C s l ∧ M.Guarded C s' ls)
        ⟨fun hC => guarded_cons hC.1 h hC.2, fun hC => ⟨hC.1, hC.2 s' h⟩⟩

theorem count_cons (h : M.step s l = some s') :
    M.count P s (l :: ls) = (P s l).toNat + M.count P s' ls := by
  rw [count, h]
  rfl

/-- A kind of labels is counted in the list. -/
theorem count_eq_countP {p : L → Bool} :
    ∀ (ls : List L) {s t : S}, M.run s ls = some t →
      M.count (fun _ l => p l) s ls = ls.countP p := by
  intro ls
  induction ls with
  | nil => exact fun _ => rfl
  | cons l ls ih =>
    intro s t hrun
    obtain ⟨s', hstep, hrun⟩ := run_cons_iff.1 hrun
    rw [count_cons hstep, ih hrun, List.countP_cons, Nat.add_comm]
    cases p l <;> rfl

/-- **The potential argument.** If each step of kind `P` takes a unit from the potential, and a step
adds a unit only if it is of kind `Q`, then there are no more steps of kind `P` than of kind `Q`, but
for the potential at the start. -/
theorem add_count_le (potential : S → ℕ)
    (hstep : ∀ s l s', I s → C s l → M.step s l = some s' →
      I s' ∧ potential s' + (P s l).toNat ≤ potential s + (Q s l).toNat) :
    ∀ (ls : List L) {s t : S}, I s → M.Guarded C s ls → M.run s ls = some t →
      potential t + M.count P s ls ≤ potential s + M.count Q s ls := by
  intro ls
  induction ls with
  | nil =>
    intro s t _ _ hrun
    obtain rfl := Option.some.inj hrun
    exact Nat.le_refl _
  | cons l ls ih =>
    intro s t hI hguarded hrun
    obtain ⟨s', hs', hrun⟩ := run_cons_iff.1 hrun
    obtain ⟨hI', hone⟩ := hstep s l s' hI hguarded.1 hs'
    have hrest := ih hI' (hguarded.2 s' hs') hrun
    rw [count_cons hs', count_cons hs']
    omega

/-- A quantity that only steps of kind `P` make larger, each by `c` at most. -/
theorem le_add_count_nsmul {A : Type} [AddCommMonoid A] [PartialOrder A] [IsOrderedAddMonoid A]
    (quantity : S → A) (c : A)
    (hstep : ∀ s l s', I s → C s l → M.step s l = some s' →
      I s' ∧ quantity s' ≤ quantity s + (P s l).toNat • c) :
    ∀ (ls : List L) {s t : S}, I s → M.Guarded C s ls → M.run s ls = some t →
      quantity t ≤ quantity s + M.count P s ls • c := by
  intro ls
  induction ls with
  | nil =>
    intro s t _ _ hrun
    obtain rfl := Option.some.inj hrun
    rw [count, zero_nsmul, add_zero]
  | cons l ls ih =>
    intro s t hI hguarded hrun
    obtain ⟨s', hs', hrun⟩ := run_cons_iff.1 hrun
    obtain ⟨hI', hone⟩ := hstep s l s' hI hguarded.1 hs'
    have hrest := ih hI' (hguarded.2 s' hs') hrun
    calc quantity t ≤ quantity s' + M.count P s' ls • c := hrest
      _ ≤ quantity s + (P s l).toNat • c + M.count P s' ls • c := by gcongr
      _ = quantity s + M.count P s (l :: ls) • c := by rw [count_cons hs', add_nsmul, add_assoc]

/-- **Party by party.** Each step of kind `P` is one of a party, the parties of a state are numbered,
and none is lost: all the steps are those of the parties there are in the end. -/
theorem count_le_sum (size : S → ℕ) (party : ℕ → S → L → Bool)
    (hparty : ∀ s l s', M.step s l = some s' → size s ≤ size s' ∧
      (P s l = true → ∃ i < size s, party i s l = true)) :
    ∀ (ls : List L) {s t : S}, M.run s ls = some t → size s ≤ size t ∧
      M.count P s ls ≤ ∑ i ∈ Finset.range (size t), M.count (party i) s ls := by
  intro ls
  induction ls with
  | nil =>
    intro s t hrun
    obtain rfl := Option.some.inj hrun
    exact ⟨Nat.le_refl _, Nat.zero_le _⟩
  | cons l ls ih =>
    intro s t hrun
    obtain ⟨s', hs', hrun⟩ := run_cons_iff.1 hrun
    obtain ⟨hsize, hP⟩ := hparty s l s' hs'
    obtain ⟨hsize', hrest⟩ := ih hrun
    refine ⟨hsize.trans hsize', ?_⟩
    have hfirst : (P s l).toNat ≤ ∑ i ∈ Finset.range (size t), (party i s l).toNat := by
      cases hPs : P s l with
      | false => exact Nat.zero_le _
      | true =>
        obtain ⟨i, hi, htrue⟩ := hP hPs
        have hmem : i ∈ Finset.range (size t) :=
          Finset.mem_range.2 (lt_of_lt_of_le hi (hsize.trans hsize'))
        have hle := Finset.single_le_sum (f := fun i => (party i s l).toNat)
          (fun _ _ => Nat.zero_le _) hmem
        rwa [htrue] at hle
    calc M.count P s (l :: ls) = (P s l).toNat + M.count P s' ls := count_cons hs'
      _ ≤ ∑ i ∈ Finset.range (size t), (party i s l).toNat +
          ∑ i ∈ Finset.range (size t), M.count (party i) s' ls := Nat.add_le_add hfirst hrest
      _ = ∑ i ∈ Finset.range (size t), ((party i s l).toNat + M.count (party i) s' ls) :=
        Finset.sum_add_distrib.symm
      _ = ∑ i ∈ Finset.range (size t), M.count (party i) s (l :: ls) :=
        Finset.sum_congr rfl fun i _ => (count_cons hs').symm

end System

end Transition
