import Mathlib.Algebra.Order.BigOperators.Group.List
import Mathlib.Tactic.Linarith

/-!
# Cells of one length

A cell of length `d` is named by its start. Cells that do not overlap are one or lie `d` apart, and
an interval of length `d` meets two of them at most. So if no cell is counted more than a bound, no
interval is counted more than twice of it.
-/

namespace Cells

/-- The cells that start at `a` and `b` are one, or do not overlap. -/
def Apart {K : Type} [Add K] [LE K] (d a b : K) : Prop := a = b ∨ a + d ≤ b ∨ b + d ≤ a

/-- The point is in the cell, or in the interval that starts at `a`. -/
def In {K : Type} [Add K] [LE K] [LT K] (d a x : K) : Prop := a ≤ x ∧ x < a + d

instance {K : Type} [Add K] [LE K] [LT K] [DecidableLE K] [DecidableLT K] (d a x : K) :
    Decidable (In d a x) := inferInstanceAs (Decidable (_ ∧ _))

theorem Apart.symm {K : Type} [Add K] [LE K] {d a b : K} (h : Apart d a b) : Apart d b a := by
  rcases h with heq | hle | hle
  · exact .inl heq.symm
  · exact .inr (.inr hle)
  · exact .inr (.inl hle)

/-! ## Sums -/

section sums

variable {α M : Type} [AddCommMonoid M] [PartialOrder M] [IsOrderedAddMonoid M] {amount : α → M}
  {l : List α} {p q : α → Prop} [DecidablePred p] [DecidablePred q]

/-- What is counted where `p` holds. -/
def sumOf (amount : α → M) (l : List α) (p : α → Prop) [DecidablePred p] : M :=
  (l.map fun i => if p i then amount i else 0).sum

theorem sumOf_mono (hnonneg : ∀ i ∈ l, 0 ≤ amount i) (h : ∀ i ∈ l, p i → q i) :
    sumOf amount l p ≤ sumOf amount l q := by
  refine List.sum_le_sum fun i hi => ?_
  by_cases hp : p i
  · rw [if_pos hp, if_pos (h i hi hp)]
  · rw [if_neg hp]
    split
    · exact hnonneg i hi
    · exact le_rfl

theorem sumOf_or_le (hnonneg : ∀ i ∈ l, 0 ≤ amount i) :
    sumOf amount l (fun i => p i ∨ q i) ≤ sumOf amount l p + sumOf amount l q := by
  unfold sumOf
  rw [← List.sum_map_add]
  refine List.sum_le_sum fun i hi => ?_
  have hamount := hnonneg i hi
  by_cases hp : p i
  · rw [if_pos (.inl hp), if_pos hp]
    split
    · exact le_add_of_nonneg_right hamount
    · exact le_add_of_nonneg_right le_rfl
  · rw [if_neg hp, zero_add, if_congr (or_iff_right hp) rfl rfl]

end sums

/-! ## Intervals -/

variable {K : Type} [Field K] [LinearOrder K] [IsStrictOrderedRing K] {d a b c x y z t : K}

/-- **Two cells.** Of three points in one interval of the length of a cell, two are in one cell. -/
theorem eq_or_eq (hx : In d a x) (hy : In d b y) (hz : In d c z) (hab : Apart d a b)
    (hac : Apart d a c) (hbc : Apart d b c) (htx : In d t x) (hty : In d t y) (htz : In d t z)
    (hne : a ≠ b) : c = a ∨ c = b := by
  obtain ⟨hax, hxa⟩ := hx
  obtain ⟨hby, hyb⟩ := hy
  obtain ⟨hcz, hzc⟩ := hz
  obtain ⟨htx, hxt⟩ := htx
  obtain ⟨hty, hyt⟩ := hty
  obtain ⟨htz, hzt⟩ := htz
  by_contra hother
  obtain ⟨hca, hcb⟩ := not_or.1 hother
  have hab := hab.resolve_left hne
  have hac := hac.resolve_left (Ne.symm hca)
  have hbc := hbc.resolve_left (Ne.symm hcb)
  -- the first and the last of the three cells are two lengths apart
  rcases hab with hab | hab <;> rcases hac with hac | hac <;> rcases hbc with hbc | hbc <;> linarith

variable {α M : Type} [AddCommMonoid M] [PartialOrder M] [IsOrderedAddMonoid M] {cell point : α → K}
  {amount : α → M} {l : List α} {bound : M}

/-- **Twice the bound.** What is counted in an interval is counted in two cells at most. -/
theorem sumOf_in_le (hnonneg : ∀ i ∈ l, 0 ≤ amount i) (hin : ∀ i ∈ l, In d (cell i) (point i))
    (hapart : ∀ i ∈ l, ∀ j ∈ l, Apart d (cell i) (cell j)) (hbound : 0 ≤ bound)
    (hcells : ∀ a, sumOf amount l (fun i => cell i = a) ≤ bound) (t : K) :
    sumOf amount l (fun i => In d t (point i)) ≤ bound + bound := by
  by_cases hnone : ∃ i ∈ l, In d t (point i)
  · obtain ⟨i, hi, hti⟩ := hnone
    by_cases hone : ∀ j ∈ l, In d t (point j) → cell j = cell i
    · calc sumOf amount l (fun j => In d t (point j))
          ≤ sumOf amount l (fun j => cell j = cell i) := sumOf_mono hnonneg hone
        _ ≤ bound := hcells _
        _ ≤ bound + bound := le_add_of_nonneg_right hbound
    · push Not at hone
      obtain ⟨j, hj, htj, hne⟩ := hone
      have htwo : ∀ k ∈ l, In d t (point k) → cell k = cell i ∨ cell k = cell j := by
        intro k hk htk
        exact eq_or_eq (hin i hi) (hin j hj) (hin k hk) (hapart i hi j hj) (hapart i hi k hk)
          (hapart j hj k hk) hti htj htk hne.symm
      calc sumOf amount l (fun k => In d t (point k))
          ≤ sumOf amount l (fun k => cell k = cell i ∨ cell k = cell j) := sumOf_mono hnonneg htwo
        _ ≤ sumOf amount l (fun k => cell k = cell i) + sumOf amount l (fun k => cell k = cell j) :=
          sumOf_or_le hnonneg
        _ ≤ bound + bound := add_le_add (hcells _) (hcells _)
  · have hzero : sumOf amount l (fun i => In d t (point i)) = 0 := by
      refine List.sum_eq_zero fun m hm => ?_
      obtain ⟨i, hi, rfl⟩ := List.mem_map.1 hm
      exact if_neg fun hti => hnone ⟨i, hi, hti⟩
    rw [hzero]
    exact add_nonneg hbound hbound

end Cells
