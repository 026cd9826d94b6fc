import BinanceTh.Lib.Hoare
import Mathlib.Algebra.Order.Monoid.Defs
import Mathlib.Algebra.BigOperators.Group.List.Basic

/-!
# Budgets

A budget is a family of assertions `B k`, weaker for a larger `k`: what has been spent, with what
the state still owes, is `k` at most. `Spends H B c d`: the computation takes `d` from the budget,
whether it returns or raises. What a part has not spent is left for the others, so that the costs of
the parts add up to a bound for the whole, and a state may have paid in advance for what a later
part does.
-/

namespace Interaction

variable {Op : Type} {Ans : Op → Type} {σ ε α β W κ : Type} {H : W → (o : Op) → Ans o → W → Prop}
  {B : κ → W → σ → Prop}

/-- A larger budget suffices too. -/
def IsBudget [LE κ] (B : κ → W → σ → Prop) : Prop := ∀ k k' w s, k ≤ k' → B k w s → B k' w s

def Spends [Add κ] [LE κ] (H : W → (o : Op) → Ans o → W → Prop) (B : κ → W → σ → Prop)
    (c : Comp Op Ans σ ε α) (d : κ) : Prop :=
  ∀ k k', k + d ≤ k' → Triple H (B k) c (fun _ => B k') fun _ => B k'

namespace Spends

section leaves

variable [AddMonoid κ] [LE κ] {d : κ} (hB : IsBudget B)

include hB

theorem pure (a : α) : Spends H B (Pure.pure a : Comp Op Ans σ ε α) 0 :=
  fun k k' hle => .pure fun w s => hB k k' w s (by rwa [add_zero] at hle)

theorem throw (e : ε) : Spends H B (MonadExcept.throw e : Comp Op Ans σ ε α) 0 :=
  fun k k' hle => .throw fun w s => hB k k' w s (by rwa [add_zero] at hle)

theorem raiseOr (x : Except ε α) : Spends H B (Interaction.raiseOr x : Comp Op Ans σ ε α) 0 :=
  fun k k' hle => .raiseOr fun w s h => by
    have hend : B k' w s := hB k k' w s (by rwa [add_zero] at hle) h
    cases x <;> exact hend

theorem perform {o : Op} (h : ∀ k w s x w', B k w s → H w o x w' → B (k + d) w' s) :
    Spends H B (Interaction.perform o : Comp Op Ans σ ε (Ans o)) d :=
  fun k k' hle => .perform fun w s x w' hw hH => hB _ k' w' s hle (h k w s x w' hw hH)

/-- What else is known of the errors plays no part in the budget. -/
theorem of_triple {c : Comp Op Ans σ ε α} {F : ε → Prop}
    (h : ∀ k, Triple H (B k) c (fun _ => B (k + d)) fun e w s => B (k + d) w s ∧ F e) :
    Spends H B c d := by
  intro k k' hle
  have hend (w : W) (s : σ) (hw : B (k + d) w s) : B k' w s := hB _ k' w s hle hw
  exact (h k).conseq (fun _ _ hw => hw) (fun _ w s hw => hend w s hw) fun _ w s hw => hend w s hw.1

end leaves

variable [AddCommMonoid κ] [PartialOrder κ] [IsOrderedAddMonoid κ] {c : Comp Op Ans σ ε α}
  {d d' : κ}

theorem mono (h : Spends H B c d) (hd : d ≤ d') : Spends H B c d' :=
  fun k k' hle => h k k' ((add_le_add_right hd k).trans hle)

section sequences

variable (hB : IsBudget B) (hc : Spends H B c d) (hd' : 0 ≤ d')

include hB hc hd'

theorem bind {f : α → Comp Op Ans σ ε β} (hf : ∀ a, Spends H B (f a) d') :
    Spends H B (c >>= f) (d + d') := by
  intro k k' hle
  rw [← add_assoc] at hle
  have hle' : k + d ≤ k' := (le_add_of_nonneg_right hd').trans hle
  exact Triple.bind ((hc k (k + d) le_rfl).conseq (fun _ _ h => h) (fun _ _ _ h => h)
    fun _ w s h => hB _ _ w s hle' h) fun a => hf a _ _ hle

theorem tryCatch {f : ε → Comp Op Ans σ ε α} (hf : ∀ e, Spends H B (f e) d') :
    Spends H B (MonadExcept.tryCatch c f) (d + d') := by
  intro k k' hle
  rw [← add_assoc] at hle
  have hle' : k + d ≤ k' := (le_add_of_nonneg_right hd').trans hle
  exact Triple.tryCatch ((hc k (k + d) le_rfl).conseq (fun _ _ h => h)
    (fun _ w s h => hB _ _ w s hle' h) fun _ _ _ h => h) fun e => hf e _ _ hle

end sequences

section free

variable (hB : IsBudget B)

include hB

/-- The rest is free. -/
theorem bind_zero {f : α → Comp Op Ans σ ε β} (hc : Spends H B c d)
    (hf : ∀ a, Spends H B (f a) 0) : Spends H B (c >>= f) d := by
  have h := hc.bind hB le_rfl hf
  rwa [add_zero] at h

/-- The first part is free. -/
theorem zero_bind {f : α → Comp Op Ans σ ε β} (hd : 0 ≤ d) (hc : Spends H B c 0)
    (hf : ∀ a, Spends H B (f a) d) : Spends H B (c >>= f) d := by
  have h := hc.bind hB hd hf
  rwa [zero_add] at h

end free

end Spends

end Interaction
