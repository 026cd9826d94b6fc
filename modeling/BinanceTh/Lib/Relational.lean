import BinanceTh.Lib.Interaction
import Mathlib.Data.List.Forall2

/-!
# Two programs in lock-step

Two programs are coupled if they perform related operations for as long as they are answered alike,
and return related values (`Coupling.Coupled`). Two executions whose answers are alike then agree
event by event (`Coupling.Coupled.exec`). The rules couple compound computations from their parts.
-/

namespace Interaction

variable {Op : Type} {Ans : Op → Type} {σ ε α β γ δ : Type}

/-- Which operations, answered operations, states and exceptions correspond to each other. -/
structure Coupling (Op : Type) (Ans : Op → Type) (σ ε : Type) where
  op : Op → Op → Prop
  event : Event Op Ans → Event Op Ans → Prop
  state : σ → σ → Prop
  error : ε → ε → Prop

/-- Both end with a value, or both with an exception. -/
inductive ResultRel (E : ε → ε → Prop) (Q : α → β → Prop) : Except ε α → Except ε β → Prop
  | ok {a : α} {b : β} : Q a b → ResultRel E Q (.ok a) (.ok b)
  | error {e e' : ε} : E e e' → ResultRel E Q (.error e) (.error e')

theorem ResultRel.bind {E E' : ε → ε → Prop} {Q : α → β → Prop} {Q' : γ → δ → Prop}
    {x : Except ε α} {y : Except ε β} {f : α → Except ε γ} {g : β → Except ε δ}
    (h : ResultRel E Q x y) (hE : ∀ e e', E e e' → E' e e')
    (hfg : ∀ a b, Q a b → ResultRel E' Q' (f a) (g b)) : ResultRel E' Q' (x >>= f) (y >>= g) := by
  cases h with
  | ok hab => exact hfg _ _ hab
  | error he => exact .error (hE _ _ he)

namespace Coupling

variable (K : Coupling Op Ans σ ε)

/-- The two programs run in lock-step. -/
inductive Coupled (Q : α → β → Prop) : Prog Op Ans α → Prog Op Ans β → Prop
  | ret {a : α} {b : β} : Q a b → Coupled Q (.ret a) (.ret b)
  | call {o o' : Op} {k : Ans o → Prog Op Ans α} {k' : Ans o' → Prog Op Ans β} : K.op o o' →
      (∀ x x', K.event ⟨o, x⟩ ⟨o', x'⟩ → Coupled Q (k x) (k' x')) →
      Coupled Q (.call o k) (.call o' k')

/-- As long as the operations correspond, so do the answers. -/
def AnsweredAlike (tr tr' : List (Event Op Ans)) : Prop :=
  ∀ p ∈ tr.zip tr', K.op p.1.1 p.2.1 → K.event p.1 p.2

/-- The two computations run in lock-step from states that correspond. -/
def CoupledComp (Q : α → β → Prop) (c : Comp Op Ans σ ε α) (d : Comp Op Ans σ ε β) : Prop :=
  ∀ s t, K.state s t → K.Coupled (fun x y => ResultRel K.error Q x.1 y.1 ∧ K.state x.2 y.2)
    (c.run.run s) (d.run.run t)

variable {K} {Q : α → β → Prop} {Q' : γ → δ → Prop}

theorem Coupled.exec {p : Prog Op Ans α} {q : Prog Op Ans β} (h : K.Coupled Q p q) :
    ∀ {tr tr' : List (Event Op Ans)} {a : α} {b : β}, Exec p tr a → Exec q tr' b →
      K.AnsweredAlike tr tr' →
      List.Forall₂ (fun e e' => K.op e.1 e'.1 ∧ K.event e e') tr tr' ∧ Q a b := by
  induction h with
  | ret hab =>
    intro tr tr' a b h h' _
    obtain ⟨rfl, rfl⟩ := exec_ret_iff.1 h
    obtain ⟨rfl, rfl⟩ := exec_ret_iff.1 h'
    exact ⟨.nil, hab⟩
  | call hop _ ih =>
    intro tr tr' a b h h' halike
    obtain ⟨x, rest, rfl, hrun⟩ := exec_call_iff.1 h
    obtain ⟨x', rest', rfl, hrun'⟩ := exec_call_iff.1 h'
    rw [AnsweredAlike, List.zip_cons_cons, List.forall_mem_cons] at halike
    have hevent := halike.1 hop
    obtain ⟨hrest, hab⟩ := ih x x' hevent hrun hrun' halike.2
    exact ⟨.cons ⟨hop, hevent⟩ hrest, hab⟩

theorem Coupled.bind {p : Prog Op Ans α} {q : Prog Op Ans β} {f : α → Prog Op Ans γ}
    {g : β → Prog Op Ans δ} (h : K.Coupled Q p q)
    (hfg : ∀ a b, Q a b → K.Coupled Q' (f a) (g b)) : K.Coupled Q' (p >>= f) (q >>= g) := by
  induction h with
  | ret hab => exact hfg _ _ hab
  | call hop _ ih => exact .call hop ih

namespace CoupledComp

theorem pure {a : α} {b : β} (h : Q a b) :
    K.CoupledComp Q (Pure.pure a) (Pure.pure b) :=
  fun _ _ hst => .ret ⟨.ok h, hst⟩

theorem throw {e e' : ε} (h : K.error e e') :
    K.CoupledComp Q (MonadExcept.throw e) (MonadExcept.throw e') :=
  fun _ _ hst => .ret ⟨.error h, hst⟩

theorem raiseOr {x : Except ε α} {y : Except ε β} (h : ResultRel K.error Q x y) :
    K.CoupledComp Q (Interaction.raiseOr x) (Interaction.raiseOr y) :=
  fun _ _ hst => .ret ⟨h, hst⟩

theorem perform {o o' : Op} (h : K.op o o') :
    K.CoupledComp (fun x x' => K.event ⟨o, x⟩ ⟨o', x'⟩) (Interaction.perform o)
      (Interaction.perform o') :=
  fun _ _ hst => .call h fun _ _ hevent => .ret ⟨.ok hevent, hst⟩

theorem bind {c : Comp Op Ans σ ε α} {d : Comp Op Ans σ ε β} {f : α → Comp Op Ans σ ε γ}
    {g : β → Comp Op Ans σ ε δ} (h : K.CoupledComp Q c d)
    (hfg : ∀ a b, Q a b → K.CoupledComp Q' (f a) (g b)) :
    K.CoupledComp Q' (c >>= f) (d >>= g) := by
  intro s t hst
  refine (h s t hst).bind ?_
  intro x y hxy
  obtain ⟨x, s'⟩ := x
  obtain ⟨y, t'⟩ := y
  obtain ⟨hres, hst'⟩ := hxy
  cases hres with
  | ok hab => exact hfg _ _ hab s' t' hst'
  | error he => exact .ret ⟨.error he, hst'⟩

theorem tryCatch {c : Comp Op Ans σ ε α} {d : Comp Op Ans σ ε β} {f : ε → Comp Op Ans σ ε α}
    {g : ε → Comp Op Ans σ ε β} (h : K.CoupledComp Q c d)
    (hfg : ∀ e e', K.error e e' → K.CoupledComp Q (f e) (g e')) :
    K.CoupledComp Q (MonadExcept.tryCatch c f) (MonadExcept.tryCatch d g) := by
  intro s t hst
  refine (h s t hst).bind ?_
  intro x y hxy
  obtain ⟨x, s'⟩ := x
  obtain ⟨y, t'⟩ := y
  obtain ⟨hres, hst'⟩ := hxy
  cases hres with
  | ok hab => exact .ret ⟨.ok hab, hst'⟩
  | error he => exact hfg _ _ he s' t' hst'

theorem get_bind {f : σ → Comp Op Ans σ ε α} {f' : σ → Comp Op Ans σ ε β}
    (h : ∀ s t, K.state s t → K.CoupledComp Q (f s) (f' t)) :
    K.CoupledComp Q (get >>= f) (get >>= f') :=
  fun s t hst => h s t hst s t hst

theorem modify_bind {m m' : σ → σ} {f : PUnit → Comp Op Ans σ ε α} {f' : PUnit → Comp Op Ans σ ε β}
    (hm : ∀ s t, K.state s t → K.state (m s) (m' t)) (h : K.CoupledComp Q (f ⟨⟩) (f' ⟨⟩)) :
    K.CoupledComp Q (modify m >>= f) (modify m' >>= f') :=
  fun s t hst => h (m s) (m' t) (hm s t hst)

/-- Two runs that are answered alike agree event by event. -/
theorem runs {c : Comp Op Ans σ ε α} {d : Comp Op Ans σ ε β} (h : K.CoupledComp Q c d)
    {s t s' t' : σ} {tr tr' : List (Event Op Ans)} {r : Except ε α} {r' : Except ε β}
    (hst : K.state s t) (hc : Runs c s tr r s') (hd : Runs d t tr' r' t')
    (halike : K.AnsweredAlike tr tr') :
    List.Forall₂ (fun e e' => K.op e.1 e'.1 ∧ K.event e e') tr tr' :=
  ((h s t hst).exec hc hd halike).1

end CoupledComp

end Coupling

end Interaction
