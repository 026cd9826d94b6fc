import Mathlib.Data.Option.Basic

/-!
# Transition systems

A system is an initial state and a partial step function on labels; a label carries every choice
that the environment or the scheduler makes, so a list of labels is one interleaving. `run` takes
the steps of a list, `Guarded` says that each of them is taken in a state where a condition on
the state and the label holds. The induction over runs is `run_invariant`; a statement about every
reachable state is one about every `run` from `init`.
-/

namespace Transition

/-- An initial state and what each label does in each state (`none`: not possible there). -/
structure System (S L : Type) where
  init : S
  step : S → L → Option S

namespace System

variable {S L : Type} (M : System S L)

/-- The state after the steps `ls`, if each of them is possible. -/
def run : S → List L → Option S
  | s, [] => some s
  | s, l :: ls => (M.step s l).bind fun s' => run s' ls

/-- Every step of `ls` is taken in a state where `C` allows it. -/
def Guarded (C : S → L → Prop) : S → List L → Prop
  | _, [] => True
  | s, l :: ls => C s l ∧ ∀ s', M.step s l = some s' → Guarded C s' ls

variable {M} {C : S → L → Prop}

theorem run_cons_iff {s t : S} {l : L} {ls : List L} :
    M.run s (l :: ls) = some t ↔ ∃ s', M.step s l = some s' ∧ M.run s' ls = some t := by
  simp only [run, Option.bind_eq_some_iff]

theorem run_append {s : S} (ls₁ ls₂ : List L) :
    M.run s (ls₁ ++ ls₂) = (M.run s ls₁).bind fun t => M.run t ls₂ := by
  induction ls₁ generalizing s with
  | nil => rfl
  | cons l ls₁ ih => simp only [List.cons_append, run, ih, Option.bind_assoc]

/-- What every allowed step keeps, every allowed run keeps. -/
theorem run_invariant {I : S → Prop}
    (hstep : ∀ s l s', I s → C s l → M.step s l = some s' → I s') :
    ∀ (ls : List L) {s t : S}, I s → M.Guarded C s ls → M.run s ls = some t → I t := by
  intro ls
  induction ls with
  | nil =>
    intro s t hI _ hrun
    obtain rfl := Option.some.inj hrun
    exact hI
  | cons l ls ih =>
    intro s t hI hg hrun
    obtain ⟨s', hs, hrun⟩ := run_cons_iff.1 hrun
    exact ih (hstep s l s' hI hg.1 hs) (hg.2 s' hs) hrun

/-- A condition on the labels alone holds along every run of such labels. -/
theorem guarded_of_forall {P : L → Prop} (ls : List L) (h : ∀ l ∈ ls, P l) :
    ∀ s, M.Guarded (fun _ => P) s ls := by
  induction ls with
  | nil =>
    intro s
    trivial
  | cons l ls ih =>
    intro s
    obtain ⟨hl, hls⟩ := List.forall_mem_cons.1 h
    exact ⟨hl, fun s' _ => ih hls s'⟩

theorem guarded_and {D : S → L → Prop} :
    ∀ (ls : List L) {s : S}, M.Guarded C s ls → M.Guarded D s ls →
      M.Guarded (fun s l => C s l ∧ D s l) s ls := by
  intro ls
  induction ls with
  | nil => exact fun _ _ => trivial
  | cons l ls ih =>
    intro s hC hD
    exact ⟨⟨hC.1, hD.1⟩, fun s' hs' => ih (hC.2 s' hs') (hD.2 s' hs')⟩

/-- If `P` is never regained once it is lost, and a step that `C` forbids loses it, then the steps of
a run that ends in `P` are all allowed. -/
theorem guarded_of_run {P : S → Prop} (hback : ∀ s l s', M.step s l = some s' → P s' → P s)
    (hC : ∀ s l s', M.step s l = some s' → P s' → C s l) :
    ∀ (ls : List L) {s t : S}, M.run s ls = some t → P t → M.Guarded C s ls ∧ P s := by
  intro ls
  induction ls with
  | nil =>
    intro s t hrun hP
    obtain rfl := Option.some.inj hrun
    exact ⟨trivial, hP⟩
  | cons l ls ih =>
    intro s t hrun hP
    obtain ⟨s', hs, hrun⟩ := run_cons_iff.1 hrun
    obtain ⟨hg, hP'⟩ := ih hrun hP
    refine ⟨⟨hC s l s' hs hP', fun s'' hs' => ?_⟩, hback s l s' hs hP'⟩
    obtain rfl := Option.some.inj (hs.symm.trans hs')
    exact hg

theorem guarded_cons {s t : S} {l : L} {ls : List L} (hC : C s l) (hstep : M.step s l = some t)
    (h : M.Guarded C t ls) : M.Guarded C s (l :: ls) := by
  refine ⟨hC, fun s' hs' => ?_⟩
  obtain rfl := Option.some.inj (hstep.symm.trans hs')
  exact h

/-- A run in two parts is allowed if both are. -/
theorem guarded_append_iff {s t : S} {ls₁ ls₂ : List L} (hrun : M.run s ls₁ = some t) :
    M.Guarded C s (ls₁ ++ ls₂) ↔ M.Guarded C s ls₁ ∧ M.Guarded C t ls₂ := by
  induction ls₁ generalizing s with
  | nil =>
    obtain rfl := Option.some.inj hrun
    exact ⟨fun h => ⟨trivial, h⟩, And.right⟩
  | cons l ls₁ ih =>
    obtain ⟨s', hs, hrun⟩ := run_cons_iff.1 hrun
    have hnext (ls : List L) : M.Guarded C s (l :: ls) ↔ C s l ∧ M.Guarded C s' ls :=
      ⟨fun h => ⟨h.1, h.2 s' hs⟩, fun h => guarded_cons h.1 hs h.2⟩
    rw [List.cons_append, hnext, hnext, ih hrun, and_assoc]

/-- **Simulation.** If `N` matches each allowed step by an allowed one, or by none, then it matches
each allowed run. -/
theorem run_simulates {S' L' : Type} {N : System S' L'} {C' : S' → L' → Prop} {I : S → Prop}
    (view : S → S')
    (hstep : ∀ s l s', I s → C s l → M.step s l = some s' → I s' ∧ (view s' = view s ∨
      ∃ l', C' (view s) l' ∧ N.step (view s) l' = some (view s'))) :
    ∀ (ls : List L) {s t : S}, I s → M.Guarded C s ls → M.run s ls = some t →
      ∃ ls', N.Guarded C' (view s) ls' ∧ N.run (view s) ls' = some (view t) := by
  intro ls
  induction ls with
  | nil =>
    intro s t _ _ hrun
    obtain rfl := Option.some.inj hrun
    exact ⟨[], trivial, rfl⟩
  | cons l ls ih =>
    intro s t hI hguarded hrun
    obtain ⟨s', hs, hrun⟩ := run_cons_iff.1 hrun
    obtain ⟨hI', hmatched⟩ := hstep s l s' hI hguarded.1 hs
    obtain ⟨ls', hguarded', hrun'⟩ := ih hI' (hguarded.2 s' hs) hrun
    rcases hmatched with heq | ⟨l', hC', hs'⟩
    · exact ⟨ls', heq ▸ hguarded', heq ▸ hrun'⟩
    · exact ⟨l' :: ls', guarded_cons hC' hs' hguarded', run_cons_iff.2 ⟨_, hs', hrun'⟩⟩

end System

end Transition
