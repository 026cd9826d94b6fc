import BinanceTh.Lib.Counting

/-!
# Draining a queue

A task reads a queue that nobody adds to. It takes an item, and may then have to wait for something
else before it takes the next one; so it does at its beginning. A wait has `w + 1` steps at most.
Such a task ends: the steps of any run are bounded by the length of the queue, and so are its waits
(`count_le`), whatever else happens in between.
-/

namespace Draining

open Transition

/-- Where the task stands, with as many items in the queue. -/
inductive Stage where
  | unbegun (items : ℕ)
  /-- After this step of its wait there are `left` more at most. -/
  | waiting (left items : ℕ)
  | reading (items : ℕ)
  | ended

/-- A step of the task, which may be the first of a wait. -/
inductive Moves (w : ℕ) : (asks : Bool) → Stage → Stage → Prop
  | start {items : ℕ} : Moves w true (.unbegun items) (.waiting w items)
  | wait {left items : ℕ} : Moves w false (.waiting (left + 1) items) (.waiting left items)
  | answered {left items : ℕ} : Moves w false (.waiting left items) (.reading items)
  | take {items : ℕ} : Moves w false (.reading (items + 1)) (.reading items)
  | ask {items : ℕ} : Moves w true (.reading (items + 1)) (.waiting w items)
  | stop {stage : Stage} (hrunning : stage ≠ .ended) : Moves w false stage .ended

namespace Stage

/-- How many steps there can be. -/
def steps (w : ℕ) : Stage → ℕ
  | .unbegun items => (w + 2) * (items + 1) + 1
  | .waiting left items => (w + 2) * items + left + 2
  | .reading items => (w + 2) * items + 1
  | .ended => 0

/-- How many waits can begin. -/
def waits : Stage → ℕ
  | .unbegun items => items + 1
  | .waiting _ items => items
  | .reading items => items
  | .ended => 0

end Stage

section Moves

variable {w : ℕ} {asks : Bool} {stage stage' : Stage}

theorem Stage.steps_pos (h : stage ≠ .ended) : 0 < stage.steps w := by
  cases stage with
  | ended => exact absurd rfl h
  | _ => exact Nat.succ_pos _

theorem Moves.steps_lt (h : Moves w asks stage stage') : stage'.steps w + 1 ≤ stage.steps w := by
  cases h with
  | start | take | ask =>
    simp only [Stage.steps, Nat.mul_add]
    omega
  | wait | answered =>
    simp only [Stage.steps]
    omega
  | stop hrunning => exact Stage.steps_pos hrunning

theorem Moves.waits_le (h : Moves w asks stage stage') :
    stage'.waits + asks.toNat ≤ stage.waits := by
  cases h with
  | stop => exact Nat.zero_le _
  | _ => simp [Stage.waits]

end Moves

variable {S L : Type} {M : System S L} {I : S → Prop} {C : S → L → Prop}

/-- **The task ends.** If each step is one of the task or leaves it where it stands, then a run has
no more steps and waits of the task than there can be at its start. -/
theorem count_le (w : ℕ) (stage : S → Stage) (ofTask : L → Bool) (asks : S → L → Bool)
    (hstep : ∀ s l s', I s → C s l → M.step s l = some s' → I s' ∧
      (ofTask l = true ∧ Moves w (asks s l) (stage s) (stage s') ∨
        ofTask l = false ∧ asks s l = false ∧ stage s' = stage s))
    (ls : List L) {s t : S} (hI : I s) (hguarded : M.Guarded C s ls) (hrun : M.run s ls = some t) :
    ls.countP ofTask ≤ (stage s).steps w ∧ M.count asks s ls ≤ (stage s).waits := by
  have hnone : M.count (fun _ _ => false) s ls = 0 := by
    rw [System.count_eq_countP (p := fun _ => false) ls hrun]
    exact List.countP_eq_zero.2 fun _ _ => Bool.false_ne_true
  constructor
  · have hle := System.add_count_le (P := fun _ => ofTask) (Q := fun _ _ => false)
      (fun s => (stage s).steps w) (fun s l s' hI hC hs => ?_) ls hI hguarded hrun
    · rw [System.count_eq_countP ls hrun, hnone] at hle
      omega
    · obtain ⟨hI', ⟨htask, hmoves⟩ | ⟨htask, -, hsame⟩⟩ := hstep s l s' hI hC hs
      · rw [htask]
        exact ⟨hI', hmoves.steps_lt⟩
      · rw [htask, hsame]
        exact ⟨hI', Nat.le_refl _⟩
  · have hle := System.add_count_le (P := asks) (Q := fun _ _ => false) (fun s => (stage s).waits)
      (fun s l s' hI hC hs => ?_) ls hI hguarded hrun
    · rw [hnone] at hle
      omega
    · obtain ⟨hI', ⟨-, hmoves⟩ | ⟨-, hasks, hsame⟩⟩ := hstep s l s' hI hC hs
      · exact ⟨hI', hmoves.waits_le⟩
      · rw [hasks, hsame]
        exact ⟨hI', Nat.le_refl _⟩

end Draining
