import BinanceTh.Lib.Interaction

/-!
# Pre- and postconditions

`Triple H P c Q E`: started where `P` holds of the world and of the state, in a world that answers
by `H`, the computation `c` ends with a value and `Q`, or with an error and `E`. The rules follow
the text of a computation. `Keeps H J c` is the case of an invariant. A property of traces is one of
the world that records them (`emits_iff_keeps`), so that the invariants of a computation and the
properties of its traces have one set of rules.
-/

namespace Interaction

variable {Op : Type} {Ans : Op → Type} {σ ε α β W : Type} {H : W → (o : Op) → Ans o → W → Prop}

/-- What holds at the end: `Q` of a value, or `E` of an error. -/
def Ends (Q : α → W → σ → Prop) (E : ε → W → σ → Prop) : Except ε α → W → σ → Prop
  | .ok a => Q a
  | .error e => E e

def Triple (H : W → (o : Op) → Ans o → W → Prop) (P : W → σ → Prop) (c : Comp Op Ans σ ε α)
    (Q : α → W → σ → Prop) (E : ε → W → σ → Prop) : Prop :=
  ∀ w s tr r s' w', P w s → Runs c s tr r s' → Admits H w tr w' → Ends Q E r w' s'

/-- The computation keeps the invariant, whether it returns or raises. -/
def Keeps (H : W → (o : Op) → Ans o → W → Prop) (J : W → σ → Prop) (c : Comp Op Ans σ ε α) : Prop :=
  Triple H J c (fun _ => J) fun _ => J

namespace Triple

variable {P P' : W → σ → Prop} {Q Q' : α → W → σ → Prop} {R : β → W → σ → Prop}
  {E E' F : ε → W → σ → Prop} {c : Comp Op Ans σ ε α}

theorem pure {a : α} (h : ∀ w s, P w s → Q a w s) :
    Triple H P (Pure.pure a : Comp Op Ans σ ε α) Q E := by
  intro w s tr r s' w' hP hrun hadm
  obtain ⟨rfl, rfl, rfl⟩ := runs_pure_iff.1 hrun
  cases hadm
  exact h _ _ hP

theorem throw {e : ε} (h : ∀ w s, P w s → E e w s) :
    Triple H P (MonadExcept.throw e : Comp Op Ans σ ε α) Q E := by
  intro w s tr r s' w' hP hrun hadm
  obtain ⟨rfl, rfl, rfl⟩ := runs_throw_iff.1 hrun
  cases hadm
  exact h _ _ hP

theorem raiseOr {x : Except ε α} (h : ∀ w s, P w s → Ends Q E x w s) :
    Triple H P (Interaction.raiseOr x : Comp Op Ans σ ε α) Q E := by
  intro w s tr r s' w' hP hrun hadm
  obtain ⟨rfl, rfl, rfl⟩ := runs_raiseOr_iff.1 hrun
  cases hadm
  exact h _ _ hP

theorem perform {o : Op} {Q : Ans o → W → σ → Prop}
    (h : ∀ w s x w', P w s → H w o x w' → Q x w' s) :
    Triple H P (Interaction.perform o : Comp Op Ans σ ε (Ans o)) Q E := by
  intro w s tr r s' w' hP hrun hadm
  obtain ⟨x, rfl, rfl, rfl⟩ := runs_perform_iff.1 hrun
  obtain ⟨w₁, hH, hnil⟩ := admits_cons_iff.1 hadm
  cases hnil
  exact h _ _ _ _ hP hH

theorem bind {f : α → Comp Op Ans σ ε β} (hc : Triple H P c Q E)
    (hf : ∀ a, Triple H (Q a) (f a) R E) : Triple H P (c >>= f) R E := by
  intro w s tr r s' w' hP hrun hadm
  rcases runs_bind_iff.1 hrun with ⟨e, rfl, hrun₁⟩ | ⟨a, tr₁, s₁, tr₂, rfl, hrun₁, hrun₂⟩
  · exact hc _ _ _ _ _ _ hP hrun₁ hadm
  · obtain ⟨w₁, hadm₁, hadm₂⟩ := admits_append_iff.1 hadm
    exact hf a _ _ _ _ _ _ (hc _ _ _ _ _ _ hP hrun₁ hadm₁) hrun₂ hadm₂

theorem tryCatch {f : ε → Comp Op Ans σ ε α} (hc : Triple H P c Q F)
    (hf : ∀ e, Triple H (F e) (f e) Q E) : Triple H P (MonadExcept.tryCatch c f) Q E := by
  intro w s tr r s' w' hP hrun hadm
  rcases runs_tryCatch_iff.1 hrun with ⟨a, rfl, hrun₁⟩ | ⟨e, tr₁, s₁, tr₂, rfl, hrun₁, hrun₂⟩
  · exact hc _ _ _ _ _ _ hP hrun₁ hadm
  · obtain ⟨w₁, hadm₁, hadm₂⟩ := admits_append_iff.1 hadm
    exact hf e _ _ _ _ _ _ (hc _ _ _ _ _ _ hP hrun₁ hadm₁) hrun₂ hadm₂

theorem get_bind {f : σ → Comp Op Ans σ ε α}
    (h : ∀ s₀, Triple H (fun w s => P w s ∧ s = s₀) (f s₀) Q E) : Triple H P (get >>= f) Q E :=
  fun _ s _ _ _ _ hP hrun hadm => h s _ _ _ _ _ _ ⟨hP, rfl⟩ hrun hadm

theorem modify_bind {m : σ → σ} {f : PUnit → Comp Op Ans σ ε α}
    (h : Triple H P' (f ⟨⟩) Q E) (hm : ∀ w s, P w s → P' w (m s)) :
    Triple H P (modify m >>= f) Q E :=
  fun _ _ _ _ _ _ hP hrun hadm => h _ _ _ _ _ _ (hm _ _ hP) hrun hadm

theorem conseq (h : Triple H P c Q E) (hP : ∀ w s, P' w s → P w s)
    (hQ : ∀ a w s, Q a w s → Q' a w s) (hE : ∀ e w s, E e w s → E' e w s) :
    Triple H P' c Q' E' := by
  intro w s tr r s' w' hP' hrun hadm
  have hends := h _ _ _ _ _ _ (hP _ _ hP') hrun hadm
  cases r with
  | ok a => exact hQ a _ _ hends
  | error e => exact hE e _ _ hends

/-- A fact of the precondition that is neither about the world nor about the state. -/
theorem of_fact {p : Prop} (h : p → Triple H P c Q E) : Triple H (fun w s => P w s ∧ p) c Q E :=
  fun _ _ _ _ _ _ hP hrun hadm => h hP.2 _ _ _ _ _ _ hP.1 hrun hadm

/-- The state and the world at the start. -/
theorem of_start (h : ∀ w₀ s₀, P w₀ s₀ → Triple H (fun w s => w = w₀ ∧ s = s₀) c Q E) :
    Triple H P c Q E :=
  fun w s _ _ _ _ hP hrun hadm => h w s hP _ _ _ _ _ _ ⟨rfl, rfl⟩ hrun hadm

theorem pre (h : Triple H P c Q E) (hP : ∀ w s, P' w s → P w s) : Triple H P' c Q E :=
  h.conseq hP (fun _ _ _ hQ => hQ) fun _ _ _ hE => hE

end Triple

/-! ## Invariants -/

namespace Keeps

variable {J : W → σ → Prop} {c : Comp Op Ans σ ε α}

theorem pure (a : α) : Keeps H J (Pure.pure a : Comp Op Ans σ ε α) := Triple.pure fun _ _ h => h

theorem throw (e : ε) : Keeps H J (MonadExcept.throw e : Comp Op Ans σ ε α) :=
  Triple.throw fun _ _ h => h

theorem raiseOr (x : Except ε α) : Keeps H J (Interaction.raiseOr x : Comp Op Ans σ ε α) :=
  Triple.raiseOr fun _ _ h => by cases x <;> exact h

/-- What is returned is the value that was given. -/
theorem raiseOr_eq (x : Except ε α) :
    Triple H J (Interaction.raiseOr x : Comp Op Ans σ ε α) (fun a w s => J w s ∧ x = .ok a)
      fun _ => J := by
  refine Triple.raiseOr fun w s h => ?_
  cases x with
  | ok a => exact ⟨h, rfl⟩
  | error e => exact h

theorem perform {o : Op} (h : ∀ w s x w', J w s → H w o x w' → J w' s) :
    Keeps H J (Interaction.perform o : Comp Op Ans σ ε (Ans o)) := Triple.perform h

theorem bind {f : α → Comp Op Ans σ ε β} (hc : Keeps H J c) (hf : ∀ a, Keeps H J (f a)) :
    Keeps H J (c >>= f) := Triple.bind hc hf

theorem tryCatch {f : ε → Comp Op Ans σ ε α} (hc : Keeps H J c) (hf : ∀ e, Keeps H J (f e)) :
    Keeps H J (MonadExcept.tryCatch c f) := Triple.tryCatch hc hf

theorem get_bind {f : σ → Comp Op Ans σ ε α} (h : ∀ s, Keeps H J (f s)) :
    Keeps H J (get >>= f) := Triple.get_bind fun s => Triple.pre (h s) fun _ _ hJ => hJ.1

theorem modify_bind {m : σ → σ} {f : PUnit → Comp Op Ans σ ε α} (h : Keeps H J (f ⟨⟩))
    (hm : ∀ w s, J w s → J w (m s)) : Keeps H J (modify m >>= f) := Triple.modify_bind h hm

end Keeps

/-! ## Traces -/

/-- The world that records what happens. -/
def Recording (tr : List (Event Op Ans)) (o : Op) (x : Ans o) (tr' : List (Event Op Ans)) : Prop :=
  tr' = tr ++ [⟨o, x⟩]

theorem admits_recording_iff {past tr tr' : List (Event Op Ans)} :
    Admits Recording past tr tr' ↔ tr' = past ++ tr := by
  induction tr generalizing past with
  | nil =>
    rw [List.append_nil]
    constructor
    · intro h
      cases h
      rfl
    · rintro rfl
      exact .nil _
  | cons e tr ih =>
    have hstep : Admits Recording past (e :: tr) tr' ↔ Admits Recording (past ++ [e]) tr tr' := by
      refine admits_cons_iff.trans ⟨?_, fun h => ⟨_, rfl, h⟩⟩
      rintro ⟨past', rfl, h⟩
      exact h
    rw [hstep, ih, List.append_assoc]
    rfl

/-- What is recorded stays. -/
theorem keeps_mem_recording (c : Comp Op Ans σ ε α) (e : Event Op Ans) :
    Keeps Recording (fun tr _ => e ∈ tr) c := by
  intro past s tr r s' tr' hmem _ hadm
  obtain rfl := admits_recording_iff.1 hadm
  have hstays : e ∈ past ++ tr := List.mem_append_left tr hmem
  cases r <;> exact hstays

/-- **Every trace** of a computation has an additive property exactly when the computation keeps it
in the record. -/
theorem emits_iff_keeps {P : List (Event Op Ans) → Prop} (hP : Additive P)
    {c : Comp Op Ans σ ε α} : Emits P c ↔ Keeps Recording (fun tr _ => P tr) c := by
  constructor
  · intro h past s tr r s' tr' hpast hrun hadm
    obtain rfl := admits_recording_iff.1 hadm
    have hboth : P (past ++ tr) := hP.append hpast (h _ _ _ _ hrun)
    cases r <;> exact hboth
  · intro h s tr r s' hrun
    have hends := h [] s tr r s' tr hP.nil hrun (admits_recording_iff.2 rfl)
    cases r <;> exact hends

end Interaction
