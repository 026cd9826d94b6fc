import Mathlib.Data.List.Basic

/-!
# Programs that talk to an environment

A program (`Prog Op Ans α`) either returns or performs an operation `o : Op` and continues with
the answer, of type `Ans o`, that the environment gives. An execution (`Exec`) records every
operation with its answer; nothing restricts the answers, so a statement about every execution is
a statement about every environment. `Comp` adds a mutable state and exceptions that keep the state
reached when they are raised.

* The `runs_*_iff` lemmas read an execution of a compound computation back into executions of its
  parts; a proof about a program follows the program's text with them.
* `Comp.runs_play`: against every environment that answers, a computation ends; so it does if one of
  its operations is answered in another way (`Runs.divert`).
* `Admits`: the executions that a world with a state of its own can answer.
-/

namespace Interaction

variable {Op : Type} {Ans : Op → Type} {σ ε α β : Type}

/-- A program that performs operations `Op`, answered in `Ans`, and returns an `α`. -/
inductive Prog (Op : Type) (Ans : Op → Type) (α : Type) : Type where
  | ret (a : α) : Prog Op Ans α
  | call (o : Op) (k : Ans o → Prog Op Ans α) : Prog Op Ans α

/-- An operation together with the answer it got. -/
abbrev Event (Op : Type) (Ans : Op → Type) : Type := (o : Op) × Ans o

namespace Prog

def bind : Prog Op Ans α → (α → Prog Op Ans β) → Prog Op Ans β
  | .ret a, f => f a
  | .call o k, f => .call o fun x => (k x).bind f

instance : Monad (Prog Op Ans) where
  pure := .ret
  bind := bind

@[simp] theorem pure_eq (a : α) : (pure a : Prog Op Ans α) = .ret a := rfl

@[simp] theorem ret_bind (a : α) (f : α → Prog Op Ans β) : (Prog.ret a >>= f) = f a := rfl

@[simp] theorem call_bind (o : Op) (k : Ans o → Prog Op Ans α) (f : α → Prog Op Ans β) :
    (Prog.call o k >>= f) = .call o fun x => k x >>= f := rfl

theorem bind_ret (p : Prog Op Ans α) : p.bind .ret = p := by
  induction p with
  | ret a => rfl
  | call o k ih => exact congrArg (Prog.call o) (funext ih)

theorem bind_bind {γ : Type} (p : Prog Op Ans α) (f : α → Prog Op Ans β) (g : β → Prog Op Ans γ) :
    (p.bind f).bind g = p.bind fun a => (f a).bind g := by
  induction p with
  | ret a => rfl
  | call o k ih => exact congrArg (Prog.call o) (funext ih)

instance : LawfulMonad (Prog Op Ans) :=
  LawfulMonad.mk' _ bind_ret (fun _ _ => rfl) bind_bind

end Prog

/-- `Exec p tr a`: the program `p` returns `a`, its operations having been answered as in `tr`. -/
inductive Exec : Prog Op Ans α → List (Event Op Ans) → α → Prop
  | ret (a : α) : Exec (.ret a) [] a
  | call {o : Op} {k : Ans o → Prog Op Ans α} (x : Ans o) {tr : List (Event Op Ans)} {a : α} :
      Exec (k x) tr a → Exec (.call o k) (⟨o, x⟩ :: tr) a

theorem exec_ret_iff {a b : α} {tr : List (Event Op Ans)} :
    Exec (.ret a : Prog Op Ans α) tr b ↔ tr = [] ∧ b = a := by
  constructor
  · rintro ⟨⟩
    exact ⟨rfl, rfl⟩
  · rintro ⟨rfl, rfl⟩
    exact .ret _

theorem exec_call_iff {o : Op} {k : Ans o → Prog Op Ans α} {tr : List (Event Op Ans)} {a : α} :
    Exec (.call o k) tr a ↔ ∃ x tr', tr = ⟨o, x⟩ :: tr' ∧ Exec (k x) tr' a := by
  constructor
  · intro h
    cases h with
    | call x h => exact ⟨x, _, rfl, h⟩
  · rintro ⟨x, tr', rfl, h⟩
    exact .call x h

/-- An execution of a sequence is an execution of its first part followed by one of its second. -/
theorem exec_bind_iff {p : Prog Op Ans α} {f : α → Prog Op Ans β} {tr : List (Event Op Ans)}
    {b : β} : Exec (p >>= f) tr b ↔
      ∃ a tr₁ tr₂, tr = tr₁ ++ tr₂ ∧ Exec p tr₁ a ∧ Exec (f a) tr₂ b := by
  induction p generalizing tr with
  | ret a =>
    constructor
    · intro h
      exact ⟨a, [], tr, rfl, .ret a, h⟩
    · rintro ⟨a', tr₁, tr₂, rfl, h₁, h₂⟩
      obtain ⟨rfl, rfl⟩ := exec_ret_iff.1 h₁
      exact h₂
  | call o k ih =>
    rw [Prog.call_bind, exec_call_iff]
    constructor
    · rintro ⟨x, tr', rfl, h⟩
      obtain ⟨a, tr₁, tr₂, rfl, h₁, h₂⟩ := (ih x).1 h
      exact ⟨a, ⟨o, x⟩ :: tr₁, tr₂, rfl, .call x h₁, h₂⟩
    · rintro ⟨a, tr₁, tr₂, rfl, h₁, h₂⟩
      obtain ⟨x, tr', rfl, hx⟩ := exec_call_iff.1 h₁
      exact ⟨x, tr' ++ tr₂, rfl, (ih x).2 ⟨a, tr', tr₂, rfl, hx, h₂⟩⟩

/-- The answers decide an execution: of two traces, neither is a proper prefix of the other. -/
theorem Exec.unique {p : Prog Op Ans α} {tr₁ tr₂ rest₁ rest₂ : List (Event Op Ans)} {a b : α}
    (h₁ : Exec p tr₁ a) (h₂ : Exec p tr₂ b) (h : tr₁ ++ rest₁ = tr₂ ++ rest₂) :
    tr₁ = tr₂ ∧ a = b := by
  induction h₁ generalizing tr₂ with
  | ret a =>
    obtain ⟨rfl, rfl⟩ := exec_ret_iff.1 h₂
    exact ⟨rfl, rfl⟩
  | call x _ ih =>
    obtain ⟨y, tr₃, rfl, h₃⟩ := exec_call_iff.1 h₂
    obtain ⟨hxy, htail⟩ := List.cons.inj h
    obtain rfl := eq_of_heq (Sigma.mk.inj hxy).2
    obtain ⟨rfl, rfl⟩ := ih h₃ htail
    exact ⟨rfl, rfl⟩

/-! ## Computations with a state and exceptions -/

/-- A computation over a state `σ` that may raise an `ε`; an exception keeps the state. -/
abbrev Comp (Op : Type) (Ans : Op → Type) (σ ε : Type) : Type → Type :=
  ExceptT ε (StateT σ (Prog Op Ans))

/-- Perform one operation. -/
def perform (o : Op) : Comp Op Ans σ ε (Ans o) :=
  ExceptT.mk fun s => .call o fun x => .ret (.ok x, s)

/-- Raise the error of an `Except`, return its value. -/
def raiseOr (x : Except ε α) : Comp Op Ans σ ε α :=
  ExceptT.mk fun s => .ret (x, s)

/-- `Runs c s tr r s'`: from state `s`, the computation `c` ends with `r` in state `s'`, its
operations having been answered as in `tr`. -/
def Runs (c : Comp Op Ans σ ε α) (s : σ) (tr : List (Event Op Ans)) (r : Except ε α) (s' : σ) :
    Prop :=
  Exec (c.run.run s) tr (r, s')

section Runs

variable {s s' : σ} {tr : List (Event Op Ans)}

theorem Runs.unique {c : Comp Op Ans σ ε α} {tr₁ tr₂ rest₁ rest₂ : List (Event Op Ans)}
    {r₁ r₂ : Except ε α} {s₁ s₂ : σ} (h₁ : Runs c s tr₁ r₁ s₁) (h₂ : Runs c s tr₂ r₂ s₂)
    (h : tr₁ ++ rest₁ = tr₂ ++ rest₂) : tr₁ = tr₂ ∧ r₁ = r₂ ∧ s₁ = s₂ := by
  obtain ⟨htr, hr⟩ := Exec.unique h₁ h₂ h
  exact ⟨htr, Prod.mk.inj hr⟩

theorem runs_pure_iff {a : α} {r : Except ε α} :
    Runs (pure a : Comp Op Ans σ ε α) s tr r s' ↔ tr = [] ∧ r = .ok a ∧ s' = s := by
  show Exec (.ret (.ok a, s)) tr (r, s') ↔ _
  rw [exec_ret_iff, Prod.mk.injEq]

theorem runs_throw_iff {e : ε} {r : Except ε α} :
    Runs (throw e : Comp Op Ans σ ε α) s tr r s' ↔ tr = [] ∧ r = .error e ∧ s' = s := by
  show Exec (.ret (.error e, s)) tr (r, s') ↔ _
  rw [exec_ret_iff, Prod.mk.injEq]

theorem runs_raiseOr_iff {x r : Except ε α} :
    Runs (raiseOr x : Comp Op Ans σ ε α) s tr r s' ↔ tr = [] ∧ r = x ∧ s' = s := by
  show Exec (.ret (x, s)) tr (r, s') ↔ _
  rw [exec_ret_iff, Prod.mk.injEq]

theorem runs_perform_iff {o : Op} {r : Except ε (Ans o)} :
    Runs (perform o : Comp Op Ans σ ε (Ans o)) s tr r s' ↔
      ∃ x, tr = [⟨o, x⟩] ∧ r = .ok x ∧ s' = s := by
  show Exec (.call o fun x => .ret (.ok x, s)) tr (r, s') ↔ _
  simp only [exec_call_iff, exec_ret_iff, Prod.mk.injEq]
  constructor
  · rintro ⟨x, _, rfl, rfl, rfl, rfl⟩
    exact ⟨x, rfl, rfl, rfl⟩
  · rintro ⟨x, rfl, rfl, rfl⟩
    exact ⟨x, [], rfl, rfl, rfl, rfl⟩

/-- A sequence ends early with the error of its first part, or runs both parts. -/
theorem runs_bind_iff {c : Comp Op Ans σ ε α} {f : α → Comp Op Ans σ ε β} {r : Except ε β} :
    Runs (c >>= f) s tr r s' ↔
      (∃ e, r = .error e ∧ Runs c s tr (.error e) s') ∨
      ∃ a tr₁ s₁ tr₂, tr = tr₁ ++ tr₂ ∧ Runs c s tr₁ (.ok a) s₁ ∧ Runs (f a) s₁ tr₂ r s' := by
  have hbind : (c >>= f).run.run s = (c.run.run s >>= fun (x : Except ε α × σ) =>
      (ExceptT.bindCont f x.1).run x.2) := rfl
  unfold Runs
  rw [hbind, exec_bind_iff]
  constructor
  · rintro ⟨⟨x, s₁⟩, tr₁, tr₂, rfl, h₁, h₂⟩
    cases x with
    | ok a => exact .inr ⟨a, tr₁, s₁, tr₂, rfl, h₁, h₂⟩
    | error e =>
      obtain ⟨rfl, he⟩ := exec_ret_iff.1 (show Exec (.ret (.error e, s₁)) tr₂ (r, s') from h₂)
      obtain ⟨rfl, rfl⟩ := Prod.mk.inj he
      rw [List.append_nil]
      exact .inl ⟨e, rfl, h₁⟩
  · rintro (⟨e, rfl, h⟩ | ⟨a, tr₁, s₁, tr₂, rfl, h₁, h₂⟩)
    · refine ⟨(.error e, s'), tr, [], (List.append_nil tr).symm, h, ?_⟩
      exact Exec.ret (Except.error e, s')
    · exact ⟨(.ok a, s₁), tr₁, tr₂, rfl, h₁, h₂⟩

theorem runs_perform_bind_iff {o : Op} {f : Ans o → Comp Op Ans σ ε β} {r : Except ε β} :
    Runs (perform o >>= f) s tr r s' ↔ ∃ x tr', tr = ⟨o, x⟩ :: tr' ∧ Runs (f x) s tr' r s' := by
  rw [runs_bind_iff]
  constructor
  · rintro (⟨e, _, h⟩ | ⟨x, tr₁, s₁, tr₂, rfl, h, hf⟩)
    · obtain ⟨_, _, he, _⟩ := runs_perform_iff.1 h
      cases he
    · obtain ⟨y, rfl, hy, rfl⟩ := runs_perform_iff.1 h
      obtain rfl := Except.ok.inj hy
      exact ⟨_, tr₂, rfl, hf⟩
  · rintro ⟨x, tr', rfl, hf⟩
    exact .inr ⟨x, [⟨o, x⟩], s, tr', rfl, runs_perform_iff.2 ⟨x, rfl, rfl, rfl⟩, hf⟩

theorem runs_raiseOr_bind_iff {x : Except ε α} {f : α → Comp Op Ans σ ε β} {r : Except ε β} :
    Runs (raiseOr x >>= f) s tr r s' ↔
      (∃ e, x = .error e ∧ tr = [] ∧ r = .error e ∧ s' = s) ∨
      ∃ a, x = .ok a ∧ Runs (f a) s tr r s' := by
  cases x with
  | error e =>
    show Exec (.ret (.error e, s)) tr (r, s') ↔ _
    rw [exec_ret_iff, Prod.mk.injEq]
    constructor
    · rintro ⟨rfl, rfl, rfl⟩
      exact .inl ⟨e, rfl, rfl, rfl, rfl⟩
    · rintro (⟨e', he, rfl, rfl, rfl⟩ | ⟨a, ha, _⟩)
      · obtain rfl := Except.error.inj he
        exact ⟨rfl, rfl, rfl⟩
      · cases ha
  | ok a =>
    show Runs (f a) s tr r s' ↔ _
    constructor
    · exact fun h => .inr ⟨a, rfl, h⟩
    · rintro (⟨e, he, _⟩ | ⟨a', ha, h⟩)
      · cases he
      · obtain rfl := Except.ok.inj ha
        exact h

theorem runs_get_bind_iff {f : σ → Comp Op Ans σ ε β} {r : Except ε β} :
    Runs (get >>= f) s tr r s' ↔ Runs (f s) s tr r s' := Iff.rfl

theorem runs_modify_bind_iff {g : σ → σ} {f : PUnit → Comp Op Ans σ ε β} {r : Except ε β} :
    Runs (modify g >>= f) s tr r s' ↔ Runs (f ⟨⟩) (g s) tr r s' := Iff.rfl

/-- A `try` ends with the value of its body, or runs the handler on the body's error. -/
theorem runs_tryCatch_iff {c : Comp Op Ans σ ε α} {h : ε → Comp Op Ans σ ε α} {r : Except ε α} :
    Runs (tryCatch c h) s tr r s' ↔
      (∃ a, r = .ok a ∧ Runs c s tr (.ok a) s') ∨
      ∃ e tr₁ s₁ tr₂, tr = tr₁ ++ tr₂ ∧ Runs c s tr₁ (.error e) s₁ ∧ Runs (h e) s₁ tr₂ r s' := by
  have hcatch : (tryCatch c h).run.run s = (c.run.run s >>= fun (x : Except ε α × σ) =>
      (match x.1 with
        | .ok a => (pure (.ok a) : StateT σ (Prog Op Ans) (Except ε α))
        | .error e => (h e).run).run x.2) := rfl
  unfold Runs
  rw [hcatch, exec_bind_iff]
  constructor
  · rintro ⟨⟨x, s₁⟩, tr₁, tr₂, rfl, h₁, h₂⟩
    cases x with
    | error e => exact .inr ⟨e, tr₁, s₁, tr₂, rfl, h₁, h₂⟩
    | ok a =>
      obtain ⟨rfl, he⟩ := exec_ret_iff.1 (show Exec (.ret (.ok a, s₁)) tr₂ (r, s') from h₂)
      obtain ⟨rfl, rfl⟩ := Prod.mk.inj he
      rw [List.append_nil]
      exact .inl ⟨a, rfl, h₁⟩
  · rintro (⟨a, rfl, h₁⟩ | ⟨e, tr₁, s₁, tr₂, rfl, h₁, h₂⟩)
    · refine ⟨(.ok a, s'), tr, [], (List.append_nil tr).symm, h₁, ?_⟩
      exact Exec.ret (Except.ok a, s')
    · exact ⟨(.error e, s₁), tr₁, tr₂, rfl, h₁, h₂⟩

end Runs

/-! ## Properties of every trace -/

/-- A property of the empty trace that two traces put together have if both have it. -/
structure Additive (P : List (Event Op Ans) → Prop) : Prop where
  nil : P []
  append : ∀ {tr tr'}, P tr → P tr' → P (tr ++ tr')

/-- Every run of the computation has a trace with the property. -/
def Emits (P : List (Event Op Ans) → Prop) (c : Comp Op Ans σ ε α) : Prop :=
  ∀ s tr r s', Runs c s tr r s' → P tr

namespace Emits

variable {P : List (Event Op Ans) → Prop}

theorem pure (hP : Additive P) (a : α) : Emits P (Pure.pure a : Comp Op Ans σ ε α) := by
  intro s tr r s' h
  obtain ⟨rfl, -⟩ := runs_pure_iff.1 h
  exact hP.nil

theorem throw (hP : Additive P) (e : ε) :
    Emits P (MonadExcept.throw e : Comp Op Ans σ ε α) := by
  intro s tr r s' h
  obtain ⟨rfl, -⟩ := runs_throw_iff.1 h
  exact hP.nil

theorem raiseOr (hP : Additive P) (x : Except ε α) :
    Emits P (Interaction.raiseOr x : Comp Op Ans σ ε α) := by
  intro s tr r s' h
  obtain ⟨rfl, -⟩ := runs_raiseOr_iff.1 h
  exact hP.nil

theorem perform {o : Op} (h : ∀ x, P [⟨o, x⟩]) :
    Emits P (Interaction.perform o : Comp Op Ans σ ε (Ans o)) := by
  intro s tr r s' hrun
  obtain ⟨x, rfl, -⟩ := runs_perform_iff.1 hrun
  exact h x

theorem bind (hP : Additive P) {c : Comp Op Ans σ ε α} {f : α → Comp Op Ans σ ε β}
    (h : Emits P c) (hf : ∀ a, Emits P (f a)) : Emits P (c >>= f) := by
  intro s tr r s' hrun
  rcases runs_bind_iff.1 hrun with ⟨e, -, hc⟩ | ⟨a, tr₁, s₁, tr₂, rfl, hc, hrest⟩
  · exact h _ _ _ _ hc
  · exact hP.append (h _ _ _ _ hc) (hf a _ _ _ _ hrest)

theorem tryCatch (hP : Additive P) {c : Comp Op Ans σ ε α} {f : ε → Comp Op Ans σ ε α}
    (h : Emits P c) (hf : ∀ e, Emits P (f e)) : Emits P (MonadExcept.tryCatch c f) := by
  intro s tr r s' hrun
  rcases runs_tryCatch_iff.1 hrun with ⟨a, -, hc⟩ | ⟨e, tr₁, s₁, tr₂, rfl, hc, hrest⟩
  · exact h _ _ _ _ hc
  · exact hP.append (h _ _ _ _ hc) (hf e _ _ _ _ hrest)

theorem get_bind {f : σ → Comp Op Ans σ ε α} (h : ∀ s, Emits P (f s)) : Emits P (get >>= f) :=
  fun s tr r s' hrun => h s s tr r s' hrun

theorem modify_bind {m : σ → σ} {f : PUnit → Comp Op Ans σ ε α} (h : Emits P (f ⟨⟩)) :
    Emits P (modify m >>= f) :=
  fun s tr r s' hrun => h (m s) tr r s' hrun

end Emits

/-! ## Environments that answer -/

/-- The answers in `tr` are those of the strategy `ω`, which sees the events so far (`past`). -/
def Answers (ω : List (Event Op Ans) → (o : Op) → Ans o) :
    List (Event Op Ans) → List (Event Op Ans) → Prop
  | _, [] => True
  | past, e :: tr => e.2 = ω past e.1 ∧ Answers ω (past ++ [e]) tr

/-- The run of a program against a strategy. -/
def Prog.play (ω : List (Event Op Ans) → (o : Op) → Ans o) :
    Prog Op Ans α → List (Event Op Ans) → List (Event Op Ans) × α
  | .ret a, _ => ([], a)
  | .call o k, past =>
    let rest := (k (ω past o)).play ω (past ++ [⟨o, ω past o⟩])
    (⟨o, ω past o⟩ :: rest.1, rest.2)

/-- Against a strategy that answers every operation, a program returns. -/
theorem Prog.exec_play (ω : List (Event Op Ans) → (o : Op) → Ans o) (p : Prog Op Ans α) :
    ∀ past, Exec p (p.play ω past).1 (p.play ω past).2 ∧ Answers ω past (p.play ω past).1 := by
  induction p with
  | ret a => exact fun _ => ⟨.ret a, trivial⟩
  | call o k ih =>
    intro past
    obtain ⟨h, hω⟩ := ih (ω past o) (past ++ [⟨o, ω past o⟩])
    exact ⟨.call _ h, rfl, hω⟩

/-- The run of a computation against a strategy: its trace, its result and its last state. -/
def Comp.play (ω : List (Event Op Ans) → (o : Op) → Ans o) (c : Comp Op Ans σ ε α) (s : σ) :
    List (Event Op Ans) × Except ε α × σ :=
  (c.run.run s).play ω []

/-- Against a strategy that answers every operation, a computation ends. -/
theorem Comp.runs_play (ω : List (Event Op Ans) → (o : Op) → Ans o) (c : Comp Op Ans σ ε α)
    (s : σ) : Runs c s (c.play ω s).1 (c.play ω s).2.1 (c.play ω s).2.2 ∧
      Answers ω [] (c.play ω s).1 :=
  Prog.exec_play ω (c.run.run s) []

theorem Answers.forall {ω : List (Event Op Ans) → (o : Op) → Ans o} {P : Event Op Ans → Prop}
    (hω : ∀ past o, P ⟨o, ω past o⟩) {tr : List (Event Op Ans)} :
    ∀ {past : List (Event Op Ans)}, Answers ω past tr → ∀ e ∈ tr, P e := by
  induction tr with
  | nil => exact fun _ e he => nomatch he
  | cons x tr ih =>
    rintro past ⟨hx, htr⟩ e he
    rcases List.mem_cons.1 he with rfl | he
    · have hanswer := hω past e.1
      rwa [← hx] at hanswer
    · exact ih htr e he

/-- With another answer at one operation an execution goes on somehow. -/
theorem Exec.divert (ω : List (Event Op Ans) → (o : Op) → Ans o) {p : Prog Op Ans α}
    {tr₁ tr₂ : List (Event Op Ans)} {o : Op} {x : Ans o} {a : α}
    (h : Exec p (tr₁ ++ ⟨o, x⟩ :: tr₂) a) (y : Ans o) :
    ∃ tr₃ b, Exec p (tr₁ ++ ⟨o, y⟩ :: tr₃) b ∧ Answers ω [] tr₃ := by
  induction tr₁ generalizing p with
  | nil =>
    cases h with
    | @call _ k _ _ _ _ =>
      obtain ⟨hrest, hω⟩ := (k y).exec_play ω []
      exact ⟨_, _, .call y hrest, hω⟩
  | cons e tr₁ ih =>
    cases h with
    | @call o k z _ _ hrest =>
      obtain ⟨tr₃, b, hdiverted, hω⟩ := ih hrest
      exact ⟨tr₃, b, .call z hdiverted, hω⟩

/-- A run of a computation, from one operation on with another answer. -/
theorem Runs.divert (ω : List (Event Op Ans) → (o : Op) → Ans o) {c : Comp Op Ans σ ε α}
    {s s' : σ} {tr₁ tr₂ : List (Event Op Ans)} {o : Op} {x : Ans o} {r : Except ε α}
    (h : Runs c s (tr₁ ++ ⟨o, x⟩ :: tr₂) r s') (y : Ans o) :
    ∃ tr₃ r' s'', Runs c s (tr₁ ++ ⟨o, y⟩ :: tr₃) r' s'' ∧ Answers ω [] tr₃ := by
  obtain ⟨tr₃, ⟨r', s''⟩, hdiverted, hω⟩ := Exec.divert ω h y
  exact ⟨tr₃, r', s'', hdiverted, hω⟩

/-! ## Worlds -/

/-- `Admits H w tr w'`: a world that answers single operations by `H` can answer the whole of `tr`,
moving from `w` to `w'`. -/
inductive Admits {W : Type} (H : W → (o : Op) → Ans o → W → Prop) :
    W → List (Event Op Ans) → W → Prop
  | nil (w : W) : Admits H w [] w
  | cons {w w₁ w₂ : W} {o : Op} {x : Ans o} {tr : List (Event Op Ans)} :
      H w o x w₁ → Admits H w₁ tr w₂ → Admits H w (⟨o, x⟩ :: tr) w₂

section Admits

variable {W : Type} {H : W → (o : Op) → Ans o → W → Prop} {w w' : W}
  {tr tr₁ tr₂ : List (Event Op Ans)}

theorem admits_cons_iff {o : Op} {x : Ans o} :
    Admits H w (⟨o, x⟩ :: tr) w' ↔ ∃ w₁, H w o x w₁ ∧ Admits H w₁ tr w' := by
  constructor
  · intro h
    cases h with
    | cons h₁ h₂ => exact ⟨_, h₁, h₂⟩
  · rintro ⟨w₁, h₁, h₂⟩
    exact .cons h₁ h₂

theorem admits_append_iff :
    Admits H w (tr₁ ++ tr₂) w' ↔ ∃ w₁, Admits H w tr₁ w₁ ∧ Admits H w₁ tr₂ w' := by
  induction tr₁ generalizing w with
  | nil =>
    constructor
    · exact fun h => ⟨w, .nil w, h⟩
    · rintro ⟨w₁, h₁, h₂⟩
      cases h₁
      exact h₂
  | cons e tr₁ ih =>
    obtain ⟨o, x⟩ := e
    rw [List.cons_append, admits_cons_iff]
    constructor
    · rintro ⟨w₁, h₁, h⟩
      obtain ⟨w₂, h₂, h₃⟩ := ih.1 h
      exact ⟨w₂, .cons h₁ h₂, h₃⟩
    · rintro ⟨w₂, h, h₃⟩
      obtain ⟨w₁, h₁, h₂⟩ := admits_cons_iff.1 h
      exact ⟨w₁, h₁, ih.2 ⟨w₂, h₂, h₃⟩⟩

/-- What every answer in a trace keeps, the whole trace keeps. -/
theorem Admits.invariant {I : W → Prop} (h : Admits H w tr w')
    (hstep : ∀ e ∈ tr, ∀ w w', I w → H w e.1 e.2 w' → I w') (hw : I w) : I w' := by
  induction h with
  | nil w => exact hw
  | cons hH _ ih =>
    have hnext := hstep _ List.mem_cons_self _ _ hw hH
    exact ih (fun e he => hstep e (List.mem_cons_of_mem _ he)) hnext

end Admits

end Interaction
