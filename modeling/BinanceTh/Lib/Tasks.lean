import Mathlib.Data.List.Basic
import Mathlib.Data.Option.Basic

/-!
# Tasks that can be cancelled

The tasks of a cooperative scheduler, numbered in the order they are made. A cancel is a request: it
is thrown into the task where it stands, and the task ends as `cancelled` if it gets through. A
waiter is suspended in an await of a task. To cancel a waiter is to cancel its task; if that is done
already, the await itself is cancelled.

A table of tasks is read through `unfinished`, `cancelPending` and `outcome?`. Of each operation on
the table there is one lemma for each of them.
-/

namespace Tasks

variable {α ε : Type}

inductive Outcome (α ε : Type) where
  | returned (a : α)
  | raised (e : ε)
  | cancelled
  deriving DecidableEq

inductive Status (α ε : Type) where
  /-- Its first step is still to come. -/
  | scheduled
  | running
  | done (outcome : Outcome α ε)
  deriving DecidableEq

namespace Status

def isScheduled : Status α ε → Bool
  | .scheduled => true
  | _ => false

def isRunning : Status α ε → Bool
  | .running => true
  | _ => false

end Status

structure Task (α ε : Type) where
  status : Status α ε
  cancelRequested : Bool
  deriving DecidableEq

namespace Task

def outcome? (task : Task α ε) : Option (Outcome α ε) :=
  match task.status with
  | .done outcome => some outcome
  | _ => none

def unfinished (task : Task α ε) : Bool := task.outcome?.isNone

theorem unfinished_of_isScheduled {task : Task α ε} (h : task.status.isScheduled = true) :
    task.unfinished = true := by
  unfold unfinished outcome?
  cases hstatus : task.status with
  | done outcome => simp [hstatus, Status.isScheduled] at h
  | _ => simp

theorem unfinished_of_isRunning {task : Task α ε} (h : task.status.isRunning = true) :
    task.unfinished = true := by
  unfold unfinished outcome?
  cases hstatus : task.status with
  | done outcome => simp [hstatus, Status.isRunning] at h
  | _ => simp

/-- A task that is done cannot be cancelled. -/
def cancel (task : Task α ε) : Task α ε :=
  if task.unfinished then { task with cancelRequested := true } else task

@[simp] theorem outcome?_cancel (task : Task α ε) : task.cancel.outcome? = task.outcome? := by
  unfold cancel
  split <;> rfl

@[simp] theorem unfinished_cancel (task : Task α ε) : task.cancel.unfinished = task.unfinished := by
  simp [unfinished]

end Task

/-! ## Tables of tasks -/

def spawn (ts : List (Task α ε)) : List (Task α ε) := ts ++ [⟨.scheduled, false⟩]

def settle (ts : List (Task α ε)) (t : ℕ) (status : Status α ε) : List (Task α ε) :=
  ts.modify t fun task => { task with status }

def requestCancel (ts : List (Task α ε)) (t : ℕ) : List (Task α ε) := ts.modify t Task.cancel

def unfinished (ts : List (Task α ε)) (t : ℕ) : Bool := ts[t]?.any Task.unfinished

/-- A cancel of the task is on its way. -/
def cancelPending (ts : List (Task α ε)) (t : ℕ) : Bool :=
  ts[t]?.any fun task => task.unfinished && task.cancelRequested

def outcome? (ts : List (Task α ε)) (t : ℕ) : Option (Outcome α ε) := ts[t]?.bind Task.outcome?

variable {ts : List (Task α ε)} {t u : ℕ} {task : Task α ε} {outcome : Outcome α ε}

theorem unfinished_of_getElem? (h : ts[t]? = some task) : unfinished ts t = task.unfinished := by
  simp [unfinished, h]

theorem cancelPending_of_getElem? (h : ts[t]? = some task) :
    cancelPending ts t = (task.unfinished && task.cancelRequested) := by
  simp [cancelPending, h]

theorem outcome?_of_getElem? (h : ts[t]? = some task) : outcome? ts t = task.outcome? := by
  simp [outcome?, h]

theorem lt_length_of_unfinished (h : unfinished ts t = true) : t < ts.length := by
  by_contra hge
  rw [unfinished, List.getElem?_eq_none (Nat.le_of_not_lt hge)] at h
  cases h

theorem not_unfinished_of_outcome? (h : outcome? ts t = some outcome) : unfinished ts t = false := by
  obtain ⟨task, hget, hout⟩ := Option.bind_eq_some_iff.1 h
  simp [unfinished_of_getElem? hget, Task.unfinished, hout]

/-! ### A new task -/

theorem getElem?_spawn (ts : List (Task α ε)) (t : ℕ) :
    (spawn ts)[t]? = if t = ts.length then some ⟨.scheduled, false⟩ else ts[t]? := by
  unfold spawn
  rcases Nat.lt_trichotomy t ts.length with hlt | rfl | hgt
  · rw [List.getElem?_append_left hlt, if_neg (Nat.ne_of_lt hlt)]
  · simp
  · have hlong : (ts ++ [(⟨.scheduled, false⟩ : Task α ε)]).length ≤ t := by
      rw [List.length_append, List.length_singleton]
      omega
    rw [if_neg (Nat.ne_of_gt hgt), List.getElem?_eq_none hlong,
      List.getElem?_eq_none (Nat.le_of_lt hgt)]

theorem unfinished_spawn (ts : List (Task α ε)) (t : ℕ) :
    unfinished (spawn ts) t = true ↔ t = ts.length ∨ unfinished ts t = true := by
  unfold unfinished
  rw [getElem?_spawn]
  split
  · next h => simp [h, Task.unfinished, Task.outcome?]
  · next h => simp [h]

@[simp] theorem cancelPending_spawn (ts : List (Task α ε)) (t : ℕ) :
    cancelPending (spawn ts) t = cancelPending ts t := by
  unfold cancelPending
  rw [getElem?_spawn]
  split
  · next h => simp [h]
  · rfl

@[simp] theorem outcome?_spawn (ts : List (Task α ε)) (t : ℕ) :
    outcome? (spawn ts) t = outcome? ts t := by
  unfold outcome?
  rw [getElem?_spawn]
  split
  · next h => simp [h, Task.outcome?]
  · rfl

/-! ### A step of a task -/

theorem getElem?_settle {status : Status α ε} :
    (settle ts u status)[t]? =
      if u = t then ts[t]?.map fun task => { task with status } else ts[t]? := by
  unfold settle
  rw [List.getElem?_modify]
  split <;> simp [*]

theorem settle_of_ne {status : Status α ε} (h : t ≠ u) : (settle ts u status)[t]? = ts[t]? := by
  rw [getElem?_settle, if_neg h.symm]

/-- The first step of a task, if it does not end with it. -/
theorem begin_eq (h : ts[u]? = some task) (hunfinished : task.unfinished = true) (t : ℕ) :
    unfinished (settle ts u .running) t = unfinished ts t ∧
      cancelPending (settle ts u .running) t = cancelPending ts t ∧
      outcome? (settle ts u .running) t = outcome? ts t := by
  unfold unfinished cancelPending outcome?
  by_cases heq : t = u
  · subst heq
    have hbegun : ({ task with status := .running } : Task α ε).outcome? = none := rfl
    rw [Task.unfinished, Option.isNone_iff_eq_none] at hunfinished
    rw [getElem?_settle, if_pos rfl, h]
    simp [Task.unfinished, hbegun, hunfinished]
  · rw [settle_of_ne heq]
    simp

theorem unfinished_settle_done :
    unfinished (settle ts u (.done outcome)) t = true ↔ t ≠ u ∧ unfinished ts t = true := by
  unfold unfinished
  by_cases h : t = u
  · subst h
    rw [getElem?_settle, if_pos rfl]
    cases ts[t]? <;> simp [Task.unfinished, Task.outcome?]
  · rw [settle_of_ne h]
    simp [h]

theorem outcome?_settle_done (h : u < ts.length) :
    outcome? (settle ts u (.done outcome)) t = if t = u then some outcome else outcome? ts t := by
  unfold outcome?
  split
  · next heq =>
    subst heq
    rw [getElem?_settle, if_pos rfl, List.getElem?_eq_getElem h]
    rfl
  · next hne => rw [settle_of_ne hne]

theorem cancelPending_settle_done :
    cancelPending (settle ts u (.done outcome)) t = true ↔ t ≠ u ∧ cancelPending ts t = true := by
  unfold cancelPending
  by_cases h : t = u
  · subst h
    rw [getElem?_settle, if_pos rfl]
    cases ts[t]? <;> simp [Task.unfinished, Task.outcome?]
  · rw [settle_of_ne h]
    simp [h]

/-! ### A request to cancel -/

theorem getElem?_requestCancel :
    (requestCancel ts u)[t]? = if u = t then ts[t]?.map Task.cancel else ts[t]? := by
  unfold requestCancel
  rw [List.getElem?_modify]
  split <;> simp [*]

@[simp] theorem unfinished_requestCancel :
    unfinished (requestCancel ts u) t = unfinished ts t := by
  unfold unfinished
  rw [getElem?_requestCancel]
  split
  · cases ts[t]? <;> simp
  · rfl

@[simp] theorem outcome?_requestCancel : outcome? (requestCancel ts u) t = outcome? ts t := by
  unfold outcome?
  rw [getElem?_requestCancel]
  split
  · cases ts[t]? <;> simp
  · rfl

theorem cancelPending_requestCancel_of_ne (h : t ≠ u) :
    cancelPending (requestCancel ts u) t = cancelPending ts t := by
  unfold cancelPending
  rw [getElem?_requestCancel, if_neg h.symm]

/-! ## Waiters -/

structure Waiter where
  task : ℕ
  /-- It was cancelled when its task was done. -/
  mustCancel : Bool
  deriving DecidableEq

/-- What the await gives, once its task is done. -/
def Waiter.resume (waiter : Waiter) (outcome : Outcome α ε) : Outcome α ε :=
  if waiter.mustCancel then .cancelled else outcome

end Tasks
