import BinanceTh.Lib.Tasks
import BinanceTh.Lib.Transition

/-!
# Closing an object with a background task

`start` and `aclose` of `ManagedOrderBook` (`orderbook.py`) and of `OrderTracker`
(`ordertracker.py`). Both hold a stream, a task that reads it, and a callback that gives the
subscription back; they differ in the name of the stream. `aclose` awaits the cancelled task before
it closes the stream and runs the callback, and that await passes on everything but the
cancellation, so what is left to do then waits for the next call (`released_iff`).
-/

namespace BinanceTh

open Tasks Transition

/-- The attribute that holds the stream. -/
inductive StreamField where
  /-- `ManagedOrderBook._deltas`. -/
  | deltas
  /-- `OrderTracker._events`. -/
  | events
  deriving DecidableEq

/-- What a call of `aclose` does besides awaiting the task. -/
inductive CloseStep where
  /-- The `aclose` of the stream is awaited. -/
  | closed (stream : StreamField)
  /-- `on_close` is awaited. -/
  | onClose
  deriving DecidableEq

/-- How what a call awaits goes out: the cancelled task, if it is running, the `aclose` of the
stream and `on_close`. An `ε` is an exception other than `CancelledError`. -/
structure CloseOutcomes (ε : Type) where
  task : Outcome Unit ε
  stream : Outcome Unit ε
  onClose : Outcome Unit ε

/-- A call of `aclose` that has ended. -/
structure CloseCall (ε : Type) where
  steps : List CloseStep
  outcome : Outcome Unit ε
  deriving DecidableEq

structure Managed (ε : Type) where
  stream : StreamField
  /-- The stream has an `aclose`. -/
  closable : Bool
  /-- `_task`. -/
  task : Option (Status Unit ε)
  /-- `_on_close` is there. -/
  onClose : Bool
  /-- The calls of `aclose`, in their order. -/
  closes : List (CloseCall ε)

inductive ManagedLabel (ε : Type) where
  | start
  /-- The first step of the task. -/
  | began
  /-- The task ends by itself. -/
  | ended (outcome : Outcome Unit ε)
  | aclose (outcomes : CloseOutcomes ε)

namespace Managed

variable {ε : Type}

/-- `ManagedOrderBook(...)`. -/
def orderBook (closable onClose : Bool) : Managed ε :=
  { stream := .deltas, closable, task := none, onClose, closes := [] }

/-- `OrderTracker(...)`. -/
def orderTracker (closable onClose : Bool) : Managed ε :=
  { stream := .events, closable, task := none, onClose, closes := [] }

def start (m : Managed ε) : Managed ε :=
  if m.task.isNone then { m with task := some .scheduled } else m

/-- `await task`, after its `cancel`. A task that is cancelled before its first step ends with it. -/
def awaitTask (task : Option (Status Unit ε)) (ending : Outcome Unit ε) : Outcome Unit ε :=
  match task with
  | none => .returned ()
  | some .scheduled => .cancelled
  | some .running => ending
  | some (.done outcome) => outcome

/-- `suppress(asyncio.CancelledError)`. -/
def suppressCancelled : Outcome Unit ε → Outcome Unit ε
  | .cancelled => .returned ()
  | outcome => outcome

/-- `suppress(Exception)`. -/
def suppressException (isException : ε → Bool) : Outcome Unit ε → Outcome Unit ε
  | .raised e => if isException e then .returned () else .raised e
  | outcome => outcome

/-- What the call raises of the stream's `aclose`, where there is one. -/
def closeStream (isException : ε → Bool) (m : Managed ε) (t : CloseOutcomes ε) : Outcome Unit ε :=
  if m.closable then suppressException isException t.stream else .returned ()

def streamSteps (m : Managed ε) : List CloseStep := if m.closable then [.closed m.stream] else []

/-- The `aclose` of both classes. -/
def aclose (isException : ε → Bool) (m : Managed ε) (t : CloseOutcomes ε) : Managed ε :=
  match suppressCancelled (awaitTask m.task t.task) with
  | .returned () =>
    match m.closeStream isException t with
    | .returned () =>
      let steps := m.streamSteps ++ if m.onClose then [.onClose] else []
      let outcome := if m.onClose then t.onClose else .returned ()
      { m with task := none, onClose := false, closes := m.closes ++ [⟨steps, outcome⟩] }
    | outcome => { m with task := none, closes := m.closes ++ [⟨m.streamSteps, outcome⟩] }
  | outcome => { m with task := none, closes := m.closes ++ [⟨[], outcome⟩] }

def step (isException : ε → Bool) (m : Managed ε) : ManagedLabel ε → Option (Managed ε)
  | .start => some m.start
  | .began =>
    if m.task.any Status.isScheduled then some { m with task := some .running } else none
  | .ended outcome =>
    if m.task.any Status.isRunning then some { m with task := some (.done outcome) } else none
  | .aclose t => some (m.aclose isException t)

def system (isException : ε → Bool) (m : Managed ε) : System (Managed ε) (ManagedLabel ε) where
  init := m
  step := step isException

variable {isException : ε → Bool} {m s : Managed ε} {t : CloseOutcomes ε}

/-! ## One call -/

/-- Nothing that the call awaits before `on_close` raises past it: the task has not failed and does
not fail when it is cancelled, and its stream's `aclose` raises nothing but an `Exception`. -/
structure Quiet (isException : ε → Bool) (m : Managed ε) (t : CloseOutcomes ε) : Prop where
  task : ∀ e, m.task ≠ some (.done (.raised e))
  cancelled : m.task = some .running → ∀ e, t.task ≠ .raised e
  stream : m.closable = true → t.stream ≠ .cancelled ∧
    ∀ e, t.stream = .raised e → isException e = true

theorem suppressCancelled_eq_returned_iff {outcome : Outcome Unit ε} :
    suppressCancelled outcome = .returned () ↔ ∀ e, outcome ≠ .raised e := by
  cases outcome with
  | returned a => simp [suppressCancelled]
  | raised e => simp [suppressCancelled]
  | cancelled => simp [suppressCancelled]

theorem suppressException_eq_returned_iff {outcome : Outcome Unit ε} :
    suppressException isException outcome = .returned () ↔
      outcome ≠ .cancelled ∧ ∀ e, outcome = .raised e → isException e = true := by
  cases outcome with
  | returned a => simp [suppressException]
  | raised e =>
    cases h : isException e with
    | true => simp [suppressException, h]
    | false => simp [suppressException, h]
  | cancelled => simp [suppressException]

theorem quiet_iff :
    Quiet isException m t ↔ suppressCancelled (awaitTask m.task t.task) = .returned () ∧
      m.closeStream isException t = .returned () := by
  have hstream : m.closeStream isException t = .returned () ↔ (m.closable = true →
      t.stream ≠ .cancelled ∧ ∀ e, t.stream = .raised e → isException e = true) := by
    unfold closeStream
    cases m.closable with
    | true => simp [suppressException_eq_returned_iff]
    | false => simp
  rw [hstream, suppressCancelled_eq_returned_iff]
  constructor
  · rintro ⟨htask, hcancelled, hstream⟩
    refine ⟨fun e he => ?_, hstream⟩
    cases hm : m.task with
    | none => simp [awaitTask, hm] at he
    | some status =>
      cases status with
      | scheduled => simp [awaitTask, hm] at he
      | running => exact hcancelled hm e (by rw [hm] at he; exact he)
      | done outcome =>
        rw [hm] at he
        exact htask e (by rw [hm, show outcome = .raised e from he])
  · rintro ⟨hawait, hstream⟩
    refine ⟨fun e he => hawait e (by rw [he]; rfl), fun hrun e he => hawait e ?_, hstream⟩
    rw [hrun]
    exact he

/-- **A quiet call** does everything that is left to do. -/
theorem aclose_of_quiet (h : Quiet isException m t) :
    m.aclose isException t = { m with
      task := none, onClose := false
      closes := m.closes ++ [⟨m.streamSteps ++ if m.onClose then [.onClose] else [],
        if m.onClose then t.onClose else .returned ()⟩] } := by
  obtain ⟨htask, hstream⟩ := quiet_iff.1 h
  unfold aclose
  rw [htask]
  dsimp only
  rw [hstream]

theorem onClose_not_mem_streamSteps (m : Managed ε) : .onClose ∉ m.streamSteps := by
  unfold streamSteps
  split <;> simp

/-- **Any other call** ends before `on_close` and keeps it. -/
theorem aclose_of_not_quiet (h : ¬ Quiet isException m t) :
    ∃ call, m.aclose isException t = { m with task := none, closes := m.closes ++ [call] } ∧
      .onClose ∉ call.steps := by
  unfold aclose
  split
  · next htask =>
    split
    · next hstream => exact absurd (quiet_iff.2 ⟨htask, hstream⟩) h
    · exact ⟨_, rfl, onClose_not_mem_streamSteps m⟩
  · exact ⟨_, rfl, by simp⟩

/-! ## A run after the first call -/

/-- `on_close` has run once, in the first call of `aclose`, which has closed the stream too. -/
def Released (m s : Managed ε) : Prop :=
  ∃ first rest, s.closes = first :: rest ∧ first.steps.count .onClose = 1 ∧
    (m.closable = true → .closed m.stream ∈ first.steps) ∧ ∀ call ∈ rest, .onClose ∉ call.steps

/-- **What a step does to the calls**: nothing, or it is one. -/
theorem step_cases {l : ManagedLabel ε} {s' : Managed ε} (h : s.step isException l = some s') :
    s'.closes = s.closes ∧ s'.onClose = s.onClose ∨ ∃ t, s' = s.aclose isException t := by
  cases l with
  | start =>
    obtain rfl := Option.some.inj h
    left
    unfold start
    split <;> exact ⟨rfl, rfl⟩
  | began =>
    obtain ⟨-, heq⟩ := Option.ite_none_right_eq_some.1 h
    obtain rfl := Option.some.inj heq
    exact .inl ⟨rfl, rfl⟩
  | ended outcome =>
    obtain ⟨-, heq⟩ := Option.ite_none_right_eq_some.1 h
    obtain rfl := Option.some.inj heq
    exact .inl ⟨rfl, rfl⟩
  | aclose t => exact .inr ⟨t, (Option.some.inj h).symm⟩

/-- Calls are only added to the end. -/
theorem prefix_of_step {l : ManagedLabel ε} {s' : Managed ε} (h : s.step isException l = some s') :
    s.closes <+: s'.closes := by
  obtain ⟨hcloses, -⟩ | ⟨t, rfl⟩ := step_cases h
  · exact hcloses ▸ List.prefix_rfl
  · by_cases hquiet : Quiet isException s t
    · rw [aclose_of_quiet hquiet]
      exact List.prefix_append _ _
    · obtain ⟨call, hclose, -⟩ := aclose_of_not_quiet hquiet
      rw [hclose]
      exact List.prefix_append _ _

/-- The first call has taken `on_close`, and no later one has run it. -/
structure Taken (first : CloseCall ε) (s : Managed ε) : Prop where
  onClose : s.onClose = false
  closes : ∃ rest, s.closes = first :: rest ∧ ∀ call ∈ rest, .onClose ∉ call.steps

theorem Taken.step {first : CloseCall ε} {l : ManagedLabel ε} {s' : Managed ε} (h : Taken first s)
    (hstep : s.step isException l = some s') : Taken first s' := by
  obtain ⟨honClose, rest, hcloses, hrest⟩ := h
  have hadd : ∀ call : CloseCall ε, .onClose ∉ call.steps →
      ∃ rest, s.closes ++ [call] = first :: rest ∧ ∀ call ∈ rest, .onClose ∉ call.steps := by
    intro call hcall
    refine ⟨rest ++ [call], by rw [hcloses, List.cons_append], fun c hc => ?_⟩
    rcases List.mem_append.1 hc with hc | hc
    · exact hrest c hc
    · rw [List.mem_singleton.1 hc]
      exact hcall
  obtain ⟨hsame, hflag⟩ | ⟨t, rfl⟩ := step_cases hstep
  · exact ⟨hflag.trans honClose, rest, hsame.trans hcloses, hrest⟩
  · by_cases hquiet : Quiet isException s t
    · rw [aclose_of_quiet hquiet, honClose]
      refine ⟨rfl, hadd _ ?_⟩
      simpa using onClose_not_mem_streamSteps s
    · obtain ⟨call, hclose, hcall⟩ := aclose_of_not_quiet hquiet
      rw [hclose]
      exact ⟨honClose, hadd call hcall⟩

/-- The first call of `aclose` in any state of the task, and whatever follows it: starts, steps of
later tasks, and any number of further calls. The subscription is released by the first call iff
that call is quiet. -/
theorem released_iff (hcloses : m.closes = []) (honClose : m.onClose = true)
    (ls : List (ManagedLabel ε))
    (hrun : (system isException m).run (m.aclose isException t) ls = some s) :
    Released m s ↔ Quiet isException m t := by
  constructor
  · rintro ⟨first, rest, hs, hcount, -, -⟩
    by_contra hquiet
    obtain ⟨call, hclose, hcall⟩ := aclose_of_not_quiet hquiet
    have hinitial : [call] <+: s.closes := by
      refine System.run_invariant (I := fun s => [call] <+: s.closes) (C := fun _ _ => True)
        (fun s l s' hs _ hstep => hs.trans (prefix_of_step hstep)) ls ?_
        (System.guarded_of_forall ls (fun _ _ => trivial) _) hrun
      rw [hclose, hcloses]
      exact List.prefix_rfl
    rw [hs, List.cons_prefix_cons] at hinitial
    rw [← hinitial.1, List.count_eq_zero_of_not_mem hcall] at hcount
    cases hcount
  · intro hquiet
    have hsteps : m.streamSteps ++ [.onClose] =
        m.streamSteps ++ if m.onClose then [CloseStep.onClose] else [] := by rw [honClose]; rfl
    have htaken : Taken ⟨m.streamSteps ++ [.onClose], t.onClose⟩ s := by
      refine System.run_invariant (C := fun _ _ => True) (fun s l s' hs _ hstep => hs.step hstep)
        ls ?_ (System.guarded_of_forall ls (fun _ _ => trivial) _) hrun
      rw [aclose_of_quiet hquiet, hcloses, ← hsteps, honClose]
      exact ⟨rfl, [], rfl, fun call hcall => by cases hcall⟩
    obtain ⟨-, rest, hs, hrest⟩ := htaken
    refine ⟨_, rest, hs, ?_, fun hclosable => ?_, hrest⟩
    · unfold streamSteps
      split <;> simp
    · rw [streamSteps, if_pos hclosable]
      simp

/-- Nothing goes wrong in the call. -/
def cleanOutcomes : CloseOutcomes String :=
  { task := .cancelled, stream := .returned (), onClose := .returned () }

/-- A book that is closed twice while its task runs. -/
theorem released_running :
    ∃ m s : Managed String,
      (system (fun _ => true) (orderBook true true)).run (orderBook true true) [.start, .began] =
          some m ∧
        (system (fun _ => true) m).run (m.aclose (fun _ => true) cleanOutcomes)
          [.aclose cleanOutcomes] = some s ∧
        Released m s := by
  refine ⟨_, _, rfl, rfl, (released_iff rfl rfl [.aclose cleanOutcomes] rfl).2 ?_⟩
  refine ⟨fun e he => ?_, fun _ e he => ?_, fun _ => ⟨fun hstream => ?_, fun e _ => rfl⟩⟩
  · cases he
  · cases he
  · cases hstream

/-- A tracker whose task has failed on its `openOrders` request: the first call raises that error
and releases nothing, the second does all of it. -/
theorem not_released_failed :
    ∃ m s : Managed String,
      (system (fun _ => true) (orderTracker true true)).run (orderTracker true true)
          [.start, .began, .ended (.raised "openOrders failed")] = some m ∧
        (system (fun _ => true) m).run (m.aclose (fun _ => true) cleanOutcomes)
          [.aclose cleanOutcomes] = some s ∧
        s.closes = [⟨[], .raised "openOrders failed"⟩,
          ⟨[.closed .events, .onClose], .returned ()⟩] ∧
        ¬ Released m s := by
  refine ⟨_, _, rfl, rfl, rfl, ?_⟩
  rintro ⟨first, rest, hs, hcount, -⟩
  obtain ⟨rfl, -⟩ := List.cons.inj hs
  cases hcount

end Managed

end BinanceTh
