import BinanceTh.Errors
import BinanceTh.Lib.Tasks
import BinanceTh.Lib.Transition
import BinanceTh.Models
import Mathlib.Logic.Function.Basic

/-!
# The listenKey manager

`create` of `RestListenKeyManager`: its callers share one task, kept in a slot, that runs
`_do_create`. A label is one step of the event loop: a caller enters `create`, a task takes its first
step, its POST is over, a caller wakes up from its await. Also, a caller is cancelled at any point of
its call, and the cancel of a task reaches its POST. `close` and the keepalive loop are no part of
it.
-/

namespace BinanceTh

open Tasks Transition Pydantic

structure ListenKey where
  listenKey : String
  symbolType : SymbolType
  deriving DecidableEq

/-- `ListenKey.model_validate(entry)`. -/
def ListenKey.decode (data : Dict Json) : Except Exc ListenKey := do
  let listenKey ← required str data "listenKey" "listen_key"
  let symbolType ← required (enum SymbolType.ofValue?) data "type" "symbol_type"
  pure { listenKey, symbolType }

/-- `_keys`. -/
abbrev ListenKeys : Type := SymbolType → Option String

/-- What is no object among the entries is skipped; of two keys of a type the last one stays. -/
def ListenKeys.decode (raw : Json) : Except Exc ListenKeys :=
  let entries := match raw with
    | .arr items => items
    | raw => [raw]
  entries.foldlM (fun keys entry => match entry with
    | .obj data => do
      let key ← ListenKey.decode data
      pure (Function.update keys key.symbolType (some key.listenKey))
    | _ => pure keys) fun _ => none

/-- `_keys.values()`, in the order of the types; the code has them in the order of the reply. -/
def ListenKeys.values (keys : ListenKeys) : List String :=
  [SymbolType.global, SymbolType.site].filterMap keys

theorem ListenKeys.mem_values {keys : ListenKeys} {key : String} :
    key ∈ keys.values ↔ ∃ symbolType, keys symbolType = some key := by
  rw [values, List.mem_filterMap]
  constructor
  · rintro ⟨symbolType, -, hkey⟩
    exact ⟨symbolType, hkey⟩
  · rintro ⟨symbolType, hkey⟩
    exact ⟨symbolType, by cases symbolType <;> simp, hkey⟩

def listenKeyAuthError : Exc :=
  .api (build .authError "API key required for the user-data stream" none none none [] none none)

/-- A call of `create` that awaits a task. -/
structure CreateCall where
  waiter : Waiter
  /-- It made the task, and clears the slot when it wakes up. -/
  maker : Bool
  /-- Its caller was cancelled during the call. -/
  cancelled : Bool
  result : Option (Outcome Unit Exc)

structure ListenKeyManager where
  keys : ListenKeys
  inflight : Option ℕ
  /-- The tasks of `_do_create`. -/
  tasks : List (Task Unit Exc)
  calls : List CreateCall

inductive ListenKeyLabel where
  | create
  /-- A task takes its first step. -/
  | begin (t : ℕ)
  /-- The POST of a task is over: the decoded body, or what was raised. -/
  | reply (t : ℕ) (raw : Except Exc Json)
  /-- `CancelledError` is thrown into the POST of a task. -/
  | aborted (t : ℕ)
  /-- A call goes on after its await. -/
  | wake (c : ℕ)
  /-- The caller of a call is cancelled. -/
  | cancel (c : ℕ)

/-- What `_do_create` stores. -/
def ListenKeyLabel.stores : ListenKeyLabel → Option ListenKeys
  | .reply _ raw =>
    match raw >>= ListenKeys.decode with
    | .ok keys => some keys
    | .error _ => none
  | _ => none

namespace ListenKeyManager

def new : ListenKeyManager := ⟨fun _ => none, none, [], []⟩

def keyFor (s : ListenKeyManager) (symbolType : SymbolType) : Option String := s.keys symbolType

/-- `await` of task `t` in a new call. -/
def await (s : ListenKeyManager) (t : ℕ) (maker : Bool) : ListenKeyManager :=
  { s with calls := s.calls ++ [⟨⟨t, false⟩, maker, false, none⟩] }

/-- The slot's task, if it is not done. -/
def shared? (s : ListenKeyManager) : Option ℕ := s.inflight.filter (unfinished s.tasks)

/-- `create` up to its await. -/
def create (s : ListenKeyManager) : ListenKeyManager :=
  match s.shared? with
  | some t => s.await t false
  | none =>
    let t := s.tasks.length
    { s with tasks := spawn s.tasks, inflight := some t }.await t true

def settleTask (s : ListenKeyManager) (t : ℕ) (status : Status Unit Exc) : ListenKeyManager :=
  { s with tasks := settle s.tasks t status }

/-- `_do_create` up to its POST. A task that was cancelled before does not start. -/
def beginTask (apiKey : Option String) (s : ListenKeyManager) (t : ℕ) (task : Task Unit Exc) :
    ListenKeyManager :=
  if task.cancelRequested then s.settleTask t (.done .cancelled)
  else if apiKey.isNone then s.settleTask t (.done (.raised listenKeyAuthError))
  else s.settleTask t .running

/-- `_do_create` after its POST. -/
def replyTask (s : ListenKeyManager) (t : ℕ) (raw : Except Exc Json) : ListenKeyManager :=
  match raw >>= ListenKeys.decode with
  | .ok keys => { s with keys }.settleTask t (.done (.returned ()))
  | .error exc => s.settleTask t (.done (.raised exc))

def updateCall (s : ListenKeyManager) (c : ℕ) (call : CreateCall) : ListenKeyManager :=
  { s with calls := s.calls.set c call }

/-- The rest of `create`, after an await of a task with the outcome. -/
def wakeCall (s : ListenKeyManager) (c : ℕ) (call : CreateCall) (outcome : Outcome Unit Exc) :
    ListenKeyManager :=
  { s with inflight := if call.maker then none else s.inflight }.updateCall c
    { call with result := some (call.waiter.resume outcome) }

/-- `cancel()` of the caller of a call: it goes on to the task that the call awaits. -/
def cancelCall (s : ListenKeyManager) (c : ℕ) (call : CreateCall) : ListenKeyManager :=
  if unfinished s.tasks call.waiter.task then
    { s with tasks := requestCancel s.tasks call.waiter.task }.updateCall c
      { call with cancelled := true }
  else s.updateCall c { call with cancelled := true, waiter := { call.waiter with mustCancel := true } }

/-- The call, if it is in its await. -/
def pending? (s : ListenKeyManager) (c : ℕ) : Option CreateCall :=
  s.calls[c]?.filter fun call => call.result.isNone

def step (apiKey : Option String) (s : ListenKeyManager) : ListenKeyLabel → Option ListenKeyManager
  | .create => some s.create
  | .begin t => do
    let task ← s.tasks[t]?
    if task.status.isScheduled then some (s.beginTask apiKey t task) else none
  | .reply t raw => do
    let task ← s.tasks[t]?
    if task.status.isRunning then some (s.replyTask t raw) else none
  | .aborted t => do
    let task ← s.tasks[t]?
    if task.status.isRunning && task.cancelRequested then some (s.settleTask t (.done .cancelled))
    else none
  | .wake c => do
    let call ← s.pending? c
    let outcome ← outcome? s.tasks call.waiter.task
    some (s.wakeCall c call outcome)
  | .cancel c => do
    let call ← s.pending? c
    some (s.cancelCall c call)

def system (apiKey : Option String) : System ListenKeyManager ListenKeyLabel where
  init := new
  step s l := s.step apiKey l

/-! ## What a step does -/

/-- The steps of the manager: two of callers that enter `create`, two of tasks, one of a call that
wakes up and two of callers that are cancelled. -/
inductive Steps (s : ListenKeyManager) : ListenKeyLabel → ListenKeyManager → Prop
  | join {t : ℕ} : s.inflight = some t → unfinished s.tasks t = true →
      Steps s .create (s.await t false)
  | make : (∀ t ∈ s.inflight, unfinished s.tasks t = false) →
      Steps s .create
        ({ s with tasks := spawn s.tasks, inflight := some s.tasks.length }.await s.tasks.length true)
  | begin {t : ℕ} {task : Task Unit Exc} : s.tasks[t]? = some task → task.unfinished = true →
      Steps s (.begin t) (s.settleTask t .running)
  | finish {l : ListenKeyLabel} {t : ℕ} {task : Task Unit Exc} (keys : ListenKeys)
      (outcome : Outcome Unit Exc) : s.tasks[t]? = some task → task.unfinished = true →
      (outcome = .cancelled → task.cancelRequested = true) →
      Steps s l ({ s with keys }.settleTask t (.done outcome))
  | wake {c : ℕ} {call : CreateCall} {outcome : Outcome Unit Exc} : s.calls[c]? = some call →
      call.result = none → outcome? s.tasks call.waiter.task = some outcome →
      Steps s (.wake c) (s.wakeCall c call outcome)
  | cancel {c : ℕ} {call : CreateCall} : s.calls[c]? = some call → call.result = none →
      unfinished s.tasks call.waiter.task = true →
      Steps s (.cancel c)
        ({ s with tasks := requestCancel s.tasks call.waiter.task }.updateCall c
          { call with cancelled := true })
  | cancelLate {c : ℕ} {call : CreateCall} : s.calls[c]? = some call → call.result = none →
      unfinished s.tasks call.waiter.task = false →
      Steps s (.cancel c)
        (s.updateCall c
          { call with cancelled := true, waiter := { call.waiter with mustCancel := true } })

theorem pending?_eq_some_iff {s : ListenKeyManager} {c : ℕ} {call : CreateCall} :
    s.pending? c = some call ↔ s.calls[c]? = some call ∧ call.result = none := by
  unfold pending?
  rw [Option.filter_eq_some_iff, Option.isNone_iff_eq_none]

theorem steps_create (s : ListenKeyManager) : Steps s .create s.create := by
  unfold create
  split
  · next t h =>
    obtain ⟨hslot, hun⟩ := Option.filter_eq_some_iff.1 h
    exact .join hslot hun
  · next h =>
    refine .make fun t ht => ?_
    have hslot := Option.mem_def.1 ht
    simpa [shared?, hslot] using h

/-- **What a step of the manager does.** -/
theorem steps_of_step {apiKey : Option String} {s s' : ListenKeyManager} {l : ListenKeyLabel}
    (h : s.step apiKey l = some s') : Steps s l s' := by
  cases l with
  | create =>
    obtain rfl := Option.some.inj h
    exact steps_create s
  | begin t =>
    obtain ⟨task, hget, h⟩ := Option.bind_eq_some_iff.1 h
    obtain ⟨hsched, h⟩ := Option.ite_none_right_eq_some.1 h
    obtain rfl := Option.some.inj h
    have hun : task.unfinished = true := Task.unfinished_of_isScheduled hsched
    unfold beginTask
    split
    · next hreq => exact .finish s.keys .cancelled hget hun fun _ => hreq
    · split
      · exact .finish s.keys _ hget hun nofun
      · exact .begin hget hun
  | reply t raw =>
    obtain ⟨task, hget, h⟩ := Option.bind_eq_some_iff.1 h
    obtain ⟨hrunning, h⟩ := Option.ite_none_right_eq_some.1 h
    obtain rfl := Option.some.inj h
    have hun : task.unfinished = true := Task.unfinished_of_isRunning hrunning
    unfold replyTask
    split
    · next keys _ => exact .finish keys _ hget hun nofun
    · exact .finish s.keys _ hget hun nofun
  | aborted t =>
    obtain ⟨task, hget, h⟩ := Option.bind_eq_some_iff.1 h
    obtain ⟨hcond, h⟩ := Option.ite_none_right_eq_some.1 h
    obtain rfl := Option.some.inj h
    rw [Bool.and_eq_true] at hcond
    obtain ⟨hrunning, hreq⟩ := hcond
    exact .finish s.keys .cancelled hget (Task.unfinished_of_isRunning hrunning) fun _ => hreq
  | wake c =>
    obtain ⟨call, hpending, h⟩ := Option.bind_eq_some_iff.1 h
    obtain ⟨outcome, hout, h⟩ := Option.bind_eq_some_iff.1 h
    obtain rfl := Option.some.inj h
    obtain ⟨hget, hres⟩ := pending?_eq_some_iff.1 hpending
    exact .wake hget hres hout
  | cancel c =>
    obtain ⟨call, hpending, h⟩ := Option.bind_eq_some_iff.1 h
    obtain rfl := Option.some.inj h
    obtain ⟨hget, hres⟩ := pending?_eq_some_iff.1 hpending
    unfold cancelCall
    split
    · next hun => exact .cancel hget hres hun
    · next hun => exact .cancelLate hget hres (Bool.eq_false_iff.2 hun)

/-- A reply stores what it carries; no other step of the manager changes the keys. -/
theorem keys_step {apiKey : Option String} {s s' : ListenKeyManager} {l : ListenKeyLabel}
    (h : s.step apiKey l = some s') : s'.keys = l.stores.getD s.keys := by
  cases l with
  | create =>
    obtain rfl := Option.some.inj h
    unfold create
    split <;> rfl
  | begin t =>
    obtain ⟨task, -, h⟩ := Option.bind_eq_some_iff.1 h
    obtain ⟨-, h⟩ := Option.ite_none_right_eq_some.1 h
    obtain rfl := Option.some.inj h
    unfold beginTask
    split
    · rfl
    · split <;> rfl
  | reply t raw =>
    obtain ⟨task, -, h⟩ := Option.bind_eq_some_iff.1 h
    obtain ⟨-, h⟩ := Option.ite_none_right_eq_some.1 h
    obtain rfl := Option.some.inj h
    unfold replyTask ListenKeyLabel.stores
    dsimp only
    split <;> rfl
  | aborted t =>
    obtain ⟨task, -, h⟩ := Option.bind_eq_some_iff.1 h
    obtain ⟨-, h⟩ := Option.ite_none_right_eq_some.1 h
    obtain rfl := Option.some.inj h
    rfl
  | wake c =>
    obtain ⟨call, -, h⟩ := Option.bind_eq_some_iff.1 h
    obtain ⟨outcome, -, h⟩ := Option.bind_eq_some_iff.1 h
    obtain rfl := Option.some.inj h
    rfl
  | cancel c =>
    obtain ⟨call, -, h⟩ := Option.bind_eq_some_iff.1 h
    obtain rfl := Option.some.inj h
    unfold cancelCall
    split <;> rfl

/-- The answer with one key for each symbol type. -/
def listenKeyReply : Except Exc Json :=
  .ok (.arr [.obj [("listenKey", .str "global-key"), ("type", .str "GLOBAL")],
    .obj [("listenKey", .str "site-key"), ("type", .str "SITE")]])

end ListenKeyManager

end BinanceTh
