import BinanceTh.Lib.Transition
import BinanceTh.RateLimit
import BinanceTh.Transport.RetryAfter

/-!
# Requests that share a transport

Any number of tasks use one transport: its limiter, its offset manager and its clock are shared,
each request has a retry loop of its own. A step is one pass of `acquire` with the transmission that
follows if it admits, one reply with what the code does up to its next await, or the end of one
sleep. What is sent does not matter here, only when, and to which windows it was charged.

A reply that raises a rate-limit or IP-ban exception with a `Retry-After` puts its own task to
sleep; nothing tells the limiter. During the pause the passes of other tasks are admitted wherever
there is room (`run_hardStopped_iff`).
-/

namespace BinanceTh

open Transition

abbrev WindowKey : Type := RateLimitType × RateLimitInterval × ℤ

/-- The windows that a call charges. -/
def Limiter.charged (weight : ℤ) (mutating : Bool) (l : Limiter ℚ) : List WindowKey :=
  l.filterMap fun w => (w.charge? weight mutating).map fun _ => w.key

/-! ## One task -/

/-- Which request of a task is under way. -/
inductive Role where
  /-- The call's own; `resynced` after a timestamp error. -/
  | main (resynced : Bool)
  /-- The synchronization at the start of `_execute`. -/
  | sync
  /-- The resync after a timestamp error. -/
  | resync
  /-- A `sync_time` that a client calls. -/
  | syncTime
  deriving DecidableEq

namespace Role

/-- The first request of an attempt. -/
def first (call : Call) (sync : TimeSync) : Role :=
  if call.signed && !sync.synced then .sync else .main false

/-- What the role's request asks `acquire` for. -/
def call (role : Role) (call : Call) : Call :=
  match role with
  | .main _ => call
  | _ => Transport.timeCall

/-- The result of the role's exchange: the server's time, if that was asked for. -/
def outcome (T : Transport) (call : Call) (role : Role) (net : NetResult) :
    Except Exc (Option ServerTime) :=
  match role with
  | .main _ => (T.outcome call net).map fun _ => none
  | _ => (T.timeOutcome net).map some

/-- The error is one of the attempt's first `execute`, and `attempt` answers it with a resync. -/
def resyncs (role : Role) (call : Call) (e : Exc) : Bool :=
  match role with
  | .main false | .sync => Transport.needsResync call e
  | _ => false

end Role

/-- Where a task is suspended. -/
inductive Phase where
  /-- In `acquire`, whose next pass is at `wake` or later. -/
  | acquiring (role : Role) (wake : ℚ)
  | inFlight (role : Role) (charged : List WindowKey)
  /-- In the retryer's sleep. -/
  | sleeping (wake : ℚ)
  | finished

/-- What follows a synchronization. -/
def Role.synced (role : Role) (now : ℚ) : Phase :=
  match role with
  | .sync => .acquiring (.main false) now
  | .resync => .acquiring (.main true) now
  | _ => .finished

structure RequestTask where
  call : Call
  maxRetries : ℕ
  attempt : ℕ
  phase : Phase

/-- What the retryer does with the error of an attempt; `jitter` is the delay it draws for an error
without a `Retry-After`. -/
def RequestTask.failed (T : Transport) (task : RequestTask) (e : Exc) (now jitter : ℚ) : Phase :=
  if task.attempt < task.maxRetries ∧ isRetryable task.call.mutating e = true then
    if T.retryer.delayOverflows e task.attempt then .finished
    else
      match e.retryAfter? with
      | some r => .sleeping (now + r)
      | none => .sleeping (now + jitter)
  else .finished

/-! ## The transport -/

/-- The reply at `time` to a request of the task raised a rate-limit or IP-ban exception. -/
structure Halt where
  task : ℕ
  time : ℚ
  retryAfter : ℤ
  charged : List WindowKey
  deriving DecidableEq

/-- When the pause ends. -/
def Halt.resume (halt : Halt) : ℚ := halt.time + halt.retryAfter

structure Transmission where
  task : ℕ
  time : ℚ
  charged : List WindowKey
  deriving DecidableEq

/-- The transport with its tasks; `halts` and `transmissions` are a log that the code does not
keep. -/
structure SharedTransport where
  now : ℚ
  windows : Limiter ℚ
  sync : TimeSync
  tasks : List RequestTask
  halts : List Halt
  transmissions : List Transmission

inductive SharedLabel where
  | tick (seconds : ℚ)
  /-- A task calls `request`, or `sync_time`. -/
  | request (call : Call)
  | syncTime
  | reseed (rateLimits : List RateLimit)
  /-- A pass of `acquire`. -/
  | pass (i : ℕ)
  /-- The HTTP client's answer, with the reading of the local clock and the delay, where they are
  asked for. -/
  | reply (i : ℕ) (net : NetResult) (clock : ℤ) (jitter : ℚ)
  /-- The end of the retryer's sleep. -/
  | wake (i : ℕ)
  | cancel (i : ℕ)

/-- The `retry_after` of a rate-limit or an IP-ban error. -/
def Exc.halt? : Exc → Option ℤ
  | .api e => if e.cls = .rateLimitError ∨ e.cls = .ipBannedError then e.retryAfter else none
  | _ => none

namespace SharedTransport

def become (s : SharedTransport) (i : ℕ) (task : RequestTask) : SharedTransport :=
  { s with tasks := s.tasks.set i task }

/-- `request`: without the credentials that it needs it raises at once. -/
def requested (T : Transport) (s : SharedTransport) (call : Call) : RequestTask where
  call := call
  maxRetries := T.retryer.retries T.config.maxRetries
  attempt := 0
  phase := if call.signed && !T.canSign then .finished else .acquiring (.first call s.sync) s.now

/-- One pass of `acquire`; a window without length raises, and nothing retries that. -/
def passed (s : SharedTransport) (i : ℕ) (task : RequestTask) (role : Role) : SharedTransport :=
  let call := role.call task.call
  match s.windows.acquireStep call.weight call.mutating s.now with
  | .ok (.admitted, windows) =>
    let charged := s.windows.charged call.weight call.mutating
    { s.become i { task with phase := .inFlight role charged } with
      windows, transmissions := s.transmissions ++ [⟨i, s.now, charged⟩] }
  | .ok (.wait seconds, windows) =>
    { s.become i { task with phase := .acquiring role (s.now + seconds) } with windows }
  | .error _ =>
    { s.become i { task with phase := .finished } with
      windows := s.windows.rollUntilRaised call.weight call.mutating s.now }

/-- `update_from_headers`, which only a reply leads to. -/
def reconciled (s : SharedTransport) : NetResult → Limiter ℚ × Except Exc Unit
  | .response reply => s.windows.updateFromHeaders s.now reply.headers
  | _ => (s.windows, .ok ())

/-- What the task does with an answer, up to its next await. -/
def answered (T : Transport) (s : SharedTransport) (i : ℕ) (task : RequestTask) (role : Role)
    (charged : List WindowKey) (net : NetResult) (clock : ℤ) (jitter : ℚ) : SharedTransport :=
  let (windows, read) := s.reconciled net
  match read >>= fun _ => role.outcome T task.call net with
  | .ok none => { s.become i { task with phase := .finished } with windows }
  | .ok (some time) =>
    { s.become i { task with phase := role.synced s.now } with
      windows, sync := s.sync.update time.serverTime clock }
  | .error e =>
    let phase :=
      if role.resyncs task.call e then .acquiring .resync s.now else task.failed T e s.now jitter
    { s.become i { task with phase } with
      windows, halts := s.halts ++ (e.halt?.map fun r => ⟨i, s.now, r, charged⟩).toList }

def step (T : Transport) (s : SharedTransport) : SharedLabel → Option SharedTransport
  | .tick seconds => if 0 ≤ seconds then some { s with now := s.now + seconds } else none
  | .request call => some { s with tasks := s.tasks ++ [s.requested T call] }
  | .syncTime => some { s with
      tasks := s.tasks ++ [⟨Transport.timeCall, 0, 0, .acquiring .syncTime s.now⟩] }
  | .reseed rateLimits => some { s with windows := s.windows.reseed rateLimits }
  | .pass i => s.tasks[i]?.bind fun task =>
    match task.phase with
    | .acquiring role wake => if wake ≤ s.now then some (s.passed i task role) else none
    | _ => none
  | .reply i net clock jitter => s.tasks[i]?.bind fun task =>
    match task.phase with
    | .inFlight role charged => some (s.answered T i task role charged net clock jitter)
    | _ => none
  | .wake i => s.tasks[i]?.bind fun task =>
    match task.phase with
    | .sleeping wake =>
      if wake ≤ s.now then some <| s.become i { task with
        attempt := task.attempt + 1, phase := .acquiring (.first task.call s.sync) s.now }
      else none
    | _ => none
  | .cancel i => s.tasks[i]?.map fun task => s.become i { task with phase := .finished }

def system (T : Transport) (start : ℚ) (windows : List (Window ℚ)) (sync : TimeSync) :
    System SharedTransport SharedLabel where
  init := ⟨start, .ofWindows windows, sync, [], [], []⟩
  step := step T

/-- Two requests are charged to one window. -/
def SharesWindow (charged charged' : List WindowKey) : Prop := ∃ key ∈ charged, key ∈ charged'

/-- No request that is charged to a window of the answered one is transmitted during its pause. -/
def HardStopped (s : SharedTransport) : Prop :=
  ∀ halt ∈ s.halts, ∀ x ∈ s.transmissions, SharesWindow halt.charged x.charged →
    halt.time < x.time → halt.resume ≤ x.time

/-- A pass of another task during a pause, for a request that is charged to a window of the answered
one, does not find room. -/
def Withheld (s : SharedTransport) : SharedLabel → Prop
  | .pass i => ∀ task role wake, s.tasks[i]? = some task → task.phase = .acquiring role wake →
    let call := role.call task.call
    ∀ halt ∈ s.halts, halt.task ≠ i →
      SharesWindow halt.charged (s.windows.charged call.weight call.mutating) →
      halt.time < s.now → s.now < halt.resume →
      ¬ Limiter.HasRoom call.weight call.mutating s.windows s.now
  | _ => True

/-! ## The steps -/

variable {T : Transport} {s s' : SharedTransport} {i : ℕ}

theorem step_tick {seconds : ℚ} (h : s.step T (.tick seconds) = some s') :
    0 ≤ seconds ∧ s' = { s with now := s.now + seconds } := by
  rw [step] at h
  split at h
  · next hnonneg => exact ⟨hnonneg, (Option.some.inj h).symm⟩
  · cases h

theorem step_pass (h : s.step T (.pass i) = some s') :
    ∃ task role wake, s.tasks[i]? = some task ∧ task.phase = .acquiring role wake ∧
      wake ≤ s.now ∧ s' = s.passed i task role := by
  obtain ⟨task, hget, h⟩ := Option.bind_eq_some_iff.1 h
  split at h
  · next role wake hphase =>
    split at h
    · next hwake => exact ⟨task, role, wake, hget, hphase, hwake, (Option.some.inj h).symm⟩
    · cases h
  · cases h

theorem step_reply {net : NetResult} {clock : ℤ} {jitter : ℚ}
    (h : s.step T (.reply i net clock jitter) = some s') :
    ∃ task role charged, s.tasks[i]? = some task ∧ task.phase = .inFlight role charged ∧
      s' = s.answered T i task role charged net clock jitter := by
  obtain ⟨task, hget, h⟩ := Option.bind_eq_some_iff.1 h
  split at h
  · next role charged hphase =>
    exact ⟨task, role, charged, hget, hphase, (Option.some.inj h).symm⟩
  · cases h

theorem step_wake (h : s.step T (.wake i) = some s') :
    ∃ task wake, s.tasks[i]? = some task ∧ task.phase = .sleeping wake ∧ wake ≤ s.now ∧
      s' = s.become i { task with
        attempt := task.attempt + 1, phase := .acquiring (.first task.call s.sync) s.now } := by
  obtain ⟨task, hget, h⟩ := Option.bind_eq_some_iff.1 h
  split at h
  · next wake hphase =>
    split at h
    · next hwake => exact ⟨task, wake, hget, hphase, hwake, (Option.some.inj h).symm⟩
    · cases h
  · cases h

/-- A pass transmits exactly if there is room. -/
theorem passed_cases (s : SharedTransport) (i : ℕ) (task : RequestTask) (role : Role) :
    let call := role.call task.call
    let charged := s.windows.charged call.weight call.mutating
    (Limiter.HasRoom call.weight call.mutating s.windows s.now ∧
      ∃ windows, s.passed i task role =
        { s.become i { task with phase := .inFlight role charged } with
          windows, transmissions := s.transmissions ++ [⟨i, s.now, charged⟩] }) ∨
    (¬ Limiter.HasRoom call.weight call.mutating s.windows s.now ∧
      ∃ windows phase, (phase = .finished ∨ ∃ wake, phase = .acquiring role wake) ∧
        s.passed i task role = { s.become i { task with phase } with windows }) := by
  intro call charged
  unfold passed
  dsimp only
  split
  · next windows hstep =>
    rcases Limiter.acquireStep_cases hstep with ⟨-, hroom, -⟩ | ⟨_, hwait, -⟩
    · exact .inl ⟨hroom, windows, rfl⟩
    · cases hwait
  · next seconds windows hstep =>
    rcases Limiter.acquireStep_cases hstep with ⟨hadmitted, -⟩ | ⟨_, -, hno, -⟩
    · cases hadmitted
    · exact .inr ⟨hno, windows, _, .inr ⟨_, rfl⟩, rfl⟩
  · next hstep =>
    refine .inr ⟨fun hroom => ?_, _, _, .inl rfl, rfl⟩
    obtain ⟨windows, hok⟩ := Limiter.acquireStep_of_hasRoom hroom
    cases hstep.symm.trans hok

/-- Only passes and replies are logged. -/
theorem step_cases {l : SharedLabel} (hstep : s.step T l = some s') :
    (∃ i, l = .pass i) ∨ (∃ i net clock jitter, l = .reply i net clock jitter) ∨
      s'.halts = s.halts ∧ s'.transmissions = s.transmissions := by
  cases l with
  | pass i => exact .inl ⟨i, rfl⟩
  | reply i net clock jitter => exact .inr (.inl ⟨i, net, clock, jitter, rfl⟩)
  | tick seconds =>
    obtain ⟨-, rfl⟩ := step_tick hstep
    exact .inr (.inr ⟨rfl, rfl⟩)
  | request call =>
    obtain rfl := Option.some.inj hstep
    exact .inr (.inr ⟨rfl, rfl⟩)
  | syncTime =>
    obtain rfl := Option.some.inj hstep
    exact .inr (.inr ⟨rfl, rfl⟩)
  | reseed rateLimits =>
    obtain rfl := Option.some.inj hstep
    exact .inr (.inr ⟨rfl, rfl⟩)
  | wake i =>
    obtain ⟨task, wake, -, -, -, rfl⟩ := step_wake hstep
    exact .inr (.inr ⟨rfl, rfl⟩)
  | cancel i =>
    obtain ⟨task, -, rfl⟩ := Option.map_eq_some_iff.1 hstep
    exact .inr (.inr ⟨rfl, rfl⟩)

/-- The log only grows. -/
theorem step_log {l : SharedLabel} (hstep : s.step T l = some s') :
    s.halts ⊆ s'.halts ∧ s.transmissions ⊆ s'.transmissions := by
  rcases step_cases hstep with ⟨i, rfl⟩ | ⟨i, net, clock, jitter, rfl⟩ | ⟨hhalts, htransmissions⟩
  · obtain ⟨task, role, wake, -, -, -, rfl⟩ := step_pass hstep
    rcases s.passed_cases i task role with ⟨-, windows, heq⟩ | ⟨-, windows, phase, -, heq⟩
    · rw [heq]
      exact ⟨List.Subset.refl _, List.subset_append_left _ _⟩
    · rw [heq]
      exact ⟨List.Subset.refl _, List.Subset.refl _⟩
  · obtain ⟨task, role, charged, -, -, rfl⟩ := step_reply hstep
    unfold answered
    dsimp only
    split
    · exact ⟨List.Subset.refl _, List.Subset.refl _⟩
    · exact ⟨List.Subset.refl _, List.Subset.refl _⟩
    · exact ⟨List.subset_append_left _ _, List.Subset.refl _⟩
  · rw [hhalts, htransmissions]
    exact ⟨List.Subset.refl _, List.Subset.refl _⟩

end SharedTransport

namespace Phase

/-- The task transmits nothing before `resume`. -/
def NotBefore (resume now : ℚ) : Phase → Prop
  | .acquiring _ wake | .sleeping wake => resume ≤ max now wake
  | .inFlight _ _ => resume ≤ now
  | .finished => True

theorem notBefore_of_le {resume now : ℚ} (h : resume ≤ now) (phase : Phase) :
    phase.NotBefore resume now := by
  cases phase with
  | acquiring role wake => exact le_max_of_le_left h
  | inFlight role charged => exact h
  | sleeping wake => exact le_max_of_le_left h
  | finished => trivial

theorem NotBefore.later {resume now now' : ℚ} {phase : Phase}
    (h : phase.NotBefore resume now) (hle : now ≤ now') : phase.NotBefore resume now' := by
  cases phase with
  | acquiring role wake => exact h.trans (max_le_max_right wake hle)
  | inFlight role charged => exact h.trans hle
  | sleeping wake => exact h.trans (max_le_max_right wake hle)
  | finished => trivial

end Phase

namespace SharedTransport

/-- The task that the reply was for keeps the pause. -/
def Rests (s : SharedTransport) (halt : Halt) : Prop :=
  ∃ task, s.tasks[halt.task]? = some task ∧ task.phase.NotBefore halt.resume s.now

/-- What is true of every reachable state. -/
structure Inv (s : SharedTransport) : Prop where
  past : ∀ x ∈ s.transmissions, x.time ≤ s.now
  rests : ∀ halt ∈ s.halts, s.Rests halt

variable {T : Transport} {s s' : SharedTransport} {i : ℕ} {task task' : RequestTask} {halt : Halt}

theorem Rests.set (h : s.Rests halt) (hget : s.tasks[i]? = some task) (hnow : s'.now = s.now)
    (htasks : s'.tasks = s.tasks.set i task')
    (hkeep : task.phase.NotBefore halt.resume s.now → task'.phase.NotBefore halt.resume s.now) :
    s'.Rests halt := by
  obtain ⟨other, hother, hphase⟩ := h
  unfold Rests
  rw [hnow, htasks]
  by_cases hi : halt.task = i
  · rw [hi, hget] at hother
    obtain rfl := Option.some.inj hother
    obtain ⟨hlt, -⟩ := List.getElem?_eq_some_iff.1 hget
    rw [hi]
    exact ⟨task', List.getElem?_set_self hlt, hkeep hphase⟩
  · rw [List.getElem?_set_ne (Ne.symm hi)]
    exact ⟨other, hother, hphase⟩

/-- A step of one task that logs nothing. -/
theorem Inv.set (h : Inv s) (hget : s.tasks[i]? = some task) (hnow : s'.now = s.now)
    (htasks : s'.tasks = s.tasks.set i task') (hhalts : s'.halts = s.halts)
    (htransmissions : s'.transmissions = s.transmissions)
    (hkeep : ∀ resume, task.phase.NotBefore resume s.now → task'.phase.NotBefore resume s.now) :
    Inv s' where
  past := by
    rw [hnow, htransmissions]
    exact h.past
  rests := by
    rw [hhalts]
    intro halt hhalt
    exact (h.rests halt hhalt).set hget hnow htasks (hkeep _)

/-- A new task. -/
theorem Inv.spawn (h : Inv s) (hnow : s'.now = s.now) (htasks : s'.tasks = s.tasks ++ [task])
    (hhalts : s'.halts = s.halts) (htransmissions : s'.transmissions = s.transmissions) :
    Inv s' where
  past := by
    rw [hnow, htransmissions]
    exact h.past
  rests := by
    rw [hhalts]
    intro halt hhalt
    obtain ⟨other, hother, hphase⟩ := h.rests halt hhalt
    obtain ⟨hlt, -⟩ := List.getElem?_eq_some_iff.1 hother
    unfold Rests
    rw [hnow, htasks, List.getElem?_append_left hlt]
    exact ⟨other, hother, hphase⟩

/-- Asleep until `wake` and past it, a task is bound by no pause. -/
theorem le_now_of_wake {resume now wake : ℚ} (h : resume ≤ max now wake) (hwake : wake ≤ now) :
    resume ≤ now := by
  rwa [max_eq_left hwake] at h

theorem Inv.pass (h : Inv s) (hstep : s.step T (.pass i) = some s') : Inv s' := by
  obtain ⟨task, role, wake, hget, hphase, hwake, rfl⟩ := step_pass hstep
  have hdue : ∀ resume, task.phase.NotBefore resume s.now → resume ≤ s.now := by
    intro resume hresume
    rw [hphase] at hresume
    exact le_now_of_wake hresume hwake
  rcases s.passed_cases i task role with ⟨-, windows, heq⟩ | ⟨-, windows, phase, -, heq⟩
  · rw [heq]
    constructor
    case past =>
      intro x hx
      rcases List.mem_append.1 hx with hx | hx
      · exact h.past x hx
      · obtain rfl := List.mem_singleton.1 hx
        exact le_refl s.now
    case rests =>
      intro halt hhalt
      exact (h.rests halt hhalt).set hget rfl rfl (hdue _)
  · rw [heq]
    exact h.set hget rfl rfl rfl rfl fun resume hresume =>
      Phase.notBefore_of_le (hdue resume hresume) phase

/-! ### Replies -/

theorem retryAfter?_of_halt? {e : Exc} {r : ℤ} (h : e.halt? = some r) : e.retryAfter? = some r := by
  unfold Exc.halt? at h
  split at h
  · split at h
    · exact h
    · cases h
  · cases h

/-- It is no timestamp error. -/
theorem resyncs_of_halt? {e : Exc} {r : ℤ} (h : e.halt? = some r) (role : Role) (call : Call) :
    role.resyncs call e = false := by
  have hno : e.isTimestampError = false := by
    unfold Exc.halt? at h
    split at h
    · next a =>
      split at h
      · next hcls =>
        have hauth : a.cls ≠ .authError := by
          rcases hcls with hcls | hcls <;> rw [hcls] <;> decide
        simp [Exc.isTimestampError, hauth]
      · cases h
    · cases h
  unfold Role.resyncs Transport.needsResync
  split <;> simp [hno]

/-- **The retryer honours `Retry-After`.** After such an exception the task sleeps for as long, or
ends. -/
theorem failed_notBefore {e : Exc} {r : ℤ} (h : e.halt? = some r) (task : RequestTask)
    (now jitter : ℚ) : (task.failed T e now jitter).NotBefore (now + r) now := by
  unfold RequestTask.failed
  split
  · split
    · trivial
    · rw [retryAfter?_of_halt? h]
      exact le_max_right _ _
  · trivial

theorem Inv.reply {net : NetResult} {clock : ℤ} {jitter : ℚ} (h : Inv s)
    (hstep : s.step T (.reply i net clock jitter) = some s') : Inv s' := by
  obtain ⟨task, role, charged, hget, hphase, rfl⟩ := step_reply hstep
  have hany : ∀ resume, task.phase.NotBefore resume s.now → ∀ phase : Phase,
      phase.NotBefore resume s.now := by
    intro resume hresume phase
    rw [hphase] at hresume
    exact Phase.notBefore_of_le hresume phase
  unfold answered
  dsimp only
  split
  · exact h.set hget rfl rfl rfl rfl fun resume hresume => hany resume hresume _
  · exact h.set hget rfl rfl rfl rfl fun resume hresume => hany resume hresume _
  · next e _ =>
    constructor
    case past => exact h.past
    case rests =>
      intro halt hhalt
      rcases List.mem_append.1 hhalt with hold | hnew
      · exact (h.rests halt hold).set hget rfl rfl fun hresume => hany _ hresume _
      · obtain ⟨r, hr, hhalt⟩ := Option.map_eq_some_iff.1 (Option.mem_toList.1 hnew)
        obtain ⟨hlt, -⟩ := List.getElem?_eq_some_iff.1 hget
        subst hhalt
        refine ⟨_, List.getElem?_set_self hlt, ?_⟩
        rw [resyncs_of_halt? hr]
        exact failed_notBefore hr task s.now jitter

theorem Inv.step {l : SharedLabel} (h : Inv s) (hstep : s.step T l = some s') : Inv s' := by
  cases l with
  | tick seconds =>
    obtain ⟨hnonneg, rfl⟩ := step_tick hstep
    have hle : s.now ≤ s.now + seconds := le_add_of_nonneg_right hnonneg
    constructor
    case past => exact fun x hx => (h.past x hx).trans hle
    case rests =>
      intro halt hhalt
      obtain ⟨task, hget, hphase⟩ := h.rests halt hhalt
      exact ⟨task, hget, hphase.later hle⟩
  | request call =>
    obtain rfl := Option.some.inj hstep
    exact h.spawn rfl rfl rfl rfl
  | syncTime =>
    obtain rfl := Option.some.inj hstep
    exact h.spawn rfl rfl rfl rfl
  | reseed rateLimits =>
    obtain rfl := Option.some.inj hstep
    exact ⟨h.past, h.rests⟩
  | pass i => exact h.pass hstep
  | reply i net clock jitter => exact h.reply hstep
  | wake i =>
    obtain ⟨task, wake, hget, hphase, hwake, rfl⟩ := step_wake hstep
    refine h.set hget rfl rfl rfl rfl fun resume hresume => ?_
    rw [hphase] at hresume
    exact Phase.notBefore_of_le (le_now_of_wake hresume hwake) _
  | cancel i =>
    obtain ⟨task, hget, rfl⟩ := Option.map_eq_some_iff.1 hstep
    exact h.set hget rfl rfl rfl rfl fun _ _ => trivial

/-! ## The pauses of other tasks -/

theorem HardStopped.pass (h : HardStopped s) (hinv : Inv s) (hwithheld : s.Withheld (.pass i))
    (hstep : s.step T (.pass i) = some s') : HardStopped s' := by
  obtain ⟨task, role, wake, hget, hphase, hwake, rfl⟩ := step_pass hstep
  rcases s.passed_cases i task role with ⟨hroom, windows, heq⟩ | ⟨-, windows, phase, -, heq⟩
  · rw [heq]
    intro halt hhalt x hx hshares hlt
    rcases List.mem_append.1 hx with hx | hx
    · exact h halt hhalt x hx hshares hlt
    · obtain rfl := List.mem_singleton.1 hx
      by_cases hi : halt.task = i
      · -- the task's own pause: it has slept until the end
        obtain ⟨other, hother, hrests⟩ := hinv.rests halt hhalt
        rw [hi, hget] at hother
        obtain rfl := Option.some.inj hother
        rw [hphase] at hrests
        exact le_now_of_wake hrests hwake
      · by_contra hbefore
        have hnone := hwithheld task role wake hget hphase halt hhalt hi hshares hlt
          (not_le.1 hbefore)
        exact hnone hroom
  · rw [heq]
    exact h

theorem HardStopped.reply {net : NetResult} {clock : ℤ} {jitter : ℚ} (h : HardStopped s)
    (hinv : Inv s) (hstep : s.step T (.reply i net clock jitter) = some s') : HardStopped s' := by
  obtain ⟨task, role, charged, -, -, rfl⟩ := step_reply hstep
  unfold answered
  dsimp only
  split
  · exact h
  · exact h
  · intro halt hhalt x hx hshares hlt
    rcases List.mem_append.1 hhalt with hold | hnew
    · exact h halt hold x hx hshares hlt
    · -- whatever has been transmitted was transmitted before
      obtain ⟨r, -, hhalt⟩ := Option.map_eq_some_iff.1 (Option.mem_toList.1 hnew)
      subst hhalt
      exact absurd (hinv.past x hx) (not_le.2 hlt)

theorem HardStopped.step {l : SharedLabel} (h : HardStopped s) (hinv : Inv s)
    (hwithheld : s.Withheld l) (hstep : s.step T l = some s') : HardStopped s' := by
  rcases step_cases hstep with ⟨i, rfl⟩ | ⟨i, net, clock, jitter, rfl⟩ | ⟨hhalts, htransmissions⟩
  · exact h.pass hinv hwithheld hstep
  · exact h.reply hinv hstep
  · unfold HardStopped
    rw [hhalts, htransmissions]
    exact h

/-- What is in the log stays there. -/
theorem HardStopped.back {l : SharedLabel} (hstep : s.step T l = some s') (h : HardStopped s') :
    HardStopped s := by
  obtain ⟨hhalts, htransmissions⟩ := step_log hstep
  exact fun halt hhalt x hx => h halt (hhalts hhalt) x (htransmissions hx)

/-- A pass that finds room during the pause of another task breaks it. -/
theorem withheld_of_hardStopped {l : SharedLabel} (hstep : s.step T l = some s')
    (h : HardStopped s') : s.Withheld l := by
  cases l with
  | pass i =>
    intro task role wake hget hphase call halt hhalt _ hshares hlt hbefore hroom
    obtain ⟨task', role', wake', hget', hphase', -, rfl⟩ := step_pass hstep
    obtain rfl := Option.some.inj (hget.symm.trans hget')
    obtain ⟨rfl, rfl⟩ := Phase.acquiring.inj (hphase.symm.trans hphase')
    rcases s.passed_cases i task role with ⟨-, windows, heq⟩ | ⟨hno, -⟩
    · rw [heq] at h
      have hresume := h halt hhalt _ (List.mem_append_right _ List.mem_cons_self) hshares hlt
      exact absurd hresume (not_le.2 hbefore)
    · exact hno hroom
  | tick seconds => trivial
  | request call => trivial
  | syncTime => trivial
  | reseed rateLimits => trivial
  | reply i net clock jitter => trivial
  | wake i => trivial
  | cancel i => trivial

/-- **The hard stop.** In a run no request is transmitted in the pause after an answer to another
one with which it shares a window, exactly if no pass of another task found room in such a pause. -/
theorem run_hardStopped_iff {start : ℚ} {windows : List (Window ℚ)} {sync : TimeSync}
    {labels : List SharedLabel}
    (hrun : (system T start windows sync).run (system T start windows sync).init labels = some s) :
    (system T start windows sync).Guarded Withheld (system T start windows sync).init labels ↔
      HardStopped s := by
  constructor
  · intro hwithheld
    have hinit : Inv (system T start windows sync).init ∧
        HardStopped (system T start windows sync).init := by
      refine ⟨⟨?_, ?_⟩, ?_⟩
      · exact fun x hx => absurd hx List.not_mem_nil
      · exact fun halt hhalt => absurd hhalt List.not_mem_nil
      · exact fun halt hhalt => absurd hhalt List.not_mem_nil
    refine (System.run_invariant (I := fun s => Inv s ∧ HardStopped s) ?_ labels hinit hwithheld
      hrun).2
    intro s l s' ⟨hinv, hstopped⟩ hallowed hstep
    exact ⟨hinv.step hstep, hstopped.step hinv hallowed hstep⟩
  · intro hstopped
    refine (System.guarded_of_run (P := HardStopped) ?_ ?_ labels hrun hstopped).1
    · exact fun s l s' hstep h => h.back hstep
    · exact fun s l s' hstep h => withheld_of_hardStopped hstep h

/-- One unit of weight a minute. -/
def oneWeight : Window ℚ := ⟨.requestWeight, .minute, 1, 1, 60, 0, none⟩

/-- Of two requests the first is answered with a 429; the second waits for the window, past the end
of the pause, and the first tries again after it. -/
def waited : List SharedLabel :=
  [.request Transport.timeCall, .request Transport.timeCall, .pass 0,
    .reply 0 (.response (Transport.limitedReply .invalid)) 0 0, .tick 1, .pass 1, .tick 59,
    .wake 0, .pass 1, .pass 0, .tick 60, .pass 0]

theorem run_hardStopped_waited :
    ∃ s, (system Transport.retryingTransport 0 [oneWeight] .init).run
        (system Transport.retryingTransport 0 [oneWeight] .init).init waited = some s ∧
      s.halts = [⟨0, 0, 5, [oneWeight.key]⟩] ∧
      s.transmissions = [⟨0, 0, [oneWeight.key]⟩, ⟨1, 60, [oneWeight.key]⟩,
        ⟨0, 120, [oneWeight.key]⟩] ∧
      (system Transport.retryingTransport 0 [oneWeight] .init).Guarded Withheld
        (system Transport.retryingTransport 0 [oneWeight] .init).init waited := by
  have hruns : ((system Transport.retryingTransport 0 [oneWeight] .init).run
      (system Transport.retryingTransport 0 [oneWeight] .init).init waited).map
        (fun s => (s.halts, s.transmissions)) =
      some ([⟨0, 0, 5, [oneWeight.key]⟩], [⟨0, 0, [oneWeight.key]⟩, ⟨1, 60, [oneWeight.key]⟩,
        ⟨0, 120, [oneWeight.key]⟩]) := by
    decide +kernel
  obtain ⟨s, hs, heq⟩ := Option.map_eq_some_iff.1 hruns
  obtain ⟨hhalts, htransmissions⟩ := Prod.mk.inj heq
  have hstopped : HardStopped s := by
    intro halt hhalt x hx _ hlt
    rw [hhalts] at hhalt
    rw [htransmissions] at hx
    obtain rfl := List.mem_singleton.1 hhalt
    simp only [List.mem_cons, List.not_mem_nil, or_false] at hx
    rcases hx with rfl | rfl | rfl
    · exact absurd hlt (lt_irrefl 0)
    · norm_num [Halt.resume]
    · norm_num [Halt.resume]
  exact ⟨s, hs, hhalts, htransmissions, (run_hardStopped_iff hs).2 hstopped⟩

/-- Under the default limits the second request is sent one second after the 429. -/
def unaware : List SharedLabel :=
  [.request Transport.timeCall, .request Transport.timeCall, .pass 0,
    .reply 0 (.response (Transport.limitedReply .invalid)) 0 0, .tick 1, .pass 1]

theorem not_run_hardStopped_unaware :
    ∃ s, (system Transport.retryingTransport 0 (Limiter.ofRateLimits defaultRateLimits) .init).run
        (system Transport.retryingTransport 0 (Limiter.ofRateLimits defaultRateLimits) .init).init
        unaware = some s ∧
      s.halts = [⟨0, 0, 5, [(.requestWeight, .minute, 1)]⟩] ∧
      s.transmissions = [⟨0, 0, [(.requestWeight, .minute, 1)]⟩,
        ⟨1, 1, [(.requestWeight, .minute, 1)]⟩] ∧
      ¬ HardStopped s := by
  have hruns : ((system Transport.retryingTransport 0 (Limiter.ofRateLimits defaultRateLimits)
      .init).run (system Transport.retryingTransport 0 (Limiter.ofRateLimits defaultRateLimits)
        .init).init unaware).map (fun s => (s.halts, s.transmissions)) =
      some ([⟨0, 0, 5, [(.requestWeight, .minute, 1)]⟩],
        [⟨0, 0, [(.requestWeight, .minute, 1)]⟩, ⟨1, 1, [(.requestWeight, .minute, 1)]⟩]) := by
    decide +kernel
  obtain ⟨s, hs, heq⟩ := Option.map_eq_some_iff.1 hruns
  obtain ⟨hhalts, htransmissions⟩ := Prod.mk.inj heq
  refine ⟨s, hs, hhalts, htransmissions, fun hstopped => ?_⟩
  have hresume := hstopped ⟨0, 0, 5, [(.requestWeight, .minute, 1)]⟩ (by simp [hhalts])
    ⟨1, 1, [(.requestWeight, .minute, 1)]⟩ (by simp [htransmissions])
    ⟨_, List.mem_cons_self, List.mem_cons_self⟩ (by norm_num)
  norm_num [Halt.resume] at hresume

end SharedTransport

end BinanceTh
