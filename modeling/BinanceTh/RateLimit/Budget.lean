import BinanceTh.Lib.Transition
import BinanceTh.RateLimit
import Mathlib.Algebra.Order.BigOperators.Group.List

/-!
# The budget of a window

Any number of `acquire` calls run together with header reconciliations and reseeds. A step is one
pass of a call (it holds the lock, and nothing awaits under the lock), the headers of one response,
or one reseed; every label carries its own reading of the clock. A log, which the code does not
keep, says what was charged to which window in which of its epochs, an epoch being named by its
start.

The count of a window is at least what has been charged to it, and what a header has reported, in
its present epoch (`Books`). A pass admits only where every window is empty or has room, since a
window without room asks for some time (`Window.waitTime_le_zero_iff`); so no epoch is charged past
the limit, but for a single charge that no epoch has room for.
-/

namespace BinanceTh

open Transition

/-! ## The system -/

/-- A call of `acquire`, and whether it has returned. -/
structure Acquire where
  weight : ℤ
  mutating : Bool
  admitted : Bool
  deriving DecidableEq

/-- What a call was charged: with which count and under which limit of the window. -/
structure Charge where
  call : ℕ
  usedBefore : ℤ
  amount : ℤ
  limit : ℤ
  deriving DecidableEq

inductive BudgetEvent where
  | charged (charge : Charge)
  /-- A server header has raised the count to `v`. -/
  | raised (v : ℤ)
  deriving DecidableEq

/-- An event of a window in an epoch. -/
structure BudgetEntry where
  key : RateLimitType × RateLimitInterval × ℤ
  epoch : Option ℚ
  event : BudgetEvent
  deriving DecidableEq

structure Pacing where
  windows : Limiter ℚ
  calls : List Acquire
  log : List BudgetEntry

inductive PacingLabel where
  | acquire (weight : ℤ) (mutating : Bool)
  /-- A pass of a call that has not returned. -/
  | pass (call : ℕ) (now : ℚ)
  | headers (now : ℚ) (headers : List (String × String))
  | reseed (rateLimits : List RateLimit)

namespace Pacing

/-- What a pass that admits charges to a window it has rolled. -/
def admission (call : ℕ) (weight : ℤ) (mutating : Bool) (w : Window ℚ) : Option BudgetEntry :=
  (w.charge? weight mutating).map fun amount =>
    ⟨w.key, w.windowStart, .charged ⟨call, w.used, amount, w.limit⟩⟩

/-- What the headers have raised the count of a window to, over what was left of it. -/
def raise (now : ℚ) (before : Limiter ℚ) (w' : Window ℚ) : Option BudgetEntry :=
  (before.find? fun w => w.key = w'.key).bind fun w =>
    match w.roll now with
    | .ok w₁ =>
      if w₁.windowStart = w'.windowStart ∧ w₁.used < w'.used then
        some ⟨w'.key, w'.windowStart, .raised w'.used⟩
      else none
    | .error _ => none

def step (s : Pacing) : PacingLabel → Option Pacing
  | .acquire weight mutating => some { s with calls := s.calls ++ [⟨weight, mutating, false⟩] }
  | .pass i now =>
    match s.calls[i]? with
    | none => none
    | some call =>
      if call.admitted then none
      else
        match Limiter.rollAll call.weight call.mutating now s.windows,
          Limiter.acquireStep call.weight call.mutating s.windows now with
        | .ok (_, rolled), .ok (.admitted, windows) => some
          { windows, calls := s.calls.set i { call with admitted := true },
            log := s.log ++ rolled.filterMap (admission i call.weight call.mutating) }
        | .ok _, .ok (.wait _, windows) => some { s with windows }
        -- only a window of no length raises
        | _, _ => none
  | .headers now headers =>
    let windows := (Limiter.updateFromHeaders now s.windows headers).1
    some { s with windows, log := s.log ++ windows.filterMap (raise now s.windows) }
  | .reseed rateLimits => some { s with windows := s.windows.reseed rateLimits }

def system (windows : List (Window ℚ)) : System Pacing PacingLabel where
  init := ⟨Limiter.ofWindows windows, [], []⟩
  step := step

/-- The log of one window. -/
def ledger (key : RateLimitType × RateLimitInterval × ℤ) (log : List BudgetEntry) :
    List BudgetEntry := log.filter fun entry => entry.key = key

/-- What was charged in an epoch, in order. -/
def chargesIn (entries : List BudgetEntry) (epoch : Option ℚ) : List Charge :=
  entries.filterMap fun entry =>
    match entry.event with
    | .charged charge => if entry.epoch = epoch then some charge else none
    | .raised _ => none

/-- The charges of an epoch stay within the limit of the last of them, unless no charge but one is
not zero and that one, larger than the limit, found the window empty. -/
def WithinBudget (entries : List BudgetEntry) (epoch : Option ℚ) : Prop :=
  ∀ last, (chargesIn entries epoch).getLast? = some last →
    ((chargesIn entries epoch).map Charge.amount).sum ≤ last.limit ∨
    ∃ charge, (chargesIn entries epoch).filter (fun c => c.amount ≠ 0) = [charge] ∧
      last.limit < charge.amount ∧ charge.usedBefore = 0

/-- Nothing is charged, under a limit that is negative. -/
def NothingCharged (entries : List BudgetEntry) (epoch : Option ℚ) : Prop :=
  (∀ charge ∈ chargesIn entries epoch, charge.amount = 0) ∧
    ∀ last, (chargesIn entries epoch).getLast? = some last → last.limit < 0

/-- After a header has raised the count to `v`, no charge of the epoch goes with `v` past the
limit. -/
def HonoursHeaders (entries : List BudgetEntry) : Prop :=
  entries.Pairwise fun earlier later => ∀ v charge, earlier.event = .raised v →
    later.event = .charged charge → later.epoch = earlier.epoch → charge.amount ≠ 0 →
    v + charge.amount ≤ charge.limit

/-- A call is charged when it returns, not before. -/
def WaitsUncharged (s : Pacing) : Prop :=
  ∀ entry ∈ s.log, ∀ charge, entry.event = .charged charge →
    ∃ call, s.calls[charge.call]? = some call ∧ call.admitted = true

/-- A pass rolls the windows that the call is charged to and charges each its amount, or none. -/
def AllOrNone (s s' : Pacing) (i : ℕ) (now : ℚ) : Prop :=
  ∃ call admitted, s.calls[i]? = some call ∧ call.admitted = false ∧
    s'.calls = s.calls.set i { call with admitted } ∧
    s'.windows.map Window.key = s.windows.map Window.key ∧
    ∀ w ∈ s.windows,
      match w.charge? call.weight call.mutating with
      | none => w ∈ s'.windows
      | some amount => ∃ w₁, w.roll now = .ok w₁ ∧
        { w₁ with used := w₁.used + if admitted then amount else 0 } ∈ s'.windows

/-- What the limiter promises of the windows with a key. -/
structure Paced (key : RateLimitType × RateLimitInterval × ℤ) (s : Pacing) : Prop where
  within : ∀ epoch, WithinBudget (ledger key s.log) epoch ∨ NothingCharged (ledger key s.log) epoch
  headers : HonoursHeaders (ledger key s.log)
  waiting : WaitsUncharged s
  pass : ∀ i now s', s.step (.pass i now) = some s' → AllOrNone s s' i now

/-- The labels of the runs in which the window is kept: weights are not negative, and reseeds have
the window's key and give every window some length. -/
def Allowed (key : RateLimitType × RateLimitInterval × ℤ) : PacingLabel → Prop
  | .acquire weight _ => 0 ≤ weight
  | .reseed rateLimits =>
    (∃ rule ∈ rateLimits, (rule.rateLimitType, rule.interval, rule.intervalNum) = key) ∧
      ∀ rule ∈ rateLimits, 0 < rule.intervalNum
  | _ => True

/-! ## The books of one window -/

/-- What the log of a window says of its present epoch. -/
structure Books (entries : List BudgetEntry) (w : Window ℚ) : Prop where
  duration_pos : 0 < w.duration
  used_nonneg : 0 ≤ w.used
  past : ∀ entry ∈ entries, ∃ start' start, entry.epoch = some start' ∧
    w.windowStart = some start ∧ start' ≤ start
  charged : ((chargesIn entries w.windowStart).map Charge.amount).sum ≤ w.used
  raised : ∀ key v, ⟨key, w.windowStart, .raised v⟩ ∈ entries → 0 < v ∧ v ≤ w.used

/-- What the log of a window says of all of its epochs. -/
structure Kept (entries : List BudgetEntry) : Prop where
  nonneg : ∀ epoch, ∀ charge ∈ chargesIn entries epoch, 0 ≤ charge.amount
  within : ∀ epoch, WithinBudget entries epoch ∨ NothingCharged entries epoch
  headers : HonoursHeaders entries

variable {entries : List BudgetEntry} {epoch : Option ℚ} {w w' : Window ℚ} {now : ℚ}

theorem chargesIn_append (entries entries' : List BudgetEntry) (epoch : Option ℚ) :
    chargesIn (entries ++ entries') epoch = chargesIn entries epoch ++ chargesIn entries' epoch :=
  List.filterMap_append

theorem chargesIn_eq_nil (h : ∀ entry ∈ entries, entry.epoch ≠ epoch) :
    chargesIn entries epoch = [] := by
  unfold chargesIn
  rw [List.filterMap_eq_nil_iff]
  intro entry hentry
  have := h entry hentry
  split
  · rw [if_neg this]
  · rfl

theorem kept_nil : Kept [] where
  nonneg epoch charge hcharge := by cases hcharge
  within epoch := .inl fun last hlast => by cases hlast
  headers := List.Pairwise.nil

/-- A window that no entry speaks of. -/
theorem books_nil (hduration : 0 < w.duration) (hused : 0 ≤ w.used) : Books [] w where
  duration_pos := hduration
  used_nonneg := hused
  past entry hentry := by cases hentry
  charged := hused
  raised key v h := by cases h

/-- Neither the limit nor the length of a window is in its books. -/
theorem Books.of_eq (h : Books entries w) (hduration : 0 < w'.duration) (hused : w'.used = w.used)
    (hstart : w'.windowStart = w.windowStart) : Books entries w' where
  duration_pos := hduration
  used_nonneg := hused ▸ h.used_nonneg
  past := hstart ▸ h.past
  charged := by
    rw [hstart, hused]
    exact h.charged
  raised := by
    rw [hstart, hused]
    exact h.raised

/-- Of the epoch that a reset begins nothing has been logged yet. -/
theorem Books.roll (h : Books entries w) (hroll : w.roll now = .ok w') : Books entries w' := by
  obtain ⟨-, -, hduration, -, -⟩ := Window.roll_cases hroll
  rcases Window.roll_windowStart h.duration_pos hroll with
    ⟨start, hstart, -, ⟨hnone, hused⟩ | ⟨start₀, hstart₀, hlt, hused⟩⟩ | ⟨heq, -⟩
  · -- a window that has just been anchored has no entries
    have hnil : entries = [] := by
      rw [List.eq_nil_iff_forall_not_mem]
      intro entry hentry
      obtain ⟨_, start, _, hsome, _⟩ := h.past entry hentry
      rw [hnone] at hsome
      cases hsome
    rw [hnil]
    exact books_nil (hduration ▸ h.duration_pos) (hused ▸ h.used_nonneg)
  · have hold : ∀ entry ∈ entries, ∃ start', entry.epoch = some start' ∧ start' ≤ start₀ := by
      intro entry hentry
      obtain ⟨start', start'', hepoch, hsome, hle⟩ := h.past entry hentry
      obtain rfl := Option.some.inj (hstart₀.symm.trans hsome)
      exact ⟨start', hepoch, hle⟩
    have hne : ∀ entry ∈ entries, entry.epoch ≠ w'.windowStart := by
      intro entry hentry heq
      obtain ⟨start', hepoch, hle⟩ := hold entry hentry
      rw [hstart, hepoch] at heq
      exact absurd (Option.some.inj heq) (hle.trans_lt hlt).ne
    constructor
    case duration_pos => exact hduration ▸ h.duration_pos
    case used_nonneg => exact hused.ge
    case past =>
      intro entry hentry
      obtain ⟨start', hepoch, hle⟩ := hold entry hentry
      exact ⟨start', start, hepoch, hstart, hle.trans hlt.le⟩
    case charged =>
      rw [chargesIn_eq_nil hne, hused]
      exact le_rfl
    case raised =>
      intro key v hmem
      exact absurd rfl (hne _ hmem)
  · rw [heq]
    exact h

/-- Entries of the present epoch, with a count that covers them. -/
theorem Books.append (h : Books entries w) (entry : BudgetEntry) (used : ℤ)
    (hepoch : entry.epoch = w.windowStart) (hsome : w.windowStart.isSome = true)
    (hused : w.used ≤ used)
    (hcharged : ∀ charge, entry.event = .charged charge → w.used + charge.amount ≤ used)
    (hraised : ∀ v, entry.event = .raised v → 0 < v ∧ v ≤ used) :
    Books (entries ++ [entry]) { w with used } where
  duration_pos := h.duration_pos
  used_nonneg := h.used_nonneg.trans hused
  past e he := by
    rcases List.mem_append.1 he with he | he
    · exact h.past e he
    · obtain rfl := List.mem_singleton.1 he
      obtain ⟨start, hstart⟩ := Option.isSome_iff_exists.1 hsome
      exact ⟨start, start, hepoch.trans hstart, hstart, le_rfl⟩
  charged := by
    have hsum := h.charged
    rw [chargesIn_append, List.map_append, List.sum_append]
    unfold chargesIn at hsum ⊢
    cases hevent : entry.event with
    | charged charge =>
      have := hcharged charge hevent
      simp [hevent, hepoch]
      omega
    | raised v =>
      simp [hevent]
      omega
  raised key v hmem := by
    rcases List.mem_append.1 hmem with hmem | hmem
    · obtain ⟨hpos, hle⟩ := h.raised key v hmem
      exact ⟨hpos, hle.trans hused⟩
    · apply hraised
      rw [← List.mem_singleton.1 hmem]

/-- A window without a charge so far has only been charged zero. -/
theorem Books.amount_eq_zero (h : Books entries w) (hkept : Kept entries) (hused : w.used = 0) :
    ∀ charge ∈ chargesIn entries w.windowStart, charge.amount = 0 := by
  intro charge hcharge
  have hnonneg : ∀ a ∈ (chargesIn entries w.windowStart).map Charge.amount, 0 ≤ a := by
    intro a ha
    obtain ⟨c, hc, hca⟩ := List.mem_map.1 ha
    exact hca ▸ hkept.nonneg _ c hc
  have hle := List.single_le_sum hnonneg _ (List.mem_map_of_mem hcharge)
  have := h.charged
  have := hkept.nonneg _ charge hcharge
  omega

/-- A charge that a window has room for, or that finds it empty, keeps the epoch within budget. -/
theorem withinBudget_append (h : Books entries w) (hkept : Kept entries) {i : ℕ} {amount : ℤ}
    (hroom : w.used = 0 ∨ w.used + amount ≤ w.limit) {all : List BudgetEntry}
    (hall : chargesIn all w.windowStart =
      chargesIn entries w.windowStart ++ [⟨i, w.used, amount, w.limit⟩]) :
    WithinBudget all w.windowStart ∨ NothingCharged all w.windowStart := by
  have hsum : ((chargesIn all w.windowStart).map Charge.amount).sum ≤ w.used + amount := by
    rw [hall, List.map_append, List.sum_append]
    have := h.charged
    simp
    omega
  have hlast : ∀ last, (chargesIn all w.windowStart).getLast? = some last →
      last = ⟨i, w.used, amount, w.limit⟩ := by
    intro last hlast
    rw [hall] at hlast
    simpa using hlast.symm
  rcases le_or_gt (w.used + amount) w.limit with hfits | hover
  · left
    intro last hmem
    left
    rw [hlast last hmem]
    exact hsum.trans hfits
  · -- the window was empty, so that every earlier charge is zero
    have hempty : w.used = 0 := hroom.resolve_right (not_le.2 hover)
    have hzero := h.amount_eq_zero hkept hempty
    by_cases hamount : amount = 0
    · right
      constructor
      · intro charge hcharge
        rw [hall, List.mem_append, List.mem_singleton] at hcharge
        rcases hcharge with hcharge | hcharge
        · exact hzero charge hcharge
        · rw [hcharge]
          exact hamount
      · intro last hmem
        rw [hlast last hmem]
        simp
        omega
    · left
      intro last hmem
      right
      refine ⟨⟨i, w.used, amount, w.limit⟩, ?_, ?_, hempty⟩
      · have hnone : (chargesIn entries w.windowStart).filter (fun c => c.amount ≠ 0) = [] := by
          rw [List.filter_eq_nil_iff]
          intro charge hcharge
          simpa using hzero charge hcharge
        rw [hall, List.filter_append, hnone]
        simp [hamount]
      · rw [hlast last hmem]
        simp
        omega

/-- The same charges are within the budget. -/
theorem within_of_chargesIn_eq {entries' : List BudgetEntry} {epoch : Option ℚ}
    (hsame : chargesIn entries' epoch = chargesIn entries epoch)
    (h : WithinBudget entries epoch ∨ NothingCharged entries epoch) :
    WithinBudget entries' epoch ∨ NothingCharged entries' epoch := by
  unfold WithinBudget NothingCharged
  rw [hsame]
  exact h

theorem Kept.charge (hkept : Kept entries) (h : Books entries w) {i : ℕ} {amount : ℤ}
    (hamount : 0 ≤ amount) (hroom : w.used = 0 ∨ w.used + amount ≤ w.limit) :
    Kept (entries ++ [⟨w.key, w.windowStart, .charged ⟨i, w.used, amount, w.limit⟩⟩]) := by
  have hnew : ∀ epoch, chargesIn [⟨w.key, w.windowStart, .charged ⟨i, w.used, amount, w.limit⟩⟩]
      epoch = if w.windowStart = epoch then [⟨i, w.used, amount, w.limit⟩] else [] := by
    intro epoch
    unfold chargesIn
    by_cases heq : w.windowStart = epoch <;> simp [heq]
  constructor
  case nonneg =>
    intro epoch charge hcharge
    rw [chargesIn_append, hnew, List.mem_append] at hcharge
    rcases hcharge with hcharge | hcharge
    · exact hkept.nonneg epoch charge hcharge
    · split at hcharge
      · rw [List.mem_singleton.1 hcharge]
        exact hamount
      · cases hcharge
  case within =>
    intro epoch
    by_cases heq : w.windowStart = epoch
    · subst heq
      refine withinBudget_append h hkept (i := i) hroom ?_
      rw [chargesIn_append, hnew, if_pos rfl]
    · refine within_of_chargesIn_eq ?_ (hkept.within epoch)
      rw [chargesIn_append, hnew, if_neg heq, List.append_nil]
  case headers =>
    refine List.pairwise_append.2 ⟨hkept.headers, List.pairwise_singleton _ _, ?_⟩
    intro earlier hearlier later hlater v charge hraised hcharged hepoch hne
    obtain rfl := List.mem_singleton.1 hlater
    obtain rfl := BudgetEvent.charged.inj hcharged
    -- the count is at least what the header has reported, so that it is not zero
    have hv : 0 < v ∧ v ≤ w.used := by
      apply h.raised earlier.key v
      obtain ⟨key, epoch, event⟩ := earlier
      simp only at hraised hepoch ⊢
      rw [← hraised, hepoch]
      exact hearlier
    simp only
    omega

/-- A header charges nothing. -/
theorem Kept.raise (hkept : Kept entries) (key : RateLimitType × RateLimitInterval × ℤ) (v : ℤ) :
    Kept (entries ++ [⟨key, epoch, .raised v⟩]) := by
  have hsame : ∀ epoch', chargesIn (entries ++ [⟨key, epoch, .raised v⟩]) epoch' =
      chargesIn entries epoch' := by
    intro epoch'
    rw [chargesIn_append]
    simp [chargesIn]
  constructor
  case nonneg =>
    intro epoch'
    rw [hsame]
    exact hkept.nonneg epoch'
  case within =>
    intro epoch'
    exact within_of_chargesIn_eq (hsame epoch') (hkept.within epoch')
  case headers =>
    refine List.pairwise_append.2 ⟨hkept.headers, List.pairwise_singleton _ _, ?_⟩
    intro earlier _ later hlater v charge _ hcharged
    obtain rfl := List.mem_singleton.1 hlater
    cases hcharged

/-! ## The steps -/

/-- What is true of every reachable state, for a window that is kept. -/
structure Inv (key : RateLimitType × RateLimitInterval × ℤ) (s : Pacing) : Prop where
  nodup : (s.windows.map Window.key).Nodup
  weights : ∀ call ∈ s.calls, 0 ≤ call.weight
  kept : Kept (ledger key s.log)
  books : ∀ w ∈ s.windows, w.key = key → Books (ledger key s.log) w
  absent : key ∉ s.windows.map Window.key → ledger key s.log = []

variable {key : RateLimitType × RateLimitInterval × ℤ} {s s' : Pacing} {i : ℕ}

theorem ledger_append (log log' : List BudgetEntry) :
    ledger key (log ++ log') = ledger key log ++ ledger key log' :=
  List.filter_append log log'

/-- Of entries that are made for the windows of a limiter, one each at most, only one is of a
window. -/
theorem ledger_filterMap {l : Limiter ℚ} (hnodup : (l.map Window.key).Nodup)
    {f : Window ℚ → Option BudgetEntry}
    (hf : ∀ w entry, f w = some entry → entry.key = w.key) {w : Window ℚ} (hw : w ∈ l) :
    ledger w.key (l.filterMap f) = (f w).toList := by
  have hcomm : ∀ l' : Limiter ℚ, ledger w.key (l'.filterMap f) =
      (l'.filter fun v => v.key = w.key).filterMap f := by
    intro l'
    induction l' with
    | nil => rfl
    | cons v l' ih =>
      unfold ledger at ih ⊢
      cases hv : f v with
      | none =>
        by_cases hkey : v.key = w.key <;> simp [hv, hkey, ih]
      | some entry =>
        have := hf v entry hv
        by_cases hkey : v.key = w.key <;> simp [hv, hkey, ih, this]
  rw [hcomm, Limiter.filter_key_eq hnodup hw]
  cases hfw : f w <;> simp [hfw]

theorem ledger_filterMap_of_not_mem {l : Limiter ℚ} (hkey : key ∉ l.map Window.key)
    {f : Window ℚ → Option BudgetEntry} (hf : ∀ w entry, f w = some entry → entry.key = w.key) :
    ledger key (l.filterMap f) = [] := by
  unfold ledger
  rw [List.filter_eq_nil_iff]
  intro entry hentry heq
  obtain ⟨w, hw, hfw⟩ := List.mem_filterMap.1 hentry
  apply hkey
  rw [← of_decide_eq_true heq, hf w entry hfw]
  exact List.mem_map_of_mem hw

/-- A pass rolls the windows of the call; then it waits, or charges them all and returns. -/
theorem step_pass (h : s.step (.pass i now) = some s') :
    ∃ call wait rolled, s.calls[i]? = some call ∧ call.admitted = false ∧
      Limiter.rollAll call.weight call.mutating now s.windows = .ok (wait, rolled) ∧
      ((wait ≤ 0 ∧ s' = ⟨Limiter.chargeAll call.weight call.mutating rolled,
          s.calls.set i { call with admitted := true },
          s.log ++ rolled.filterMap (admission i call.weight call.mutating)⟩) ∨
        (0 < wait ∧ s' = { s with windows := rolled })) := by
  rw [step] at h
  split at h
  · cases h
  · next call hcall =>
    split at h
    · cases h
    · next hwaits =>
      cases hroll : Limiter.rollAll call.weight call.mutating now s.windows with
      | error e =>
        simp [hroll] at h
      | ok r =>
        obtain ⟨wait, rolled⟩ := r
        refine ⟨call, wait, rolled, hcall, by simpa using hwaits, hroll, ?_⟩
        have hstep : Limiter.acquireStep call.weight call.mutating s.windows now =
            if wait ≤ 0 then .ok (.admitted, Limiter.chargeAll call.weight call.mutating rolled)
            else .ok (.wait wait, rolled) := by
          unfold Limiter.acquireStep
          rw [hroll]
          rfl
        rw [hroll, hstep] at h
        by_cases hle : wait ≤ 0
        · rw [if_pos hle] at h
          exact .inl ⟨hle, (Option.some.inj h).symm⟩
        · rw [if_neg hle] at h
          exact .inr ⟨not_le.1 hle, (Option.some.inj h).symm⟩

theorem Books.rolled {weight : ℤ} {mutating : Bool} {bound : ℚ} (h : Books entries w)
    (hrolled : Limiter.Rolled weight mutating now bound w w') : Books entries w' := by
  rcases hrolled with ⟨-, heq⟩ | ⟨amount, -, hroll, -⟩
  · rwa [heq]
  · exact h.roll hroll

theorem admission_key {weight : ℤ} {mutating : Bool} (v : Window ℚ) (entry : BudgetEntry)
    (h : admission i weight mutating v = some entry) : entry.key = v.key := by
  obtain ⟨amount, -, hentry⟩ := Option.map_eq_some_iff.1 h
  rw [← hentry]

theorem raise_key {before : Limiter ℚ} (v : Window ℚ) (entry : BudgetEntry)
    (h : raise now before v = some entry) : entry.key = v.key := by
  obtain ⟨w, -, hw⟩ := Option.bind_eq_some_iff.1 h
  split at hw
  · split at hw
    · rw [← Option.some.inj hw]
    · cases hw
  · cases hw

theorem charge?_nonneg {weight amount : ℤ} {mutating : Bool} (hweight : 0 ≤ weight)
    (h : w.charge? weight mutating = some amount) : 0 ≤ amount := by
  unfold Window.charge? at h
  split at h
  · rwa [← Option.some.inj h]
  · rw [← Option.some.inj h]
    decide
  · split at h
    · rw [← Option.some.inj h]
      decide
    · cases h

/-- What a pass that admits does to a window it has rolled. -/
def afterCharge (weight : ℤ) (mutating : Bool) (w : Window ℚ) : Window ℚ :=
  match w.charge? weight mutating with
  | some amount => { w with used := w.used + amount }
  | none => w

theorem chargeAll_eq_map (weight : ℤ) (mutating : Bool) (l : Limiter ℚ) :
    Limiter.chargeAll weight mutating l = l.map (afterCharge weight mutating) := rfl

theorem afterCharge_key (weight : ℤ) (mutating : Bool) (w : Window ℚ) :
    (afterCharge weight mutating w).key = w.key := by
  unfold afterCharge
  split <;> rfl

/-- With the log of an admission the log and the books of a window are kept. -/
theorem Books.admitted {weight : ℤ} {mutating : Bool} {bound : ℚ} (h : Books entries w)
    (hkept : Kept entries) (hrolled : Limiter.Rolled weight mutating now bound w w')
    (hbound : bound ≤ 0) (hweight : 0 ≤ weight) :
    Kept (entries ++ (admission i weight mutating w').toList) ∧
      Books (entries ++ (admission i weight mutating w').toList) (afterCharge weight mutating w') := by
  have hbooks := h.rolled hrolled
  have hcharge := hrolled.charge?_eq
  unfold admission afterCharge
  rcases hrolled with ⟨hnone, heq⟩ | ⟨amount, hsome, hroll, hwait⟩
  · rw [hnone] at hcharge
    simp [hcharge, hkept, hbooks]
  · rw [hsome] at hcharge
    have hroom := (Window.waitTime_le_zero_iff h.duration_pos hroll).1 (hwait.trans hbound)
    have hamount := charge?_nonneg hweight hsome
    obtain ⟨-, -, -, hstart, -⟩ := Window.roll_cases hroll
    simp only [hcharge, Option.map_some, Option.toList_some]
    refine ⟨hkept.charge hbooks hamount hroom, hbooks.append _ _ rfl hstart (by omega) ?_ ?_⟩
    · intro charge hcharged
      obtain rfl := BudgetEvent.charged.inj hcharged
      exact le_rfl
    · intro v hraised
      cases hraised

/-- So they are with the log of the headers of a response. -/
theorem Books.reconciled {before : Limiter ℚ} (h : Books entries w) (hkept : Kept entries)
    (hfind : (before.find? fun v => v.key = w'.key) = some w)
    (hrec : Limiter.Reconciled now w w') :
    Kept (entries ++ (raise now before w').toList) ∧
      Books (entries ++ (raise now before w').toList) w' := by
  obtain ⟨w₁, hroll⟩ := Window.exists_roll h.duration_pos now
  have hbooks := h.roll hroll
  obtain ⟨-, -, -, hstart, -⟩ := Window.roll_cases hroll
  unfold raise
  rw [hfind]
  simp only [Option.bind_some, hroll]
  split
  · next hraised =>
    obtain ⟨hepoch, hlt⟩ := hraised
    -- a window that is left alone is not counted up
    have heq : w' = { w₁ with used := w'.used } := by
      rcases hrec with heq | ⟨w₂, used, hroll', -, heq⟩
      · subst heq
        rcases Window.roll_windowStart h.duration_pos hroll with ⟨start, hsome, -, hcases⟩ | ⟨heq, -⟩
        · rcases hcases with ⟨hnone, -⟩ | ⟨start₀, hsome₀, hlater, -⟩
          · rw [hnone, hsome] at hepoch
            cases hepoch
          · rw [hsome₀, hsome] at hepoch
            exact absurd (Option.some.inj hepoch) hlater.ne'
        · rw [heq]
      · obtain rfl := Except.ok.inj (hroll.symm.trans hroll')
        rw [heq]
    refine ⟨hkept.raise _ _, ?_⟩
    have hpos := hbooks.used_nonneg
    rw [Option.toList_some, ← hepoch]
    have hnew : Books (entries ++ [⟨w'.key, w₁.windowStart, .raised w'.used⟩])
        { w₁ with used := w'.used } := by
      refine hbooks.append _ _ rfl hstart hlt.le ?_ ?_
      · intro charge hcharged
        cases hcharged
      · intro v hv
        obtain rfl := BudgetEvent.raised.inj hv
        exact ⟨hpos.trans_lt hlt, le_rfl⟩
    rwa [← heq] at hnew
  · next hnot =>
    rw [Option.toList_none, List.append_nil]
    refine ⟨hkept, ?_⟩
    rcases hrec with heq | ⟨w₂, used, hroll', hle, heq⟩
    · rwa [heq]
    · obtain rfl := Except.ok.inj (hroll.symm.trans hroll')
      have hsame : used = w₁.used := by
        subst heq
        simp only [true_and, not_lt] at hnot
        exact le_antisymm hnot hle
      rw [heq, hsame]
      exact hbooks

/-- A step that keeps the keys, and for the window the log and the books, keeps the invariant. -/
theorem Inv.of_keys (h : Inv key s) (hkeys : s'.windows.map Window.key = s.windows.map Window.key)
    (hweights : ∀ call ∈ s'.calls, 0 ≤ call.weight)
    (habsent : key ∉ s'.windows.map Window.key → ledger key s'.log = ledger key s.log)
    (hwindow : ∀ w' ∈ s'.windows, w'.key = key →
      Kept (ledger key s'.log) ∧ Books (ledger key s'.log) w') : Inv key s' where
  nodup := hkeys ▸ h.nodup
  weights := hweights
  kept := by
    by_cases hkey : key ∈ s'.windows.map Window.key
    · obtain ⟨w', hw', heq⟩ := List.mem_map.1 hkey
      exact (hwindow w' hw' heq).1
    · rw [habsent hkey]
      exact h.kept
  books w' hw' heq := (hwindow w' hw' heq).2
  absent hkey := by
    rw [habsent hkey]
    exact h.absent (hkeys ▸ hkey)

theorem Inv.pass (h : Inv key s) (hstep : s.step (.pass i now) = some s') : Inv key s' := by
  obtain ⟨call, wait, rolled, hcall, -, hroll, hcases⟩ := step_pass hstep
  have hkeys := Limiter.rollAll_keys hroll
  have hfrom := (Limiter.exists_of_forall₂ (Limiter.rollAll_forall₂ hroll le_rfl)).1
  rcases hcases with ⟨hle, heq⟩ | ⟨-, heq⟩
  · have hnodup : (rolled.map Window.key).Nodup := hkeys ▸ h.nodup
    have hweight := h.weights call (List.mem_of_getElem? hcall)
    have hcharged : (Limiter.chargeAll call.weight call.mutating rolled).map Window.key =
        rolled.map Window.key := by
      rw [chargeAll_eq_map, List.map_map]
      exact List.map_congr_left fun v _ => afterCharge_key _ _ v
    subst heq
    refine h.of_keys (hcharged.trans hkeys) ?_ ?_ ?_
    · intro c hc
      rcases List.mem_or_eq_of_mem_set hc with hc | hc
      · exact h.weights c hc
      · rw [hc]
        exact hweight
    · intro hkey
      rw [ledger_append, ledger_filterMap_of_not_mem (hcharged ▸ hkey) admission_key,
        List.append_nil]
    · intro w' hw' hkey
      rw [chargeAll_eq_map] at hw'
      obtain ⟨w₁, hw₁, hw'⟩ := List.mem_map.1 hw'
      obtain ⟨w, hw, hrolled⟩ := hfrom w₁ hw₁
      subst hw'
      rw [afterCharge_key] at hkey
      have hbooks := h.books w hw (hrolled.key_eq ▸ hkey)
      subst hkey
      rw [ledger_append, ledger_filterMap hnodup admission_key hw₁]
      exact hbooks.admitted h.kept hrolled hle hweight
  · subst heq
    refine h.of_keys hkeys h.weights (fun _ => rfl) ?_
    intro w' hw' hkey
    obtain ⟨w, hw, hrolled⟩ := hfrom w' hw'
    exact ⟨h.kept, (h.books w hw (hrolled.key_eq ▸ hkey)).rolled hrolled⟩

theorem Inv.headers {headers : List (String × String)} (h : Inv key s)
    (hstep : s.step (.headers now headers) = some s') : Inv key s' := by
  obtain rfl := Option.some.inj hstep
  obtain ⟨hkeys, hfrom⟩ := Limiter.updateFromHeaders_spec now headers s.windows
  have hnodup : ((Limiter.updateFromHeaders now s.windows headers).1.map Window.key).Nodup :=
    hkeys ▸ h.nodup
  refine h.of_keys hkeys h.weights ?_ ?_
  · intro hkey
    rw [ledger_append, ledger_filterMap_of_not_mem hkey raise_key, List.append_nil]
  · intro w' hw' hkey
    obtain ⟨w, hw, hsame, hrec⟩ := hfrom w' hw'
    have hbooks := h.books w hw (hsame ▸ hkey)
    subst hkey
    rw [ledger_append, ledger_filterMap hnodup raise_key hw']
    refine hbooks.reconciled h.kept ?_ (hrec hbooks.duration_pos)
    rw [hsame]
    exact Limiter.find?_key_eq h.nodup hw

theorem Inv.reseed {rateLimits : List RateLimit} (h : Inv key s)
    (hallowed : Allowed key (.reseed rateLimits))
    (hstep : s.step (.reseed rateLimits) = some s') : Inv key s' := by
  obtain rfl := Option.some.inj hstep
  obtain ⟨⟨rule, hrule, hkey⟩, hlengths⟩ := hallowed
  constructor
  case nodup => exact Limiter.nodup_ofWindows _
  case weights => exact h.weights
  case kept => exact h.kept
  case books =>
    intro w' hw' hkey'
    obtain ⟨rule', hrule', heq⟩ := List.mem_map.1 (Limiter.mem_of_mem_ofWindows hw')
    obtain ⟨-, hlength, hcases⟩ := Limiter.reseeded_cases s.windows rule'
    rw [heq] at hlength hcases
    have hduration : 0 < w'.duration := by
      rw [hlength]
      exact mul_pos rule'.interval.seconds_pos (by exact_mod_cast hlengths rule' hrule')
    rcases hcases with ⟨w, hw, hsame, hused, hstart⟩ | ⟨hnone, hused, -⟩
    · exact (h.books w hw (hsame.trans hkey')).of_eq hduration hused hstart
    · have hnil : ledger key s.log = [] := by
        apply h.absent
        intro hmem
        obtain ⟨w, hw, hwkey⟩ := List.mem_map.1 hmem
        exact hnone w hw (hwkey.trans hkey'.symm)
      simp only
      rw [hnil]
      exact books_nil hduration hused.ge
  case absent =>
    intro habsent
    have hmem := Limiter.key_mem_ofWindows (List.mem_map_of_mem (f := s.windows.reseeded) hrule)
    rw [(Limiter.reseeded_cases s.windows rule).1, hkey] at hmem
    exact absurd hmem habsent

theorem Inv.step {l : PacingLabel} (h : Inv key s) (hallowed : Allowed key l)
    (hstep : s.step l = some s') : Inv key s' := by
  cases l with
  | acquire weight mutating =>
    obtain rfl := Option.some.inj hstep
    refine h.of_keys rfl ?_ (fun _ => rfl) fun w hw hkey => ⟨h.kept, h.books w hw hkey⟩
    intro call hcall
    rcases List.mem_append.1 hcall with hcall | hcall
    · exact h.weights call hcall
    · rw [List.mem_singleton.1 hcall]
      exact hallowed
  | pass i now => exact h.pass hstep
  | headers now headers => exact h.headers hstep
  | reseed rateLimits => exact h.reseed hallowed hstep

theorem WaitsUncharged.step {l : PacingLabel} (h : WaitsUncharged s) (hstep : s.step l = some s') :
    WaitsUncharged s' := by
  cases l with
  | acquire weight mutating =>
    obtain rfl := Option.some.inj hstep
    intro entry hentry charge hcharged
    obtain ⟨call, hcall, hadmitted⟩ := h entry hentry charge hcharged
    refine ⟨call, ?_, hadmitted⟩
    obtain ⟨hlt, -⟩ := List.getElem?_eq_some_iff.1 hcall
    rw [List.getElem?_append_left hlt]
    exact hcall
  | pass i now =>
    obtain ⟨call, wait, rolled, hcall, -, -, ⟨-, heq⟩ | ⟨-, heq⟩⟩ := step_pass hstep
    · subst heq
      intro entry hentry charge hcharged
      obtain ⟨hlt, -⟩ := List.getElem?_eq_some_iff.1 hcall
      have hset : (s.calls.set i { call with admitted := true })[i]? =
          some { call with admitted := true } := List.getElem?_set_self hlt
      rcases List.mem_append.1 hentry with hentry | hentry
      · obtain ⟨call', hcall', hadmitted⟩ := h entry hentry charge hcharged
        by_cases hi : charge.call = i
        · refine ⟨{ call with admitted := true }, ?_, rfl⟩
          rw [hi]
          exact hset
        · exact ⟨call', by rw [List.getElem?_set_ne (Ne.symm hi), hcall'], hadmitted⟩
      · obtain ⟨w, -, hw⟩ := List.mem_filterMap.1 hentry
        obtain ⟨amount, -, hw⟩ := Option.map_eq_some_iff.1 hw
        subst hw
        obtain rfl := BudgetEvent.charged.inj hcharged
        exact ⟨_, hset, rfl⟩
    · subst heq
      exact h
  | headers now headers =>
    obtain rfl := Option.some.inj hstep
    intro entry hentry charge hcharged
    rcases List.mem_append.1 hentry with hentry | hentry
    · exact h entry hentry charge hcharged
    · obtain ⟨w, -, hw⟩ := List.mem_filterMap.1 hentry
      obtain ⟨v, -, hw⟩ := Option.bind_eq_some_iff.1 hw
      split at hw
      · split at hw
        · rw [← Option.some.inj hw] at hcharged
          cases hcharged
        · cases hw
      · cases hw
  | reseed rateLimits =>
    obtain rfl := Option.some.inj hstep
    exact h

theorem allOrNone_pass (hstep : s.step (.pass i now) = some s') : AllOrNone s s' i now := by
  obtain ⟨call, wait, rolled, hcall, hwaits, hroll, hcases⟩ := step_pass hstep
  have hinto := (Limiter.exists_of_forall₂ (Limiter.rollAll_forall₂ hroll le_rfl)).2
  rcases hcases with ⟨-, heq⟩ | ⟨-, heq⟩
  · subst heq
    refine ⟨call, true, hcall, hwaits, rfl, ?_, ?_⟩
    · rw [← Limiter.rollAll_keys hroll, chargeAll_eq_map, List.map_map]
      exact List.map_congr_left fun v _ => afterCharge_key _ _ v
    · intro w hw
      obtain ⟨w₁, hw₁, hrolled⟩ := hinto w hw
      have hafter := List.mem_map_of_mem (f := afterCharge call.weight call.mutating) hw₁
      have hcharge := hrolled.charge?_eq
      unfold afterCharge at hafter
      rcases hrolled with ⟨hnone, heq⟩ | ⟨amount, hsome, hroll', -⟩
      · rw [hcharge, hnone] at hafter
        rw [hnone]
        exact heq ▸ hafter
      · rw [hcharge, hsome] at hafter
        rw [hsome]
        exact ⟨w₁, hroll', hafter⟩
  · subst heq
    refine ⟨call, false, hcall, hwaits, ?_, Limiter.rollAll_keys hroll, ?_⟩
    · obtain ⟨hlt, hget⟩ := List.getElem?_eq_some_iff.1 hcall
      have hsame : { call with admitted := false } = s.calls[i] := by
        rw [hget, ← hwaits]
      rw [hsame, List.set_getElem_self]
    · intro w hw
      obtain ⟨w₁, hw₁, hrolled⟩ := hinto w hw
      rcases hrolled with ⟨hnone, heq⟩ | ⟨amount, hsome, hroll', -⟩
      · rw [hnone]
        exact heq ▸ hw₁
      · rw [hsome]
        refine ⟨w₁, hroll', ?_⟩
        simpa using hw₁

/-! ## The budget -/

theorem inv_init {windows : List (Window ℚ)} (hduration : ∀ w ∈ windows, 0 < w.duration)
    (hused : ∀ w ∈ windows, 0 ≤ w.used) : Inv key (system windows).init where
  nodup := Limiter.nodup_ofWindows windows
  weights call hcall := by cases hcall
  kept := kept_nil
  books w hw _ := by
    have hmem := Limiter.mem_of_mem_ofWindows hw
    exact books_nil (hduration w hmem) (hused w hmem)
  absent _ := rfl

/-- In every run that keeps the window its epochs stay within budget. -/
theorem run_paced {windows : List (Window ℚ)} (hduration : ∀ w ∈ windows, 0 < w.duration)
    (hused : ∀ w ∈ windows, 0 ≤ w.used) {labels : List PacingLabel}
    (hallowed : ∀ l ∈ labels, Allowed key l)
    (hrun : (system windows).run (system windows).init labels = some s) : Paced key s := by
  obtain ⟨hinv, hwaits⟩ := System.run_invariant (I := fun s => Inv key s ∧ WaitsUncharged s)
    (fun s l s' h hl hstep => ⟨h.1.step hl hstep, h.2.step hstep⟩) labels
    ⟨inv_init hduration hused, fun entry hentry => by cases hentry⟩
    (System.guarded_of_forall labels hallowed _) hrun
  exact ⟨hinv.kept.within, hinv.kept.headers, hwaits, fun i now s' => allOrNone_pass⟩

/-- An order and a read, a header that reports more, and a reseed with another limit. -/
theorem run_paced_order :
    ∃ s, (system [⟨.orders, .second, 10, 5, 10, 0, none⟩]).run
        (system [⟨.orders, .second, 10, 5, 10, 0, none⟩]).init
        [.acquire 1 true, .acquire 1 false, .pass 0 0, .pass 1 0,
          .headers 1 [("X-MBX-ORDER-COUNT-10S", "4")], .reseed [⟨.orders, .second, 10, 8⟩]] =
          some s ∧
      Paced (.orders, .second, 10) s := by
  have hruns : ((system [⟨.orders, .second, 10, 5, 10, 0, none⟩]).run
      (system [⟨.orders, .second, 10, 5, 10, 0, none⟩]).init
      [.acquire 1 true, .acquire 1 false, .pass 0 0, .pass 1 0,
        .headers 1 [("X-MBX-ORDER-COUNT-10S", "4")], .reseed [⟨.orders, .second, 10, 8⟩]]).isSome =
        true := by
    decide +kernel
  obtain ⟨s, hs⟩ := Option.isSome_iff_exists.1 hruns
  refine ⟨s, hs, run_paced ?_ ?_ ?_ hs⟩
  · decide +kernel
  · decide
  · simp [Allowed]

/-- An empty window admits a charge of zero whatever its limit is, and a negative count is room. -/
theorem not_withinBudget :
    (∃ s, (system [⟨.requestWeight, .minute, 1, -1, 60, 0, none⟩]).run
        (system [⟨.requestWeight, .minute, 1, -1, 60, 0, none⟩]).init
        [.acquire 0 false, .pass 0 0] = some s ∧
      ¬ WithinBudget (ledger (.requestWeight, .minute, 1) s.log) (some 0)) ∧
    ∃ s, (system [⟨.requestWeight, .minute, 1, 10, 60, -5, none⟩]).run
        (system [⟨.requestWeight, .minute, 1, 10, 60, -5, none⟩]).init
        [.acquire 15 false, .pass 0 0] = some s ∧
      ¬ WithinBudget (ledger (.requestWeight, .minute, 1) s.log) (some 0) := by
  constructor
  · have hruns : ((system [⟨.requestWeight, .minute, 1, -1, 60, 0, none⟩]).run
        (system [⟨.requestWeight, .minute, 1, -1, 60, 0, none⟩]).init
        [.acquire 0 false, .pass 0 0]).map (fun s =>
          chargesIn (ledger (.requestWeight, .minute, 1) s.log) (some 0)) =
        some [⟨0, 0, 0, -1⟩] := by
      decide +kernel
    obtain ⟨s, hs, hcharges⟩ := Option.map_eq_some_iff.1 hruns
    refine ⟨s, hs, ?_⟩
    intro h
    unfold WithinBudget at h
    rw [hcharges] at h
    rcases h _ rfl with hle | ⟨charge, hone, -⟩
    · simp at hle
    · simp at hone
  · have hruns : ((system [⟨.requestWeight, .minute, 1, 10, 60, -5, none⟩]).run
        (system [⟨.requestWeight, .minute, 1, 10, 60, -5, none⟩]).init
        [.acquire 15 false, .pass 0 0]).map (fun s =>
          chargesIn (ledger (.requestWeight, .minute, 1) s.log) (some 0)) =
        some [⟨0, -5, 15, 10⟩] := by
      decide +kernel
    obtain ⟨s, hs, hcharges⟩ := Option.map_eq_some_iff.1 hruns
    refine ⟨s, hs, ?_⟩
    intro h
    unfold WithinBudget at h
    rw [hcharges] at h
    rcases h _ rfl with hle | ⟨charge, hone, -, hempty⟩
    · simp at hle
    · obtain rfl := List.singleton_inj.1 hone
      simp at hempty

end Pacing

end BinanceTh
