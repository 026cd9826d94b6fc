import BinanceTh.Exceptions
import Mathlib.Data.List.Nodup
import Mathlib.Tactic.Linarith

/-!
# The rate limiter

`ratelimit.py`: fixed windows and the pass that `acquire` makes over them at each wake-up. A pass
either admits the call and charges every applicable window, or says how long to sleep before the
next one. The code is written over the numbers that times are (`Seconds`): floats round, rationals
do not. In exact arithmetic, that is over the rationals, the next pass after a sleep of that length
admits, with the windows left alone (`rollAll_after_wait`): a window that lacked room has been reset
by then, and one that had room still has it.
-/

namespace BinanceTh

inductive RateLimitType where
  | requestWeight | orders | rawRequests
  deriving DecidableEq

inductive RateLimitInterval where
  | second | minute | hour | day
  deriving DecidableEq

/-- `_INTERVAL_SECONDS`. -/
def RateLimitInterval.seconds : RateLimitInterval → ℚ
  | .second => 1
  | .minute => 60
  | .hour => 3600
  | .day => 86400

theorem RateLimitInterval.seconds_pos (interval : RateLimitInterval) : 0 < interval.seconds := by
  cases interval <;> simp [seconds]

structure RateLimit where
  rateLimitType : RateLimitType
  interval : RateLimitInterval
  intervalNum : ℤ
  limit : ℤ

/-- `DEFAULT_RATE_LIMITS`. -/
def defaultRateLimits : List RateLimit :=
  [⟨.requestWeight, .minute, 1, 6000⟩, ⟨.orders, .minute, 1, 6000⟩, ⟨.orders, .second, 10, 1000⟩]

/-- What is done with times beyond their order, their sums and their products. -/
class Seconds (K : Type) where
  /-- The product of a float and an integer. -/
  times : ℚ → ℤ → K
  /-- `x // y`. -/
  floorDiv : K → K → K

instance : Seconds ℚ where
  times seconds n := seconds * n
  floorDiv x y := ⌊x / y⌋

@[simp] theorem Seconds.times_rat (seconds : ℚ) (n : ℤ) :
    (Seconds.times seconds n : ℚ) = seconds * n := rfl

@[simp] theorem Seconds.floorDiv_rat (x y : ℚ) : Seconds.floorDiv x y = (⌊x / y⌋ : ℚ) := rfl

structure Window (K : Type) where
  rateLimitType : RateLimitType
  interval : RateLimitInterval
  intervalNum : ℤ
  limit : ℤ
  duration : K
  used : ℤ := 0
  windowStart : Option K := none
  deriving DecidableEq

namespace Window

def key {K : Type} (w : Window K) : RateLimitType × RateLimitInterval × ℤ :=
  (w.rateLimitType, w.interval, w.intervalNum)

/-- `_charges`: by how much a call charges the window, if it does. -/
def charge? {K : Type} (w : Window K) (weight : ℤ) (mutating : Bool) : Option ℤ :=
  match w.rateLimitType with
  | .requestWeight => some weight
  | .rawRequests => some 1
  | .orders => if mutating then some 1 else none

section

variable {K : Type} [LinearOrder K] [Zero K] [Add K] [Sub K] [Mul K] [Seconds K]

/-- `roll`. A window of no length divides by zero. -/
def roll (w : Window K) (now : K) : Except Exc (Window K) :=
  match w.windowStart with
  | none => .ok { w with windowStart := some now }
  | some start =>
    if w.duration ≤ now - start then
      if w.duration = 0 then .error .zeroDivisionError
      else .ok { w with
        windowStart := some (start + w.duration * Seconds.floorDiv (now - start) w.duration),
        used := 0 }
    else .ok w

/-- `wait_time`. -/
def waitTime (w : Window K) (now : K) (charge : ℤ) : K :=
  if w.used = 0 ∨ w.used + charge ≤ w.limit then 0
  else max 0 (w.windowStart.getD now + w.duration - now)

/-- Rolling anchors a window and, past its end, empties it; nothing else is changed. -/
theorem roll_frame {w w' : Window K} {now : K} (h : w.roll now = .ok w') :
    w'.key = w.key ∧ w'.limit = w.limit ∧ w'.duration = w.duration ∧
      w'.windowStart.isSome = true ∧ (w'.used = 0 ∨ w'.used = w.used) := by
  unfold roll at h
  split at h
  · obtain rfl := Except.ok.inj h
    exact ⟨rfl, rfl, rfl, rfl, .inr rfl⟩
  · next start hsome =>
    split at h
    · split at h
      · cases h
      · obtain rfl := Except.ok.inj h
        exact ⟨rfl, rfl, rfl, rfl, .inl rfl⟩
    · obtain rfl := Except.ok.inj h
      exact ⟨rfl, rfl, rfl, by rw [hsome]; rfl, .inr rfl⟩

theorem roll_key {w w' : Window K} {now : K} (h : w.roll now = .ok w') : w'.key = w.key :=
  (roll_frame h).1

theorem roll_intervalNum {w w' : Window K} {now : K} (h : w.roll now = .ok w') :
    w'.intervalNum = w.intervalNum :=
  (Prod.mk.inj (Prod.mk.inj (roll_key h)).2).2

/-- A window of some length always rolls. -/
theorem exists_roll {w : Window K} (hduration : 0 < w.duration) (now : K) :
    ∃ w', w.roll now = .ok w' := by
  unfold roll
  split
  · exact ⟨_, rfl⟩
  · split
    · rw [if_neg hduration.ne']
      exact ⟨_, rfl⟩
    · exact ⟨_, rfl⟩

/-- All that rolling raises. -/
theorem roll_error {w : Window K} {now : K} {e : Exc} (h : w.roll now = .error e) :
    e = .zeroDivisionError := by
  unfold roll at h
  split at h
  · cases h
  · split at h
    · split at h
      · exact (Except.error.inj h).symm
      · cases h
    · cases h

end

theorem waitTime_nonneg (w : Window ℚ) (now : ℚ) (charge : ℤ) : 0 ≤ w.waitTime now charge := by
  unfold waitTime
  split
  · exact le_refl 0
  · exact le_max_left 0 _

/-- Rolling anchors a window and, past its end, empties it. -/
theorem roll_cases {w w' : Window ℚ} {now : ℚ} (h : w.roll now = .ok w') :
    w'.rateLimitType = w.rateLimitType ∧ w'.limit = w.limit ∧ w'.duration = w.duration ∧
      w'.windowStart.isSome = true ∧
      (w'.used = 0 ∨ w'.used = w.used ∧ ∀ start, w.windowStart = some start →
        w'.windowStart = some start ∧ now < start + w.duration) := by
  unfold roll at h
  split at h
  · next hnone =>
    obtain rfl := Except.ok.inj h
    refine ⟨rfl, rfl, rfl, rfl, .inr ⟨rfl, fun start hstart => ?_⟩⟩
    rw [hnone] at hstart
    cases hstart
  · next start hsome =>
    split at h
    · split at h
      · cases h
      · obtain rfl := Except.ok.inj h
        exact ⟨rfl, rfl, rfl, rfl, .inl rfl⟩
    · next hlt =>
      obtain rfl := Except.ok.inj h
      refine ⟨rfl, rfl, rfl, by rw [hsome]; rfl, .inr ⟨rfl, fun start' hstart => ?_⟩⟩
      rw [hsome] at hstart
      obtain rfl := Option.some.inj hstart
      exact ⟨hsome, by linarith⟩

/-- A window that is past its end begins again later, and before `now` is past its new end; another
one keeps its start. -/
theorem roll_windowStart {w w' : Window ℚ} {now : ℚ} (hduration : 0 < w.duration)
    (h : w.roll now = .ok w') :
    (∃ start, w'.windowStart = some start ∧ now < start + w.duration ∧
        ((w.windowStart = none ∧ w'.used = w.used) ∨
          ∃ start₀, w.windowStart = some start₀ ∧ start₀ < start ∧ w'.used = 0)) ∨
      w' = w ∧ ∃ start, w.windowStart = some start ∧ now < start + w.duration := by
  unfold roll at h
  split at h
  · next hnone =>
    obtain rfl := Except.ok.inj h
    exact .inl ⟨now, rfl, by linarith, .inl ⟨hnone, rfl⟩⟩
  · next start hsome =>
    split at h
    · next hle =>
      rw [if_neg hduration.ne', Seconds.floorDiv_rat] at h
      obtain rfl := Except.ok.inj h
      -- the whole durations that have elapsed: at least one, and all but less than one of the time
      have hone : (1 : ℚ) ≤ (⌊(now - start) / w.duration⌋ : ℤ) := by
        exact_mod_cast Int.le_floor.2 (by rw [Int.cast_one, le_div_iff₀ hduration]; linarith)
      have hrest : (now - start) / w.duration < ⌊(now - start) / w.duration⌋ + 1 :=
        Int.lt_floor_add_one _
      rw [div_lt_iff₀ hduration] at hrest
      left
      refine ⟨_, rfl, by linarith, .inr ⟨start, hsome, ?_, rfl⟩⟩
      have := mul_le_mul_of_nonneg_left hone hduration.le
      linarith
    · next hlt =>
      obtain rfl := Except.ok.inj h
      exact .inr ⟨rfl, start, hsome, by linarith⟩

/-- Whatever its count, a window that has been rolled stays as it is when rolled again. -/
theorem roll_again {w w' : Window ℚ} {now : ℚ} (hduration : 0 < w.duration)
    (h : w.roll now = .ok w') (n : ℤ) :
    { w' with used := n }.roll now = .ok { w' with used := n } := by
  obtain ⟨-, -, hsame, -⟩ := roll_cases h
  obtain ⟨start, hstart, hend⟩ : ∃ start, w'.windowStart = some start ∧
      now < start + w.duration := by
    rcases roll_windowStart hduration h with ⟨start, hstart, hend, -⟩ | ⟨heq, hstart⟩
    · exact ⟨start, hstart, hend⟩
    · rw [heq]
      exact hstart
  unfold roll
  simp only [hstart, hsame]
  rw [if_neg]
  linarith

/-- A rolled window without room asks for some time. -/
theorem waitTime_le_zero_iff {w w' : Window ℚ} {now : ℚ} (hduration : 0 < w.duration)
    (h : w.roll now = .ok w') {charge : ℤ} :
    w'.waitTime now charge ≤ 0 ↔ w'.used = 0 ∨ w'.used + charge ≤ w'.limit := by
  obtain ⟨-, -, hsame, -⟩ := roll_cases h
  unfold waitTime
  split
  · next hroom => exact iff_of_true le_rfl hroom
  · next hroom =>
    refine iff_of_false ?_ hroom
    have hend : 0 < w'.windowStart.getD now + w'.duration - now := by
      rw [hsame]
      rcases roll_windowStart hduration h with ⟨start, hstart, hend, -⟩ | ⟨heq, start, hstart, hend⟩
      · rw [hstart, Option.getD_some]
        linarith
      · rw [heq, hstart, Option.getD_some]
        linarith
    exact not_le.2 (lt_of_lt_of_le hend (le_max_right 0 _))

/-- Once the asked time has passed a window has room. -/
theorem waitTime_after {w w₁ w₂ : Window ℚ} {now d : ℚ} {charge : ℤ} (h₁ : w.roll now = .ok w₁)
    (hwait : w₁.waitTime now charge ≤ d) (h₂ : w₁.roll (now + d) = .ok w₂) :
    w₂.waitTime (now + d) charge = 0 := by
  obtain ⟨-, -, -, hsome, -⟩ := roll_cases h₁
  obtain ⟨start, hstart⟩ := Option.isSome_iff_exists.1 hsome
  obtain ⟨-, hlimit, -, -, hzero | ⟨hused, hopen⟩⟩ := roll_cases h₂
  · exact if_pos (.inl hzero)
  · obtain ⟨-, hend⟩ := hopen start hstart
    unfold waitTime at hwait ⊢
    rw [hstart, Option.getD_some] at hwait
    rw [hused, hlimit]
    split at hwait
    · next hroom => exact if_pos hroom
    · have hle := (le_max_right 0 _).trans hwait
      linarith

end Window

/-- The windows, in the order of the limiter's dictionary. -/
abbrev Limiter (K : Type) : Type := List (Window K)

/-- What a pass of `acquire` decides. -/
inductive Admission (K : Type) where
  | admitted
  | wait (seconds : K)

namespace Limiter

variable {K : Type}

/-- `windows[w.key] = w`. -/
def insert (l : Limiter K) (w : Window K) : Limiter K :=
  if l.any fun v => v.key = w.key then l.map fun v => if v.key = w.key then w else v
  else l ++ [w]

/-- `DualWindowRateLimiter(windows)`. -/
def ofWindows (windows : List (Window K)) : Limiter K := windows.foldl insert []

section

variable [Seconds K]

/-- `from_rate_limits`. -/
def ofRateLimits (rules : List RateLimit) : Limiter K :=
  rules.foldl (fun l rule => l.insert
    { rateLimitType := rule.rateLimitType, interval := rule.interval,
      intervalNum := rule.intervalNum, limit := rule.limit,
      duration := Seconds.times rule.interval.seconds rule.intervalNum }) []

/-- What `reseed` makes of a rule: the window of its key keeps its count and its start. -/
def reseeded (l : Limiter K) (rule : RateLimit) : Window K :=
  let duration := Seconds.times rule.interval.seconds rule.intervalNum
  match l.find? fun w => w.key = (rule.rateLimitType, rule.interval, rule.intervalNum) with
  | some existing => { existing with limit := rule.limit, duration }
  | none =>
    { rateLimitType := rule.rateLimitType, interval := rule.interval,
      intervalNum := rule.intervalNum, limit := rule.limit, duration }

def reseed (l : Limiter K) (rateLimits : List RateLimit) : Limiter K :=
  ofWindows (rateLimits.map l.reseeded)

end

/-- `_UNIT_TO_INTERVAL`. -/
def unitToInterval : List (Char × RateLimitInterval) :=
  [('s', .second), ('m', .minute), ('h', .hour), ('d', .day)]

/-- The digits and the interval of a lower-cased header name, if they are all that follows
`family`. -/
def matchHeader (family name : String) : Option (String × RateLimitInterval) :=
  if family.toList.isPrefixOf name.toList then
    let rest := name.toList.drop family.length
    let digits := rest.dropLast
    if digits ≠ [] ∧ digits.all Char.isDigit then
      (rest.getLast?.bind fun unit => unitToInterval.lookup unit).map fun interval =>
        (String.ofList digits, interval)
    else none
  else none

/-- `_WEIGHT_HEADER_RE` and `_ORDER_HEADER_RE`. -/
def headerWindow (name : String) : Option (RateLimitType × String × RateLimitInterval) :=
  match matchHeader "x-mbx-used-weight-" (lower name) with
  | some (digits, interval) => some (.requestWeight, digits, interval)
  | none =>
    (matchHeader "x-mbx-order-count-" (lower name)).map fun m => (.orders, m.1, m.2)

section

variable [LinearOrder K] [Zero K] [Add K] [Sub K] [Mul K] [Seconds K]

/-- One header of `update_from_headers`. -/
def reconcile (l : Limiter K) (now : K) (name value : String) : Except Exc (Limiter K) :=
  match headerWindow name, parseInt value with
  | some (rateType, digits, interval), some used =>
    match parseInt digits with
    -- only the number in the value is converted under a handler
    | none => .error (.valueError ("Exceeds the limit (4300 digits) for integer string " ++
        "conversion: value has " ++ toString digits.length ++
        " digits; use sys.set_int_max_str_digits() to increase the limit"))
    | some num =>
      match l.find? fun w => w.key = (rateType, interval, num) with
      | none => .ok l
      | some w => do
        let w ← w.roll now
        pure (l.insert { w with used := max w.used used })
  | _, _ => .ok l

/-- `update_from_headers`: an exception leaves what the headers before it have done. -/
def updateFromHeaders (now : K) : Limiter K → List (String × String) → Limiter K × Except Exc Unit
  | l, [] => (l, .ok ())
  | l, (name, value) :: headers =>
    match l.reconcile now name value with
    | .error e => (l, .error e)
    | .ok l' => updateFromHeaders now l' headers

variable (weight : ℤ) (mutating : Bool)

/-- The loop of a pass: roll the windows that the call charges and find the longest wait. -/
def rollAll (now : K) : Limiter K → Except Exc (K × Limiter K)
  | [] => .ok (0, [])
  | w :: ws =>
    match w.charge? weight mutating with
    | none => do
      let (wait, ws) ← rollAll now ws
      pure (wait, w :: ws)
    | some amount => do
      let w ← w.roll now
      let (wait, ws) ← rollAll now ws
      pure (max (w.waitTime now amount) wait, w :: ws)

def chargeAll (l : Limiter K) : Limiter K :=
  l.map fun w => match w.charge? weight mutating with
    | some amount => { w with used := w.used + amount }
    | none => w

/-- One pass of `acquire`. -/
def acquireStep (l : Limiter K) (now : K) : Except Exc (Admission K × Limiter K) := do
  let (wait, l) ← rollAll weight mutating now l
  if wait ≤ 0 then pure (.admitted, chargeAll weight mutating l) else pure (.wait wait, l)

/-- The windows after a pass that a window without length has ended: those before it are rolled. -/
def rollUntilRaised (now : K) : Limiter K → Limiter K
  | [] => []
  | w :: ws =>
    match w.charge? weight mutating with
    | none => w :: rollUntilRaised now ws
    | some _ =>
      match w.roll now with
      | .ok w => w :: rollUntilRaised now ws
      | .error _ => w :: ws

end

variable {weight : ℤ} {mutating : Bool}

/-- At `now` every window that the call charges has room for it. -/
def HasRoom (weight : ℤ) (mutating : Bool) (l : Limiter ℚ) (now : ℚ) : Prop :=
  ∀ w ∈ l, ∀ amount, w.charge? weight mutating = some amount →
    ∃ w', w.roll now = .ok w' ∧ w'.waitTime now amount = 0

/-- At `now` every window that the call charges asks for at most `wait`, and one of them for all of
it unless it is 0. -/
structure LongestWait (weight : ℤ) (mutating : Bool) (l : Limiter ℚ) (now wait : ℚ) : Prop where
  nonneg : 0 ≤ wait
  le : ∀ w ∈ l, ∀ amount, w.charge? weight mutating = some amount →
    ∃ w', w.roll now = .ok w' ∧ w'.waitTime now amount ≤ wait
  attained : wait = 0 ∨ ∃ w ∈ l, ∃ amount w', w.charge? weight mutating = some amount ∧
    w.roll now = .ok w' ∧ w'.waitTime now amount = wait

/-! ## The windows as a dictionary -/

theorem mem_insert {l : Limiter K} {w v : Window K} (h : v ∈ l.insert w) :
    v = w ∨ v ∈ l ∧ v.key ≠ w.key := by
  unfold insert at h
  split at h
  · obtain ⟨u, hu, hv⟩ := List.mem_map.1 h
    split at hv
    · exact .inl hv.symm
    · next hne =>
      subst hv
      exact .inr ⟨hu, hne⟩
  · next hnone =>
    rcases List.mem_append.1 h with hv | hv
    · refine .inr ⟨hv, ?_⟩
      intro heq
      simp only [List.any_eq_true, decide_eq_true_eq, not_exists, not_and] at hnone
      exact hnone v hv heq
    · exact .inl (List.mem_singleton.1 hv)

theorem keys_insert (l : Limiter K) (w : Window K) :
    (l.insert w).map Window.key =
      if w.key ∈ l.map Window.key then l.map Window.key else l.map Window.key ++ [w.key] := by
  have hany : (l.any fun v => v.key = w.key) = true ↔ w.key ∈ l.map Window.key := by
    simp [List.any_eq_true]
  unfold insert
  by_cases h : w.key ∈ l.map Window.key
  · rw [if_pos (hany.2 h), if_pos h, List.map_map]
    apply List.map_congr_left
    intro v _
    simp only [Function.comp_apply]
    split
    · next heq => exact heq.symm
    · rfl
  · rw [if_neg (mt hany.1 h), if_neg h, List.map_append]
    rfl

theorem nodup_insert {l : Limiter K} (w : Window K) (h : (l.map Window.key).Nodup) :
    ((l.insert w).map Window.key).Nodup := by
  rw [keys_insert]
  split
  · exact h
  · next hnew =>
    refine List.nodup_append.2 ⟨h, List.pairwise_singleton _ _, ?_⟩
    intro a ha b hb heq
    obtain rfl := List.mem_singleton.1 hb
    exact hnew (heq ▸ ha)

/-- A dictionary made of a list has each key once, and the list's keys and windows only. -/
theorem foldl_insert_spec (ws : List (Window K)) :
    ∀ {l : Limiter K}, (l.map Window.key).Nodup →
      ((ws.foldl insert l).map Window.key).Nodup ∧
      (∀ v ∈ ws.foldl insert l, v ∈ l ∨ v ∈ ws) ∧
      ∀ key, (key ∈ l.map Window.key ∨ key ∈ ws.map Window.key) →
        key ∈ (ws.foldl insert l).map Window.key := by
  induction ws with
  | nil =>
    intro l h
    exact ⟨h, fun v hv => .inl hv, fun key hkey => hkey.resolve_right List.not_mem_nil⟩
  | cons w ws ih =>
    intro l h
    obtain ⟨hnodup, hmem, hkeys⟩ := ih (nodup_insert w h)
    refine ⟨hnodup, ?_, ?_⟩
    · intro v hv
      rcases hmem v hv with hv | hv
      · rcases mem_insert hv with heq | ⟨hv, -⟩
        · exact .inr (List.mem_cons.2 (.inl heq))
        · exact .inl hv
      · exact .inr (List.mem_cons_of_mem w hv)
    · intro key hkey
      apply hkeys
      rw [keys_insert]
      rw [List.map_cons, List.mem_cons] at hkey
      split <;> grind

theorem nodup_ofWindows (ws : List (Window K)) : ((ofWindows ws).map Window.key).Nodup :=
  (foldl_insert_spec ws (l := []) List.nodup_nil).1

theorem mem_of_mem_ofWindows {ws : List (Window K)} {v : Window K} (h : v ∈ ofWindows ws) : v ∈ ws :=
  ((foldl_insert_spec ws (l := []) List.nodup_nil).2.1 v h).resolve_left List.not_mem_nil

theorem key_mem_ofWindows {ws : List (Window K)} {w : Window K} (h : w ∈ ws) :
    w.key ∈ (ofWindows ws).map Window.key :=
  (foldl_insert_spec ws (l := []) List.nodup_nil).2.2 w.key (.inr (List.mem_map_of_mem h))

/-- The window of a key is the only one with it. -/
theorem filter_key_eq {l : Limiter K} (h : (l.map Window.key).Nodup) {w : Window K} (hw : w ∈ l) :
    (l.filter fun v => v.key = w.key) = [w] := by
  induction l with
  | nil => cases hw
  | cons v l ih =>
    rw [List.map_cons, List.nodup_cons] at h
    rcases List.mem_cons.1 hw with heq | hw
    · subst heq
      have hrest : (l.filter fun v => v.key = w.key) = [] := by
        rw [List.filter_eq_nil_iff]
        intro u hu heq
        exact h.1 (List.mem_map.2 ⟨u, hu, by simpa using heq⟩)
      simp [hrest]
    · have hne : v.key ≠ w.key := by
        intro heq
        exact h.1 (heq ▸ List.mem_map_of_mem hw)
      simp [hne, ih h.2 hw]

theorem find?_key_eq {l : Limiter K} (h : (l.map Window.key).Nodup) {w : Window K} (hw : w ∈ l) :
    (l.find? fun v => v.key = w.key) = some w := by
  rw [← List.head?_filter, filter_key_eq h hw]
  rfl

/-! ## Reconciling and reseeding -/

section

variable [LinearOrder K] [Zero K] [Add K] [Sub K] [Mul K] [Seconds K]

/-- What the headers of one response do to a window: nothing, or it is rolled and its count is
raised. -/
def Reconciled (now : K) (w w' : Window K) : Prop :=
  w' = w ∨ ∃ w₁ used, w.roll now = .ok w₁ ∧ w₁.used ≤ used ∧ w' = { w₁ with used }

theorem Reconciled.key_eq {now : K} {w w' : Window K} (h : Reconciled now w w') :
    w'.key = w.key := by
  rcases h with heq | ⟨w₁, used, hroll, -, heq⟩
  · rw [heq]
  · have hkey := Window.roll_key hroll
    rw [heq]
    exact hkey

theorem reconcile_spec {l l' : Limiter K} {now : K} {name value : String}
    (h : l.reconcile now name value = .ok l') :
    l'.map Window.key = l.map Window.key ∧ ∀ w' ∈ l', ∃ w ∈ l, Reconciled now w w' := by
  have hsame : l'.map Window.key = l'.map Window.key ∧ ∀ w' ∈ l', ∃ w ∈ l', Reconciled now w w' :=
    ⟨rfl, fun w' hw' => ⟨w', hw', .inl rfl⟩⟩
  unfold reconcile at h
  split at h
  · split at h
    · cases h
    · split at h
      · obtain rfl := Except.ok.inj h
        exact hsame
      · next w hfind =>
        obtain ⟨w₁, hroll, h⟩ := bind_eq_ok_iff.1 h
        obtain rfl := Except.ok.inj h
        have hw : w ∈ l := List.mem_of_find?_eq_some hfind
        constructor
        · rw [keys_insert, if_pos]
          have hkey : w₁.key = w.key := Window.roll_key hroll
          have hmem := List.mem_map_of_mem (f := Window.key) hw
          rw [← hkey] at hmem
          exact hmem
        · intro w' hw'
          rcases mem_insert hw' with heq | ⟨hw', -⟩
          · exact ⟨w, hw, .inr ⟨w₁, _, hroll, le_max_left _ _, heq⟩⟩
          · exact ⟨w', hw', .inl rfl⟩
  · obtain rfl := Except.ok.inj h
    exact hsame

/-- A header whose number cannot be converted, or a window of no length. -/
theorem reconcile_error {l : Limiter K} {now : K} {name value : String} {e : Exc}
    (h : l.reconcile now name value = .error e) : ∃ raised : LimiterError, e = raised.exc := by
  unfold reconcile at h
  split at h
  · split at h
    · exact ⟨.valueError _, (Except.error.inj h).symm⟩
    · split at h
      · cases h
      · next w _ =>
        cases hroll : w.roll now with
        | ok w' =>
          rw [hroll] at h
          cases h
        | error e' =>
          rw [hroll] at h
          obtain rfl := Except.error.inj h
          exact ⟨.zeroDivisionError, Window.roll_error hroll⟩
  · cases h

/-- What `update_from_headers` raises is an exception of a limiter. -/
theorem updateFromHeaders_error {now : K} {headers : List (String × String)} {e : Exc} :
    ∀ {l : Limiter K}, (updateFromHeaders now l headers).2 = .error e →
      ∃ raised : LimiterError, e = raised.exc := by
  induction headers with
  | nil =>
    intro l h
    cases h
  | cons header headers ih =>
    intro l h
    rw [updateFromHeaders] at h
    split at h
    · next e' hone =>
      obtain rfl := Except.error.inj h
      exact reconcile_error hone
    · exact ih h

end

theorem Reconciled.trans {now : ℚ} {w w' w'' : Window ℚ} (hduration : 0 < w.duration)
    (h : Reconciled now w w') (h' : Reconciled now w' w'') : Reconciled now w w'' := by
  rcases h with heq | ⟨w₁, used, hroll, hle, heq⟩
  · rwa [heq] at h'
  · subst heq
    rcases h' with heq | ⟨w₂, used', hroll', hle', heq⟩
    · subst heq
      exact .inr ⟨w₁, used, hroll, hle, rfl⟩
    · rw [Window.roll_again hduration hroll used] at hroll'
      obtain rfl := Except.ok.inj hroll'
      exact .inr ⟨w₁, used', hroll, hle.trans hle', heq⟩

theorem updateFromHeaders_spec (now : ℚ) (headers : List (String × String)) :
    ∀ l : Limiter ℚ, (updateFromHeaders now l headers).1.map Window.key = l.map Window.key ∧
      ∀ w' ∈ (updateFromHeaders now l headers).1, ∃ w ∈ l, w'.key = w.key ∧
        (0 < w.duration → Reconciled now w w') := by
  induction headers with
  | nil =>
    intro l
    exact ⟨rfl, fun w' hw' => ⟨w', hw', rfl, fun _ => .inl rfl⟩⟩
  | cons header headers ih =>
    intro l
    rw [updateFromHeaders]
    split
    · exact ⟨rfl, fun w' hw' => ⟨w', hw', rfl, fun _ => .inl rfl⟩⟩
    · next l₁ hone =>
      obtain ⟨hkeys, hwindows⟩ := reconcile_spec hone
      obtain ⟨hkeys', hwindows'⟩ := ih l₁
      refine ⟨hkeys'.trans hkeys, ?_⟩
      intro w' hw'
      obtain ⟨w₁, hw₁, hkey, hrec⟩ := hwindows' w' hw'
      obtain ⟨w, hw, hfirst⟩ := hwindows w₁ hw₁
      refine ⟨w, hw, hkey.trans hfirst.key_eq, ?_⟩
      intro hduration
      refine hfirst.trans hduration (hrec ?_)
      rcases hfirst with heq | ⟨w₂, used, hroll, -, heq⟩
      · rwa [heq]
      · obtain ⟨-, -, hsame, -⟩ := Window.roll_cases hroll
        rw [heq]
        simpa [hsame] using hduration

/-- A reseeded window is the old one of its key with another limit and length, or a fresh one. -/
theorem reseeded_cases [Seconds K] (l : Limiter K) (rule : RateLimit) :
    (l.reseeded rule).key = (rule.rateLimitType, rule.interval, rule.intervalNum) ∧
    (l.reseeded rule).duration = Seconds.times rule.interval.seconds rule.intervalNum ∧
    ((∃ w ∈ l, w.key = (l.reseeded rule).key ∧
        (l.reseeded rule).used = w.used ∧ (l.reseeded rule).windowStart = w.windowStart) ∨
      (∀ w ∈ l, w.key ≠ (l.reseeded rule).key) ∧
        (l.reseeded rule).used = 0 ∧ (l.reseeded rule).windowStart = none) := by
  unfold reseeded
  simp only
  split
  · next w hfind =>
    have hkey : w.key = (rule.rateLimitType, rule.interval, rule.intervalNum) := by
      simpa using List.find?_some hfind
    exact ⟨hkey, rfl, .inl ⟨w, List.mem_of_find?_eq_some hfind, rfl, rfl, rfl⟩⟩
  · next hnone =>
    refine ⟨rfl, rfl, .inr ⟨?_, rfl, rfl⟩⟩
    intro w hw
    have hne := List.find?_eq_none.1 hnone w hw
    simp only [decide_eq_true_eq] at hne
    exact hne

/-! ## A pass -/

theorem exists_of_forall₂ {α β : Type} {R : α → β → Prop} {l : List α} {l' : List β}
    (h : List.Forall₂ R l l') : (∀ b ∈ l', ∃ a ∈ l, R a b) ∧ ∀ a ∈ l, ∃ b ∈ l', R a b := by
  induction h with
  | nil => simp
  | cons hab _ ih =>
    constructor
    · intro b hb
      rcases List.mem_cons.1 hb with heq | hb
      · exact ⟨_, List.mem_cons_self, heq ▸ hab⟩
      · obtain ⟨a, ha, hR⟩ := ih.1 b hb
        exact ⟨a, List.mem_cons_of_mem _ ha, hR⟩
    · intro a ha
      rcases List.mem_cons.1 ha with heq | ha
      · exact ⟨_, List.mem_cons_self, heq ▸ hab⟩
      · obtain ⟨b, hb, hR⟩ := ih.2 a ha
        exact ⟨b, List.mem_cons_of_mem _ hb, hR⟩

section

variable [LinearOrder K] [Zero K] [Add K] [Sub K] [Mul K] [Seconds K]

/-- What a pass does to a window, with the wait it may ask for: it rolls those that the call
charges and leaves the others alone. -/
def Rolled (weight : ℤ) (mutating : Bool) (now bound : K) (w w' : Window K) : Prop :=
  (w.charge? weight mutating = none ∧ w' = w) ∨
    ∃ amount, w.charge? weight mutating = some amount ∧ w.roll now = .ok w' ∧
      w'.waitTime now amount ≤ bound

theorem Rolled.key_eq {now bound : K} {w w' : Window K} (h : Rolled weight mutating now bound w w') :
    w'.key = w.key := by
  rcases h with ⟨-, heq⟩ | ⟨amount, -, hroll, -⟩
  · rw [heq]
  · exact Window.roll_key hroll

/-- The call charges the rolled window what it charges the window. -/
theorem Rolled.charge?_eq {now bound : K} {w w' : Window K}
    (h : Rolled weight mutating now bound w w') :
    w'.charge? weight mutating = w.charge? weight mutating := by
  rcases h with ⟨-, heq⟩ | ⟨amount, -, hroll, -⟩
  · rw [heq]
  · have htype := (Prod.mk.inj (Window.roll_key hroll)).1
    unfold Window.charge?
    rw [htype]

theorem rollAll_forall₂ {now wait bound : K} {l l' : Limiter K}
    (h : rollAll weight mutating now l = .ok (wait, l')) (hbound : wait ≤ bound) :
    List.Forall₂ (Rolled weight mutating now bound) l l' := by
  induction l generalizing wait l' with
  | nil =>
    obtain ⟨-, rfl⟩ := Prod.mk.inj (Except.ok.inj h)
    exact .nil
  | cons w ws ih =>
    unfold rollAll at h
    split at h
    · next hnone =>
      obtain ⟨⟨wait', ws'⟩, hws, h⟩ := bind_eq_ok_iff.1 h
      obtain ⟨rfl, rfl⟩ := Prod.mk.inj (Except.ok.inj h)
      exact .cons (.inl ⟨hnone, rfl⟩) (ih hws hbound)
    · next amount hsome =>
      obtain ⟨w', hroll, h⟩ := bind_eq_ok_iff.1 h
      obtain ⟨⟨wait', ws'⟩, hws, h⟩ := bind_eq_ok_iff.1 h
      obtain ⟨rfl, rfl⟩ := Prod.mk.inj (Except.ok.inj h)
      refine .cons (.inr ⟨amount, hsome, hroll, (le_max_left _ _).trans hbound⟩) ?_
      exact ih hws ((le_max_right _ _).trans hbound)

theorem rollAll_keys {now wait : K} {l l' : Limiter K}
    (h : rollAll weight mutating now l = .ok (wait, l')) :
    l'.map Window.key = l.map Window.key := by
  have hall := rollAll_forall₂ h le_rfl
  clear h
  induction hall with
  | nil => rfl
  | cons hw _ ih => rw [List.map_cons, List.map_cons, hw.key_eq, ih]

/-- Over windows of some length a pass raises nothing. -/
theorem exists_rollAll {l : Limiter K} (hpos : ∀ w ∈ l, 0 < w.duration) (now : K) :
    ∃ wait l', rollAll weight mutating now l = .ok (wait, l') := by
  induction l with
  | nil => exact ⟨0, [], rfl⟩
  | cons w ws ih =>
    obtain ⟨wait, ws', hws⟩ := ih fun v hv => hpos v (List.mem_cons_of_mem w hv)
    unfold rollAll
    cases w.charge? weight mutating with
    | none => exact ⟨wait, w :: ws', by rw [hws]; rfl⟩
    | some amount =>
      obtain ⟨w', hroll⟩ := Window.exists_roll (hpos w List.mem_cons_self) now
      exact ⟨max (w'.waitTime now amount) wait, w' :: ws', by simp only [hroll, hws]; rfl⟩

/-- What a pass raises is an exception of a limiter. -/
theorem rollAll_error {now : K} {l : Limiter K} {e : Exc}
    (h : rollAll weight mutating now l = .error e) : ∃ raised : LimiterError, e = raised.exc := by
  induction l generalizing e with
  | nil => cases h
  | cons w ws ih =>
    unfold rollAll at h
    split at h
    · cases hws : rollAll weight mutating now ws with
      | ok r =>
        rw [hws] at h
        cases h
      | error e' =>
        rw [hws] at h
        obtain rfl := Except.error.inj h
        exact ih hws
    · cases hroll : w.roll now with
      | error e' =>
        rw [hroll] at h
        obtain rfl := Except.error.inj h
        exact ⟨.zeroDivisionError, Window.roll_error hroll⟩
      | ok w' =>
        cases hws : rollAll weight mutating now ws with
        | ok r =>
          rw [hroll, hws] at h
          cases h
        | error e' =>
          rw [hroll, hws] at h
          obtain rfl := Except.error.inj h
          exact ih hws

theorem acquireStep_error {l : Limiter K} {now : K} {e : Exc}
    (h : acquireStep weight mutating l now = .error e) :
    ∃ raised : LimiterError, e = raised.exc := by
  unfold acquireStep at h
  cases hroll : rollAll weight mutating now l with
  | error e' =>
    rw [hroll] at h
    obtain rfl := Except.error.inj h
    exact rollAll_error hroll
  | ok r =>
    rw [hroll] at h
    obtain ⟨wait, rolled⟩ := r
    dsimp only [bind, Except.bind] at h
    split at h <;> cases h

end

theorem rollAll_longestWait {now wait : ℚ} {l l' : Limiter ℚ}
    (h : rollAll weight mutating now l = .ok (wait, l')) :
    LongestWait weight mutating l now wait := by
  induction l generalizing wait l' with
  | nil =>
    obtain ⟨rfl, -⟩ := Prod.mk.inj (Except.ok.inj h)
    exact ⟨le_refl 0, fun _ hw => absurd hw List.not_mem_nil, .inl rfl⟩
  | cons w ws ih =>
    unfold rollAll at h
    split at h
    · next hnone =>
      obtain ⟨⟨wait', ws'⟩, hws, h⟩ := bind_eq_ok_iff.1 h
      obtain ⟨rfl, -⟩ := Prod.mk.inj (Except.ok.inj h)
      obtain ⟨hnonneg, hle, hattained⟩ := ih hws
      refine ⟨hnonneg, fun v hv amount hv' => ?_, ?_⟩
      · rcases List.mem_cons.1 hv with rfl | hv
        · rw [hnone] at hv'
          cases hv'
        · exact hle v hv amount hv'
      · rcases hattained with hzero | ⟨v, hv, hrest⟩
        · exact .inl hzero
        · exact .inr ⟨v, List.mem_cons_of_mem w hv, hrest⟩
    · next amount hsome =>
      obtain ⟨w', hroll, h⟩ := bind_eq_ok_iff.1 h
      obtain ⟨⟨wait', ws'⟩, hws, h⟩ := bind_eq_ok_iff.1 h
      obtain ⟨rfl, -⟩ := Prod.mk.inj (Except.ok.inj h)
      obtain ⟨hnonneg, hle, hattained⟩ := ih hws
      refine ⟨hnonneg.trans (le_max_right _ _), fun v hv amount' hv' => ?_, ?_⟩
      · rcases List.mem_cons.1 hv with rfl | hv
        · obtain rfl := Option.some.inj (hsome.symm.trans hv')
          exact ⟨w', hroll, le_max_left _ _⟩
        · obtain ⟨v', hv₁, hv₂⟩ := hle v hv amount' hv'
          exact ⟨v', hv₁, hv₂.trans (le_max_right _ _)⟩
      · rcases max_choice (w'.waitTime now amount) wait' with hmax | hmax
        · exact .inr ⟨w, List.mem_cons_self, amount, w', hsome, hroll, hmax.symm⟩
        · rw [hmax]
          rcases hattained with hzero | ⟨v, hv, hrest⟩
          · exact .inl hzero
          · exact .inr ⟨v, List.mem_cons_of_mem w hv, hrest⟩

theorem LongestWait.hasRoom_iff {l : Limiter ℚ} {now wait : ℚ}
    (h : LongestWait weight mutating l now wait) :
    HasRoom weight mutating l now ↔ wait ≤ 0 := by
  constructor
  · intro hroom
    rcases h.attained with hzero | ⟨w, hw, amount, w', hcharge, hroll, hwait⟩
    · exact hzero.le
    · obtain ⟨w'', hroll', hzero⟩ := hroom w hw amount hcharge
      obtain rfl := Except.ok.inj (hroll.symm.trans hroll')
      rw [← hwait, hzero]
  · intro hle w hw amount hcharge
    obtain ⟨w', hroll, hwait⟩ := h.le w hw amount hcharge
    exact ⟨w', hroll, le_antisymm (hwait.trans hle) (w'.waitTime_nonneg now amount)⟩

/-- A pass over windows that all have room admits. -/
theorem acquireStep_of_hasRoom {l : Limiter ℚ} {now : ℚ} (h : HasRoom weight mutating l now) :
    ∃ l', acquireStep weight mutating l now = .ok (.admitted, l') := by
  obtain ⟨wait, rolled, hroll⟩ : ∃ wait rolled,
      rollAll weight mutating now l = .ok (wait, rolled) := by
    induction l with
    | nil => exact ⟨0, [], rfl⟩
    | cons w ws ih =>
      obtain ⟨wait, rolled, hws⟩ := ih fun v hv => h v (List.mem_cons_of_mem w hv)
      unfold rollAll
      cases hcharge : w.charge? weight mutating with
      | none => exact ⟨wait, w :: rolled, by rw [hws]; rfl⟩
      | some amount =>
        obtain ⟨w', hroll, -⟩ := h w List.mem_cons_self amount hcharge
        exact ⟨max (w'.waitTime now amount) wait, w' :: rolled, by simp only [hroll, hws]; rfl⟩
  have hle := (rollAll_longestWait hroll).hasRoom_iff.1 h
  refine ⟨chargeAll weight mutating rolled, ?_⟩
  unfold acquireStep
  rw [hroll]
  exact if_pos hle

/-- A pass that admits found room, and one that waits found none. -/
theorem acquireStep_cases {l l' : Limiter ℚ} {now : ℚ} {a : Admission ℚ}
    (h : acquireStep weight mutating l now = .ok (a, l')) :
    (a = .admitted ∧ HasRoom weight mutating l now ∧ LongestWait weight mutating l now 0) ∨
      ∃ wait, a = .wait wait ∧ ¬ HasRoom weight mutating l now ∧
        LongestWait weight mutating l now wait ∧ rollAll weight mutating now l = .ok (wait, l') := by
  unfold acquireStep at h
  obtain ⟨⟨wait, ws⟩, hroll, h⟩ := bind_eq_ok_iff.1 h
  have hlongest := rollAll_longestWait hroll
  dsimp only at h
  split at h
  · next hle =>
    obtain ⟨rfl, -⟩ := Prod.mk.inj (Except.ok.inj h)
    have hzero := le_antisymm hle hlongest.nonneg
    exact .inl ⟨rfl, hlongest.hasRoom_iff.2 hle, hzero ▸ hlongest⟩
  · next hlt =>
    obtain ⟨rfl, rfl⟩ := Prod.mk.inj (Except.ok.inj h)
    exact .inr ⟨wait, rfl, fun hroom => hlt (hlongest.hasRoom_iff.1 hroom), hlongest, hroll⟩

/-- After a sleep of at least the longest wait, windows that nothing else has touched ask for none
any more. -/
theorem rollAll_after_wait {now d wait wait' : ℚ} {l l' l'' : Limiter ℚ}
    (h : rollAll weight mutating now l = .ok (wait, l')) (hd : wait ≤ d)
    (h' : rollAll weight mutating (now + d) l' = .ok (wait', l'')) : wait' = 0 := by
  induction l generalizing wait l' wait' l'' with
  | nil =>
    obtain ⟨-, rfl⟩ := Prod.mk.inj (Except.ok.inj h)
    exact (Prod.mk.inj (Except.ok.inj h')).1.symm
  | cons w ws ih =>
    unfold rollAll at h
    split at h
    · next hnone =>
      obtain ⟨⟨wait₁, ws₁⟩, hws, h⟩ := bind_eq_ok_iff.1 h
      obtain ⟨rfl, rfl⟩ := Prod.mk.inj (Except.ok.inj h)
      unfold rollAll at h'
      rw [hnone] at h'
      obtain ⟨⟨wait₂, ws₂⟩, hws₂, h'⟩ := bind_eq_ok_iff.1 h'
      obtain ⟨rfl, -⟩ := Prod.mk.inj (Except.ok.inj h')
      exact ih hws hd hws₂
    · next amount hsome =>
      obtain ⟨w₁, hroll, h⟩ := bind_eq_ok_iff.1 h
      obtain ⟨⟨wait₁, ws₁⟩, hws, h⟩ := bind_eq_ok_iff.1 h
      obtain ⟨rfl, rfl⟩ := Prod.mk.inj (Except.ok.inj h)
      have hcharge : w₁.charge? weight mutating = some amount := by
        rw [← hsome, Window.charge?, (Window.roll_cases hroll).1]
        rfl
      unfold rollAll at h'
      rw [hcharge] at h'
      obtain ⟨w₂, hroll₂, h'⟩ := bind_eq_ok_iff.1 h'
      obtain ⟨⟨wait₂, ws₂⟩, hws₂, h'⟩ := bind_eq_ok_iff.1 h'
      obtain ⟨rfl, -⟩ := Prod.mk.inj (Except.ok.inj h')
      have hfirst := Window.waitTime_after hroll ((le_max_left _ _).trans hd) hroll₂
      have hrest := ih hws ((le_max_right _ _).trans hd) hws₂
      rw [hfirst, hrest, max_self]

end Limiter

end BinanceTh
