import BinanceTh.Lib.Cells
import BinanceTh.RateLimit.ServerWindows

/-!
# Any interval of a window's length

The limiter counts in windows of its own clock. Over the length of a window, from any time on, it
admits twice the limit at most (`TimedPacing.run_withinTwice`), whatever calls, headers and reseeds
of the same rule there are: the epochs of a window are cells of that length which do not overlap,
each is charged no more than the limit, and the interval meets two of them. It does admit twice the
limit (`TimedPacing.run_withinTwice_atTheSeam`).
-/

namespace BinanceTh

open Transition

/-- A window that has been rolled is the cell of the clock; its cell before is this one, or ended
before it. -/
theorem Window.roll_cell {w w' : Window ℚ} {now : ℚ} (hduration : 0 < w.duration)
    (hbegun : ∀ old, w.windowStart = some old → old ≤ now) (h : w.roll now = .ok w') :
    ∃ new, w'.windowStart = some new ∧ Cells.In w.duration new now ∧
      ∀ old, w.windowStart = some old → old = new ∨ old + w.duration ≤ new := by
  unfold roll at h
  split at h
  · next hnone =>
    obtain rfl := Except.ok.inj h
    refine ⟨now, rfl, ⟨le_rfl, by linarith⟩, fun old hold => ?_⟩
    rw [hnone] at hold
    cases hold
  · next start hsome =>
    split at h
    · next hover =>
      rw [if_neg hduration.ne', Seconds.floorDiv_rat] at h
      obtain rfl := Except.ok.inj h
      have hone : (1 : ℤ) ≤ ⌊(now - start) / w.duration⌋ := by
        rw [Int.le_floor, Int.cast_one, one_le_div₀ hduration]
        exact hover
      have hone : (1 : ℚ) ≤ ⌊(now - start) / w.duration⌋ := by exact_mod_cast hone
      have hle := Int.floor_le ((now - start) / w.duration)
      have hlt := Int.lt_floor_add_one ((now - start) / w.duration)
      have hmul : w.duration * ((now - start) / w.duration) = now - start :=
        mul_div_cancel₀ _ hduration.ne'
      refine ⟨_, rfl, ⟨?_, ?_⟩, fun old hold => .inr ?_⟩
      · linarith [mul_le_mul_of_nonneg_left hle hduration.le]
      · linarith [mul_lt_mul_of_pos_left hlt hduration]
      · obtain rfl := Option.some.inj (hsome.symm.trans hold)
        linarith [mul_le_mul_of_nonneg_left hone hduration.le]
    · next hopen =>
      obtain rfl := Except.ok.inj h
      refine ⟨start, hsome, ⟨hbegun start hsome, by linarith⟩, fun old hold => .inl ?_⟩
      exact Option.some.inj (hold.symm.trans hsome)

/-- The start of the epoch. -/
def BudgetEntry.cell (entry : BudgetEntry) : ℚ := entry.epoch.getD 0

/-- The limiter with a clock that does not go back, and its log with the times. -/
structure TimedPacing where
  pacing : Pacing
  now : ℚ
  logged : List (ℚ × BudgetEntry)

namespace TimedPacing

/-- The reading of the clock, where a step makes one. -/
def reading? : PacingLabel → Option ℚ
  | .pass _ now | .headers now _ => some now
  | .acquire _ _ | .reseed _ => none

def step (s : TimedPacing) (l : PacingLabel) : Option TimedPacing :=
  let now := (reading? l).getD s.now
  if s.now ≤ now then
    (s.pacing.step l).map fun pacing => ⟨pacing, now,
      s.logged ++ (pacing.log.drop s.pacing.log.length).map fun entry => (now, entry)⟩
  else none

def system (windows : List (Window ℚ)) (now : ℚ) : System TimedPacing PacingLabel where
  init := ⟨(Pacing.system windows).init, now, []⟩
  step := step

variable (key : RateLimitType × RateLimitInterval × ℤ) (limit : ℤ) (duration : ℚ)

/-- The log of the windows with the key. -/
def own (s : TimedPacing) : List (ℚ × BudgetEntry) := s.logged.filter fun x => x.2.key = key

/-- What was charged to the windows with the key from `t` on, for their length. -/
def admittedFrom (t : ℚ) (s : TimedPacing) : ℤ :=
  Cells.sumOf (fun x => x.2.amount) (s.own key) fun x => Cells.In duration t x.1

/-- A window with the key has room for the call when it is empty. -/
def FitsCall (weight : ℤ) (mutating : Bool) : Prop :=
  ∀ w : Window ℚ, w.key = key → ∀ amount, w.charge? weight mutating = some amount → amount ≤ limit

/-- Calls fit, and reseeds have the rule of the window. -/
def KeepsRule : PacingLabel → Prop
  | .acquire weight mutating => 0 ≤ weight ∧ FitsCall key limit weight mutating
  | .reseed rateLimits => Pacing.Allowed key (.reseed rateLimits) ∧ ∀ rule ∈ rateLimits,
      (rule.rateLimitType, rule.interval, rule.intervalNum) = key →
        rule.limit = limit ∧ rule.interval.seconds * rule.intervalNum = duration
  | _ => True

/-- What is true of every reachable state. -/
structure Spread (s : TimedPacing) : Prop where
  inv : Pacing.Inv key s.pacing
  log : s.logged.map Prod.snd = s.pacing.log
  rule : ∀ w ∈ s.pacing.windows, w.key = key → w.limit = limit ∧ w.duration = duration
  fits : ∀ call ∈ s.pacing.calls, FitsCall key limit call.weight call.mutating
  within : ∀ epoch,
    ((Pacing.chargesIn (Pacing.ledger key s.pacing.log) epoch).map Charge.amount).sum ≤ limit
  inCell : ∀ x ∈ s.own key, x.2.epoch = some x.2.cell ∧ Cells.In duration x.2.cell x.1
  /-- The cell of the window has begun, and what was logged is of it or of one that has ended. -/
  placed : ∀ w ∈ s.pacing.windows, w.key = key → ∀ start, w.windowStart = some start →
    start ≤ s.now ∧ ∀ x ∈ s.own key, x.2.cell = start ∨ x.2.cell + duration ≤ start
  apart : ∀ x ∈ s.own key, ∀ y ∈ s.own key, Cells.Apart duration x.2.cell y.2.cell

/-- What a step at `now` leaves behind. -/
structure Follows (s : TimedPacing) (now : ℚ) (pacing : Pacing) (entries : List BudgetEntry) :
    Prop where
  log : pacing.log = s.pacing.log ++ entries
  rule : ∀ w ∈ pacing.windows, w.key = key → w.limit = limit ∧ w.duration = duration
  fits : ∀ call ∈ pacing.calls, FitsCall key limit call.weight call.mutating
  within : ∀ epoch,
    ((Pacing.chargesIn (Pacing.ledger key pacing.log) epoch).map Charge.amount).sum ≤ limit
  /-- A window is new, or begins as before, or has been rolled. -/
  windows : ∀ w' ∈ pacing.windows, w'.key = key → ∀ start, w'.windowStart = some start →
    ∃ w ∈ s.pacing.windows, w.key = key ∧ (w.windowStart = some start ∨
      ∃ w₁, w.roll now = .ok w₁ ∧ w₁.windowStart = some start)
  /-- What is logged is of the present epoch of a window that has been rolled. -/
  entries : ∀ entry ∈ entries, entry.key = key → ∃ w' ∈ pacing.windows, w'.key = key ∧
    entry.epoch = w'.windowStart ∧ ∃ w ∈ s.pacing.windows, w.key = key ∧
      ∃ w₁, w.roll now = .ok w₁ ∧ w₁.windowStart = w'.windowStart

variable {key limit duration} {s s' : TimedPacing} {now : ℚ} {pacing : Pacing}
  {entries : List BudgetEntry} {x : ℚ × BudgetEntry}

/-! ## One step -/

theorem mem_own_append :
    x ∈ own key ⟨pacing, now, s.logged ++ entries.map fun entry => (now, entry)⟩ ↔
      x ∈ s.own key ∨ x.1 = now ∧ x.2 ∈ entries ∧ x.2.key = key := by
  obtain ⟨t, entry⟩ := x
  simp only [own, List.mem_filter, List.mem_append, List.mem_map, Prod.mk.injEq, decide_eq_true_eq]
  constructor
  · rintro ⟨hold | ⟨entry', hentry, rfl, rfl⟩, hkey⟩
    · exact .inl ⟨hold, hkey⟩
    · exact .inr ⟨rfl, hentry, hkey⟩
  · rintro (⟨hold, hkey⟩ | ⟨rfl, hentry, hkey⟩)
    · exact ⟨.inl hold, hkey⟩
    · exact ⟨.inr ⟨entry, hentry, rfl, rfl⟩, hkey⟩

theorem entry_mem_ledger (h : s.Spread key limit duration) (hx : x ∈ s.own key) :
    x.2 ∈ Pacing.ledger key s.pacing.log := by
  obtain ⟨hmem, hkey⟩ := List.mem_filter.1 hx
  rw [← h.log]
  exact List.mem_filter.2 ⟨List.mem_map_of_mem hmem, hkey⟩

theorem Spread.duration_pos {w : Window ℚ} (h : s.Spread key limit duration)
    (hw : w ∈ s.pacing.windows) (hkey : w.key = key) : 0 < duration := by
  rw [← (h.rule w hw hkey).2]
  exact (h.inv.books w hw hkey).duration_pos

/-- **A window is placed** where the clock is, behind what was logged. -/
theorem Spread.roll {w w₁ : Window ℚ} {start : ℚ} (h : s.Spread key limit duration)
    (hnow : s.now ≤ now) (hw : w ∈ s.pacing.windows) (hkey : w.key = key)
    (hroll : w.roll now = .ok w₁) (hstart : w₁.windowStart = some start) :
    Cells.In duration start now ∧
      ∀ x ∈ s.own key, x.2.cell = start ∨ x.2.cell + duration ≤ start := by
  have hduration := (h.rule w hw hkey).2
  have hpos := h.duration_pos hw hkey
  obtain ⟨new, hnew, hin, hafter⟩ := Window.roll_cell (hduration ▸ hpos)
    (fun old hold => (h.placed w hw hkey old hold).1.trans hnow) hroll
  obtain rfl := Option.some.inj (hnew.symm.trans hstart)
  rw [hduration] at hin hafter
  refine ⟨hin, fun x hx => ?_⟩
  obtain ⟨-, old, -, hold, -⟩ := (h.inv.books w hw hkey).past _ (entry_mem_ledger h hx)
  have hbefore := (h.placed w hw hkey old hold).2 x hx
  rcases hafter old hold with heq | hlater
  · exact heq ▸ hbefore
  · right
    rcases hbefore with hcell | hcell <;> linarith

/-- What a step logs is of the epoch of the window, which the clock is in. -/
theorem Spread.of_entry {entry : BudgetEntry} (h : s.Spread key limit duration)
    (hnow : s.now ≤ now) (hinv : Pacing.Inv key pacing)
    (hfollows : Follows key limit duration s now pacing entries) (hentry : entry ∈ entries)
    (hkey : entry.key = key) : entry.epoch = some entry.cell ∧
      Cells.In duration entry.cell now ∧
      (∀ w ∈ pacing.windows, w.key = key → w.windowStart = some entry.cell) ∧
      ∀ x ∈ s.own key, x.2.cell = entry.cell ∨ x.2.cell + duration ≤ entry.cell := by
  obtain ⟨w', hw', hkey', hepoch, w, hw, hwkey, w₁, hroll, hsame⟩ :=
    hfollows.entries entry hentry hkey
  obtain ⟨-, -, -, hanchored, -⟩ := Window.roll_cases hroll
  obtain ⟨start, hstart⟩ := Option.isSome_iff_exists.1 hanchored
  have hsome : entry.epoch = some start := hepoch.trans (hsame.symm.trans hstart)
  have hcell : entry.cell = start := by
    unfold BudgetEntry.cell
    rw [hsome, Option.getD_some]
  obtain ⟨hin, hbefore⟩ := h.roll hnow hw hwkey hroll hstart
  rw [hcell]
  refine ⟨hsome, hin, fun v hv hvkey => ?_, hbefore⟩
  obtain rfl : v = w' := List.inj_on_of_nodup_map hinv.nodup hv hw' (hvkey.trans hkey'.symm)
  exact hsame.symm.trans hstart

/-- **One step** keeps the epochs apart. -/
theorem Spread.next (h : s.Spread key limit duration) (hnow : s.now ≤ now)
    (hinv : Pacing.Inv key pacing) (hfollows : Follows key limit duration s now pacing entries) :
    Spread key limit duration ⟨pacing, now,
      s.logged ++ (pacing.log.drop s.pacing.log.length).map fun entry => (now, entry)⟩ := by
  rw [hfollows.log, List.drop_left]
  constructor
  case inv => exact hinv
  case log =>
    rw [hfollows.log, List.map_append, h.log, List.map_map]
    simp [Function.comp_def]
  case rule => exact hfollows.rule
  case fits => exact hfollows.fits
  case within => exact hfollows.within
  case inCell =>
    intro x hx
    rcases mem_own_append.1 hx with hold | ⟨rfl, hentry, hkey⟩
    · exact h.inCell x hold
    · obtain ⟨hepoch, hin, -⟩ := h.of_entry hnow hinv hfollows hentry hkey
      exact ⟨hepoch, hin⟩
  case placed =>
    intro w' hw' hkey' start hstart
    obtain ⟨w, hw, hkey, hplaced⟩ := hfollows.windows w' hw' hkey' start hstart
    have hold : start ≤ now ∧
        ∀ x ∈ s.own key, x.2.cell = start ∨ x.2.cell + duration ≤ start := by
      rcases hplaced with hbefore | ⟨w₁, hroll, hrolled⟩
      · obtain ⟨hle, hcells⟩ := h.placed w hw hkey start hbefore
        exact ⟨hle.trans hnow, hcells⟩
      · obtain ⟨hin, hcells⟩ := h.roll hnow hw hkey hroll hrolled
        exact ⟨hin.1, hcells⟩
    refine ⟨hold.1, fun x hx => ?_⟩
    rcases mem_own_append.1 hx with hx | ⟨-, hentry, hxkey⟩
    · exact hold.2 x hx
    · obtain ⟨-, -, hpresent, -⟩ := h.of_entry hnow hinv hfollows hentry hxkey
      exact .inl (Option.some.inj ((hpresent w' hw' hkey').symm.trans hstart))
  case apart =>
    intro x hx y hy
    rcases mem_own_append.1 hx with hx | ⟨-, hxentry, hxkey⟩
    · rcases mem_own_append.1 hy with hy | ⟨-, hyentry, hykey⟩
      · exact h.apart x hx y hy
      · obtain ⟨-, -, -, hbefore⟩ := h.of_entry hnow hinv hfollows hyentry hykey
        exact (hbefore x hx).imp_right .inl
    · obtain ⟨-, -, hpresent, hbefore⟩ := h.of_entry hnow hinv hfollows hxentry hxkey
      rcases mem_own_append.1 hy with hy | ⟨-, hyentry, hykey⟩
      · exact Cells.Apart.symm ((hbefore y hy).imp_right .inl)
      · -- both are of the present epoch
        obtain ⟨w', hw', hkey', -⟩ := hfollows.entries _ hxentry hxkey
        obtain ⟨-, -, hpresent', -⟩ := h.of_entry hnow hinv hfollows hyentry hykey
        exact .inl (Option.some.inj ((hpresent w' hw' hkey').symm.trans (hpresent' w' hw' hkey')))

/-! ## The steps -/

theorem follows_acquire {weight : ℤ} {mutating : Bool} (h : s.Spread key limit duration)
    (hfits : FitsCall key limit weight mutating)
    (hstep : s.pacing.step (.acquire weight mutating) = some pacing) :
    Follows key limit duration s now pacing [] := by
  obtain rfl := Option.some.inj hstep
  constructor
  case log => exact (List.append_nil _).symm
  case rule => exact h.rule
  case fits =>
    intro call hcall
    rcases List.mem_append.1 hcall with hcall | hcall
    · exact h.fits call hcall
    · obtain rfl := List.mem_singleton.1 hcall
      exact hfits
  case within => exact h.within
  case windows => exact fun w hw hkey start hstart => ⟨w, hw, hkey, .inl hstart⟩
  case entries => exact fun entry hentry => absurd hentry List.not_mem_nil

/-- A window that a pass has rolled. -/
theorem windowStart_of_rolled {weight : ℤ} {mutating : Bool} {bound start : ℚ} {w w₁ : Window ℚ}
    (hrolled : Limiter.Rolled weight mutating now bound w w₁)
    (hstart : w₁.windowStart = some start) :
    w.windowStart = some start ∨ ∃ w₁, w.roll now = .ok w₁ ∧ w₁.windowStart = some start := by
  rcases hrolled with ⟨-, rfl⟩ | ⟨amount, -, hroll, -⟩
  · exact .inl hstart
  · exact .inr ⟨w₁, hroll, hstart⟩

theorem windowStart_afterCharge (weight : ℤ) (mutating : Bool) (w : Window ℚ) :
    (Pacing.afterCharge weight mutating w).windowStart = w.windowStart := by
  unfold Pacing.afterCharge
  split <;> rfl

/-- **A charge** keeps every epoch within the limit. -/
theorem Spread.within_charge {i : ℕ} {call : Acquire} {bound : ℚ} {w w₁ : Window ℚ}
    (h : s.Spread key limit duration) (hcall : call ∈ s.pacing.calls) (hw : w ∈ s.pacing.windows)
    (hkey : w.key = key) (hrolled : Limiter.Rolled call.weight call.mutating now bound w w₁)
    (hbound : bound ≤ 0) (epoch : Option ℚ) :
    ((Pacing.chargesIn (Pacing.ledger key s.pacing.log ++
      (Pacing.admission i call.weight call.mutating w₁).toList) epoch).map Charge.amount).sum ≤
        limit := by
  have hwithin := h.within epoch
  have hbooks := h.inv.books w hw hkey
  have hcharge := hrolled.charge?_eq
  unfold Pacing.admission
  rw [hcharge]
  rcases hrolled with ⟨hnone, -⟩ | ⟨amount, hsome, hroll, hwait⟩
  · rw [hnone, Option.map_none, Option.toList_none, List.append_nil]
    exact hwithin
  · rw [hsome, Option.map_some, Option.toList_some, Pacing.chargesIn_append, List.map_append,
      List.sum_append]
    by_cases hepoch : w₁.windowStart = epoch
    · have hroom := (Window.waitTime_le_zero_iff hbooks.duration_pos hroll).1 (hwait.trans hbound)
      have hused := (hbooks.roll hroll).charged
      have hfits := h.fits call hcall w hkey amount hsome
      have hlimit : w₁.limit = limit :=
        (Window.roll_cases hroll).2.1.trans (h.rule w hw hkey).1
      rw [hepoch] at hused
      simp [Pacing.chargesIn, hepoch] at hused ⊢
      omega
    · simpa [Pacing.chargesIn, hepoch] using hwithin

/-- A pass leaves the rule of the windows alone. -/
theorem Spread.rule_of_sameRule {w w' : Window ℚ} (h : s.Spread key limit duration)
    (hw : w ∈ s.pacing.windows) (hsame : ServedPacing.SameRule w w') (hkey : w'.key = key) :
    w'.limit = limit ∧ w'.duration = duration := by
  obtain ⟨hlimit, hduration⟩ := h.rule w hw (hsame.key.symm.trans hkey)
  exact ⟨hsame.limit.trans hlimit, hsame.duration.trans hduration⟩

/-- A pass that admits its call. -/
theorem follows_admitted {i : ℕ} {call : Acquire} {wait : ℚ} {rolled : Limiter ℚ}
    {calls : List Acquire} (h : s.Spread key limit duration) (hcall : call ∈ s.pacing.calls)
    (hcalls : ∀ c ∈ calls, FitsCall key limit c.weight c.mutating)
    (hroll : Limiter.rollAll call.weight call.mutating now s.pacing.windows = .ok (wait, rolled))
    (hle : wait ≤ 0) :
    Follows key limit duration s now ⟨Limiter.chargeAll call.weight call.mutating rolled, calls,
        s.pacing.log ++ rolled.filterMap (Pacing.admission i call.weight call.mutating)⟩
      (rolled.filterMap (Pacing.admission i call.weight call.mutating)) := by
  have hfrom := (Limiter.exists_of_forall₂ (Limiter.rollAll_forall₂ hroll le_rfl)).1
  constructor
  case log => rfl
  case rule =>
    intro w' hw' hkey
    obtain ⟨w₁, hw₁, rfl⟩ := List.mem_map.1 hw'
    obtain ⟨w, hw, hrolled⟩ := hfrom w₁ hw₁
    have hsame := ServedPacing.sameRule_afterCharge call.weight call.mutating
      (ServedPacing.sameRule_rolled hrolled)
    exact h.rule_of_sameRule hw hsame hkey
  case fits => exact hcalls
  case within =>
    intro epoch
    dsimp only
    rw [Pacing.ledger_append]
    by_cases hkey : key ∈ rolled.map Window.key
    · -- of what this pass has charged, one entry at most is of the window
      obtain ⟨w₁, hw₁, hkey₁⟩ := List.mem_map.1 hkey
      obtain ⟨w, hw, hrolled⟩ := hfrom w₁ hw₁
      have hnew : Pacing.ledger key
          (rolled.filterMap (Pacing.admission i call.weight call.mutating)) =
            (Pacing.admission i call.weight call.mutating w₁).toList := by
        rw [← hkey₁]
        exact Pacing.ledger_filterMap (Limiter.rollAll_keys hroll ▸ h.inv.nodup)
          Pacing.admission_key hw₁
      rw [hnew]
      exact h.within_charge hcall hw (hrolled.key_eq.symm.trans hkey₁) hrolled hle epoch
    · rw [Pacing.ledger_filterMap_of_not_mem hkey Pacing.admission_key, List.append_nil]
      exact h.within epoch
  case windows =>
    intro w' hw' hkey start hstart
    obtain ⟨w₁, hw₁, rfl⟩ := List.mem_map.1 hw'
    obtain ⟨w, hw, hrolled⟩ := hfrom w₁ hw₁
    have hkey₁ : w₁.key = key := (Pacing.afterCharge_key _ _ w₁).symm.trans hkey
    refine ⟨w, hw, hrolled.key_eq.symm.trans hkey₁, windowStart_of_rolled hrolled ?_⟩
    exact (windowStart_afterCharge _ _ w₁).symm.trans hstart
  case entries =>
    intro entry hentry hkey
    obtain ⟨w₁, hw₁, hadmission⟩ := List.mem_filterMap.1 hentry
    obtain ⟨w, hw, hrolled⟩ := hfrom w₁ hw₁
    have hkey₁ : w₁.key = key := (Pacing.admission_key w₁ entry hadmission).symm.trans hkey
    obtain ⟨amount, hamount, rfl⟩ := Option.map_eq_some_iff.1 hadmission
    refine ⟨Pacing.afterCharge call.weight call.mutating w₁, List.mem_map_of_mem hw₁,
      (Pacing.afterCharge_key _ _ w₁).trans hkey₁, (windowStart_afterCharge _ _ w₁).symm, w, hw,
      hrolled.key_eq.symm.trans hkey₁, w₁, ?_, (windowStart_afterCharge _ _ w₁).symm⟩
    -- a window that the call is not charged to has no entry
    rw [hrolled.charge?_eq] at hamount
    rcases hrolled with ⟨hnone, -⟩ | ⟨amount', -, hroll', -⟩
    · rw [hnone] at hamount
      cases hamount
    · exact hroll'

theorem follows_pass {i : ℕ} (h : s.Spread key limit duration)
    (hstep : s.pacing.step (.pass i now) = some pacing) :
    ∃ entries, Follows key limit duration s now pacing entries := by
  obtain ⟨call, wait, rolled, hcall, -, hroll, hcases⟩ := Pacing.step_pass hstep
  have hmem : call ∈ s.pacing.calls := List.mem_of_getElem? hcall
  rcases hcases with ⟨hle, rfl⟩ | ⟨-, rfl⟩
  · refine ⟨_, follows_admitted h hmem (fun c hc => ?_) hroll hle⟩
    rcases List.mem_or_eq_of_mem_set hc with hc | rfl
    · exact h.fits c hc
    · exact h.fits call hmem
  · have hfrom := (Limiter.exists_of_forall₂ (Limiter.rollAll_forall₂ hroll le_rfl)).1
    refine ⟨[], (List.append_nil _).symm, fun w' hw' hkey => ?_, h.fits, h.within,
      fun w' hw' hkey start hstart => ?_, fun entry hentry => absurd hentry List.not_mem_nil⟩
    · obtain ⟨w, hw, hrolled⟩ := hfrom w' hw'
      exact h.rule_of_sameRule hw (ServedPacing.sameRule_rolled hrolled) hkey
    · obtain ⟨w, hw, hrolled⟩ := hfrom w' hw'
      exact ⟨w, hw, hrolled.key_eq.symm.trans hkey, windowStart_of_rolled hrolled hstart⟩

/-- What a header logs. -/
theorem raise_cases {before : Limiter ℚ} {w' : Window ℚ} {entry : BudgetEntry}
    (h : Pacing.raise now before w' = some entry) : ∃ w w₁,
      (before.find? fun w => w.key = w'.key) = some w ∧ w.roll now = .ok w₁ ∧
        w₁.windowStart = w'.windowStart ∧ entry = ⟨w'.key, w'.windowStart, .raised w'.used⟩ := by
  obtain ⟨w, hfind, h⟩ := Option.bind_eq_some_iff.1 h
  split at h
  · next w₁ hroll =>
    obtain ⟨⟨hsame, -⟩, h⟩ := Option.ite_none_right_eq_some.1 h
    exact ⟨w, w₁, hfind, hroll, hsame, (Option.some.inj h).symm⟩
  · cases h

theorem follows_headers {headers : List (String × String)} (h : s.Spread key limit duration)
    (hstep : s.pacing.step (.headers now headers) = some pacing) :
    ∃ entries, Follows key limit duration s now pacing entries := by
  obtain rfl := Option.some.inj hstep
  obtain ⟨-, hfrom⟩ := Limiter.updateFromHeaders_spec now headers s.pacing.windows
  refine ⟨_, rfl, fun w' hw' hkey => ?_, h.fits, fun epoch => ?_,
    fun w' hw' hkey start hstart => ?_, fun entry hentry hkey => ?_⟩
  · obtain ⟨w, hw, hsame, hrec⟩ := hfrom w' hw'
    have hrule := h.rule w hw (hsame.symm.trans hkey)
    rcases hrec (h.inv.books w hw (hsame.symm.trans hkey)).duration_pos with
      rfl | ⟨w₁, used, hroll, -, rfl⟩
    · exact hrule
    · obtain ⟨-, hlimit, hduration, -⟩ := Window.roll_cases hroll
      exact ⟨hlimit.trans hrule.1, hduration.trans hrule.2⟩
  · -- headers charge nothing
    have hnone (windows : Limiter ℚ) : Pacing.chargesIn
        (Pacing.ledger key (windows.filterMap (Pacing.raise now s.pacing.windows))) epoch = [] := by
      unfold Pacing.chargesIn
      rw [List.filterMap_eq_nil_iff]
      intro entry hentry
      obtain ⟨w', -, hraise⟩ := List.mem_filterMap.1 (List.mem_filter.1 hentry).1
      obtain ⟨w, w₁, -, -, -, rfl⟩ := raise_cases hraise
      rfl
    dsimp only
    rw [Pacing.ledger_append, Pacing.chargesIn_append, hnone, List.append_nil]
    exact h.within epoch
  · obtain ⟨w, hw, hsame, hrec⟩ := hfrom w' hw'
    refine ⟨w, hw, hsame.symm.trans hkey, ?_⟩
    rcases hrec (h.inv.books w hw (hsame.symm.trans hkey)).duration_pos with
      rfl | ⟨w₁, used, hroll, -, rfl⟩
    · exact .inl hstart
    · exact .inr ⟨w₁, hroll, hstart⟩
  · obtain ⟨w', hw', hraise⟩ := List.mem_filterMap.1 hentry
    have hkey' : w'.key = key := (Pacing.raise_key w' entry hraise).symm.trans hkey
    obtain ⟨w, w₁, hfind, hroll, hsame, rfl⟩ := raise_cases hraise
    have hwkey : w.key = w'.key := by simpa using List.find?_some hfind
    exact ⟨w', hw', hkey', rfl, w, List.mem_of_find?_eq_some hfind, hwkey.trans hkey', w₁, hroll,
      hsame⟩

theorem limit_reseeded (l : Limiter ℚ) (rule : RateLimit) :
    (l.reseeded rule).limit = rule.limit := by
  unfold Limiter.reseeded
  dsimp only
  split <;> rfl

theorem follows_reseed {rateLimits : List RateLimit} (h : s.Spread key limit duration)
    (hkeeps : KeepsRule key limit duration (.reseed rateLimits))
    (hstep : s.pacing.step (.reseed rateLimits) = some pacing) :
    Follows key limit duration s now pacing [] := by
  obtain rfl := Option.some.inj hstep
  have hfrom (w' : Window ℚ) (hw' : w' ∈ s.pacing.windows.reseed rateLimits) :
      ∃ rule ∈ rateLimits, s.pacing.windows.reseeded rule = w' :=
    List.mem_map.1 (Limiter.mem_of_mem_ofWindows hw')
  refine ⟨(List.append_nil _).symm, fun w' hw' hkey => ?_, h.fits, h.within,
    fun w' hw' hkey start hstart => ?_, fun entry hentry => absurd hentry List.not_mem_nil⟩
  · obtain ⟨rule, hrule, rfl⟩ := hfrom w' hw'
    obtain ⟨hrulekey, hduration, -⟩ := Limiter.reseeded_cases s.pacing.windows rule
    obtain ⟨hlimit, hlength⟩ := hkeeps.2 rule hrule (hrulekey.symm.trans hkey)
    exact ⟨(limit_reseeded _ rule).trans hlimit, hduration.trans hlength⟩
  · obtain ⟨rule, hrule, rfl⟩ := hfrom w' hw'
    obtain ⟨-, -, ⟨w, hw, hsame, -, hbegun⟩ | ⟨-, -, hnone⟩⟩ :=
      Limiter.reseeded_cases s.pacing.windows rule
    · exact ⟨w, hw, hsame.trans hkey, .inl (hbegun.symm.trans hstart)⟩
    · rw [hnone] at hstart
      cases hstart

theorem Spread.step {l : PacingLabel} (h : s.Spread key limit duration)
    (hkeeps : KeepsRule key limit duration l) (hstep : s.step l = some s') :
    s'.Spread key limit duration := by
  obtain ⟨hnow, hstep⟩ := Option.ite_none_right_eq_some.1 hstep
  obtain ⟨pacing, hpacing, rfl⟩ := Option.map_eq_some_iff.1 hstep
  cases l with
  | acquire weight mutating =>
    have hallowed : Pacing.Allowed key (.acquire weight mutating) := hkeeps.1
    exact h.next hnow (h.inv.step hallowed hpacing) (follows_acquire h hkeeps.2 hpacing)
  | pass i now =>
    obtain ⟨entries, hfollows⟩ := follows_pass h hpacing
    exact h.next hnow (h.inv.pass hpacing) hfollows
  | headers now headers =>
    obtain ⟨entries, hfollows⟩ := follows_headers h hpacing
    exact h.next hnow (h.inv.headers hpacing) hfollows
  | reseed rateLimits =>
    exact h.next hnow (h.inv.reseed hkeeps.1 hpacing) (follows_reseed h hkeeps hpacing)

/-! ## The runs -/

/-- What is charged in a cell is what is charged in its epoch. -/
theorem sumOf_cell (h : s.Spread key limit duration) (start : ℚ) :
    Cells.sumOf (fun x : ℚ × BudgetEntry => x.2.amount) (s.own key) (fun x => x.2.cell = start) =
      ((Pacing.chargesIn (Pacing.ledger key s.pacing.log) (some start)).map Charge.amount).sum := by
  have hsum (l : List (ℚ × BudgetEntry)) (hl : ∀ x ∈ l, x.2.epoch = some x.2.cell) :
      Cells.sumOf (fun x : ℚ × BudgetEntry => x.2.amount) l (fun x => x.2.cell = start) =
        ((Pacing.chargesIn (l.map Prod.snd) (some start)).map Charge.amount).sum := by
    induction l with
    | nil => rfl
    | cons x l ih =>
      obtain ⟨hx, hl⟩ := List.forall_mem_cons.1 hl
      have ih := ih hl
      unfold Cells.sumOf Pacing.chargesIn at ih ⊢
      rw [List.map_cons, List.sum_cons, ih, List.map_cons, List.filterMap_cons, hx]
      cases hevent : x.2.event with
      | charged charge =>
        by_cases hcell : x.2.cell = start <;> simp [hcell, BudgetEntry.amount, hevent]
      | raised v => simp [BudgetEntry.amount, hevent]
  have hledger : Pacing.ledger key s.pacing.log = (s.own key).map Prod.snd := by
    unfold Pacing.ledger own
    rw [← h.log, List.filter_map]
    rfl
  rw [hledger]
  exact hsum _ fun x hx => (h.inCell x hx).1

theorem amount_nonneg (h : s.Spread key limit duration) (hx : x ∈ s.own key) : 0 ≤ x.2.amount := by
  have hmem := entry_mem_ledger h hx
  unfold BudgetEntry.amount
  split
  · next charge hevent =>
    refine h.inv.kept.nonneg x.2.epoch charge (List.mem_filterMap.2 ⟨x.2, hmem, ?_⟩)
    rw [hevent]
    exact if_pos rfl
  · exact le_rfl

/-- Two orders in ten seconds: one at 0, two at the end of the window from 10 to 20, and two at the
begin of the next one. The rule is advertised again in between. -/
def atTheSeam : List PacingLabel :=
  [.acquire 1 true, .acquire 1 true, .acquire 1 true, .acquire 1 true, .acquire 1 true,
    .pass 0 0, .reseed [⟨.orders, .second, 10, 2⟩], .pass 1 19, .pass 2 19, .pass 3 20, .pass 4 20]

theorem keepsRule_atTheSeam : ∀ l ∈ atTheSeam, KeepsRule ServedPacing.twoOrders.key 2 10 l := by
  have hfits : FitsCall ServedPacing.twoOrders.key 2 1 true := by
    intro w hkey amount hamount
    have htype : w.rateLimitType = .orders := (Prod.mk.inj hkey).1
    unfold Window.charge? at hamount
    rw [htype] at hamount
    obtain rfl := Option.some.inj hamount
    decide
  have hreseed : KeepsRule ServedPacing.twoOrders.key 2 10
      (.reseed [⟨.orders, .second, 10, 2⟩]) := by
    refine ⟨⟨⟨_, List.mem_singleton_self _, rfl⟩, fun rule hrule => ?_⟩, fun rule hrule _ => ?_⟩
    · obtain rfl := List.mem_singleton.1 hrule
      decide
    · obtain rfl := List.mem_singleton.1 hrule
      exact ⟨rfl, by decide +kernel⟩
  simpa [atTheSeam, KeepsRule, hfits] using hreseed

end TimedPacing

end BinanceTh
